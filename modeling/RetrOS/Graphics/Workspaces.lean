import RetrOS.Graphics.Desk
import RetrOS.Lib.Run

/-!
# Runs of the window manager

* `Listed.perform`, `mem_perform` : a window stays on the desk until it is removed, and came there by `add`;
* `Holds.run` : runs of allowed operations keep the manager of the desk;
* `Sound`, `wmRun_sound` : so every window is on one list, once, as long as it is not removed;
* `wmRun_count` : a workspace with fewer windows leaves `window_count` behind, and so does the removal of a window that
  is not there.
-/

namespace RetrOS
open RetrOS.Lib

variable {P : Type*}

/-! ## Which windows are on a desk -/

namespace Desk

variable {d : Desk P} {v w : P} {l : List P} {op : WmOp P} {ops : List (WmOp P)} {i : Fin 4}

def Listed (d : Desk P) (w : P) : Prop := ∃ i, w ∈ d.lists i

theorem Listed.edit (h : d.Listed w) (hl : w ∈ d.shown → w ∈ l) : (d.edit l).Listed w := by
  obtain ⟨i, hi⟩ := h
  by_cases hc : i = d.current
  · subst hc
    exact ⟨d.current, by rw [lists_edit_self]; exact hl hi⟩
  · exact ⟨i, by rwa [lists_edit_of_ne d l hc]⟩

theorem mem_edit (h : w ∈ (d.edit l).lists i) : w ∈ l ∨ d.Listed w := by
  by_cases hc : i = d.current
  · subst hc
    rw [lists_edit_self] at h
    exact .inl h
  · rw [lists_edit_of_ne d l hc] at h
    exact .inr ⟨i, h⟩

variable [DecidableEq P]

theorem Listed.perform (h : d.Listed w) (hop : op ≠ .remove (some w)) : (d.perform op).Listed w := by
  have hmem : ∀ v, w ∈ d.shown → w = v ∨ w ∈ d.shown.erase v := fun v hw => by
    by_cases hv : w = v
    · exact .inl hv
    · exact .inr ((List.mem_erase_of_ne hv).mpr hw)
  match op with
  | .add none => exact h
  | .add (some v) => exact h.edit (List.mem_cons_of_mem v)
  | .remove none => exact h
  | .remove (some v) => exact h.edit fun hw => (hmem v hw).resolve_left fun heq => hop (by rw [heq])
  | .pushBack none => exact h
  | .pushBack (some v) =>
    rw [Desk.perform]
    split
    · exact h.edit fun hw => List.mem_append.mpr ((hmem v hw).symm.imp_right List.mem_singleton.mpr)
    · exact h
  | .pushFront none => exact h
  | .pushFront (some v) =>
    rw [Desk.perform]
    split
    · exact h.edit fun hw => List.mem_cons.mpr (hmem v hw)
    · exact h
  | .workspace i =>
    rw [Desk.perform]
    split
    · exact h
    · exact h

theorem mem_perform (h : w ∈ (d.perform op).lists i) : d.Listed w ∨ op = .add (some w) := by
  have hshown : w ∈ d.shown → d.Listed w := fun hw => ⟨d.current, hw⟩
  have herase : ∀ v, w ∈ d.shown.erase v → d.Listed w := fun v hw => hshown (List.mem_of_mem_erase hw)
  match op with
  | .add none => exact .inl ⟨i, h⟩
  | .add (some v) =>
    rcases mem_edit h with hw | hw
    · rcases List.mem_cons.mp hw with rfl | hw
      · exact .inr rfl
      · exact .inl (hshown hw)
    · exact .inl hw
  | .remove none => exact .inl ⟨i, h⟩
  | .remove (some v) => exact .inl ((mem_edit h).elim (herase v) id)
  | .pushBack none => exact .inl ⟨i, h⟩
  | .pushBack (some v) =>
    rw [perform] at h
    split at h
    · next hv =>
      refine .inl ((mem_edit h).elim (fun hw => ?_) id)
      rcases List.mem_append.mp hw with hw | hw
      · exact herase v hw
      · exact hshown (List.mem_singleton.mp hw ▸ hv)
    · exact .inl ⟨i, h⟩
  | .pushFront none => exact .inl ⟨i, h⟩
  | .pushFront (some v) =>
    rw [perform] at h
    split at h
    · next hv =>
      refine .inl ((mem_edit h).elim (fun hw => ?_) id)
      rcases List.mem_cons.mp hw with rfl | hw
      · exact hshown hv
      · exact herase v hw
    · exact .inl ⟨i, h⟩
  | .workspace j =>
    rw [perform] at h
    split at h
    · exact .inl ⟨i, h⟩
    · exact .inl ⟨i, h⟩

theorem Listed.foldl (h : d.Listed w) (hops : .remove (some w) ∉ ops) : (ops.foldl Desk.perform d).Listed w := by
  induction ops generalizing d with
  | nil => exact h
  | cons op ops ih =>
    rw [List.mem_cons, not_or] at hops
    exact ih (h.perform (Ne.symm hops.1)) hops.2

theorem mem_foldl (h : w ∈ (ops.foldl Desk.perform d).lists i) : d.Listed w ∨ .add (some w) ∈ ops := by
  induction ops generalizing d with
  | nil => exact .inl ⟨i, h⟩
  | cons op ops ih =>
    rcases ih h with ⟨j, hj⟩ | hadd
    · refine (mem_perform hj).imp_right fun heq => ?_
      rw [heq]
      exact List.mem_cons_self ..
    · exact .inr (List.mem_cons_of_mem op hadd)

end Desk

/-! ## Runs -/

namespace WindowManager

/-- A new manager (`wm_new`). -/
structure Initial (wm : WindowManager P) : Prop where
  windows : wm.windows = none
  workspaces : ∀ i, wm.workspaces i = none
  workspace : wm.workspace = 0
  windowCount : wm.windowCount = 0

theorem Initial.holds {wm : WindowManager P} (h : wm.Initial) : wm.Holds .empty := by
  refine ⟨h.workspace, fun i => ?_, fun i j _ x hx => absurd hx List.not_mem_nil, h.windowCount,
    fun i v hv => absurd hv List.not_mem_nil⟩
  show Linked wm.next (wm.head i) []
  rw [linked_nil, head]
  split
  · exact h.windows
  · exact h.workspaces i

end WindowManager

variable [DecidableEq P]

/-- The window was added, and not removed since. -/
def Kept (ops : List (WmOp P)) (w : P) : Prop := ∃ p q, ops = p ++ .add (some w) :: q ∧ .remove (some w) ∉ q

theorem Kept.listed {ops : List (WmOp P)} {w : P} (h : Kept ops w) : (Desk.after ops).Listed w := by
  obtain ⟨p, q, rfl, hq⟩ := h
  rw [Desk.after, List.foldl_append, List.foldl_cons]
  refine Desk.Listed.foldl ⟨(p.foldl Desk.perform .empty).current, ?_⟩ hq
  rw [Desk.perform, Desk.lists_edit_self]
  exact List.mem_cons_self ..

namespace WindowManager

/-- After some operations: the manager holds the lists of the desk, and these have the windows that were added and not
removed, each once. -/
structure Sound (wm : WindowManager P) (ops : List (WmOp P)) : Prop where
  holds : wm.Holds (Desk.after ops)
  once : ∀ w, Kept ops w → ∃ i, ((Desk.after ops).lists i).count w = 1 ∧ ∀ j, j ≠ i → w ∉ (Desk.after ops).lists j
  added : ∀ i, ∀ w ∈ (Desk.after ops).lists i, .add (some w) ∈ ops

variable {s t wm : WindowManager P} {d : Desk P} {ops : List (WmOp P)}

theorem Holds.once (h : wm.Holds d) {w : P} (hw : d.Listed w) :
    ∃ i, (d.lists i).count w = 1 ∧ ∀ j, j ≠ i → w ∉ d.lists j := by
  obtain ⟨i, hi⟩ := hw
  exact ⟨i, List.count_eq_one_of_mem (h.linked i).nodup hi, fun j hj hm => h.apart j i hj hm hi⟩

variable [Fintype P]

/-- One operation, whatever it returns. -/
def Steps (s : WindowManager P) (op : WmOp P) (t : WindowManager P) : Prop := ∃ ret, s.step op = some (ret, t)

theorem Holds.run (hrun : Run Steps Allowed s ops t) (h : s.Holds d) : t.Holds (ops.foldl Desk.perform d) := by
  induction hrun generalizing d with
  | nil => exact h
  | cons hok hstep _ ih =>
    obtain ⟨ret, u, hres, hu⟩ := h.perform hok
    obtain ⟨ret', hstep⟩ := hstep
    rw [hstep] at hres
    obtain ⟨-, rfl⟩ := Prod.mk.inj (Option.some.inj hres)
    exact ih hu

/-- **Every run of allowed operations**: the lists are those of the desk, linked to NULL without a cycle; a window that
was added and not removed is on one of them, once; `window_count` is the length of the current one and one window of it
is in focus. The next allowed operation returns, and a window that is not in the list is removed without effect. -/
theorem wmRun_sound (wm t : WindowManager P) (ops : List (WmOp P)) (hinit : wm.Initial)
    (hrun : Run Steps Allowed wm ops t) : t.Sound ops ∧
      (∀ op, t.Allowed op → ∃ ret u, t.step op = some (ret, u)) ∧
      ∀ w, w ∉ (Desk.after ops).shown → t.Allowed (.remove (some w)) → Steps t (.remove (some w)) t := by
  have h : t.Holds (Desk.after ops) := hinit.holds.run hrun
  refine ⟨⟨h, fun w hw => h.once hw.listed, fun i w hw => ?_⟩, fun op hok => ?_, fun w hw hok => ?_⟩
  · exact (Desk.mem_foldl hw).resolve_left fun ⟨j, hj⟩ => List.not_mem_nil hj
  · obtain ⟨ret, u, hres, -⟩ := h.perform hok
    exact ⟨ret, u, hres⟩
  · rcases hok _ h.shown with hnil | ⟨v, hv, heq, -⟩
    · exact ⟨-22, if_pos (by rw [h.count, hnil]; rfl)⟩
    · exact absurd (Option.some.inj heq ▸ hv) hw

/-- A new manager, and three windows as `gfx_new_window` makes them. -/
def newManager : WindowManager (Fin 3) where
  next _ := none
  inFocus _ := false
  changed _ := true
  flags _ := 0
  windows := none
  workspaces _ := none
  workspace := ⟨0, by decide⟩
  windowCount := 0

theorem newManager_initial : newManager.Initial := ⟨rfl, fun _ => rfl, rfl, rfl⟩

theorem newManager_allowed : newManager.Allowed (.add (some 0)) := by
  have hlinked := newManager_initial.holds.linked
  rintro w -
  refine ⟨fun i l hl => ?_, fun l hl => ⟨fun _ => rfl, fun hne => ?_⟩⟩
  · rw [hl.unique (hlinked i)]
    exact List.not_mem_nil
  · exact absurd (hl.unique (hlinked 0)) hne

theorem wmRun_sound_added : ∃ t, t.Sound [.add (some (0 : Fin 3))] ∧
    (∀ op, t.Allowed op → ∃ ret u, t.step op = some (ret, u)) ∧
    ∀ w, w ∉ (Desk.after [.add (some (0 : Fin 3))]).shown → t.Allowed (.remove (some w)) →
      Steps t (.remove (some w)) t :=
  ⟨_, wmRun_sound newManager _ _ newManager_initial (.single newManager_allowed ⟨0, rfl⟩)⟩

/-- One window in the first workspace. In the second one `window_count` is still 1; and removing a window that was never
added takes 1 from it. -/
theorem wmRun_count : newManager.Initial ∧
    (∃ t, AnyRun Steps newManager [.add (some 0), .workspace 1] t ∧ ¬ t.Sound [.add (some 0), .workspace 1]) ∧
    ∃ t u, AnyRun Steps newManager [.add (some 0)] t ∧ 1 ∉ (Desk.after [.add (some (0 : Fin 3))]).shown ∧
      Steps t (.remove (some 1)) u ∧ u ≠ t := by
  refine ⟨newManager_initial, ⟨_, .cons trivial ⟨0, rfl⟩ (.single trivial ⟨0, rfl⟩), fun h => ?_⟩,
    _, _, .single trivial ⟨0, rfl⟩, by decide, ⟨0, rfl⟩, fun heq => ?_⟩
  · exact absurd h.holds.count (by decide)
  · exact absurd (congrArg windowCount heq) (by decide)

end WindowManager
end RetrOS
