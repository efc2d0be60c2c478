import RetrOS.Graphics.WindowManager

/-!
# What the window manager is for

A desk has a list of windows for each workspace, from front to back.

* `Desk.perform` : the operations on the lists;
* `WindowManager.Holds` : the manager holds the lists of a desk, `window_count` is the length of the current one and at
  most one window of a list is in focus;
* `WindowManager.Allowed` : the operation is about a window of the current list, or one on no list where it is added; a
  window added to an empty list has no link; no window behind the new front is in focus; and a workspace has as many
  windows as the one it replaces;
* `seek_eq`, `unlink_eq` : the loops on a list without cycles;
* `Holds.remove`, `Holds.pushFront`, `Holds.pushBack`, `Holds.add`, `Holds.workspace` : what the operations do;
* `Holds.perform` : one allowed operation returns, and the manager holds the desk after it.
-/

namespace RetrOS
open RetrOS.Lib

variable {P : Type*}

/-! ## Desks -/

structure Desk (P : Type*) where
  lists : Fin 4 → List P
  current : Fin 4

namespace Desk

/-- The windows of the current workspace. -/
def shown (d : Desk P) : List P := d.lists d.current

def edit (d : Desk P) (l : List P) : Desk P := { d with lists := Function.update d.lists d.current l }

def empty : Desk P := ⟨fun _ => [], 0⟩

theorem lists_edit_self (d : Desk P) (l : List P) : (d.edit l).lists d.current = l := Function.update_self ..

theorem lists_edit_of_ne (d : Desk P) (l : List P) {i : Fin 4} (h : i ≠ d.current) :
    (d.edit l).lists i = d.lists i := Function.update_of_ne h ..

theorem edit_shown (d : Desk P) : d.edit d.shown = d := congrArg (mk · d.current) (Function.update_eq_self ..)

variable [DecidableEq P]

def perform (d : Desk P) : WmOp P → Desk P
  | .add (some w) => d.edit (w :: d.shown)
  | .remove (some w) => d.edit (d.shown.erase w)
  | .pushBack (some w) => if w ∈ d.shown then d.edit (d.shown.erase w ++ [w]) else d
  | .pushFront (some w) => if w ∈ d.shown then d.edit (w :: d.shown.erase w) else d
  | .workspace i => if h : 0 ≤ i ∧ i < 4 then { d with current := ⟨i.toNat, by omega⟩ } else d
  | _ => d

/-- The desk after some operations. -/
def after (ops : List (WmOp P)) : Desk P := ops.foldl perform empty

section
variable {d : Desk P} {w : P} {q : List P}

/-- Nothing changes if the window is not in the list. -/
theorem perform_remove_nil (h : d.shown = []) (window : Option P) : d.perform (.remove window) = d := by
  cases window with
  | none => rfl
  | some w =>
    show d.edit (d.shown.erase w) = d
    rw [h, List.erase_nil, ← h, edit_shown]

theorem perform_pushBack_short (h : d.shown.length < 2) (window : Option P) : d.perform (.pushBack window) = d := by
  cases window with
  | none => rfl
  | some w =>
    by_cases hw : w ∈ d.shown
    · have hpos := List.length_pos_of_mem hw
      obtain ⟨v, hv⟩ := List.length_eq_one_iff.mp (show d.shown.length = 1 by omega)
      have hwv : w = v := List.mem_singleton.mp (hv ▸ hw)
      have hsame : d.shown.erase w ++ [w] = d.shown := by
        rw [hv, hwv, List.erase_cons_head, List.nil_append]
      rw [perform, if_pos hw, hsame, edit_shown]
    · rw [perform, if_neg hw]

theorem perform_pushFront_head (h : d.shown = w :: q) : d.perform (.pushFront (some w)) = d := by
  have hsame : w :: d.shown.erase w = d.shown := by rw [h, List.erase_cons_head]
  rw [perform, if_pos (h ▸ List.mem_cons_self ..), hsame, edit_shown]

end

end Desk

/-! ## The manager of a desk -/

/-- At most one of the windows is in focus. -/
def FocusedOnce (inFocus : P → Bool) (l : List P) : Prop :=
  ∀ v ∈ l, ∀ w ∈ l, inFocus v = true → inFocus w = true → v = w

/-- No window behind the first one is in focus. -/
def Behind (inFocus : P → Bool) (l : List P) : Prop := ∀ w ∈ l.tail, inFocus w = false

namespace WindowManager

structure Holds (wm : WindowManager P) (d : Desk P) : Prop where
  current : wm.workspace = d.current
  linked : ∀ i, Linked wm.next (wm.head i) (d.lists i)
  apart : ∀ i j, i ≠ j → (d.lists i).Disjoint (d.lists j)
  count : wm.windowCount = d.shown.length
  focus : ∀ i, FocusedOnce wm.inFocus (d.lists i)

/-- The condition on an operation, about the lists of the manager before it. -/
def Allowed [DecidableEq P] (wm : WindowManager P) : WmOp P → Prop
  | .add window => ∀ w, window = some w → (∀ i l, Linked wm.next (wm.head i) l → w ∉ l) ∧
      ∀ l, Linked wm.next wm.windows l → (l = [] → wm.next w = none) ∧
        (l ≠ [] → if wm.hideHeader w then FocusedOnce wm.inFocus (w :: l) else Behind wm.inFocus l)
  | .remove window => ∀ l, Linked wm.next wm.windows l →
      l = [] ∨ ∃ w ∈ l, window = some w ∧ Behind wm.inFocus (l.erase w)
  | .pushBack window => ∀ l, Linked wm.next wm.windows l →
      l.length < 2 ∨ ∃ w ∈ l, window = some w ∧ Behind wm.inFocus (l.erase w)
  | .pushFront window => ∀ l, Linked wm.next wm.windows l → window = wm.windows ∨
      ∃ w ∈ l, window = some w ∧ Behind wm.inFocus (l.erase w) ∧ (wm.hideHeader w → wm.inFocus w = false)
  | .workspace i => ∀ n : Fin 4, (n : Int) = i → ∀ l l', Linked wm.next wm.windows l →
      Linked wm.next (wm.head n) l' → l'.length = l.length

section Lemmas
variable {wm t : WindowManager P} {d : Desk P} {l p q : List P} {w x : P} {f g : P → Bool}

theorem Holds.shown (h : wm.Holds d) : Linked wm.next wm.windows d.shown := by
  have := h.linked d.current
  rwa [head, if_pos h.current.symm] at this

theorem Holds.shown_of_front (h : wm.Holds d) (hw : wm.windows = some w) : ∃ q, d.shown = w :: q := by
  have hshown := h.shown
  cases hd : d.shown with
  | nil =>
    rw [hd, linked_nil, hw] at hshown
    exact absurd hshown (Option.some_ne_none w)
  | cons v q =>
    rw [hd, linked_cons, hw] at hshown
    exact ⟨q, by rw [Option.some.inj hshown.1]⟩

theorem Behind.focusedOnce (h : Behind f (x :: l)) : FocusedOnce f (x :: l) := by
  have heq : ∀ v ∈ x :: l, f v = true → v = x := fun v hv hfv =>
    (List.mem_cons.mp hv).resolve_right fun hm => by
      rw [h v hm] at hfv
      exact absurd hfv (by decide)
  exact fun v hv w hw hfv hfw => (heq v hv hfv).trans (heq w hw hfw).symm

theorem FocusedOnce.congr (h : FocusedOnce f l) (heq : ∀ x ∈ l, g x = f x) : FocusedOnce g l :=
  fun v hv w hw hfv hfw => h v hv w hw (heq v hv ▸ hfv) (heq w hw ▸ hfw)

theorem Behind.congr (h : Behind f l) (heq : ∀ x ∈ l.tail, g x = f x) : Behind g l := fun w hw =>
  (heq w hw).trans (h w hw)

/-- A window that does not take the focus. -/
theorem FocusedOnce.cons {f : P → Bool} (h : FocusedOnce f l) (hw : f w = false) : FocusedOnce f (w :: l) := by
  have hmem : ∀ v ∈ w :: l, f v = true → v ∈ l := fun v hv hfv =>
    (List.mem_cons.mp hv).resolve_left fun heq => by
      rw [heq, hw] at hfv
      exact absurd hfv (by decide)
  exact fun v hv x hx hfv hfx => h v (hmem v hv hfv) x (hmem x hx hfx) hfv hfx

theorem hideHeader_congr (h : t.flags = wm.flags) (w : P) : t.hideHeader w = wm.hideHeader w := by
  unfold hideHeader
  rw [h]

/-- An operation on the current list. -/
theorem Holds.edit (h : wm.Holds d) (hws : t.workspaces = wm.workspaces) (hw : t.workspace = wm.workspace)
    (hlinked : Linked t.next t.windows l) (hcount : t.windowCount = l.length) (hfocus : FocusedOnce t.inFocus l)
    (hothers : ∀ i ≠ d.current, ∀ x ∈ d.lists i, x ∉ l ∧ t.next x = wm.next x ∧ t.inFocus x = wm.inFocus x) :
    t.Holds (d.edit l) := by
  have hother : ∀ i ≠ d.current, (d.edit l).lists i = d.lists i := fun i hi => d.lists_edit_of_ne l hi
  have hcurrent := d.lists_edit_self l
  refine ⟨hw.trans h.current, fun i => ?_, fun i j hij => ?_, ?_, fun i => ?_⟩
  · by_cases hi : i = d.current
    · rw [hi, hcurrent, head, if_pos (by rw [hw, h.current])]
      exact hlinked
    · have hne : i ≠ wm.workspace := fun heq => hi (heq.trans h.current)
      have hhead : t.head i = wm.head i := by rw [head, head, hw, hws, if_neg hne, if_neg hne]
      rw [hother i hi, hhead]
      exact (h.linked i).congr fun x hx => (hothers i hi x hx).2.1.symm
  · by_cases hi : i = d.current
    · rw [hi, hcurrent, hother j fun hj => hij (hi.trans hj.symm)]
      exact fun x hxl hx => (hothers j (fun hj => hij (hi.trans hj.symm)) x hx).1 hxl
    · rw [hother i hi]
      by_cases hj : j = d.current
      · rw [hj, hcurrent]
        exact fun x hx hxl => (hothers i hi x hx).1 hxl
      · rw [hother j hj]
        exact h.apart i j hij
  · rw [hcount]
    exact congrArg List.length hcurrent.symm
  · by_cases hi : i = d.current
    · rw [hi, hcurrent]
      exact hfocus
    · rw [hother i hi]
      exact FocusedOnce.congr (h.focus i) fun x hx => (hothers i hi x hx).2.2

theorem Holds.workspace (h : wm.Holds d) (n : Fin 4) (hlen : (d.lists n).length = d.shown.length) :
    ∃ t, wm.defaultWorkspace n = some (0, t) ∧ t.Holds { d with current := n } := by
  have hn : ¬ ((n : Int) < 0 ∨ (n : Int) ≥ 4) := by omega
  have hheads : Function.update wm.workspaces wm.workspace wm.windows = wm.head := by
    funext i
    by_cases hi : i = wm.workspace
    · rw [hi, Function.update_self, head, if_pos rfl]
    · rw [Function.update_of_ne hi, head, if_neg hi]
  refine ⟨_, dif_neg hn, rfl, fun i => ?_, h.apart, h.count.trans hlen.symm, h.focus⟩
  have hi := h.linked i
  unfold head
  dsimp only
  rw [hheads]
  split
  · next heq => rwa [← heq]
  · exact hi

end Lemmas

/-! ## The loops -/

section Loops
variable [DecidableEq P] {next : P → Option P} {c target : Option P} {p q l : List P} {w x : P} {fuel : Nat}

/-- The loop stops at `x`, which links to the target, if no window before it is the target. -/
theorem seek_eq (h : Linked next c (p ++ x :: q)) (hx : next x = target) (htarget : ∀ z ∈ p ++ [x], target ≠ some z)
    (hfuel : p.length < fuel) : seek next target fuel c = some (some x) := by
  induction p generalizing c fuel with
  | nil =>
    obtain ⟨fuel, rfl⟩ := Nat.exists_eq_add_of_lt hfuel
    rw [(linked_cons.mp h).1, seek, if_pos hx]
  | cons y p ih =>
    obtain ⟨fuel, rfl⟩ := Nat.exists_eq_add_of_lt hfuel
    rw [List.cons_append] at h
    obtain ⟨rfl, hrest⟩ := linked_cons.mp h
    obtain ⟨z, hz, hnext⟩ := Linked.head_mem (p := p ++ [x]) (by rwa [List.append_assoc]) (List.concat_ne_nil x p)
    rw [seek, if_neg fun heq => htarget z (List.mem_cons_of_mem y hz) (heq.symm.trans hnext)]
    exact ih hrest (fun z hz => htarget z (List.mem_cons_of_mem y hz)) (by rw [List.length_cons]; omega)

variable [Fintype P] {wm : WindowManager P}

/-- The loop of `push_back` finds the last window. -/
theorem seek_last (h : Linked next c (p ++ [x])) : seek next none (Fintype.card P + 1) c = some (some x) := by
  have hlen := h.nodup.length_le_card
  rw [List.length_append] at hlen
  exact seek_eq h h.next_eq_none (fun z _ => (Option.some_ne_none z).symm) (by omega)

theorem unlink_eq (h : Linked wm.next wm.windows l) (hw : w ∈ l) : ∃ next windows,
    wm.unlink (some w) = some { wm with next := next, windows := windows } ∧ Linked next windows (l.erase w) ∧
      ∀ x ∉ l, next x = wm.next x := by
  have hlen := h.nodup.length_le_card
  obtain ⟨p, q, hp, rfl, herase⟩ := List.exists_erase_eq hw
  rw [herase]
  rcases List.eq_nil_or_concat' p with rfl | ⟨p, y, rfl⟩
  · obtain ⟨hc, hrest⟩ := linked_cons.mp h
    rw [unlink, if_pos hc]
    exact ⟨_, _, rfl, hrest, fun _ _ => rfl⟩
  · obtain ⟨z, hz, hc⟩ := h.head_mem (List.concat_ne_nil y p)
    have hne : wm.windows ≠ some w := fun heq =>
      ne_of_mem_of_not_mem hz hp (Option.some.inj (hc.symm.trans heq))
    rw [List.append_assoc, List.singleton_append] at h hlen
    rw [List.length_append] at hlen
    have hseek : seek wm.next (some w) (Fintype.card P + 1) wm.windows = some (some y) :=
      seek_eq h h.next_eq_some (fun z hz heq => hp (Option.some.inj heq ▸ hz)) (by omega)
    rw [unlink, if_neg hne, hseek]
    refine ⟨_, _, rfl, ?_, fun x hx => Function.update_of_ne (fun heq => hx (by simp [heq])) _ _⟩
    rw [List.append_assoc, List.singleton_append]
    exact h.bypass

end Loops

/-! ## The operations -/

section Operations
variable [DecidableEq P] {wm t : WindowManager P} {d : Desk P} {l : List P} {w x : P}

theorem focusFront_inFocus (wm : WindowManager P) (x : P) :
    wm.focusFront.inFocus x = if wm.windows = some x then true else wm.inFocus x := by
  unfold focusFront
  cases wm.windows with
  | none => rfl
  | some front =>
    by_cases hx : x = front
    · rw [hx, if_pos rfl]
      exact Function.update_self ..
    · rw [if_neg fun heq => hx (Option.some.inj heq).symm]
      exact Function.update_of_ne hx ..

theorem focusFront_eq (wm : WindowManager P) : ∃ changed inFocus,
    wm.focusFront = { wm with changed := changed, inFocus := inFocus } := by
  unfold focusFront
  split
  · exact ⟨wm.changed, wm.inFocus, rfl⟩
  · exact ⟨_, _, rfl⟩

/-- In a list whose front gets the focus, at most one window has it if none behind has. -/
theorem focusedOnce_of_front {f g : P → Bool} {c : Option P} {next : P → Option P} (h : Linked next c l)
    (hb : Behind f l) (hg : ∀ x, g x = if c = some x then true else f x) : FocusedOnce g l := by
  cases l with
  | nil => exact fun v hv => absurd hv List.not_mem_nil
  | cons y l =>
    refine Behind.focusedOnce fun x hx => ?_
    rw [hg x, if_neg (h.head_ne hx)]
    exact hb x hx

/-- What `wm_default_remove` does for a window of the list; `l` is the list without it. -/
structure Removed (wm t : WindowManager P) (l : List P) : Prop where
  workspaces : t.workspaces = wm.workspaces
  workspace : t.workspace = wm.workspace
  flags : t.flags = wm.flags
  linked : Linked t.next t.windows l
  count : t.windowCount + 1 = wm.windowCount
  inFocus : ∀ x, t.inFocus x = if t.windows = some x then true else wm.inFocus x

theorem Removed.inFocus_of_notMem (h : Removed wm t l) (hx : x ∉ l) : t.inFocus x = wm.inFocus x := by
  rw [h.inFocus x, if_neg]
  intro heq
  have hlinked := h.linked
  rw [heq] at hlinked
  exact hx hlinked.mem_of_head

theorem Removed.behind (h : Removed wm t l) (hb : Behind wm.inFocus l) : Behind t.inFocus l := by
  intro x hx
  rw [h.inFocus x, if_neg (h.linked.head_ne hx)]
  exact hb x hx

/-- A window that takes the focus from the front. -/
theorem focusedOnce_push {f : P → Bool} {v : P} (hw : w ∉ v :: l) (hb : Behind f (v :: l)) :
    FocusedOnce (Function.update (Function.update f v false) w true) (w :: v :: l) := by
  refine Behind.focusedOnce fun x hx => ?_
  rw [Function.update_of_ne (ne_of_mem_of_not_mem hx hw)]
  by_cases hxv : x = v
  · rw [hxv, Function.update_self]
  · rw [Function.update_of_ne hxv]
    exact hb x ((List.mem_cons.mp hx).resolve_left hxv)

/-- The list without a window that is not its front. -/
theorem Holds.erase_ne_nil (h : wm.Holds d) (hw : w ∈ d.shown) (hne : some w ≠ wm.windows) : d.shown.erase w ≠ [] := by
  intro hnil
  have hlen := List.length_erase_of_mem hw
  rw [hnil, List.length_nil] at hlen
  have hpos := List.length_pos_of_mem hw
  obtain ⟨v, hv⟩ := List.length_eq_one_iff.mp (show d.shown.length = 1 by omega)
  have hshown := h.shown
  rw [hv] at hshown hw
  rw [List.mem_singleton.mp hw] at hne
  exact hne (linked_cons.mp hshown).1.symm

theorem Holds.add (h : wm.Holds d) (hw : ∀ i, w ∉ d.lists i) (hnil : d.shown = [] → wm.next w = none)
    (hfocus : d.shown ≠ [] →
      if wm.hideHeader w then FocusedOnce wm.inFocus (w :: d.shown) else Behind wm.inFocus d.shown) :
    ∃ t, wm.defaultAdd (some w) = some (0, t) ∧ t.Holds (d.edit (w :: d.shown)) := by
  have hothers : ∀ (next : P → Option P) (g : P → Bool), (∀ x, x ≠ w → next x = wm.next x) →
      (∀ x, x ≠ w → x ∉ d.shown → g x = wm.inFocus x) → ∀ i ≠ d.current, ∀ x ∈ d.lists i,
      x ∉ w :: d.shown ∧ next x = wm.next x ∧ g x = wm.inFocus x := by
    intro next g hn hg i hi x hx
    have hxw : x ≠ w := ne_of_mem_of_not_mem hx (hw i)
    have hout : x ∉ d.shown := fun hm => h.apart i d.current hi hx hm
    exact ⟨fun hm => (List.mem_cons.mp hm).elim hxw hout, hn x hxw, hg x hxw hout⟩
  have hcount : wm.windowCount + 1 = (w :: d.shown).length := congrArg (· + 1) h.count
  by_cases hshown : d.shown = []
  · rw [defaultAdd, if_pos (by rw [h.count, hshown]; rfl)]
    refine ⟨_, rfl, h.edit rfl rfl ?_ hcount ?_ (hothers _ _ (fun _ _ => rfl) fun x hx _ => ?_)⟩
    · rw [hshown]
      exact ⟨rfl, hnil hshown⟩
    · rw [hshown]
      exact Behind.focusedOnce fun x hx => absurd hx List.not_mem_nil
    · exact Function.update_of_ne hx ..
  · have hpos := List.length_pos_of_ne_nil hshown
    have hlinked := h.shown.front (hw d.current)
    rw [defaultAdd, if_neg (by rw [h.count]; omega)]
    dsimp only
    have hfocus := hfocus hshown
    by_cases hflag : wm.hideHeader w = true
    · rw [if_pos hflag] at hfocus ⊢
      exact ⟨_, rfl, h.edit rfl rfl hlinked hcount hfocus
        (hothers _ _ (fun x hx => Function.update_of_ne hx ..) fun _ _ _ => rfl)⟩
    · rw [if_neg hflag] at hfocus ⊢
      obtain ⟨v, q, hvq⟩ := List.exists_cons_of_ne_nil hshown
      have hfront : wm.windows = some v := (linked_cons.mp (hvq ▸ h.shown)).1
      have hv : v ∈ d.shown := hvq ▸ List.mem_cons_self ..
      have hwv : w ≠ v := fun heq => hw d.current (heq ▸ hv)
      rw [hfront] at hlinked ⊢
      rw [Option.map_some]
      refine ⟨_, rfl, h.edit rfl rfl hlinked hcount ?_
        (hothers _ _ (fun x hx => Function.update_of_ne hx ..) fun x hx hout => ?_)⟩
      · have hnew := hw d.current
        rw [show d.lists d.current = v :: q from hvq] at hnew
        rw [hvq] at hfocus ⊢
        show FocusedOnce (Function.update (Function.update wm.inFocus w true) v false) _
        rw [Function.update_comm hwv]
        exact focusedOnce_push hnew hfocus
      · exact (Function.update_of_ne (ne_of_mem_of_not_mem hv hout).symm _ _).trans (Function.update_of_ne hx _ _)

variable [Fintype P]

theorem defaultRemove_eq (h : Linked wm.next wm.windows l) (hcount : wm.windowCount = l.length) (hw : w ∈ l) :
    ∃ t, wm.defaultRemove (some w) = some (0, t) ∧ Removed wm t (l.erase w) ∧ ∀ x ∉ l, t.next x = wm.next x := by
  have hlen := List.length_pos_of_mem hw
  obtain ⟨next, windows, hunlink, hlinked, hnext⟩ := unlink_eq h hw
  obtain ⟨v, -, hv⟩ := Linked.head_mem (q := []) (by rwa [List.append_nil]) (List.ne_nil_of_mem hw)
  obtain ⟨changed, inFocus, hfront⟩ := focusFront_eq { wm with next := next, windows := windows }
  have hinFocus := focusFront_inFocus { wm with next := next, windows := windows }
  rw [hfront] at hinFocus
  rw [defaultRemove, if_neg (by omega), hv, if_neg (Option.some_ne_none v), hunlink, Option.map_some]
  dsimp only
  rw [hfront]
  exact ⟨_, rfl, ⟨rfl, rfl, rfl, hlinked, Nat.sub_add_cancel (hcount ▸ hlen), hinFocus⟩, hnext⟩

theorem Holds.remove (h : wm.Holds d) (hw : w ∈ d.shown) (hb : Behind wm.inFocus (d.shown.erase w)) :
    ∃ t, wm.defaultRemove (some w) = some (0, t) ∧ t.Holds (d.edit (d.shown.erase w)) := by
  obtain ⟨t, hrun, hr, hnext⟩ := defaultRemove_eq h.shown h.count hw
  have hlen := List.length_erase_of_mem hw
  have hcount := hr.count
  rw [h.count] at hcount
  refine ⟨t, hrun, h.edit hr.workspaces hr.workspace hr.linked (by omega)
    (focusedOnce_of_front hr.linked hb hr.inFocus) fun i hi x hx => ?_⟩
  have hout : x ∉ d.shown := fun hm => h.apart i d.current hi hx hm
  have hout' : x ∉ d.shown.erase w := fun hm => hout (List.mem_of_mem_erase hm)
  exact ⟨hout', hnext x hout, hr.inFocus_of_notMem hout'⟩

theorem Holds.pushFront (h : wm.Holds d) (hw : w ∈ d.shown) (hne : some w ≠ wm.windows)
    (hb : Behind wm.inFocus (d.shown.erase w)) (hhide : wm.hideHeader w = true → wm.inFocus w = false) :
    ∃ t, wm.defaultPushFront (some w) = some (0, t) ∧ t.Holds (d.edit (w :: d.shown.erase w)) := by
  obtain ⟨u, hrun, hr, hnext⟩ := defaultRemove_eq h.shown h.count hw
  have hcount : u.windowCount + 1 = (w :: d.shown.erase w).length := by
    rw [hr.count, h.count, List.length_cons, List.length_erase_of_mem hw,
      Nat.sub_add_cancel (List.length_pos_of_mem hw)]
  have hnew : w ∉ d.shown.erase w := fun hm => (h.shown.nodup.mem_erase_iff.mp hm).1 rfl
  have hothers : ∀ g : P → Bool, (∀ x ∉ d.shown, g x = u.inFocus x) → ∀ i ≠ d.current, ∀ x ∈ d.lists i,
      x ∉ w :: d.shown.erase w ∧ Function.update u.next w u.windows x = wm.next x ∧ g x = wm.inFocus x := by
    intro g hg i hi x hx
    have hout : x ∉ d.shown := fun hm => h.apart i d.current hi hx hm
    have hxw := ne_of_mem_of_not_mem hw hout
    have hout' : x ∉ d.shown.erase w := fun hm => hout (List.mem_of_mem_erase hm)
    refine ⟨fun hm => (List.mem_cons.mp hm).elim (fun heq => hxw heq.symm) hout', ?_,
      (hg x hout).trans (hr.inFocus_of_notMem hout')⟩
    rw [Function.update_of_ne hxw.symm, hnext x hout]
  rw [defaultPushFront, if_neg hne, hrun, Option.bind_some]
  dsimp only
  rw [if_neg (by decide), Option.bind_some, hideHeader_congr hr.flags]
  by_cases hflag : wm.hideHeader w = true
  · rw [if_pos hflag]
    refine ⟨_, rfl, h.edit hr.workspaces hr.workspace (hr.linked.front hnew) hcount ?_ (hothers _ fun _ _ => rfl)⟩
    exact FocusedOnce.cons (focusedOnce_of_front hr.linked hb hr.inFocus)
      ((hr.inFocus_of_notMem hnew).trans (hhide hflag))
  · -- the list without `w` has a front, or `w` would have been the front
    rw [if_neg hflag]
    obtain ⟨v, q, hrest⟩ := List.exists_cons_of_ne_nil (h.erase_ne_nil hw hne)
    have hfront : u.windows = some v := (linked_cons.mp (hrest ▸ hr.linked)).1
    have hv : v ∈ d.shown := List.mem_of_mem_erase (hrest ▸ List.mem_cons_self ..)
    have hbehind := hr.behind hb
    rw [hfront, Option.map_some]
    refine ⟨_, rfl, h.edit hr.workspaces hr.workspace (hfront ▸ hr.linked.front hnew) hcount ?_
      (hfront ▸ hothers _ fun x hx => ?_)⟩
    · rw [hrest] at hnew hbehind ⊢
      exact focusedOnce_push hnew hbehind
    · exact (Function.update_of_ne (ne_of_mem_of_not_mem hw hx).symm _ _).trans
        (Function.update_of_ne (ne_of_mem_of_not_mem hv hx).symm _ _)

theorem Holds.pushBack (h : wm.Holds d) (hw : w ∈ d.shown) (hlong : 2 ≤ d.shown.length)
    (hb : Behind wm.inFocus (d.shown.erase w)) :
    ∃ t, wm.defaultPushBack (some w) = some (0, t) ∧ t.Holds (d.edit (d.shown.erase w ++ [w])) := by
  have hnew : w ∉ d.shown.erase w := fun hm => (h.shown.nodup.mem_erase_iff.mp hm).1 rfl
  have hlen := List.length_erase_of_mem hw
  obtain ⟨u, hrun, hr, hnext⟩ := @defaultRemove_eq P _
    { wm with inFocus := Function.update wm.inFocus w false } d.shown w _ h.shown h.count hw
  obtain ⟨r, z, hrest⟩ := (List.eq_nil_or_concat' (d.shown.erase w)).resolve_left
    (List.ne_nil_of_length_pos (by omega))
  have hlinked : Linked (Function.update (Function.update u.next z (some w)) w none) u.windows
      (d.shown.erase w ++ [w]) := by
    rw [hrest, List.append_assoc]
    exact (hrest ▸ hr.linked).push (hrest ▸ hnew)
  have hcount : u.windowCount + 1 = (d.shown.erase w ++ [w]).length := by
    rw [hr.count, List.length_append, hlen, List.length_singleton]
    exact h.count.trans (by omega)
  rw [defaultPushBack, if_neg (by rw [h.count]; omega), Option.bind_some, hrun, Option.bind_some]
  dsimp only
  rw [if_neg (by decide), seek_last (hrest ▸ hr.linked), Option.map_some]
  dsimp only
  generalize hpushed : ({ u with
    next := Function.update (Function.update u.next z (some w)) w none
    changed := Function.update u.changed w true
    windowCount := u.windowCount + 1 } : WindowManager P) = pushed
  obtain ⟨changed, inFocus, hfront⟩ := focusFront_eq pushed
  have hinFocus := focusFront_inFocus pushed
  rw [hfront] at hinFocus ⊢
  subst hpushed
  -- the front has the focus already, `w` has lost it
  have hkeep : ∀ x, inFocus x = u.inFocus x := by
    intro x
    have hx := hinFocus x
    dsimp only at hx
    rw [hx]
    by_cases heq : u.windows = some x
    · rw [if_pos heq, hr.inFocus x, if_pos heq]
    · rw [if_neg heq]
  have hbehind : Behind u.inFocus (d.shown.erase w) := hr.behind (Behind.congr hb fun x hx =>
    Function.update_of_ne (ne_of_mem_of_not_mem (List.mem_of_mem_tail hx) hnew) ..)
  refine ⟨_, rfl, h.edit hr.workspaces hr.workspace hlinked hcount (focusedOnce_of_front hlinked ?_ hinFocus)
    fun i hi x hx => ?_⟩
  · intro x hx
    rw [List.tail_append_of_ne_nil (hrest ▸ List.concat_ne_nil z r)] at hx
    rcases List.mem_append.mp hx with hx | hx
    · exact hbehind x hx
    · rw [List.mem_singleton.mp hx]
      exact (hr.inFocus_of_notMem hnew).trans (Function.update_self ..)
  · have hout : x ∉ d.shown := fun hm => h.apart i d.current hi hx hm
    have hxw := (ne_of_mem_of_not_mem hw hout).symm
    have hout' : x ∉ d.shown.erase w := fun hm => hout (List.mem_of_mem_erase hm)
    have hxz : x ≠ z := fun heq => hout' (hrest ▸ heq ▸ List.mem_append_right _ (List.mem_singleton.mpr rfl))
    refine ⟨fun hm => ?_, ?_, ?_⟩
    · exact (List.mem_append.mp hm).elim hout' fun hm => hxw (List.mem_singleton.mp hm)
    · exact (Function.update_of_ne hxw _ _).trans ((Function.update_of_ne hxz _ _).trans (hnext x hout))
    · exact (hkeep x).trans ((hr.inFocus_of_notMem hout').trans (Function.update_of_ne hxw _ _))

theorem Holds.perform (h : wm.Holds d) {op : WmOp P} (hok : wm.Allowed op) :
    ∃ ret t, wm.step op = some (ret, t) ∧ t.Holds (d.perform op) := by
  cases op with
  | add window =>
    cases window with
    | none => exact ⟨_, _, rfl, h⟩
    | some w =>
      obtain ⟨hout, hlist⟩ := hok w rfl
      have hshown := hlist d.shown h.shown
      exact ⟨0, h.add (fun i => hout i _ (h.linked i)) hshown.1 hshown.2⟩
  | remove window =>
    rcases hok d.shown h.shown with hnil | ⟨w, hw, rfl, hb⟩
    · rw [Desk.perform_remove_nil hnil]
      exact ⟨-22, wm, if_pos (by rw [h.count, hnil]; rfl), h⟩
    · exact ⟨0, h.remove hw hb⟩
  | pushBack window =>
    by_cases hshort : d.shown.length < 2
    · rw [Desk.perform_pushBack_short hshort]
      exact ⟨0, wm, if_pos (by rw [h.count]; exact hshort), h⟩
    · obtain ⟨w, hw, rfl, hb⟩ := (hok d.shown h.shown).resolve_left hshort
      rw [Desk.perform, if_pos hw]
      exact ⟨0, h.pushBack hw (by omega) hb⟩
  | pushFront window =>
    by_cases hfront : window = wm.windows
    · have hd : d.perform (.pushFront window) = d := by
        cases window with
        | none => rfl
        | some w =>
          obtain ⟨q, hq⟩ := h.shown_of_front hfront.symm
          exact Desk.perform_pushFront_head hq
      rw [hd]
      exact ⟨0, wm, if_pos hfront, h⟩
    · obtain ⟨w, hw, rfl, hb, hhide⟩ := (hok d.shown h.shown).resolve_left hfront
      rw [Desk.perform, if_pos hw]
      exact ⟨0, h.pushFront hw hfront hb hhide⟩
  | workspace i =>
    by_cases hi : 0 ≤ i ∧ i < 4
    · obtain ⟨n, rfl⟩ : ∃ n : Fin 4, (n : Int) = i := ⟨⟨i.toNat, by omega⟩, by simp [hi.1]⟩
      rw [Desk.perform, dif_pos hi]
      have hn : (⟨(n : Int).toNat, by omega⟩ : Fin 4) = n := Fin.ext (Int.toNat_natCast _)
      rw [hn]
      exact ⟨0, h.workspace n (hok n rfl _ _ h.shown (h.linked n))⟩
    · rw [Desk.perform, dif_neg hi]
      exact ⟨-3, wm, dif_pos (by omega), h⟩

end Operations

end WindowManager
end RetrOS
