import RetrOS.Lib.Chain

/-!
# NULL-terminated lists of cells

A pointer is an `Option`, and a table of links says for every cell which pointer it holds. `Linked next c l` : from the
pointer `c` on, the cells of `l` are linked one to the next and the last one holds NULL. It is a path of pointers.

* `Linked.unique`, `Linked.nodup` : a pointer starts one list, and no cell is on it twice;
* `Linked.update_of_notMem` : it does not depend on the links of other cells;
* `Linked.front`, `Linked.push` : hanging a cell in front of the first one, or behind the last one;
* `Linked.bypass`, `Linked.cut` : taking a cell out, and clearing a link.
-/

namespace RetrOS.Lib

variable {α : Type*}

def Linked (next : α → Option α) (c : Option α) (l : List α) : Prop :=
  Path (fun c => c.bind next) c (l.map some) none

section
variable {next : α → Option α} {c : Option α} {x y z : α} {l p q : List α}

@[simp] theorem linked_nil : Linked next c [] ↔ c = none := Iff.rfl

@[simp] theorem linked_cons : Linked next c (x :: l) ↔ c = some x ∧ Linked next (next x) l := Iff.rfl

theorem Linked.unique (h : Linked next c l) (h' : Linked next c p) : l = p := by
  have heq := Path.unique h h' (by simp) (by simp)
  exact List.map_injective_iff.mpr (fun _ _ => Option.some.inj) heq

theorem Linked.nodup (h : Linked next c l) : l.Nodup := List.Nodup.of_map some (Path.nodup h (by simp))

theorem Linked.congr {next' : α → Option α} (h : Linked next c l) (heq : ∀ x ∈ l, next x = next' x) :
    Linked next' c l := by
  refine Path.congr h fun d hd => ?_
  obtain ⟨x, hx, rfl⟩ := List.mem_map.mp hd
  exact heq x hx

/-- The pointer is to a cell of any part that the list begins with. -/
theorem Linked.head_mem (h : Linked next c (p ++ q)) (hp : p ≠ []) : ∃ x ∈ p, c = some x := by
  cases p with
  | nil => exact absurd rfl hp
  | cons x p => exact ⟨x, List.mem_cons_self .., (linked_cons.mp h).1⟩

theorem Linked.mem_of_head (h : Linked next (some x) l) : x ∈ l := by
  cases l with
  | nil => exact absurd (linked_nil.mp h) (Option.some_ne_none x)
  | cons y l => exact Option.some.inj (linked_cons.mp h).1 ▸ List.mem_cons_self ..

/-- The cells behind the first one are not the first one. -/
theorem Linked.head_ne (h : Linked next c l) (hx : x ∈ l.tail) : c ≠ some x := by
  cases l with
  | nil => exact absurd hx List.not_mem_nil
  | cons y l =>
    rw [(linked_cons.mp h).1]
    intro heq
    exact (List.nodup_cons.mp h.nodup).1 (Option.some.inj heq ▸ hx)

/-- From a cell on, the rest of the list. -/
theorem Linked.suffix (h : Linked next c (p ++ x :: q)) : Linked next (next x) q := by
  unfold Linked at h
  rw [List.map_append, List.map_cons] at h
  exact (Path.suffix h).2

/-- The last cell is the one that holds NULL. -/
theorem Linked.next_eq_none (h : Linked next c (p ++ [x])) : next x = none := h.suffix

theorem Linked.next_eq_some (h : Linked next c (p ++ x :: y :: q)) : next x = some y := h.suffix.1

variable [DecidableEq α]

theorem bind_update (next : α → Option α) (x : α) (v : Option α) :
    (fun c : Option α => c.bind (Function.update next x v)) = Function.update (fun c => c.bind next) (some x) v := by
  funext c
  cases c with
  | none => rw [Function.update_of_ne (Option.some_ne_none x).symm, Option.bind_none, Option.bind_none]
  | some y =>
    rw [Option.bind_some]
    by_cases h : y = x
    · rw [h, Function.update_self, Function.update_self]
    · rw [Function.update_of_ne h, Function.update_of_ne fun heq => h (Option.some.inj heq), Option.bind_some]

theorem Linked.update_of_notMem {v : Option α} (h : Linked next c l) (hx : x ∉ l) :
    Linked (Function.update next x v) c l := by
  unfold Linked
  rw [bind_update]
  refine Path.update_of_notMem h ?_
  simpa using hx

/-- `x` linked in front of the list. -/
theorem Linked.front (h : Linked next c l) (hx : x ∉ l) : Linked (Function.update next x c) (some x) (x :: l) := by
  refine linked_cons.mpr ⟨rfl, ?_⟩
  rw [Function.update_self]
  exact h.update_of_notMem hx

/-- `x` linked behind the last cell `z`. -/
theorem Linked.push (h : Linked next c (p ++ [z])) (hx : x ∉ p ++ [z]) :
    Linked (Function.update (Function.update next z (some x)) x none) c (p ++ [z, x]) := by
  have hz : z ∉ p := List.disjoint_singleton.mp (List.disjoint_of_nodup_append h.nodup)
  have hne : z ≠ x := fun heq => hx (by simp [heq])
  unfold Linked at h ⊢
  rw [List.map_append, List.map_cons, List.map_nil] at h
  rw [bind_update, bind_update, Function.update_comm fun heq => hne (Option.some.inj heq), List.map_append]
  refine h.extend ?_ ?_
  · simpa using hx
  · simpa using hz

/-- The cell behind `y` taken out. -/
theorem Linked.bypass (h : Linked next c (p ++ y :: z :: q)) :
    Linked (Function.update next y (next z)) c (p ++ y :: q) := by
  have hnodup := h.nodup
  have hy : y ∉ p := fun hm => List.disjoint_of_nodup_append hnodup hm (List.mem_cons_self ..)
  have hyq : y ∉ q := fun hm =>
    (List.nodup_cons.mp (List.nodup_append.mp hnodup).2.1).1 (List.mem_cons_of_mem z hm)
  have hyz : Linked next (next y) (z :: q) := h.suffix
  have hq : Linked (Function.update next y (next z)) (next z) q := Linked.update_of_notMem hyz.2 hyq
  unfold Linked at h hq ⊢
  rw [List.map_append, List.map_cons, path_append] at h ⊢
  obtain ⟨d, hp, rfl, -⟩ := h
  refine ⟨some y, ?_, rfl, ?_⟩
  · rw [bind_update]
    refine hp.update_of_notMem ?_
    simpa using hy
  · show Path _ (Function.update next y (next z) y) _ _
    rw [Function.update_self]
    exact hq

/-- With the link of `x` cleared the list ends at `x`. -/
theorem Linked.cut (h : Linked next c (p ++ x :: q)) : Linked (Function.update next x none) c (p ++ [x]) := by
  have hx : x ∉ p := fun hm => List.disjoint_of_nodup_append h.nodup hm (List.mem_cons_self ..)
  unfold Linked at h ⊢
  rw [List.map_append, path_append] at h ⊢
  obtain ⟨d, hp, hd, -⟩ := h
  refine ⟨d, ?_, hd, ?_⟩
  · rw [bind_update]
    refine hp.update_of_notMem ?_
    simpa using hx
  · exact Function.update_self ..

end

end RetrOS.Lib
