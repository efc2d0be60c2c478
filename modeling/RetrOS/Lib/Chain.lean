import Mathlib.Logic.Function.Basic
import Mathlib.Data.List.Nodup
import Mathlib.Tactic.Common

/-!
# Chains of links

A table of links is a function `next` from cells to cells. `Path next c l e` : starting at `c` and
following the links one visits the cells of `l` in order and arrives at `e`. A chain is a path that
arrives at a stop mark `e` which is not one of its cells.

* `path_append`, `path_concat` : a path splits where its list does;
* `Path.unique`, `Path.nodup` : a chain has one list of cells and no cell twice;
* `Path.congr`, `Path.update_of_notMem` : a path depends on the links of its cells only;
* `Path.extend`, `Path.cut` : hanging a new cell behind the last one, ending a chain early.
-/

namespace RetrOS.Lib

variable {α : Type*}

/-- Following `next` from the first cell visits the list and arrives at the last argument. -/
def Path (next : α → α) : α → List α → α → Prop
  | c, [], e => c = e
  | c, x :: l, e => c = x ∧ Path next (next x) l e

instance Path.decidable [DecidableEq α] (next : α → α) : (c : α) → (l : List α) → (e : α) →
    Decidable (Path next c l e)
  | c, [], e => inferInstanceAs (Decidable (c = e))
  | c, x :: l, e =>
    have := Path.decidable next (next x) l e
    inferInstanceAs (Decidable (c = x ∧ Path next (next x) l e))

section
variable {next next' : α → α} {c d e x : α} {l p q : List α}

@[simp] theorem path_nil : Path next c [] e ↔ c = e := Iff.rfl

@[simp] theorem path_cons : Path next c (x :: l) e ↔ c = x ∧ Path next (next x) l e := Iff.rfl

theorem path_append : Path next c (p ++ q) e ↔ ∃ d, Path next c p d ∧ Path next d q e := by
  induction p generalizing c with
  | nil => simp
  | cons x p ih =>
    simp only [List.cons_append, path_cons, ih]
    constructor
    · rintro ⟨hc, d, hp, hq⟩
      exact ⟨d, ⟨hc, hp⟩, hq⟩
    · rintro ⟨d, ⟨hc, hp⟩, hq⟩
      exact ⟨hc, d, hp, hq⟩

theorem path_concat : Path next c (p ++ [x]) e ↔ Path next c p x ∧ next x = e := by
  rw [path_append]
  constructor
  · rintro ⟨d, hp, rfl, he⟩
    exact ⟨hp, he⟩
  · rintro ⟨hp, he⟩
    exact ⟨x, hp, rfl, he⟩

theorem Path.head (h : Path next c l e) (hl : l ≠ []) : c ∈ l := by
  cases l with
  | nil => exact absurd rfl hl
  | cons x l => exact List.mem_cons.mpr (.inl h.1)

theorem Path.congr (h : Path next c l e) (heq : ∀ x ∈ l, next x = next' x) : Path next' c l e := by
  induction l generalizing c with
  | nil => exact h
  | cons x l ih =>
    refine ⟨h.1, ?_⟩
    rw [← heq x (List.mem_cons_self ..)]
    exact ih h.2 fun y hy => heq y (List.mem_cons_of_mem _ hy)

/-- Two paths that end at the same mark, which is on neither, visit the same cells. -/
theorem Path.unique (h : Path next c l e) (h' : Path next c p e) (hl : e ∉ l) (hp : e ∉ p) : l = p := by
  induction l generalizing c p with
  | nil =>
    cases p with
    | nil => rfl
    | cons y p =>
      obtain rfl : c = e := h
      exact absurd (List.mem_cons.mpr (.inl h'.1)) hp
  | cons x l ih =>
    cases p with
    | nil =>
      obtain rfl : c = e := h'
      exact absurd (List.mem_cons.mpr (.inl h.1)) hl
    | cons y p =>
      obtain ⟨rfl, h⟩ := h
      obtain ⟨rfl, h'⟩ := h'
      rw [ih h h' (fun hm => hl (List.mem_cons_of_mem _ hm)) fun hm => hp (List.mem_cons_of_mem _ hm)]

/-- A chain is acyclic: a cell met twice would be followed by two different lists of cells. -/
theorem Path.nodup (h : Path next c l e) (hl : e ∉ l) : l.Nodup := by
  induction l generalizing c with
  | nil => exact List.nodup_nil
  | cons x l ih =>
    rw [List.mem_cons, not_or] at hl
    refine List.nodup_cons.mpr ⟨fun hx => ?_, ih h.2 hl.2⟩
    obtain ⟨p, q, rfl⟩ := List.append_of_mem hx
    obtain ⟨-, -, -, hq⟩ := path_append.mp h.2
    have hlong : Path next x (x :: (p ++ x :: q)) e := ⟨rfl, h.2⟩
    have hshort : Path next x (x :: q) e := ⟨rfl, hq⟩
    have heq := hlong.unique hshort (by simpa [hl.1] using hl.2)
      (by rw [List.mem_cons, not_or]; exact ⟨hl.1, fun hm => hl.2 (by simp [hm])⟩)
    have hlen := congrArg List.length heq
    simp only [List.length_cons, List.length_append] at hlen
    omega

/-- A cell of a path links to a cell of it or to its end. -/
theorem Path.link_mem (h : Path next c l e) (hx : x ∈ l) : next x ∈ l ∨ next x = e := by
  obtain ⟨p, q, rfl⟩ := List.append_of_mem hx
  obtain ⟨-, -, -, hq⟩ := path_append.mp h
  cases q with
  | nil => exact .inr hq
  | cons y q => exact .inl (by simp [hq.1])

/-- From a cell on a chain, the links visit the rest of it. -/
theorem Path.suffix (h : Path next c (p ++ x :: q) e) : Path next x (x :: q) e := by
  obtain ⟨-, -, -, hq⟩ := path_append.mp h
  exact ⟨rfl, hq⟩

end

section Update
variable [DecidableEq α] {next : α → α} {c e n v x : α} {l p : List α}

theorem Path.update_of_notMem (h : Path next c l e) (hx : x ∉ l) :
    Path (Function.update next x v) c l e :=
  h.congr fun _ hy => (Function.update_of_ne (ne_of_mem_of_not_mem hy hx) v next).symm

/-- The chain after its last cell `x` was linked to the new cell `n`, itself the new end. -/
theorem Path.extend (h : Path next c (p ++ [x]) e) (hn : n ∉ p ++ [x]) (hx : x ∉ p) :
    Path (Function.update (Function.update next n e) x n) c (p ++ [x, n]) e := by
  have hnx : n ≠ x := fun heq => hn (List.mem_append_right _ (List.mem_singleton.mpr heq))
  have hp := ((path_concat.mp h).1.update_of_notMem (x := n) (v := e)
    fun hm => hn (List.mem_append_left _ hm)).update_of_notMem (v := n) hx
  rw [path_append]
  refine ⟨x, hp, rfl, ?_, ?_⟩
  · rw [Function.update_self]
  · rw [path_nil, Function.update_of_ne hnx, Function.update_self]

/-- The chain after the link of its cell `x` was replaced by the stop mark. -/
theorem Path.cut {q : List α} {e' : α} (h : Path next c (p ++ x :: q) e') (hx : x ∉ p) :
    Path (Function.update next x e) c (p ++ [x]) e := by
  obtain ⟨d, hp, rfl, -⟩ := path_append.mp h
  exact path_concat.mpr ⟨hp.update_of_notMem hx, Function.update_self ..⟩

end Update

end RetrOS.Lib
