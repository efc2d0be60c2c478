import Mathlib.Tactic.Common

/-!
# Which entries of a table are touched

`Access α` is a computation with a result in `α` that records the indices of the entries it reads and writes, in order.

* `Access.entry`, `Access.write` : one entry is read, written;
* `Access.Inside` : every index lies inside the table, with a rule for each way to put computations together.
-/

namespace RetrOS.Lib

/-- A computation with the table indices it touches. -/
structure Access (α : Type*) where
  touched : List Int
  value : α

namespace Access

instance : Monad Access where
  pure a := ⟨[], a⟩
  bind a f := ⟨a.touched ++ (f a.value).touched, (f a.value).value⟩

section
variable {α β : Type} {a : Access α} {f : α → Access β} {size : Nat} {i : Int}

def entry (table : Int → α) (i : Int) : Access α := ⟨[i], table i⟩

/-- The table with a new entry. -/
def write (table : Int → α) (i : Int) (x : α) : Access (Int → α) := ⟨[i], Function.update table i x⟩

@[simp] theorem touched_pure (x : α) : (pure x : Access α).touched = [] := rfl
@[simp] theorem touched_bind : (a >>= f).touched = a.touched ++ (f a.value).touched := rfl
@[simp] theorem value_bind : (a >>= f).value = (f a.value).value := rfl
@[simp] theorem touched_entry (table : Int → α) (i : Int) : (entry table i).touched = [i] := rfl
@[simp] theorem touched_write (table : Int → α) (i : Int) (x : α) : (write table i x).touched = [i] := rfl

/-- Only entries of a table of this size are touched. -/
def Inside (size : Nat) (a : Access α) : Prop := ∀ i ∈ a.touched, 0 ≤ i ∧ i < size

theorem Inside.pure (x : α) : Inside size (Pure.pure x : Access α) := by
  intro i hi
  rw [touched_pure] at hi
  exact absurd hi List.not_mem_nil

theorem Inside.entry {table : Int → α} (hi : 0 ≤ i ∧ i < size) : Inside size (Access.entry table i) := by
  intro j hj
  rw [touched_entry, List.mem_singleton] at hj
  exact hj ▸ hi

theorem Inside.write {table : Int → α} {x : α} (hi : 0 ≤ i ∧ i < size) : Inside size (Access.write table i x) := by
  intro j hj
  rw [touched_write, List.mem_singleton] at hj
  exact hj ▸ hi

theorem Inside.bind (ha : Inside size a) (hf : Inside size (f a.value)) : Inside size (a >>= f) := by
  intro i hi
  rw [touched_bind, List.mem_append] at hi
  rcases hi with hi | hi
  · exact ha i hi
  · exact hf i hi

/-- A loop over a list of indices. -/
theorem Inside.foldlM {step : β → Int → Access β} {l : List Int} (hstep : ∀ b, ∀ i ∈ l, Inside size (step b i)) (b : β) :
    Inside size (l.foldlM step b) := by
  induction l generalizing b with
  | nil => exact .pure b
  | cons i l ih =>
    rw [List.foldlM_cons]
    exact (hstep b i (List.mem_cons_self ..)).bind (ih (fun b j hj => hstep b j (List.mem_cons_of_mem _ hj)) _)

end

end Access

end RetrOS.Lib
