import Mathlib.Data.List.Basic
import Mathlib.Logic.Function.Basic
import Mathlib.Tactic.Common

/-!
# Blocks of a memory

A memory is a function from addresses to cells. `read f s n` is the block of `n` cells at `s`;
`write f d xs` stores `xs` at `d` (a `memcpy`). The lemmas say what a read sees after a write
(`read_write_self`, `read_write_of_apart`) and how blocks split (`read_add`, `take_read`,
`drop_read`).
-/

namespace RetrOS.Lib.Slice

variable {α : Type*}

/-- The `n` cells from `s` on. -/
def read (f : Nat → α) (s n : Nat) : List α := (List.range' s n).map f

/-- The memory after storing `xs` at `d`. -/
def write (f : Nat → α) (d : Nat) (xs : List α) : Nat → α :=
  fun i => if d ≤ i then (xs[i - d]?).getD (f i) else f i

@[simp] theorem length_read (f : Nat → α) (s n : Nat) : (read f s n).length = n := by
  simp [read]

@[simp] theorem read_zero (f : Nat → α) (s : Nat) : read f s 0 = [] := rfl

theorem getElem_read (f : Nat → α) (s n i : Nat) (h : i < (read f s n).length) :
    (read f s n)[i] = f (s + i) := by
  simp [read]

theorem read_add (f : Nat → α) (s n m : Nat) : read f s (n + m) = read f s n ++ read f (s + n) m := by
  simp only [read]
  rw [← List.map_append, List.range'_append_1]

theorem read_succ (f : Nat → α) (s n : Nat) : read f s (n + 1) = f s :: read f (s + 1) n := rfl

theorem read_congr {f g : Nat → α} {s n : Nat} (h : ∀ i, s ≤ i → i < s + n → f i = g i) :
    read f s n = read g s n := by
  refine List.map_congr_left fun i hi => ?_
  rw [List.mem_range'_1] at hi
  exact h i hi.1 hi.2

/-- A block that holds two lists, one behind the other. -/
theorem read_append_iff {f : Nat → α} {s : Nat} {xs ys : List α} : read f s (xs ++ ys).length = xs ++ ys ↔
    read f s xs.length = xs ∧ read f (s + xs.length) ys.length = ys := by
  rw [List.length_append, read_add]
  constructor
  · intro h
    exact List.append_inj h (length_read f s xs.length)
  · rintro ⟨hxs, hys⟩
    rw [hxs, hys]

theorem take_read (f : Nat → α) (s : Nat) {k n : Nat} (h : k ≤ n) : (read f s n).take k = read f s k := by
  obtain ⟨m, rfl⟩ := Nat.exists_eq_add_of_le h
  rw [read_add, List.take_left' (length_read f s k)]

theorem write_of_lt (f : Nat → α) {d i : Nat} (xs : List α) (h : i < d) : write f d xs i = f i := by
  rw [write, if_neg (by omega)]

theorem write_of_ge (f : Nat → α) {d i : Nat} {xs : List α} (h : d + xs.length ≤ i) :
    write f d xs i = f i := by
  rw [write, if_pos (by omega), List.getElem?_eq_none (by omega), Option.getD_none]

theorem write_inside (f : Nat → α) {d i : Nat} {xs : List α} (h : i < xs.length) :
    write f d xs (d + i) = xs[i] := by
  rw [write, if_pos (by omega), Nat.add_sub_cancel_left, List.getElem?_eq_getElem h, Option.getD_some]

theorem read_write_self (f : Nat → α) (d : Nat) (xs : List α) : read (write f d xs) d xs.length = xs := by
  refine List.ext_getElem (by simp) fun i h1 h2 => ?_
  rw [getElem_read, write_inside f h2]

theorem read_write_of_apart (f : Nat → α) {d s n : Nat} {xs : List α}
    (h : s + n ≤ d ∨ d + xs.length ≤ s) : read (write f d xs) s n = read f s n := by
  refine read_congr fun i h1 h2 => ?_
  rcases h with h | h
  · exact write_of_lt f xs (by omega)
  · exact write_of_ge f (by omega)

theorem read_write_append (f : Nat → α) (s n : Nat) (xs : List α) :
    read (write f (s + n) xs) s (n + xs.length) = read f s n ++ xs := by
  rw [read_add, read_write_self, read_write_of_apart f (.inl (Nat.le_refl _))]

@[simp] theorem write_nil (f : Nat → α) (d : Nat) : write f d [] = f := by
  funext i
  simp [write]

theorem write_singleton (f : Nat → α) (d : Nat) (a : α) : write f d [a] = Function.update f d a := by
  funext i
  rcases Nat.lt_trichotomy i d with hi | rfl | hi
  · rw [write_of_lt f _ hi, Function.update_of_ne (by omega)]
  · rw [Function.update_self, write, if_pos (Nat.le_refl i), Nat.sub_self]
    rfl
  · rw [write_of_ge f (by rw [List.length_singleton]; omega), Function.update_of_ne (by omega)]

/-- A cell outside of the block may be stored before or after it. -/
theorem write_update_of_apart (f : Nat → α) {d i : Nat} {xs : List α} (a : α) (h : i < d ∨ d + xs.length ≤ i) :
    write (Function.update f i a) d xs = Function.update (write f d xs) i a := by
  funext j
  by_cases hj : j = i
  · subst hj
    rw [Function.update_self]
    rcases h with h | h
    · rw [write_of_lt _ _ h, Function.update_self]
    · rw [write_of_ge _ h, Function.update_self]
  · rw [Function.update_of_ne hj, write, write, Function.update_of_ne hj]

/-- The first cell of a block stored again. -/
theorem update_write_cons (f : Nat → α) (d : Nat) (a b : α) (xs : List α) :
    Function.update (write f d (a :: xs)) d b = write f d (b :: xs) := by
  funext i
  by_cases hi : i = d
  · rw [hi, Function.update_self, write, if_pos (Nat.le_refl d), Nat.sub_self]
    rfl
  · rw [Function.update_of_ne hi, write, write]
    split
    · next h =>
      obtain ⟨k, hk⟩ := Nat.exists_eq_add_of_lt (Nat.lt_of_le_of_ne h (Ne.symm hi))
      rw [hk, Nat.add_assoc, Nat.add_sub_cancel_left, List.getElem?_cons_succ, List.getElem?_cons_succ]
    · rfl

/-- Two stores side by side are one. -/
theorem write_append (f : Nat → α) (d : Nat) (xs ys : List α) :
    write (write f d xs) (d + xs.length) ys = write f d (xs ++ ys) := by
  funext i
  by_cases hi : i < d + xs.length
  · rw [write_of_lt _ _ hi]
    by_cases hd : d ≤ i
    · rw [write, write, if_pos hd, if_pos hd, List.getElem?_append_left (by omega)]
    · rw [write_of_lt _ _ (by omega), write_of_lt _ _ (by omega)]
  · rw [write, write_of_ge f (by omega), write, if_pos (by omega), if_pos (by omega),
      List.getElem?_append_right (by omega), Nat.sub_sub]

/-- A block of stored fields reads back field by field. -/
theorem read_write_field (f : Nat → α) (d : Nat) {l : List α} {k n : Nat} (xs ys zs : List α)
    (h : l = xs ++ ys ++ zs) (hk : xs.length = k) (hn : ys.length = n) :
    read (write f d l) (d + k) n = ys := by
  have hall := read_write_self f d l
  rw [h, List.length_append, List.length_append, Nat.add_assoc, read_add, read_add, ← List.append_assoc, hn,
    hk] at hall
  rw [h]
  exact (List.append_inj (List.append_inj hall (by simp [hn, hk])).1 (by simp [hk])).2

/-- A block that contains the stored cells: the rest of it is as before. -/
theorem read_write_within (f : Nat → α) (s : Nat) {k n : Nat} {xs : List α} (h : k + xs.length ≤ n) :
    read (write f (s + k) xs) s n = (read f s n).take k ++ xs ++ (read f s n).drop (k + xs.length) := by
  obtain ⟨m, rfl⟩ := Nat.exists_eq_add_of_le h
  rw [read_add, read_add, read_write_self, read_write_of_apart f (.inl (Nat.le_refl _)),
    read_write_of_apart f (.inr (by omega)), take_read f s (by omega), read_add f s (k + xs.length) m,
    List.drop_left' (length_read f s _)]

end RetrOS.Lib.Slice
