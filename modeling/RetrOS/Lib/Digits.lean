import Mathlib.Data.Nat.Digits.Defs
import Mathlib.Tactic.Common

/-!
# Digits, written and read

* `places b n` : the digits of `n` that a loop with the test at its end writes, the last one first. Zero has one digit
  (`places_eq`, `lt_of_mem_places`);
* `value b l` : the number that a loop reads from `l`, most significant digit first (`value_reverse_places`). Zeros in
  front do not count (`value_dropWhile`), and zero has no other digits (`value_eq_zero_iff`).
-/

namespace RetrOS.Lib.Digits

/-- The digits of a number, of zero as well. -/
def places (b n : Nat) : List Nat := if n = 0 then [0] else Nat.digits b n

/-- The number with these digits, the most significant one first. -/
def value (b : Nat) (l : List Nat) : Nat := l.foldl (fun n d => b * n + d) 0

section
variable {b n : Nat}

theorem places_eq (hb : 1 < b) (n : Nat) : places b n = n % b :: if 0 < n / b then places b (n / b) else [] := by
  unfold places
  by_cases hn : n = 0
  · simp [hn]
  · rw [if_neg hn, Nat.digits_def' hb (Nat.pos_of_ne_zero hn)]
    by_cases hd : n / b = 0
    · rw [hd, Nat.digits_zero, if_neg (Nat.lt_irrefl 0)]
    · rw [if_pos (Nat.pos_of_ne_zero hd), if_neg hd]

theorem places_ne_nil (b n : Nat) : places b n ≠ [] := by
  unfold places
  split
  · exact List.cons_ne_nil _ _
  · next hn => rwa [Ne, Nat.digits_eq_nil_iff_eq_zero]

theorem lt_of_mem_places (hb : 1 < b) {d : Nat} (hd : d ∈ places b n) : d < b := by
  unfold places at hd
  split at hd
  · rw [List.mem_singleton.mp hd]
    exact Nat.zero_lt_of_lt hb
  · exact Nat.digits_lt_base hb hd

/-- What was written is read back. -/
theorem value_reverse_places (b n : Nat) : value b (places b n).reverse = n := by
  have hfold (l : List Nat) : value b l.reverse = Nat.ofDigits b l := by
    rw [value, List.foldl_reverse, Nat.ofDigits_eq_foldr]
    simp [Nat.add_comm]
  rw [hfold]
  unfold places
  split
  · next hn => simp [hn]
  · exact Nat.ofDigits_digits b n

theorem value_dropWhile (b : Nat) (l : List Nat) : value b (l.dropWhile (· = 0)) = value b l := by
  induction l with
  | nil => rfl
  | cons d l ih =>
    by_cases hd : d = 0
    · rw [List.dropWhile_cons_of_pos (by simpa using hd), ih, hd]
      simp [value]
    · rw [List.dropWhile_cons_of_neg (by simpa using hd)]

theorem value_eq_zero_iff (hb : 0 < b) {l : List Nat} : value b l = 0 ↔ ∀ d ∈ l, d = 0 := by
  have hle (k : Nat) (l : List Nat) : k ≤ l.foldl (fun n d => b * n + d) k := by
    induction l generalizing k with
    | nil => exact Nat.le_refl k
    | cons d l ih => exact Nat.le_trans (Nat.le_add_right_of_le (Nat.le_mul_of_pos_left k hb)) (ih _)
  induction l with
  | nil => simp [value]
  | cons d l ih =>
    rw [List.forall_mem_cons]
    by_cases hd : d = 0
    · rw [and_iff_right hd, hd]
      exact ih
    · refine iff_of_false ?_ fun h => hd h.1
      have hpos := hle (b * 0 + d) l
      rw [value, List.foldl_cons]
      omega

end

end RetrOS.Lib.Digits
