import Mathlib.Data.List.Chain
import Mathlib.Tactic.Linarith
import Mathlib.Tactic.Ring

/-!
# The error term of a digital line

A walk from `(0, 0)` to `(A, B)` by steps of at most one in each coordinate. After `i` and `j` steps the error is
`A (1 + j) - B (1 + i)`; the first coordinate moves where twice the error is at least `-B`, the second one where it is at
most `A`.

* `lineErr`, `walkStep`, `walk` : the error, one move, and the points of the walk;
* `Major` : what holds where the first coordinate is the longer one, and therefore moves every time;
* `OnTrack`, `OnTrack.step` : the same for both, with the number of the moves that remain;
* `length_walk`, `walk_last`, `walk_chain`, `walk_box` : from `(0, 0)` to `(A, B)` in `max A B` moves.
-/

namespace RetrOS.Lib

/-- The error after `i` and `j` steps. -/
def lineErr (A B i j : Int) : Int := A * (1 + j) - B * (1 + i)

/-- One move. -/
def walkStep (A B : Int) (p : Int × Int) : Int × Int :=
  (if -B ≤ 2 * lineErr A B p.1 p.2 then p.1 + 1 else p.1, if 2 * lineErr A B p.1 p.2 ≤ A then p.2 + 1 else p.2)

/-- The points from `p` on, `n` moves long. -/
def walk (A B : Int) : Nat → Int × Int → List (Int × Int)
  | 0, p => [p]
  | n + 1, p => p :: walk A B n (walkStep A B p)

/-- The state of a walk whose first coordinate is the longer one. -/
structure Major (A B i j : Int) : Prop where
  le : B ≤ A
  i_nonneg : 0 ≤ i
  i_le : i ≤ A
  j_nonneg : 0 ≤ j
  j_le : j ≤ B
  lower : -B ≤ 2 * lineErr A B i j
  upper : 2 * lineErr A B i j ≤ 3 * A - 2 * B

/-- The state of a walk with `n` moves before it. -/
def OnTrack (A B : Int) (p : Int × Int) (n : Nat) : Prop :=
  Major A B p.1 p.2 ∧ p.1 + n = A ∨ Major B A p.2 p.1 ∧ p.2 + n = B

section
variable {A B i j : Int} {p q : Int × Int} {n : Nat}

theorem lineErr_swap : lineErr B A j i = -lineErr A B i j := by
  unfold lineErr
  ring

theorem lineErr_succ_fst : lineErr A B (i + 1) j = lineErr A B i j - B := by
  unfold lineErr
  ring

theorem lineErr_succ_snd : lineErr A B i (j + 1) = lineErr A B i j + A := by
  unfold lineErr
  ring

theorem Major.start (hB : 0 ≤ B) (hle : B ≤ A) : Major A B 0 0 := by
  have herr : lineErr A B 0 0 = A - B := by
    unfold lineErr
    ring
  exact ⟨hle, le_refl 0, hB.trans hle, le_refl 0, hB, by omega, by omega⟩

/-- At the end of the longer coordinate the other one is at its end, too. -/
theorem Major.done (h : Major A B i j) (hi : i = A) : j = B := by
  have hlower := h.lower
  have herr : lineErr A B i j = A * (1 + j - B) - B := by
    rw [hi]
    unfold lineErr
    ring
  have hj := h.j_le
  by_contra hne
  have hback : 1 + j - B ≤ 0 := by omega
  have hprod : A * (1 + j - B) ≤ 0 := mul_nonpos_of_nonneg_of_nonpos (h.i_nonneg.trans h.i_le) hback
  have hB := h.j_nonneg
  omega

/-- The shorter coordinate moves only where it is not at its end. -/
theorem Major.room (h : Major A B i j) (hi : i < A) (hmove : 2 * lineErr A B i j ≤ A) : j < B := by
  refine lt_of_le_of_ne h.j_le fun hj => ?_
  have herr : lineErr A B i j = A + B * (A - 1 - i) := by
    rw [hj]
    unfold lineErr
    ring
  have hprod : 0 ≤ B * (A - 1 - i) := mul_nonneg (h.j_nonneg.trans h.j_le) (by omega)
  have hA := h.i_nonneg
  omega

/-- One move: the longer coordinate, and the shorter one if the error is small. -/
theorem Major.step (h : Major A B i j) (hi : i < A) :
    Major A B (i + 1) (if 2 * lineErr A B i j ≤ A then j + 1 else j) := by
  obtain ⟨hle, hi0, hiA, hj0, hjB, hlower, hupper⟩ := h
  split
  · next hmove =>
    have hroom := Major.room ⟨hle, hi0, hiA, hj0, hjB, hlower, hupper⟩ hi hmove
    refine ⟨hle, by omega, by omega, by omega, by omega, ?_, ?_⟩ <;>
      rw [lineErr_succ_snd, lineErr_succ_fst] <;> omega
  · refine ⟨hle, by omega, by omega, hj0, hjB, ?_, ?_⟩ <;> rw [lineErr_succ_fst] <;> omega

theorem OnTrack.start (hA : 0 ≤ A) (hB : 0 ≤ B) : OnTrack A B (0, 0) (max A B).toNat := by
  rcases le_total B A with hle | hle
  · exact .inl ⟨.start hB hle, by rw [max_eq_left hle]; omega⟩
  · exact .inr ⟨.start hA hle, by rw [max_eq_right hle]; omega⟩

theorem OnTrack.done (h : OnTrack A B p 0) : p.1 = A ∧ p.2 = B := by
  rcases h with ⟨h, hi⟩ | ⟨h, hj⟩
  · have hiA : p.1 = A := by omega
    exact ⟨hiA, h.done hiA⟩
  · have hjB : p.2 = B := by omega
    exact ⟨h.done hjB, hjB⟩

theorem OnTrack.not_done (h : OnTrack A B p (n + 1)) : ¬ (p.1 = A ∧ p.2 = B) := by
  rcases h with ⟨-, hi⟩ | ⟨-, hj⟩ <;> omega

/-- A coordinate that moves is not at its end. -/
theorem OnTrack.room (h : OnTrack A B p (n + 1)) :
    (-B ≤ 2 * lineErr A B p.1 p.2 → p.1 < A) ∧ (2 * lineErr A B p.1 p.2 ≤ A → p.2 < B) := by
  rcases h with ⟨h, hi⟩ | ⟨h, hj⟩
  · exact ⟨fun _ => by omega, h.room (by omega)⟩
  · refine ⟨fun hmove => h.room (by omega) ?_, fun _ => by omega⟩
    rw [lineErr_swap]
    omega

theorem OnTrack.step (h : OnTrack A B p (n + 1)) : OnTrack A B (walkStep A B p) n := by
  rcases h with ⟨h, hi⟩ | ⟨h, hj⟩
  · refine .inl ?_
    rw [walkStep, if_pos h.lower]
    exact ⟨h.step (by omega), by omega⟩
  · have hlower := h.lower
    have hstep := h.step (by omega)
    rw [lineErr_swap] at hlower hstep
    have hcond : 2 * -lineErr A B p.1 p.2 ≤ B ↔ -B ≤ 2 * lineErr A B p.1 p.2 := by omega
    simp only [hcond] at hstep
    refine .inr ?_
    rw [walkStep, if_pos (show 2 * lineErr A B p.1 p.2 ≤ A by omega)]
    exact ⟨hstep, by omega⟩

/-- The point is in the box, and twice the error is at most three times its longer side. -/
theorem OnTrack.bounds (h : OnTrack A B p n) : (0 ≤ p.1 ∧ p.1 ≤ A ∧ 0 ≤ p.2 ∧ p.2 ≤ B) ∧
    2 * |lineErr A B p.1 p.2| ≤ 3 * max A B := by
  rcases h with ⟨⟨hle, hi0, hiA, hj0, hjB, hlower, hupper⟩, -⟩ | ⟨⟨hle, hj0, hjB, hi0, hiA, hlower, hupper⟩, -⟩
  · refine ⟨⟨hi0, hiA, hj0, hjB⟩, ?_⟩
    rw [max_eq_left hle]
    rcases abs_cases (lineErr A B p.1 p.2) with ⟨habs, -⟩ | ⟨habs, -⟩ <;> omega
  · refine ⟨⟨hi0, hiA, hj0, hjB⟩, ?_⟩
    rw [lineErr_swap] at hlower hupper
    rw [max_eq_right hle]
    rcases abs_cases (lineErr A B p.1 p.2) with ⟨habs, -⟩ | ⟨habs, -⟩ <;> omega

/-! ## The walk -/

theorem length_walk : (walk A B n p).length = n + 1 := by
  induction n generalizing p with
  | zero => rfl
  | succ n ih => rw [walk, List.length_cons, ih]

theorem walk_eq_cons (A B : Int) (n : Nat) (p : Int × Int) : walk A B n p = p :: (walk A B n p).tail := by
  cases n with
  | zero => rfl
  | succ n => rfl

theorem walk_last (h : OnTrack A B p n) : (walk A B n p).getLast? = some (A, B) := by
  induction n generalizing p with
  | zero =>
    obtain ⟨hA, hB⟩ := h.done
    exact congrArg some (Prod.ext hA hB)
  | succ n ih =>
    have hlast := ih h.step
    rw [walk_eq_cons] at hlast
    rw [walk, walk_eq_cons, List.getLast?_cons_cons, hlast]

/-- Each point is one step from the one before it, towards `(A, B)`, in one coordinate or in both. -/
theorem walk_chain : (walk A B n p).IsChain fun p q =>
    (q.1 = p.1 ∨ q.1 = p.1 + 1) ∧ (q.2 = p.2 ∨ q.2 = p.2 + 1) := by
  induction n generalizing p with
  | zero => exact List.isChain_singleton _
  | succ n ih =>
    have hchain := ih (p := walkStep A B p)
    rw [walk_eq_cons] at hchain
    rw [walk, walk_eq_cons]
    refine List.isChain_cons_cons.mpr ⟨⟨?_, ?_⟩, hchain⟩
    · rw [walkStep]
      dsimp only
      split
      · exact .inr rfl
      · exact .inl rfl
    · rw [walkStep]
      dsimp only
      split
      · exact .inr rfl
      · exact .inl rfl

theorem walk_box (h : OnTrack A B p n) (hq : q ∈ walk A B n p) : (0 ≤ q.1 ∧ q.1 ≤ A) ∧ 0 ≤ q.2 ∧ q.2 ≤ B := by
  obtain ⟨hi0, hiA, hj0, hjB⟩ := h.bounds.1
  induction n generalizing p with
  | zero =>
    obtain rfl := List.mem_singleton.mp hq
    exact ⟨⟨hi0, hiA⟩, hj0, hjB⟩
  | succ n ih =>
    rw [walk] at hq
    rcases List.mem_cons.mp hq with rfl | hq
    · exact ⟨⟨hi0, hiA⟩, hj0, hjB⟩
    · obtain ⟨hi0, hiA, hj0, hjB⟩ := h.step.bounds.1
      exact ih h.step hq hi0 hiA hj0 hjB

end

end RetrOS.Lib
