import Mathlib.Data.Finset.Card
import Mathlib.Order.Interval.Finset.Nat
import Mathlib.Logic.Function.Basic
import Mathlib.Tactic.Common

/-!
# Bitmaps stored in bytes

Bit `i` of a bitmap is bit `i % 8` of byte `i / 8`.

* `test`, `set`, `clear` : one bit, read and written through its byte (`test_set`, `test_clear`);
* `setRange`, `clearRange` : a run of bits, one after another (`test_setRange`, `test_clearRange`,
  `clearRange_setRange`);
* `ones b n` : the set bits below `n`, and how the operations change them and their number;
* `findClear` : the first clear bit (`findClear_some`, `findClear_of_clear`);
* `firstFit` : the first run of `num` good positions (`firstFit_some`, `firstFit_none`).
-/

namespace RetrOS.Lib.Bits

/-- Bit `i`. -/
def test (b : Nat → BitVec 8) (i : Nat) : Bool := (b (i / 8)).getLsbD (i % 8)

/-- Set bit `i`. -/
def set (b : Nat → BitVec 8) (i : Nat) : Nat → BitVec 8 :=
  Function.update b (i / 8) (b (i / 8) ||| 1#8 <<< (i % 8))

/-- Clear bit `i`. -/
def clear (b : Nat → BitVec 8) (i : Nat) : Nat → BitVec 8 :=
  Function.update b (i / 8) (b (i / 8) &&& ~~~(1#8 <<< (i % 8)))

theorem getLsbD_one_shl (k j : Nat) (hk : k < 8) (hj : j < 8) :
    (1#8 <<< k).getLsbD j = decide (j = k) := by
  rw [BitVec.getLsbD_shiftLeft, BitVec.getLsbD_one]
  by_cases h : j = k
  · subst h
    simp [hj]
  · by_cases h' : j < k
    · simp [h, h']
    · simp [h, h', show j - k ≠ 0 by omega]

theorem eq_iff_div_mod (i j : Nat) : i = j ↔ i / 8 = j / 8 ∧ i % 8 = j % 8 := by omega

theorem test_set (b : Nat → BitVec 8) (i j : Nat) : test (set b i) j = (decide (j = i) || test b j) := by
  unfold test set
  by_cases h : j / 8 = i / 8
  · rw [h, Function.update_self, BitVec.getLsbD_or,
      getLsbD_one_shl _ _ (Nat.mod_lt _ (by decide)) (Nat.mod_lt _ (by decide)), Bool.or_comm]
    simp [eq_iff_div_mod j i, h]
  · rw [Function.update_of_ne h]
    simp [eq_iff_div_mod j i, h]

theorem test_clear (b : Nat → BitVec 8) (i j : Nat) :
    test (clear b i) j = (!decide (j = i) && test b j) := by
  unfold test clear
  by_cases h : j / 8 = i / 8
  · rw [h, Function.update_self, BitVec.getLsbD_and, BitVec.getLsbD_not,
      getLsbD_one_shl _ _ (Nat.mod_lt _ (by decide)) (Nat.mod_lt _ (by decide)), Bool.and_comm]
    simp [eq_iff_div_mod j i, h, Nat.mod_lt]
  · rw [Function.update_of_ne h]
    simp [eq_iff_div_mod j i, h]

@[simp] theorem test_set_self (b : Nat → BitVec 8) (i : Nat) : test (set b i) i = true := by
  simp [test_set]

/-! ## Runs of bits -/

/-- Set the `n` bits from `s` on. -/
def setRange (b : Nat → BitVec 8) (s : Nat) : Nat → Nat → BitVec 8
  | 0 => b
  | n + 1 => set (setRange b s n) (s + n)

/-- Clear the `n` bits from `s` on. -/
def clearRange (b : Nat → BitVec 8) (s : Nat) : Nat → Nat → BitVec 8
  | 0 => b
  | n + 1 => clear (clearRange b s n) (s + n)

theorem test_setRange (b : Nat → BitVec 8) (s n j : Nat) :
    test (setRange b s n) j = (decide (s ≤ j ∧ j < s + n) || test b j) := by
  induction n with
  | zero => simp [setRange, show ¬ (s ≤ j ∧ j < s) by omega]
  | succ n ih =>
    rw [setRange, test_set, ih, ← Bool.or_assoc, ← Bool.decide_or]
    congr 2
    exact propext (by omega)

theorem test_clearRange (b : Nat → BitVec 8) (s n j : Nat) :
    test (clearRange b s n) j = (!decide (s ≤ j ∧ j < s + n) && test b j) := by
  induction n with
  | zero => simp [clearRange, show ¬ (s ≤ j ∧ j < s) by omega]
  | succ n ih =>
    rw [clearRange, test_clear, ih, ← Bool.and_assoc, ← Bool.not_or, ← Bool.decide_or]
    congr 3
    exact propext (by omega)

/-- The bits are all there is. -/
theorem eq_of_test {b b' : Nat → BitVec 8} (h : ∀ i, test b i = test b' i) : b = b' := by
  funext k
  refine BitVec.eq_of_getLsbD_eq fun j hj => ?_
  have hbit := h (8 * k + j)
  unfold test at hbit
  rwa [show (8 * k + j) / 8 = k by omega, show (8 * k + j) % 8 = j by omega] at hbit

/-- Clearing bits that were clear before they were set. -/
theorem clearRange_setRange {b : Nat → BitVec 8} {s n : Nat} (h : ∀ i, s ≤ i → i < s + n → test b i = false) :
    clearRange (setRange b s n) s n = b := by
  refine eq_of_test fun i => ?_
  rw [test_clearRange, test_setRange]
  by_cases hi : s ≤ i ∧ i < s + n
  · rw [h i hi.1 hi.2, decide_eq_true hi]
    rfl
  · rw [decide_eq_false hi]
    rfl

/-! ## The set bits -/

/-- The set bits below `n`. -/
def ones (b : Nat → BitVec 8) (n : Nat) : Finset Nat := (Finset.range n).filter fun i => test b i = true

@[simp] theorem mem_ones {b : Nat → BitVec 8} {n i : Nat} : i ∈ ones b n ↔ i < n ∧ test b i = true := by
  simp [ones]

theorem ones_congr {b b' : Nat → BitVec 8} {n : Nat} (h : ∀ i < n, test b i = test b' i) :
    ones b n = ones b' n := by
  ext i
  simp only [mem_ones]
  exact and_congr_right fun hi => by rw [h i hi]

theorem ones_set {b : Nat → BitVec 8} {n i : Nat} (h : i < n) : ones (set b i) n = insert i (ones b n) := by
  ext j
  simp only [mem_ones, test_set, Finset.mem_insert, Bool.or_eq_true, decide_eq_true_eq]
  constructor
  · rintro ⟨hj, rfl | ht⟩
    · exact .inl rfl
    · exact .inr ⟨hj, ht⟩
  · rintro (rfl | ⟨hj, ht⟩)
    · exact ⟨h, .inl rfl⟩
    · exact ⟨hj, .inr ht⟩

theorem ones_clear (b : Nat → BitVec 8) (n i : Nat) : ones (clear b i) n = (ones b n).erase i := by
  ext j
  simp only [mem_ones, test_clear, Finset.mem_erase, Bool.and_eq_true, Bool.not_eq_true',
    decide_eq_false_iff_not]
  tauto

theorem ones_setRange {b : Nat → BitVec 8} {s k n : Nat} (h : s + k ≤ n) :
    ones (setRange b s k) n = ones b n ∪ Finset.Ico s (s + k) := by
  ext j
  simp only [mem_ones, test_setRange, Finset.mem_union, Finset.mem_Ico, Bool.or_eq_true, decide_eq_true_eq]
  constructor
  · rintro ⟨hj, hr | ht⟩
    · exact .inr hr
    · exact .inl ⟨hj, ht⟩
  · rintro (⟨hj, ht⟩ | hr)
    · exact ⟨hj, .inr ht⟩
    · exact ⟨by omega, .inl hr⟩

theorem ones_clearRange (b : Nat → BitVec 8) (s k n : Nat) :
    ones (clearRange b s k) n = ones b n \ Finset.Ico s (s + k) := by
  ext j
  simp only [mem_ones, test_clearRange, Finset.mem_sdiff, Finset.mem_Ico, Bool.and_eq_true,
    Bool.not_eq_true', decide_eq_false_iff_not]
  tauto

theorem card_ones_set {b : Nat → BitVec 8} {n i : Nat} (h : i < n) (hc : test b i = false) :
    (ones (set b i) n).card = (ones b n).card + 1 := by
  rw [ones_set h, Finset.card_insert_of_notMem (by simp [hc])]

theorem card_ones_le_clear (b : Nat → BitVec 8) (n i : Nat) :
    (ones b n).card ≤ (ones (clear b i) n).card + 1 := by
  rw [ones_clear]
  have := Finset.pred_card_le_card_erase (s := ones b n) (a := i)
  omega

theorem card_ones_setRange {b : Nat → BitVec 8} {s k n : Nat} (h : s + k ≤ n)
    (hc : ∀ i, s ≤ i → i < s + k → test b i = false) :
    (ones (setRange b s k) n).card = (ones b n).card + k := by
  rw [ones_setRange h, Finset.card_union_of_disjoint, Nat.card_Ico, Nat.add_sub_cancel_left]
  rw [Finset.disjoint_left]
  intro i hi hr
  rw [mem_ones] at hi
  rw [Finset.mem_Ico] at hr
  rw [hc i hr.1 hr.2] at hi
  exact absurd hi.2 (by decide)

theorem card_ones_clearRange {b : Nat → BitVec 8} {s k n : Nat} (h : s + k ≤ n)
    (hs : ∀ i, s ≤ i → i < s + k → test b i = true) :
    (ones b n).card = (ones (clearRange b s k) n).card + k := by
  have hsub : Finset.Ico s (s + k) ⊆ ones b n := by
    intro i hi
    rw [Finset.mem_Ico] at hi
    rw [mem_ones]
    exact ⟨by omega, hs i hi.1 hi.2⟩
  have hcard := Finset.card_sdiff_add_card_eq_card hsub
  rw [Nat.card_Ico, Nat.add_sub_cancel_left] at hcard
  rw [ones_clearRange, hcard]

/-! ## Searches -/

/-- The first clear bit among the `r` bits from `i` on. -/
def findClear (b : Nat → BitVec 8) : Nat → Nat → Option Nat
  | 0, _ => none
  | r + 1, i => if test b i = false then some i else findClear b r (i + 1)

theorem findClear_some {b : Nat → BitVec 8} :
    ∀ {r i k : Nat}, findClear b r i = some k → i ≤ k ∧ k < i + r ∧ test b k = false
  | 0, _, _, h => by simp [findClear] at h
  | r + 1, i, k, h => by
    rw [findClear] at h
    split at h
    · next hc =>
      obtain rfl : i = k := by simpa using h
      exact ⟨le_rfl, by omega, hc⟩
    · obtain ⟨h1, h2, h3⟩ := findClear_some h
      exact ⟨by omega, by omega, h3⟩

/-- A search over a clear bit finds it or one before it. -/
theorem findClear_of_clear {b : Nat → BitVec 8} {j : Nat} (hc : test b j = false) :
    ∀ {r i : Nat}, i ≤ j → j < i + r → ∃ k ≤ j, findClear b r i = some k
  | 0, i, h1, h2 => absurd h2 (by omega)
  | r + 1, i, h1, h2 => by
    rw [findClear]
    split
    · exact ⟨i, h1, rfl⟩
    · next hs =>
      have hne : i ≠ j := fun he => hs (he ▸ hc)
      exact findClear_of_clear hc (by omega) (by omega)

/-- The first run of `num` positions satisfying `p` among the `r` positions from `i` on; `free` good
positions have just been passed. -/
def firstFit (p : Nat → Bool) (num : Nat) : Nat → Nat → Nat → Option Nat
  | 0, _, _ => none
  | r + 1, i, free =>
    if p i then
      if free + 1 = num then some (i + 1 - num) else firstFit p num r (i + 1) (free + 1)
    else firstFit p num r (i + 1) 0

theorem firstFit_some {p : Nat → Bool} {num : Nat} :
    ∀ {r i free s : Nat}, free ≤ i → (∀ j, i - free ≤ j → j < i → p j = true) →
      firstFit p num r i free = some s → s + num ≤ i + r ∧ ∀ j, s ≤ j → j < s + num → p j = true
  | 0, _, _, _, _, _, h => by simp [firstFit] at h
  | r + 1, i, free, s, hle, hrun, h => by
    rw [firstFit] at h
    split at h
    · next hp =>
      have hrun' : ∀ j, i + 1 - (free + 1) ≤ j → j < i + 1 → p j = true := by
        intro j h1 h2
        rcases Nat.lt_succ_iff_lt_or_eq.mp h2 with h3 | rfl
        · exact hrun j (by omega) h3
        · exact hp
      split at h
      · next hnum =>
        obtain rfl : i + 1 - num = s := by simpa using h
        exact ⟨by omega, fun j h1 h2 => hrun' j (by omega) (by omega)⟩
      · obtain ⟨h1, h2⟩ := firstFit_some (by omega) hrun' h
        exact ⟨by omega, h2⟩
    · obtain ⟨h1, h2⟩ := firstFit_some (by omega) (fun j h1 h2 => by omega) h
      exact ⟨by omega, h2⟩

/-- A search that finds nothing leaves no run of `num` good positions. The run of `free` good
positions just passed is maximal: the position before it is bad, or it starts at `0`. -/
theorem firstFit_none {p : Nat → Bool} {num : Nat} :
    ∀ {r i free : Nat}, free ≤ i → free < num → (free < i → p (i - free - 1) = false) →
      (∀ s, s + num ≤ i → ∃ j, s ≤ j ∧ j < s + num ∧ p j = false) →
      firstFit p num r i free = none →
      ∀ s, s + num ≤ i + r → ∃ j, s ≤ j ∧ j < s + num ∧ p j = false
  | 0, _, _, _, _, _, hpast, _ => hpast
  | r + 1, i, free, hle, hlt, hbad, hpast, h => by
    rw [firstFit] at h
    rw [show i + (r + 1) = i + 1 + r by omega]
    split at h
    · next hp =>
      split at h
      · exact absurd h (by simp)
      · next hnum =>
        refine firstFit_none (by omega) (by omega) (fun hf => ?_) (fun s hs => ?_) h
        · rw [show i + 1 - (free + 1) - 1 = i - free - 1 by omega]
          exact hbad (by omega)
        · by_cases hs' : s + num ≤ i
          · exact hpast s hs'
          · exact ⟨i - free - 1, by omega, by omega, hbad (by omega)⟩
    · next hp =>
      rw [Bool.not_eq_true] at hp
      refine firstFit_none (by omega) (by omega) (fun _ => by simpa using hp) (fun s hs => ?_) h
      by_cases hs' : s + num ≤ i
      · exact hpast s hs'
      · exact ⟨i, by omega, by omega, hp⟩

end RetrOS.Lib.Bits
