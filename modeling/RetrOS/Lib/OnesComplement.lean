import Mathlib.Data.Nat.ModEq
import Mathlib.Algebra.BigOperators.Group.List.Basic
import Mathlib.Tactic.Ring

/-!
# Ones-complement sums

Numbers are added modulo `m`, a carry coming in again at the low end, so that a sum is `0` only if everything is, and
`m` otherwise stands for `0`.

* `add m`, `sum m` : addition with end-around carry, and the sum of words;
* `residue m n` : what a sum of `n` folds to (`sum_eq_residue`, `residue_fold`);
* `residue_eq_iff` : it is `n` modulo `m`, with the two zeros kept apart;
* `residue_add_complement` : a sum together with its complement is all ones; `residue_mod_iff` : carries that are lost;
* `swap B` : the two digits of a number to base `B` exchanged, which is multiplication by `B` (`swap_residue`);
* `lowWords`, `bigWords` : the words of some bytes, in the two byte orders (`bigWords_modEq`).
-/

namespace RetrOS.Lib.OnesComplement

variable {m a b n : Nat}

/-- Addition with end-around carry. -/
def add (m a b : Nat) : Nat := if a + b ≤ m then a + b else a + b - m

/-- The sum of words. -/
def sum (m : Nat) (ws : List Nat) : Nat := ws.foldl (add m) 0

/-- `0`, or the number from `1` to `m` that is `n` modulo `m`. -/
def residue (m n : Nat) : Nat := if n = 0 then 0 else (n - 1) % m + 1

@[simp] theorem residue_zero : residue m 0 = 0 := rfl

theorem residue_eq_zero : residue m n = 0 ↔ n = 0 := by
  unfold residue
  split <;> simp [*]

theorem residue_le (hm : 0 < m) : residue m n ≤ m := by
  unfold residue
  split
  · exact Nat.zero_le m
  · exact Nat.mod_lt _ hm

theorem residue_of_le (h : n ≤ m) : residue m n = n := by
  unfold residue
  split
  · next hn => exact hn.symm
  · rw [Nat.mod_eq_of_lt (by omega)]
    omega

theorem residue_modEq : residue m n ≡ n [MOD m] := by
  unfold residue
  split
  · next hn => rw [hn]
  · calc (n - 1) % m + 1 ≡ n - 1 + 1 [MOD m] := (Nat.mod_modEq _ _).add_right 1
      _ = n := by omega

/-- Two sums fold to the same exactly if they agree modulo `m` and are zero together. -/
theorem residue_eq_iff : residue m a = residue m b ↔ a ≡ b [MOD m] ∧ (a = 0 ↔ b = 0) := by
  constructor
  · intro h
    refine ⟨residue_modEq.symm.trans (h ▸ residue_modEq), ?_⟩
    rw [← residue_eq_zero (m := m), h, residue_eq_zero]
  · rintro ⟨hmod, hzero⟩
    unfold residue
    by_cases ha : a = 0
    · rw [if_pos ha, if_pos (hzero.mp ha)]
    · have hb : b ≠ 0 := fun hb => ha (hzero.mpr hb)
      rw [if_neg ha, if_neg hb]
      have hpred : a - 1 ≡ b - 1 [MOD m] := by
        refine Nat.ModEq.add_right_cancel' 1 ?_
        rwa [Nat.sub_add_cancel (by omega), Nat.sub_add_cancel (by omega)]
      rw [hpred]

/-- All ones: a positive multiple of `m`. -/
theorem residue_eq_self (hm : 0 < m) : residue m n = m ↔ n ≠ 0 ∧ m ∣ n := by
  have hiff := residue_eq_iff (m := m) (a := n) (b := m)
  rw [residue_of_le le_rfl] at hiff
  rw [hiff, Nat.ModEq, Nat.mod_self, ← Nat.dvd_iff_mod_eq_zero, iff_false_right hm.ne', and_comm]

/-- A carry that is added at the low end. -/
theorem residue_fold : residue m (n % (m + 1) + n / (m + 1)) = residue m n := by
  refine residue_eq_iff.mpr ⟨?_, ?_⟩
  · calc n % (m + 1) + n / (m + 1) ≡ n % (m + 1) + (m + 1) * (n / (m + 1)) [MOD m] := by
          refine Nat.ModEq.add_left _ ?_
          rw [Nat.add_mul, Nat.one_mul]
          exact (Nat.modEq_iff_dvd' (Nat.le_add_left _ _)).mpr (by simp)
      _ = n := Nat.mod_add_div n (m + 1)
  · constructor
    · intro h
      obtain ⟨hmod, hdiv⟩ := Nat.add_eq_zero_iff.mp h
      rw [← Nat.mod_add_div n (m + 1), hmod, hdiv, Nat.mul_zero]
    · rintro rfl
      simp

theorem add_residue (hm : 0 < m) : add m (residue m a) (residue m b) = residue m (a + b) := by
  have ha := residue_le (n := a) hm
  have hb := residue_le (n := b) hm
  have hmod : residue m a + residue m b ≡ a + b [MOD m] := residue_modEq.add residue_modEq
  have hzero : residue m a + residue m b = 0 ↔ a + b = 0 := by
    have := residue_eq_zero (m := m) (n := a)
    have := residue_eq_zero (m := m) (n := b)
    omega
  unfold add
  split
  · next h =>
    rw [← residue_of_le h]
    exact residue_eq_iff.mpr ⟨hmod, hzero⟩
  · next h =>
    rw [← residue_of_le (show residue m a + residue m b - m ≤ m by omega)]
    refine residue_eq_iff.mpr ⟨?_, by omega⟩
    calc residue m a + residue m b - m ≡ residue m a + residue m b - m + m [MOD m] :=
          (Nat.add_modEq_right).symm
      _ = residue m a + residue m b := by omega
      _ ≡ a + b [MOD m] := hmod

/-- **A sum of words** folds to its residue. -/
theorem sum_eq_residue (hm : 0 < m) {ws : List Nat} (hws : ∀ w ∈ ws, w ≤ m) : sum m ws = residue m ws.sum := by
  have hfold : ∀ (ws : List Nat) (a : Nat), (∀ w ∈ ws, w ≤ m) →
      ws.foldl (add m) (residue m a) = residue m (a + ws.sum) := by
    intro ws
    induction ws with
    | nil => simp
    | cons w ws ih =>
      intro a hws
      rw [List.foldl_cons, List.sum_cons, ← Nat.add_assoc]
      nth_rewrite 1 [← residue_of_le (hws w List.mem_cons_self)]
      rw [add_residue hm]
      exact ih _ fun w hw => hws w (List.mem_cons_of_mem _ hw)
  have := hfold ws 0 hws
  rwa [residue_zero, Nat.zero_add] at this

/-- A sum together with the complement of what it folds to is all ones. -/
theorem residue_add_complement (hm : 0 < m) : residue m (n + (m - residue m n)) = m := by
  have hle := residue_le (n := n) hm
  rw [← add_residue hm, residue_of_le (show m - residue m n ≤ m by omega), add, if_pos (by omega)]
  omega

/-- **Lost carries**: a sum that is cut off at a power of `m + 1` folds to something else. -/
theorem residue_mod_iff {M : Nat} (hM : M ≡ 1 [MOD m]) (hn : n < m * M) :
    residue m (n % M) = residue m n ↔ n < M := by
  constructor
  · intro h
    have hlost : n / M ≡ 0 [MOD m] := by
      have hcut : n % M + 0 ≡ n % M + n / M [MOD m] := by
        calc n % M + 0 ≡ n [MOD m] := (residue_eq_iff.mp h).1
          _ = n % M + M * (n / M) := (Nat.mod_add_div n M).symm
          _ ≡ n % M + 1 * (n / M) [MOD m] := (hM.mul_right _).add_left _
          _ = n % M + n / M := by rw [Nat.one_mul]
      exact (Nat.ModEq.add_left_cancel' _ hcut).symm
    have hfew : n / M < m := Nat.div_lt_of_lt_mul (by rwa [Nat.mul_comm])
    have hnone : n / M = 0 := Nat.eq_zero_of_dvd_of_lt (Nat.modEq_zero_iff_dvd.mp hlost) hfew
    refine (Nat.div_eq_zero_iff.mp hnone).resolve_left ?_
    rintro rfl
    simp at hn
  · intro h
    rw [Nat.mod_eq_of_lt h]

/-- The digits of a number of two digits to base `B`, exchanged. -/
def swap (B n : Nat) : Nat := n % B * B + n / B

/-- Exchanging the digits is multiplication by the base, modulo `B ^ 2 - 1`. -/
theorem swap_modEq {B : Nat} (hB : 0 < B) : swap B n ≡ B * n [MOD B ^ 2 - 1] := by
  have hone : B ^ 2 ≡ 1 [MOD B ^ 2 - 1] :=
    ((Nat.modEq_iff_dvd' (Nat.one_le_pow 2 B hB)).mpr (dvd_refl _)).symm
  calc n % B * B + n / B = n % B * B + 1 * (n / B) := by rw [Nat.one_mul]
    _ ≡ n % B * B + B ^ 2 * (n / B) [MOD B ^ 2 - 1] := (hone.symm.mul_right _).add_left _
    _ = B * (n % B + B * (n / B)) := by ring
    _ = B * n := by rw [Nat.mod_add_div]

theorem swap_eq_zero {B : Nat} (hB : 0 < B) : swap B n = 0 ↔ n = 0 := by
  unfold swap
  constructor
  · intro h
    obtain ⟨hmul, hdiv⟩ := Nat.add_eq_zero_iff.mp h
    have hmod : n % B = 0 := (Nat.mul_eq_zero.mp hmul).resolve_right (by omega)
    rw [← Nat.mod_add_div n B, hdiv, hmod, Nat.mul_zero]
  · rintro rfl
    simp

theorem swap_le {B : Nat} (hn : n < B ^ 2) : swap B n ≤ B ^ 2 - 1 := by
  have hB : 0 < B := Nat.pos_of_ne_zero fun h => by simp [h] at hn
  have hmod : n % B ≤ B - 1 := Nat.le_sub_one_of_lt (Nat.mod_lt _ hB)
  have hdiv : n / B ≤ B - 1 := Nat.le_sub_one_of_lt (Nat.div_lt_of_lt_mul (by rwa [← Nat.pow_two]))
  calc n % B * B + n / B ≤ (B - 1) * B + (B - 1) := Nat.add_le_add (Nat.mul_le_mul_right B hmod) hdiv
    _ = B ^ 2 - 1 := by
      obtain ⟨k, rfl⟩ : ∃ k, B = k + 1 := ⟨B - 1, by omega⟩
      rw [show (k + 1) ^ 2 = k * (k + 1) + k + 1 by ring, Nat.add_sub_cancel, Nat.add_sub_cancel]

/-- **The order of the digits** does not matter: the sums of words whose digits are exchanged fold to words whose digits
are exchanged. -/
theorem swap_residue {B : Nat} (hB : 1 < B) (hmod : B * a ≡ b [MOD B ^ 2 - 1]) (hzero : a = 0 ↔ b = 0) :
    swap B (residue (B ^ 2 - 1) a) = residue (B ^ 2 - 1) b := by
  have hm : 0 < B ^ 2 - 1 := Nat.sub_pos_of_lt (Nat.one_lt_pow (by decide) hB)
  have hle : residue (B ^ 2 - 1) a < B ^ 2 := by
    have := residue_le (n := a) hm
    omega
  rw [← residue_of_le (swap_le hle)]
  refine residue_eq_iff.mpr ⟨?_, ?_⟩
  · exact (swap_modEq (by omega)).trans ((residue_modEq.mul_left B).trans hmod)
  · rw [swap_eq_zero (by omega), residue_eq_zero, hzero]

/-! ## The words of some bytes -/

/-- The little-endian words; a byte left over is a word. -/
def lowWords : List UInt8 → List Nat
  | a :: b :: rest => (a.toNat + 256 * b.toNat) :: lowWords rest
  | [a] => [a.toNat]
  | [] => []

/-- The big-endian words; a byte left over is followed by a zero. -/
def bigWords : List UInt8 → List Nat
  | a :: b :: rest => (256 * a.toNat + b.toNat) :: bigWords rest
  | [a] => [256 * a.toNat]
  | [] => []

theorem lowWords_append {l : List UInt8} (h : l.length % 2 = 0) (l' : List UInt8) :
    lowWords (l ++ l') = lowWords l ++ lowWords l' := by
  induction l using lowWords.induct with
  | case1 a b rest ih => simp [lowWords, ih (by simp at h; omega)]
  | case2 a => simp at h
  | case3 => rfl

/-- The second part at its places: behind an odd number of bytes a zero comes first. -/
theorem sum_lowWords_append (l l' : List UInt8) : (lowWords (l ++ l')).sum =
    (lowWords l).sum + (lowWords (List.replicate (l.length % 2) 0 ++ l')).sum := by
  induction l using lowWords.induct with
  | case1 a b rest ih =>
    have hlen : (a :: b :: rest).length % 2 = rest.length % 2 := Nat.add_mod_right rest.length 2
    rw [hlen, List.cons_append, List.cons_append, lowWords, lowWords, List.sum_cons, List.sum_cons, ih]
    omega
  | case2 a =>
    cases l' with
    | nil => simp [lowWords]
    | cons b rest =>
      change a.toNat + 256 * b.toNat + (lowWords rest).sum = a.toNat + (0 + 256 * b.toNat + (lowWords rest).sum)
      omega
  | case3 => simp [lowWords]

/-- What a byte counts for at its place. -/
def weight (p : Nat) : Nat := if p % 2 = 0 then 1 else 256

/-- A byte is changed. -/
theorem sum_lowWords_set (l : List UInt8) (b : UInt8) {p : Nat} (hp : p < l.length) :
    (lowWords (l.set p b)).sum + weight p * l[p].toNat = (lowWords l).sum + weight p * b.toNat := by
  induction l using lowWords.induct generalizing p with
  | case1 c d rest ih =>
    match p, hp with
    | 0, _ =>
      simp only [List.set_cons_zero, lowWords, List.sum_cons, List.getElem_cons_zero, weight, if_true, Nat.zero_mod]
      omega
    | 1, _ =>
      simp only [List.set_cons_succ, List.set_cons_zero, lowWords, List.sum_cons, List.getElem_cons_succ,
        List.getElem_cons_zero, weight, show ¬ 1 % 2 = 0 by decide, if_false]
      omega
    | p + 2, hp =>
      have hrest := ih (p := p) (by simpa using hp)
      have hweight : weight (p + 2) = weight p := by
        unfold weight
        rw [Nat.add_mod_right]
      simp only [List.set_cons_succ, lowWords, List.sum_cons, List.getElem_cons_succ, hweight]
      omega
  | case2 c =>
    obtain rfl : p = 0 := Nat.lt_one_iff.mp hp
    simp [lowWords, weight]
    omega
  | case3 => exact absurd hp (Nat.not_lt_zero p)

/-- A sum of words that folds to all ones does not after one byte has changed. -/
theorem not_dvd_sum_set {l : List UInt8} {b : UInt8} {p : Nat} (hp : p < l.length) (hb : b ≠ l[p])
    (h : 65535 ∣ (lowWords l).sum) : ¬ 65535 ∣ (lowWords (l.set p b)).sum := by
  intro hset
  have hsum := sum_lowWords_set l b hp
  have hne : b.toNat ≠ l[p].toNat := fun heq => hb (UInt8.toNat_inj.mp heq)
  have hlt := b.toNat_lt
  have hlt' := l[p].toNat_lt
  obtain ⟨k, hk⟩ := h
  obtain ⟨m, hm⟩ := hset
  rw [hk, hm] at hsum
  unfold weight at hsum
  split at hsum <;> omega

theorem bigWords_append {l : List UInt8} (h : l.length % 2 = 0) (l' : List UInt8) :
    bigWords (l ++ l') = bigWords l ++ bigWords l' := by
  induction l using bigWords.induct with
  | case1 a b rest ih => simp [bigWords, ih (by simp at h; omega)]
  | case2 a => simp at h
  | case3 => rfl

theorem sum_lowWords_le (l : List UInt8) : (lowWords l).sum ≤ 65535 * ((l.length + 1) / 2) := by
  induction l using lowWords.induct with
  | case1 a b rest ih =>
    have ha := a.toNat_lt
    have hb := b.toNat_lt
    simp only [lowWords, List.sum_cons, List.length_cons]
    omega
  | case2 a =>
    have ha := a.toNat_lt
    simp [lowWords]
    omega
  | case3 => simp [lowWords]

theorem bigWords_le (l : List UInt8) : ∀ w ∈ bigWords l, w ≤ 65535 := by
  induction l using bigWords.induct with
  | case1 a b rest ih =>
    have ha := a.toNat_lt
    have hb := b.toNat_lt
    simp only [bigWords, List.mem_cons, forall_eq_or_imp]
    exact ⟨by omega, ih⟩
  | case2 a =>
    have ha := a.toNat_lt
    simp only [bigWords, List.mem_singleton, forall_eq]
    omega
  | case3 => simp [bigWords]

theorem bigWord_modEq (a b : Nat) : 256 * (256 * a + b) ≡ a + 256 * b [MOD 65535] := by
  calc 256 * (256 * a + b) = 65536 * a + 256 * b := by ring
    _ ≡ 1 * a + 256 * b [MOD 65535] := (Nat.ModEq.mul_right a (by decide)).add_right _
    _ = a + 256 * b := by rw [Nat.one_mul]

/-- The sums in the two byte orders differ by the factor 256. -/
theorem bigWords_modEq (l : List UInt8) : 256 * (bigWords l).sum ≡ (lowWords l).sum [MOD 65535] := by
  induction l using bigWords.induct with
  | case1 a b rest ih =>
    simp only [bigWords, lowWords, List.sum_cons, Nat.mul_add 256 (_ + _)]
    exact (bigWord_modEq _ _).add ih
  | case2 a =>
    have := bigWord_modEq a.toNat 0
    simpa [bigWords, lowWords] using this
  | case3 => rfl

end RetrOS.Lib.OnesComplement
