import RetrOS.Lib.Slice

/-!
# Copies from a window of the output

A sequence that repeats itself is rebuilt from pointers: `copyBack out p n` appends `n` cells, each a copy of the one
`p` places before it, which may itself have been copied.

* `Agrees f c p n` : the `n` cells of `f` at `c` are those `p` places before;
* `copyBack_read` : what a copy appends to a prefix of `f`;
* `IsLongest` : the longest such piece for any distance up to a window.
-/

namespace RetrOS.Lib

variable {α : Type*}

/-- The `n` cells at `c` are those `p` places before. -/
def Agrees (f : Nat → α) (c p n : Nat) : Prop := ∀ k < n, f (c - p + k) = f (c + k)

theorem Agrees.mono {f : Nat → α} {c p n m : Nat} (h : Agrees f c p n) (hm : m ≤ n) : Agrees f c p m :=
  fun k hk => h k (by omega)

/-- `n` cells, each a copy of the one `p` places before; there has to be one. -/
def copyBack (p : Nat) : Nat → List α → Option (List α)
  | 0, out => some out
  | n + 1, out => if p ≤ out.length then (out[out.length - p]?).bind fun a => copyBack p n (out ++ [a]) else none

theorem copyBack_read (f : Nat → α) {c p : Nat} (hp : 1 ≤ p) (hc : p ≤ c) : ∀ {n : Nat}, Agrees f c p n →
    copyBack p n (Slice.read f 0 c) = some (Slice.read f 0 (c + n)) := by
  intro n
  induction n generalizing c with
  | zero => intro _; rfl
  | succ n ih =>
    intro h
    have hlt : c - p < (Slice.read f 0 c).length := by rw [Slice.length_read]; omega
    have hcell : (Slice.read f 0 c)[c - p]? = some (f c) := by
      have h0 : f (c - p) = f c := h 0 (Nat.succ_pos n)
      rw [List.getElem?_eq_getElem hlt, Slice.getElem_read, Nat.zero_add, h0]
    have hsucc : Slice.read f 0 c ++ [f c] = Slice.read f 0 (c + 1) := by
      rw [Slice.read_add, Nat.zero_add]
      rfl
    have hrest : Agrees f (c + 1) p n := by
      intro k hk
      have hk' := h (k + 1) (by omega)
      rwa [show c - p + (k + 1) = c + 1 - p + k by omega, show c + (k + 1) = c + 1 + k by omega] at hk'
    rw [copyBack, Slice.length_read, if_pos hc, hcell, Option.bind_some, hsucc, ih (by omega) hrest]
    congr 2
    omega

/-- `n` is the length of the longest piece at `c` that a distance of at most `window` offers, cut off at `cap`. -/
structure IsLongest (f : Nat → α) (window cap c n : Nat) : Prop where
  le_cap : n ≤ cap
  /-- a distance that offers it -/
  offered : n ≠ 0 → ∃ p, 1 ≤ p ∧ p ≤ window ∧ p ≤ c ∧ Agrees f c p n
  longest : ∀ p m, 1 ≤ p → p ≤ window → p ≤ c → m ≤ cap → Agrees f c p m → m ≤ n

theorem IsLongest.unique {f : Nat → α} {window cap c n m : Nat} (hn : IsLongest f window cap c n)
    (hm : IsLongest f window cap c m) : n = m := by
  have hle {a b : Nat} (ha : IsLongest f window cap c a) (hb : IsLongest f window cap c b) : a ≤ b := by
    rcases Nat.eq_zero_or_pos a with rfl | hpos
    · exact Nat.zero_le b
    · obtain ⟨p, h1, hw, hc, hagrees⟩ := ha.offered (by omega)
      exact hb.longest p a h1 hw hc ha.le_cap hagrees
  exact Nat.le_antisymm (hle hn hm) (hle hm hn)

end RetrOS.Lib
