import Mathlib.Data.List.Pairwise
import Mathlib.Tactic.Common

/-!
# Half-open ranges

`⟨b, n⟩ : Span` is the range `[b, b + n)`. `Apart` ranges share no point, `Before` orders them,
`Within` is containment. In a list in which every range is `Before` all later ones the ranges are
pairwise apart (`apart_of_before`), and nonempty ranges start in strictly increasing order
(`base_lt_of_before`).
-/

namespace RetrOS.Lib

/-- The range `[base, base + len)`. -/
structure Span where
  base : Nat
  len : Nat
  deriving DecidableEq

namespace Span

/-- The first point behind the range. -/
def stop (a : Span) : Nat := a.base + a.len

/-- `i` is a point of the range. -/
def Has (a : Span) (i : Nat) : Prop := a.base ≤ i ∧ i < a.stop

instance (a : Span) (i : Nat) : Decidable (a.Has i) := inferInstanceAs (Decidable (_ ∧ _))

/-- The range ends where the other begins, or earlier. -/
def Before (a b : Span) : Prop := a.stop ≤ b.base

/-- The ranges share no point. -/
def Apart (a b : Span) : Prop := a.Before b ∨ b.Before a

/-- The range lies inside the other. -/
def Within (a b : Span) : Prop := b.base ≤ a.base ∧ a.stop ≤ b.stop

theorem Apart.symm {a b : Span} (h : a.Apart b) : b.Apart a := Or.symm h

theorem Before.base_lt {a b : Span} (h : a.Before b) (hn : 0 < a.len) : a.base < b.base := by
  unfold Before stop at h
  omega

theorem Apart.not_has {a b : Span} (h : a.Apart b) {i : Nat} (ha : a.Has i) : ¬ b.Has i := by
  unfold Apart Before Has stop at *
  omega

theorem apart_of_before {l : List Span} (h : l.Pairwise Before) : l.Pairwise Apart :=
  h.imp fun hab => .inl hab

theorem base_lt_of_before {l : List Span} (h : l.Pairwise Before) (hn : ∀ a ∈ l, 0 < a.len) :
    (l.map base).Pairwise (· < ·) := by
  rw [List.pairwise_map]
  exact List.Pairwise.imp_of_mem (fun ha _ hab => hab.base_lt (hn _ ha)) h

end Span

end RetrOS.Lib
