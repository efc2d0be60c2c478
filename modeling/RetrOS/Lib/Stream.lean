import Mathlib.Data.List.Basic
import Mathlib.Tactic.Common

/-!
# Pieces of a byte stream

`SliceAt s k xs` : `xs` stands at position `k` of the stream `s`. A stream that grows keeps its pieces
(`SliceAt.append`), what is appended to it is a piece (`sliceAt_end`), and the piece that begins where a prefix
ends makes it longer (`SliceAt.extend`).
-/

namespace RetrOS.Lib

variable {α : Type*}

/-- `xs` stands at position `k` of `s`. -/
def SliceAt (s : List α) (k : Nat) (xs : List α) : Prop := ∃ pre post, s = pre ++ xs ++ post ∧ pre.length = k

theorem SliceAt.le {s xs : List α} {k : Nat} (h : SliceAt s k xs) : k + xs.length ≤ s.length := by
  obtain ⟨pre, post, rfl, rfl⟩ := h
  simp only [List.length_append]
  omega

theorem SliceAt.append {s xs : List α} {k : Nat} (h : SliceAt s k xs) (t : List α) : SliceAt (s ++ t) k xs := by
  obtain ⟨pre, post, rfl, rfl⟩ := h
  exact ⟨pre, post ++ t, by simp only [List.append_assoc], rfl⟩

theorem sliceAt_end (s xs : List α) : SliceAt (s ++ xs) s.length xs := ⟨s, [], (List.append_nil _).symm, rfl⟩

theorem sliceAt_nil {s : List α} {k : Nat} (h : k ≤ s.length) : SliceAt s k [] :=
  ⟨s.take k, s.drop k, by rw [List.append_nil, List.take_append_drop], by rw [List.length_take]; omega⟩

/-- The piece that begins where a prefix ends makes it longer. -/
theorem SliceAt.extend {s acc xs : List α} (hacc : acc <+: s) (h : SliceAt s acc.length xs) : acc ++ xs <+: s := by
  obtain ⟨pre, post, rfl, hlen⟩ := h
  have hpre : pre <+: pre ++ xs ++ post := ⟨xs ++ post, (List.append_assoc _ _ _).symm⟩
  obtain rfl : pre = acc := (List.prefix_of_prefix_length_le hpre hacc (by omega)).eq_of_length hlen
  exact List.prefix_append _ _

end RetrOS.Lib
