import Mathlib.Tactic.Common

/-!
# A piece of code in its place

`Seg code n words` : from `n` on, `code` reads `words`. `Seg.left`, `Seg.right` and `Seg.behind` take a piece apart,
`Seg.head` and `Seg.tail` a word off its front.
-/

namespace RetrOS.Lib

variable {α : Type*} {code : Nat → Option α} {n : Nat} {w : α} {words words' : List α}

def Seg (code : Nat → Option α) (n : Nat) (words : List α) : Prop :=
  ∀ i (hi : i < words.length), code (n + i) = some words[i]

/-- A list behind another one. -/
theorem Seg.append (l words : List α) : Seg (fun i => (l ++ words)[i]?) l.length words := by
  intro i hi
  dsimp only
  rw [List.getElem?_append_right (Nat.le_add_right _ _), Nat.add_sub_cancel_left, List.getElem?_eq_getElem hi]

theorem Seg.left (h : Seg code n (words ++ words')) : Seg code n words := by
  intro i hi
  rw [h i (by rw [List.length_append]; omega), List.getElem_append_left hi]

theorem Seg.right (h : Seg code n (words ++ words')) : Seg code (n + words.length) words' := by
  intro i hi
  rw [Nat.add_assoc, h (words.length + i) (by rw [List.length_append]; omega),
    List.getElem_append_right (Nat.le_add_right _ _)]
  simp only [Nat.add_sub_cancel_left]

theorem Seg.behind {m : Nat} (h : Seg code n (words ++ words')) (hm : m = n + words.length) : Seg code m words' :=
  hm ▸ h.right

theorem Seg.head (h : Seg code n (w :: words)) : code n = some w := h 0 (Nat.succ_pos _)

theorem Seg.tail (h : Seg code n (w :: words)) : Seg code (n + 1) words :=
  Seg.behind (show Seg code n ([w] ++ words) from h) rfl

end RetrOS.Lib
