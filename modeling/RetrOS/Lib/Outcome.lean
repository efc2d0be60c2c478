import Mathlib.Init

/-!
# Outcomes

What is known of a computation that may fail.

* `Ends` : the result has a property, or the error is one of those allowed;
* `Ends.bind` : the rule of sequences;
* `eq_ok_of_bind` : a sequence with a result has one between its parts.
-/

namespace RetrOS

universe u v

variable {ε : Type u} {α β : Type v} {may : ε → Prop} {post post' : α → Prop} {x : Except ε α}

/-- A result has the property `post`, an error the property `may`. -/
def Ends (may : ε → Prop) (post : α → Prop) : Except ε α → Prop
  | .ok a => post a
  | .error e => may e

theorem Ends.ok {a : α} (h : post a) : Ends may post (.ok a) := h

theorem Ends.imp (h : Ends may post x) (himp : ∀ a, post a → post' a) : Ends may post' x := by
  cases x with
  | ok a => exact himp a h
  | error e => exact h

theorem Ends.bind {y : α → Except ε β} {goal : β → Prop} (h : Ends may post x)
    (hy : ∀ a, post a → Ends may goal (y a)) : Ends may goal (x >>= y) := by
  cases x with
  | ok a => exact hy a h
  | error e => exact h

theorem Ends.of_ite {c : Prop} [Decidable c] {y : Except ε α} (hx : c → Ends may post x)
    (hy : ¬ c → Ends may post y) : Ends may post (if c then x else y) := by
  split
  · next hc => exact hx hc
  · next hc => exact hy hc

theorem eq_ok_of_bind {y : α → Except ε β} {b : β} (h : x >>= y = .ok b) : ∃ a, x = .ok a ∧ y a = .ok b := by
  cases x with
  | ok a => exact ⟨a, rfl, h⟩
  | error e => cases h

end RetrOS
