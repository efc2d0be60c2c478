import Mathlib.Tactic.Common

/-!
# Computations with a trace

A `Traced ε α` returns a value and the events it emitted, in their order.

* `Traced.emit`, `Traced.emits` : one event, several events;
* `Traced.All` : every event has a property; `all_bind` splits it along the computation, `all_foldlM` along a loop;
* `val_bind` : the value, without the trace; `foldlM_invariant` : the value of a loop.
-/

namespace RetrOS.Lib

universe u

structure Traced (ε α : Type u) where
  trace : List ε
  val : α

namespace Traced
variable {ε α β : Type u}

instance : Monad (Traced ε) where
  pure a := ⟨[], a⟩
  bind x f := ⟨x.trace ++ (f x.val).trace, (f x.val).val⟩

/-- The value `a`, after the event. -/
def emit (event : ε) (a : α) : Traced ε α := ⟨[event], a⟩

/-- The value `a`, after the events. -/
def emits (events : List ε) (a : α) : Traced ε α := ⟨events, a⟩

def All (p : ε → Prop) (x : Traced ε α) : Prop := ∀ event ∈ x.trace, p event

@[simp] theorem val_emit (event : ε) (a : α) : (emit event a).val = a := rfl

@[simp] theorem val_pure (a : α) : (pure a : Traced ε α).val = a := rfl

@[simp] theorem val_bind (x : Traced ε α) (f : α → Traced ε β) : (x >>= f).val = (f x.val).val := rfl

@[simp] theorem val_ite (c : Prop) [Decidable c] (x y : Traced ε α) :
    (if c then x else y).val = if c then x.val else y.val := apply_ite ..

section All
variable {p : ε → Prop}

@[simp] theorem all_emit (event : ε) (a : α) : (emit event a).All p ↔ p event := by
  simp [All, emit]

@[simp] theorem all_emits (events : List ε) (a : α) : (emits events a).All p ↔ ∀ event ∈ events, p event := Iff.rfl

@[simp] theorem all_pure (a : α) : (pure a : Traced ε α).All p := fun _ h => absurd h List.not_mem_nil

@[simp] theorem all_bind (x : Traced ε α) (f : α → Traced ε β) : (x >>= f).All p ↔ x.All p ∧ (f x.val).All p := by
  show (∀ event ∈ x.trace ++ (f x.val).trace, p event) ↔ _
  exact List.forall_mem_append

theorem all_foldlM {σ : Type u} {f : σ → α → Traced ε σ} (h : ∀ s a, (f s a).All p) (s : σ) (l : List α) :
    (l.foldlM f s).All p := by
  induction l generalizing s with
  | nil => exact all_pure s
  | cons a l ih => exact (all_bind ..).mpr ⟨h s a, ih _⟩

end All

/-- What every round of a loop preserves holds behind it. -/
theorem foldlM_invariant {σ : Type u} {f : σ → α → Traced ε σ} {P : σ → Prop} (h : ∀ s a, P s → P (f s a).val) {s : σ}
    (hs : P s) (l : List α) : P (l.foldlM f s).val := by
  induction l generalizing s with
  | nil => exact hs
  | cons a l ih => exact ih (h s a hs)

end Traced

end RetrOS.Lib
