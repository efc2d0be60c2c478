import Mathlib.Logic.Relation
import Mathlib.Tactic.Common

/-!
# Along every path until

`Until r ok goal s` : on every path from `s`, `ok` holds until the path comes to a state with `goal`, if it ever does.
A machine that must not do something while it executes a piece of code is one case, a machine that does what a
specification allows another.

* `Until.here`, `Until.step`, `Until.bind` : the rules for straight-line code;
* `Until.loop` : the rule for a loop whose head takes a step.
-/

namespace RetrOS.Lib

variable {σ : Type*} {r : σ → σ → Prop} {ok ok' goal goal' head : σ → Prop} {s t : σ}

/-- `ok` holds along every path from `s` up to the first state with `goal`. -/
def Until (r : σ → σ → Prop) (ok goal : σ → Prop) (s : σ) : Prop :=
  ∀ t, Relation.ReflTransGen (fun a b => ¬ goal a ∧ r a b) s t → goal t ∨ ok t

theorem Until.here (h : goal s) : Until r ok goal s := by
  intro t ht
  rcases Relation.ReflTransGen.cases_head ht with rfl | ⟨_, hstep, -⟩
  · exact .inl h
  · exact absurd h hstep.1

theorem Until.step (hs : ok s) (h : ∀ t, r s t → Until r ok goal t) : Until r ok goal s := by
  intro t ht
  rcases Relation.ReflTransGen.cases_head ht with rfl | ⟨u, hstep, hu⟩
  · exact .inr hs
  · exact h u hstep.2 t hu

theorem Until.next (h : Until r ok goal s) (hs : ¬ goal s) (ht : r s t) : Until r ok goal t := fun u hu =>
  h u (.head ⟨hs, ht⟩ hu)

theorem Until.imp (h : Until r ok goal s) (hok : ∀ t, ok t → ok' t) (hgoal : ∀ t, goal t → goal' t) :
    Until r ok' goal' s := by
  intro t ht
  have hgoals (t : σ) (ht : ¬ goal' t) : ¬ goal t := fun hg => ht (hgoal t hg)
  have hpaths : (fun a b => ¬ goal' a ∧ r a b) ≤ fun a b => ¬ goal a ∧ r a b :=
    fun a _ hab => ⟨hgoals a hab.1, hab.2⟩
  exact (h t (Relation.ReflTransGen.mono hpaths _ _ ht)).imp (hgoal t) (hok t)

/-- First until `goal`, then until `goal'`. -/
theorem Until.bind (h : Until r ok goal s) (hgoal : ∀ t, goal t → Until r ok goal' t) : Until r ok goal' s := by
  intro u hu
  induction hu using Relation.ReflTransGen.head_induction_on with
  | refl =>
    rcases h u .refl with hg | hok
    · exact hgoal u hg u .refl
    · exact .inr hok
  | @head a b hstep hrest ih =>
    by_cases ha : goal a
    · exact hgoal a ha u (.head hstep hrest)
    · exact ih (h.next ha hstep.2)

/-- A loop: every state of its head takes a step, and from there on the path comes to `goal` or to the head again. -/
theorem Until.loop (hhead : ∀ s, head s → ok s ∧ ∀ t, r s t → Until r ok (fun u => goal u ∨ head u) t)
    (hs : head s) : Until r ok goal s := by
  have hloop : ∀ u s, Relation.ReflTransGen (fun a b => ¬ goal a ∧ r a b) s u →
      head s ∨ Until r ok (fun u => goal u ∨ head u) s → goal u ∨ ok u := by
    intro u s hu
    induction hu using Relation.ReflTransGen.head_induction_on with
    | refl =>
      rintro (hh | h)
      · exact .inr (hhead u hh).1
      · rcases h u .refl with (hg | hh) | hok
        · exact .inl hg
        · exact .inr (hhead u hh).1
        · exact .inr hok
    | @head a b hstep _ ih =>
      intro h
      refine ih (.inr ?_)
      by_cases ha : head a
      · exact (hhead a ha).2 b hstep.2
      · exact (h.resolve_left ha).next (not_or.mpr ⟨hstep.1, ha⟩) hstep.2
  exact fun t ht => hloop t s ht (.inl hs)

end RetrOS.Lib
