import Mathlib.Tactic.Common

/-!
# Runs of a labelled transition system

`Run step ok s as t` : performing the actions `as` one after another takes `s` to `t`, and before
every action `a` the state satisfies `ok · a`. A theorem about all runs with `ok := fun _ _ => True`
(`AnyRun`) is about every interleaving of the actions; a theorem about a smaller `ok` is about the
runs whose every step meets a condition.

* `Run.invariant` : what every allowed step preserves holds at the end of a run;
* `Run.snoc`, `Run.append`, `Run.mono`, `Run.imp` : building runs; `Run.mono_of_invariant` : what holds of every step
  under an invariant;
* `Run.congr_step`, `Run.congr` : two conditions on the steps that agree under an invariant allow the same runs;
* `exec`, `run_of_exec`, `run_foldl` : runs of a step function, computed.
-/

namespace RetrOS.Lib

variable {σ α : Type*}

/-- The runs all of whose steps meet `ok`. -/
inductive Run (step : σ → α → σ → Prop) (ok : σ → α → Prop) : σ → List α → σ → Prop
  | nil (s : σ) : Run step ok s [] s
  | cons {s t u : σ} {a : α} {as : List α} :
      ok s a → step s a t → Run step ok t as u → Run step ok s (a :: as) u

/-- A run with no condition on its steps. -/
abbrev AnyRun (step : σ → α → σ → Prop) : σ → List α → σ → Prop := Run step fun _ _ => True

section Rules
variable {step : σ → α → σ → Prop} {ok ok' : σ → α → Prop}

/-- What every allowed step preserves holds at the end of a run. -/
theorem Run.invariant {P : σ → Prop} (hstep : ∀ s a t, P s → ok s a → step s a t → P t)
    {s t : σ} {as : List α} (h : Run step ok s as t) (hs : P s) : P t := by
  induction h with
  | nil => exact hs
  | cons hok hst _ ih => exact ih (hstep _ _ _ hs hok hst)

theorem Run.single {s t : σ} {a : α} (hok : ok s a) (hst : step s a t) : Run step ok s [a] t :=
  .cons hok hst (.nil t)

theorem Run.append {s t u : σ} {as bs : List α} (h : Run step ok s as t) (h' : Run step ok t bs u) :
    Run step ok s (as ++ bs) u := by
  induction h with
  | nil => exact h'
  | cons hok hst _ ih => exact .cons hok hst (ih h')

theorem Run.snoc {s t u : σ} {as : List α} {a : α} (h : Run step ok s as t) (hok : ok t a)
    (hst : step t a u) : Run step ok s (as ++ [a]) u :=
  h.append (.single hok hst)

/-- Steps that meet one condition where an invariant holds meet another one. -/
theorem Run.mono_of_invariant {Inv : σ → Prop} (hstep : ∀ s a t, Inv s → ok s a → step s a t → Inv t)
    (himp : ∀ s a t, Inv s → ok s a → step s a t → ok' s a) {s t : σ} {as : List α} (h : Run step ok s as t)
    (hs : Inv s) : Run step ok' s as t := by
  induction h with
  | nil => exact .nil _
  | cons hok hst _ ih => exact .cons (himp _ _ _ hs hok hst) hst (ih (hstep _ _ _ hs hok hst))

theorem Run.mono (hok : ∀ s a, ok s a → ok' s a) {s t : σ} {as : List α} (h : Run step ok s as t) :
    Run step ok' s as t := by
  have hs : (fun _ : σ => True) s := trivial
  exact h.mono_of_invariant (fun _ _ _ _ _ _ => trivial) (fun s a _ _ h _ => hok s a h) hs

theorem Run.imp {step' : σ → α → σ → Prop} (himp : ∀ s a t, step s a t → step' s a t) {s t : σ} {as : List α}
    (h : Run step ok s as t) : Run step' ok s as t := by
  induction h with
  | nil => exact .nil _
  | cons hok hst _ ih => exact .cons hok (himp _ _ _ hst) ih

/-- Two conditions that agree on every step that is possible where an invariant holds allow the same runs. -/
theorem Run.congr_step {Inv : σ → Prop} (hstep : ∀ s a t, Inv s → ok s a → step s a t → Inv t)
    (hiff : ∀ s a t, Inv s → step s a t → (ok s a ↔ ok' s a)) {s t : σ} {as : List α} (hs : Inv s) :
    Run step ok s as t ↔ Run step ok' s as t := by
  constructor
  · intro h
    exact h.mono_of_invariant hstep (fun s a t hs hok hst => (hiff s a t hs hst).mp hok) hs
  · intro h
    apply h.mono_of_invariant _ (fun s a t hs hok hst => (hiff s a t hs hst).mpr hok) hs
    intro s a t hs hok hst
    exact hstep s a t hs ((hiff s a t hs hst).mpr hok) hst

/-- Two conditions that agree wherever an invariant holds allow the same runs. -/
theorem Run.congr {Inv : σ → Prop} (hstep : ∀ s a t, Inv s → ok s a → step s a t → Inv t)
    (hiff : ∀ s a, Inv s → (ok s a ↔ ok' s a)) {s t : σ} {as : List α} (hs : Inv s) :
    Run step ok s as t ↔ Run step ok' s as t :=
  Run.congr_step hstep (fun s a _ hs _ => hiff s a hs) hs

end Rules

/-- Run a partial step function over a list of actions. -/
def exec (f : σ → α → Option σ) : σ → List α → Option σ
  | s, [] => some s
  | s, a :: as => (f s a).bind fun t => exec f t as

@[simp] theorem exec_nil (f : σ → α → Option σ) (s : σ) : exec f s [] = some s := rfl

theorem exec_cons (f : σ → α → Option σ) (s : σ) (a : α) (as : List α) :
    exec f s (a :: as) = (f s a).bind fun t => exec f t as := rfl

theorem run_of_exec {f : σ → α → Option σ} :
    ∀ {as : List α} {s t : σ}, exec f s as = some t → AnyRun (fun s a t => f s a = some t) s as t
  | [], s, t, h => by
    obtain rfl : s = t := by simpa using h
    exact .nil s
  | a :: as, s, t, h => by
    rw [exec_cons, Option.bind_eq_some_iff] at h
    obtain ⟨u, hu, ht⟩ := h
    exact .cons trivial hu (run_of_exec ht)

/-- The run of a total step function. -/
theorem run_foldl (f : σ → α → σ) (s : σ) (as : List α) : AnyRun (fun s a t => f s a = t) s as (as.foldl f s) := by
  induction as generalizing s with
  | nil => exact .nil s
  | cons a as ih => exact .cons trivial rfl (ih (f s a))

end RetrOS.Lib
