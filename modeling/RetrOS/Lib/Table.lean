import Mathlib.Tactic.Common

/-!
# Searching a table

A table is a list whose free places are `none`.

* `At t p i` : place `i` has an entry that satisfies `p`;
* `IsFirst t p r` : `r` is the first such place, or `none` (`isFirst_findIdx?`);
* `Ahead t p q` : every entry with `q` has one with `p` before it. A search for `p` or `q` ends at a `p` exactly then
  (`IsFirst.at_iff`).
-/

namespace RetrOS.Lib.Table

variable {α : Type*} {t : List (Option α)} {p q : α → Prop} {i j : Nat} {r : Option Nat}

/-- Place `i` has an entry that satisfies `p`. -/
def At (t : List (Option α)) (p : α → Prop) (i : Nat) : Prop := ∃ x, t[i]? = some (some x) ∧ p x

/-- The first place with `p`, if there is one. -/
def IsFirst (t : List (Option α)) (p : α → Prop) (r : Option Nat) : Prop :=
  (∀ i, r = some i → At t p i ∧ ∀ j < i, ¬ At t p j) ∧ (r = none → ∀ i, ¬ At t p i)

/-- Every entry with `q` has one with `p` before it. -/
def Ahead (t : List (Option α)) (p q : α → Prop) : Prop := ∀ i, At t q i → ∃ j < i, At t p j

theorem At.imp (h : At t p i) (himp : ∀ x, p x → q x) : At t q i := by
  obtain ⟨x, hx, hp⟩ := h
  exact ⟨x, hx, himp x hp⟩

/-- A place has one entry. -/
theorem At.both (hp : At t p i) (hq : At t q i) : ∃ x, p x ∧ q x := by
  obtain ⟨x, hx, hpx⟩ := hp
  obtain ⟨y, hy, hqy⟩ := hq
  obtain rfl : x = y := by simpa [hx] using hy
  exact ⟨x, hpx, hqy⟩

theorem at_or : At t (fun x => p x ∨ q x) i ↔ At t p i ∨ At t q i := by
  constructor
  · rintro ⟨x, hx, hp | hq⟩
    · exact .inl ⟨x, hx, hp⟩
    · exact .inr ⟨x, hx, hq⟩
  · rintro (h | h)
    · exact h.imp fun _ => .inl
    · exact h.imp fun _ => .inr

@[simp] theorem not_at_nil : ¬ At ([] : List (Option α)) p i := by simp [At]

@[simp] theorem at_zero {o : Option α} : At (o :: t) p 0 ↔ ∃ x, o = some x ∧ p x := by simp [At]

@[simp] theorem at_succ {o : Option α} : At (o :: t) p (i + 1) ↔ At t p i := by simp [At]

section First

theorem IsFirst.exists_some (h : IsFirst t p r) (hi : At t p i) : ∃ k ≤ i, r = some k := by
  cases hr : r with
  | none => exact absurd hi (h.2 hr i)
  | some k => exact ⟨k, Nat.le_of_not_lt fun hlt => (h.1 k hr).2 i hlt hi, rfl⟩

/-- A search for `p` or `q` ends at a `p` exactly if no `q` is ahead of every `p`. -/
theorem IsFirst.at_iff (h : IsFirst t (fun x => p x ∨ q x) r) (hpq : ∀ x, p x → ¬ q x) :
    (∀ i, r = some i → At t p i) ↔ Ahead t p q := by
  constructor
  · intro hp i hq
    obtain ⟨k, hk, hr⟩ := h.exists_some (hq.imp fun _ => .inr)
    refine ⟨k, Nat.lt_of_le_of_ne hk fun heq => ?_, hp k hr⟩
    obtain ⟨x, hpx, hqx⟩ := (hp k hr).both (heq ▸ hq)
    exact hpq x hpx hqx
  · intro hahead i hr
    obtain ⟨hi, hfirst⟩ := h.1 i hr
    refine (at_or.mp hi).resolve_right fun hq => ?_
    obtain ⟨j, hj, hpj⟩ := hahead i hq
    exact hfirst j hj (hpj.imp fun _ => .inl)

theorem isFirst_findIdx? {f : Option α → Bool} (hf : ∀ o, f o = true ↔ ∃ x, o = some x ∧ p x) :
    IsFirst t p (t.findIdx? f) := by
  have hat (i : Nat) : At t p i ↔ ∃ h : i < t.length, f t[i] = true := by
    simp only [hf, At, List.getElem?_eq_some_iff]
    grind
  constructor
  · intro i hi
    obtain ⟨hlt, hfi, hfirst⟩ := List.findIdx?_eq_some_iff_getElem.mp hi
    refine ⟨(hat i).mpr ⟨hlt, hfi⟩, fun j hj hatj => ?_⟩
    obtain ⟨_, hfj⟩ := (hat j).mp hatj
    exact hfirst j hj hfj
  · intro hnone i hi
    obtain ⟨hlt, hfi⟩ := (hat i).mp hi
    have := List.findIdx?_eq_none_iff.mp hnone t[i] (List.getElem_mem hlt)
    simp [hfi] at this

end First

end RetrOS.Lib.Table
