import Mathlib.Logic.Function.Basic
import Mathlib.Data.List.Basic
import Mathlib.Tactic.Common

/-!
# Cells shared out among owners

`Partition used owns cells` : every owner `i` (`owns i`) has a list of cells, all of them used; every used cell is in
the list of an owner, and no two owners share a cell.

* `Partition.existsUnique` : a used cell has exactly one owner;
* `Partition.congr` : only the owners' lists count;
* `Partition.grow` : an owner, or a new one, takes unused cells. It gives none back: a cell left out of its new list
  would be used and in no list.
-/

namespace RetrOS.Lib

variable {α ι : Type*}

structure Partition (used : α → Prop) (owns : ι → Prop) (cells : ι → List α) : Prop where
  used_of_mem : ∀ i, owns i → ∀ c ∈ cells i, used c
  cover : ∀ c, used c → ∃ i, owns i ∧ c ∈ cells i
  disjoint : ∀ i j, owns i → owns j → i ≠ j → (cells i).Disjoint (cells j)

section
variable {used used' : α → Prop} {owns owns' : ι → Prop} {cells cells' : ι → List α} {i : ι} {m : List α}

theorem Partition.empty (hused : ∀ c, ¬ used c) (howns : ∀ i, ¬ owns i) : Partition used owns cells :=
  ⟨fun i hi => absurd hi (howns i), fun c hc => absurd hc (hused c), fun i _ hi => absurd hi (howns i)⟩

theorem Partition.existsUnique (h : Partition used owns cells) {c : α} (hc : used c) :
    ∃! i, owns i ∧ c ∈ cells i := by
  obtain ⟨i, hi, hci⟩ := h.cover c hc
  refine ⟨i, ⟨hi, hci⟩, fun j ⟨hj, hcj⟩ => ?_⟩
  by_contra hne
  exact h.disjoint j i hj hi hne hcj hci

theorem Partition.congr (h : Partition used owns cells) (hused : ∀ c, used' c ↔ used c) (howns : ∀ i, owns' i ↔ owns i)
    (hcells : ∀ i, owns i → cells' i = cells i) : Partition used' owns' cells' := by
  refine ⟨fun i hi c hc => ?_, fun c hc => ?_, fun i j hi hj hij => ?_⟩
  · rw [howns] at hi
    rw [hcells i hi] at hc
    exact (hused c).mpr (h.used_of_mem i hi c hc)
  · obtain ⟨i, hi, hci⟩ := h.cover c ((hused c).mp hc)
    exact ⟨i, (howns i).mpr hi, by rwa [hcells i hi]⟩
  · rw [howns] at hi hj
    rw [hcells i hi, hcells j hj]
    exact h.disjoint i j hi hj hij

/-- The owner `i` gets the list `m`: what it had and cells that were not used. -/
theorem Partition.grow [DecidableEq ι] (h : Partition used owns cells) (hkeep : owns i → cells i ⊆ m)
    (hnew : ∀ c ∈ m, ¬ used c ∨ owns i ∧ c ∈ cells i) :
    Partition (fun c => used c ∨ c ∈ m) (fun j => owns j ∨ j = i) (Function.update cells i m) := by
  -- another owner has no cell of `m`
  have hother : ∀ j, owns j → j ≠ i → m.Disjoint (cells j) := by
    intro j hj hji c hcm hcj
    rcases hnew c hcm with hc | ⟨hi, hci⟩
    · exact hc (h.used_of_mem j hj c hcj)
    · exact h.disjoint j i hj hi hji hcj hci
  have howns : ∀ {j}, owns j ∨ j = i → j ≠ i → owns j := fun hj hji => hj.resolve_right hji
  refine ⟨fun j hj c hc => ?_, fun c hc => ?_, fun j k hj hk hjk => ?_⟩
  · by_cases hji : j = i
    · subst hji
      rw [Function.update_self] at hc
      exact .inr hc
    · rw [Function.update_of_ne hji] at hc
      exact .inl (h.used_of_mem j (howns hj hji) c hc)
  · rcases hc with hc | hc
    · obtain ⟨j, hj, hcj⟩ := h.cover c hc
      refine ⟨j, .inl hj, ?_⟩
      by_cases hji : j = i
      · subst hji
        rw [Function.update_self]
        exact hkeep hj hcj
      · rwa [Function.update_of_ne hji]
    · exact ⟨i, .inr rfl, by rwa [Function.update_self]⟩
  · by_cases hji : j = i
    · subst hji
      rw [Function.update_self, Function.update_of_ne hjk.symm]
      exact hother k (howns hk hjk.symm) hjk.symm
    · rw [Function.update_of_ne hji]
      by_cases hki : k = i
      · subst hki
        rw [Function.update_self]
        exact fun c hcj hcm => hother j (howns hj hji) hji hcm hcj
      · rw [Function.update_of_ne hki]
        exact h.disjoint j k (howns hj hji) (howns hk hki) hjk

end

end RetrOS.Lib
