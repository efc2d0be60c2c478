import Mathlib.Data.List.Nodup
import Mathlib.Logic.Function.Basic
import Mathlib.Tactic.Common

/-!
# Items in a family of lists

`Located lists loc` : every item is in the lists exactly where `loc` says, once, and nowhere if `loc` says `none`.

* `Located.mem_iff`, `Located.nodup` : reading it;
* `exists_located_iff` : saying so without `loc`;
* `Located.move` : items appear, move or vanish; `Located.congr` : nothing moves.
-/

namespace RetrOS.Lib

variable {ι α : Type*} [DecidableEq ι] [DecidableEq α]

def Located (lists : ι → List α) (loc : α → Option ι) : Prop :=
  ∀ i x, (lists i).count x = if loc x = some i then 1 else 0

section
variable {lists lists' : ι → List α} {loc : α → Option ι} {i : ι} {x : α}

theorem Located.mem_iff (h : Located lists loc) : x ∈ lists i ↔ loc x = some i := by
  rw [← List.count_pos_iff, h i x]
  split <;> simp_all

theorem Located.nodup (h : Located lists loc) (i : ι) : (lists i).Nodup := by
  refine List.nodup_iff_count_le_one.mpr fun x => ?_
  rw [h i x]
  split <;> omega

/-- Every item but those of `out` is in one of the lists, and those are in none. -/
theorem exists_located_iff {out : α → Prop} : (∃ loc, Located lists loc ∧ ∀ x, loc x = none ↔ out x) ↔
    (∀ x, ¬ out x → ∃ i, (lists i).count x = 1 ∧ ∀ j, j ≠ i → x ∉ lists j) ∧ ∀ x, out x → ∀ i, x ∉ lists i := by
  constructor
  · rintro ⟨loc, hloc, hout⟩
    refine ⟨fun x hx => ?_, fun x hx i hi => ?_⟩
    · obtain ⟨i, hi⟩ := Option.ne_none_iff_exists'.mp (fun hnone => hx ((hout x).mp hnone))
      refine ⟨i, ?_, fun j hj hm => ?_⟩
      · rw [hloc i x, if_pos hi]
      · exact hj (Option.some.inj ((hloc.mem_iff.mp hm).symm.trans hi))
    · exact Option.some_ne_none i ((hloc.mem_iff.mp hi).symm.trans ((hout x).mpr hx))
  · rintro ⟨hone, hnone⟩
    have hloc : ∀ x, ∃ o : Option ι, (∀ j, (lists j).count x = if o = some j then 1 else 0) ∧ (o = none ↔ out x) := by
      intro x
      by_cases hx : out x
      · refine ⟨none, fun j => ?_, iff_of_true rfl hx⟩
        rw [if_neg (Option.some_ne_none j).symm, List.count_eq_zero]
        exact hnone x hx j
      · obtain ⟨i, hcount, hother⟩ := hone x hx
        refine ⟨some i, fun j => ?_, iff_of_false (Option.some_ne_none i) hx⟩
        by_cases hj : j = i
        · rw [hj, hcount, if_pos rfl]
        · rw [if_neg fun heq => hj (Option.some.inj heq).symm, List.count_eq_zero]
          exact hother j hj
    choose loc hcount hout using hloc
    exact ⟨loc, fun j x => hcount x j, hout⟩

/-- The places after the items `xs` have moved. -/
def moved (xs : List α) (dest : Option ι) (loc : α → Option ι) (x : α) : Option ι := if x ∈ xs then dest else loc x

omit [DecidableEq ι] in
theorem moved_of_mem {xs : List α} {dest : Option ι} (h : x ∈ xs) : moved xs dest loc x = dest := if_pos h

omit [DecidableEq ι] in
theorem moved_of_notMem {xs : List α} {dest : Option ι} (h : x ∉ xs) : moved xs dest loc x = loc x := if_neg h

/-- The items `xs` move from one list to another; `none` is outside the lists. -/
theorem Located.move (h : Located lists loc) {xs : List α} {source dest : Option ι} (hsource : ∀ x ∈ xs, loc x = source)
    (hnodup : xs.Nodup) (hcount : ∀ i x, (lists' i).count x + (if source = some i then xs.count x else 0) =
      (lists i).count x + if dest = some i then xs.count x else 0) : Located lists' (moved xs dest loc) := by
  intro i x
  have hx := hcount i x
  rw [h i x] at hx
  by_cases hxs : x ∈ xs
  · rw [List.count_eq_one_of_mem hnodup hxs, hsource x hxs] at hx
    rw [moved_of_mem hxs]
    omega
  · rw [List.count_eq_zero.mpr hxs] at hx
    rw [moved_of_notMem hxs]
    simpa using hx

theorem Located.congr (h : Located lists loc) (hcount : ∀ i y, (lists' i).count y = (lists i).count y) :
    Located lists' loc := fun i y => (hcount i y).trans (h i y)

end

end RetrOS.Lib
