import Mathlib.Data.List.Infix
import Mathlib.Tactic.Common

/-!
# Runs of equal elements

* `runs x n l` : the list `replicate n x ++ l` cut into its runs, a run as its element and its length;
* `expand` : the list that runs stand for; `expand_runs` : that of the runs of a list is the list;
* `expand_map_eq_iff` : shortened runs expand to the same list only where none of them is shortened;
* `replicate_infix_append` : equal elements in a row do not reach over a change of the element;
* `forall_runs_lt_iff` : all runs are shorter than `m` iff no `m` elements in a row are equal.
-/

namespace RetrOS.Lib

variable {α : Type*}

/-- The list that runs stand for. -/
def expand (rs : List (α × Nat)) : List α := rs.flatMap fun r => List.replicate r.2 r.1

section
variable {rs : List (α × Nat)}

@[simp] theorem expand_nil : expand ([] : List (α × Nat)) = [] := rfl

@[simp] theorem expand_cons (r : α × Nat) (rs : List (α × Nat)) :
    expand (r :: rs) = List.replicate r.2 r.1 ++ expand rs := List.flatMap_cons

/-- A run of the list stands in it. -/
theorem replicate_infix_expand {r : α × Nat} (h : r ∈ rs) : List.replicate r.2 r.1 <:+: expand rs := by
  obtain ⟨before, behind, rfl⟩ := List.append_of_mem h
  refine ⟨expand before, expand behind, ?_⟩
  simp only [expand, List.flatMap_append, List.flatMap_cons, List.append_assoc]

/-- Where `f` shortens some runs, the list is the same only if it shortens none. -/
theorem expand_map_eq_iff {f : Nat → Nat} (hf : ∀ n, f n ≤ n) (rs : List (α × Nat)) :
    expand (rs.map fun r => (r.1, f r.2)) = expand rs ↔ ∀ r ∈ rs, f r.2 = r.2 := by
  constructor
  · intro h
    have hlen := congrArg List.length h
    clear h
    have hle : ∀ l : List (α × Nat), (expand (l.map fun r => (r.1, f r.2))).length ≤ (expand l).length := by
      intro l
      induction l with
      | nil => exact Nat.le_refl _
      | cons r l ih =>
        simp only [List.map_cons, expand_cons, List.length_append, List.length_replicate]
        exact Nat.add_le_add (hf r.2) ih
    induction rs with
    | nil => exact fun r hr => absurd hr List.not_mem_nil
    | cons r rs ih =>
      simp only [List.map_cons, expand_cons, List.length_append, List.length_replicate] at hlen
      have hr := hf r.2
      have hrs := hle rs
      exact List.forall_mem_cons.mpr ⟨by omega, ih (by omega)⟩
  · intro h
    rw [List.map_congr_left (g := id) fun r hr => by rw [h r hr, id], List.map_id]

end

theorem replicate_append_cons (x : α) (n : Nat) (l : List α) :
    List.replicate n x ++ x :: l = List.replicate (n + 1) x ++ l := by
  rw [List.replicate_succ', List.append_assoc, List.singleton_append]

/-- `m` equal elements in a row in two lists put together stand in one of them, if the element changes between them. -/
theorem replicate_infix_append {m n : Nat} {b x y : α} {l : List α} (hne : x ≠ y)
    (h : List.replicate m b <:+: List.replicate n x ++ y :: l) :
    List.replicate m b <:+: List.replicate n x ∨ List.replicate m b <:+: y :: l := by
  obtain ⟨s, t, heq⟩ := h
  rw [List.append_assoc, List.append_eq_append_iff] at heq
  rcases heq with ⟨c, hs, hrest⟩ | ⟨c, hs, hrest⟩
  · -- the row begins in the first list
    rw [List.append_eq_append_iff] at hrest
    rcases hrest with ⟨d, hd, -⟩ | ⟨d, hd, htail⟩
    · exact .inl ⟨s, d, by rw [List.append_assoc, ← hd, ← hs]⟩
    · rcases d with - | ⟨z, d⟩
      · exact .inl ⟨s, [], by rw [hd, List.append_nil, List.append_nil, hs]⟩
      · rcases c with - | ⟨w, c⟩
        · exact .inr ⟨[], t, by rw [hd, List.nil_append, List.nil_append, htail]⟩
        · -- an element of either list is in the row
          obtain ⟨rfl, -⟩ : y = z ∧ _ := by simpa using htail
          have hw : w = x := List.eq_of_mem_replicate (n := n) (by rw [hs]; simp)
          have hwb : w = b := List.eq_of_mem_replicate (n := m) (by rw [hd]; simp)
          have hyb : y = b := List.eq_of_mem_replicate (n := m) (by rw [hd]; simp)
          exact absurd (hw.symm.trans (hwb.trans hyb.symm)) hne
  · exact .inr ⟨c, t, by rw [List.append_assoc, hrest]⟩

section
variable [DecidableEq α]

/-- The runs of `n` times `x` followed by a list. -/
def runs (x : α) (n : Nat) : List α → List (α × Nat)
  | [] => [(x, n)]
  | y :: l => if y = x then runs x (n + 1) l else (x, n) :: runs y 1 l

theorem expand_runs (x : α) (n : Nat) (l : List α) : expand (runs x n l) = List.replicate n x ++ l := by
  induction l generalizing x n with
  | nil => rw [runs, expand_cons, expand_nil]
  | cons y l ih =>
    rw [runs]
    split
    · next h => rw [ih, h, replicate_append_cons]
    · rw [expand_cons, ih, List.replicate_one, List.singleton_append]

theorem runs_replicate (x : α) (n m : Nat) : runs x n (List.replicate m x) = [(x, n + m)] := by
  induction m generalizing n with
  | zero => rfl
  | succ m ih => rw [List.replicate_succ, runs, if_pos rfl, ih, Nat.add_right_comm, Nat.add_assoc]

/-- Equal elements in a row lie in one run. -/
theorem exists_run_of_infix {m : Nat} {b x : α} {n : Nat} {l : List α}
    (h : List.replicate m b <:+: List.replicate n x ++ l) : ∃ r ∈ runs x n l, m ≤ r.2 := by
  induction l generalizing x n with
  | nil =>
    rw [List.append_nil] at h
    have hle := h.length_le
    rw [List.length_replicate, List.length_replicate] at hle
    exact ⟨(x, n), List.mem_singleton_self _, hle⟩
  | cons y l ih =>
    rw [runs]
    split
    · next hyx =>
      rw [hyx, replicate_append_cons] at h
      exact ih h
    · next hyx =>
      rcases replicate_infix_append (Ne.symm hyx) h with hin | hin
      · have hle := hin.length_le
        rw [List.length_replicate, List.length_replicate] at hle
        exact ⟨(x, n), List.mem_cons_self, hle⟩
      · obtain ⟨r, hr, hle⟩ := ih (x := y) (n := 1) hin
        exact ⟨r, List.mem_cons_of_mem _ hr, hle⟩

/-- All runs are shorter than `m` where no `m` elements in a row are equal. -/
theorem forall_runs_lt_iff (m : Nat) (x : α) (l : List α) :
    (∀ r ∈ runs x 1 l, r.2 < m) ↔ ¬ ∃ b, List.replicate m b <:+: x :: l := by
  constructor
  · rintro h ⟨b, hb⟩
    obtain ⟨r, hr, hle⟩ := exists_run_of_infix (x := x) (n := 1) hb
    exact absurd (h r hr) (Nat.not_lt.mpr hle)
  · intro h r hr
    by_contra hlt
    refine h ⟨r.1, ?_⟩
    have hin := replicate_infix_expand hr
    rw [expand_runs, List.replicate_one, List.singleton_append] at hin
    refine List.IsInfix.trans ⟨[], List.replicate (r.2 - m) r.1, ?_⟩ hin
    rw [List.nil_append, ← List.replicate_add, Nat.add_sub_cancel' (Nat.not_lt.mp hlt)]

end

end RetrOS.Lib
