import Mathlib.Data.List.Nodup
import Mathlib.Logic.Relation

/-!
# Loops in rounds

A loop is a function that makes one round: it goes on, returns, or gets stuck in a call that does not return.

* `Round.heads` : the states in which a round begins, and what the loop returns, within a number of rounds;
* `Reaches` : the loop comes to a state; `Returns` : in no such state it gets stuck;
* `heads_unique`, `mem_heads`, `heads_of_reaches` : the loop is deterministic;
* `nodup_heads` : no two rounds begin with the same key, if the key decides the round; `pairwise_heads` : the keys
  grow, if every round makes them larger;
* `exists_heads_of_measure` : the rule for termination.
-/

namespace RetrOS.Lib

/-- What one round does. -/
inductive Round (σ ρ : Type*)
  | next (s : σ)
  | done (r : ρ)
  | stuck

variable {σ ρ κ : Type*} {round : σ → Round σ ρ} {s t : σ} {l l' : List σ} {r r' : ρ} {n m : Nat}

/-- The states in which the rounds begin, and the result, if there are at most `n` of them. -/
def Round.heads (round : σ → Round σ ρ) : Nat → σ → Option (List σ × ρ)
  | 0, _ => none
  | n + 1, s =>
    match round s with
    | .next t => (heads round n t).map fun x => (s :: x.1, x.2)
    | .done r => some ([s], r)
    | .stuck => none

/-- From `s` the loop comes to `t`. -/
def Reaches (round : σ → Round σ ρ) : σ → σ → Prop := Relation.ReflTransGen fun a b => round a = .next b

/-- No call on the way is one that does not return. -/
def Returns (round : σ → Round σ ρ) (s : σ) : Prop := ∀ t, Reaches round s t → round t ≠ .stuck

open Round

theorem heads_next (h : round s = .next t) :
    heads round (n + 1) s = (heads round n t).map fun x => (s :: x.1, x.2) := by
  rw [heads, h]

theorem heads_done (h : round s = .done r) : heads round (n + 1) s = some ([s], r) := by
  rw [heads, h]

/-- How a loop that returns has begun. -/
theorem heads_cases (h : heads round n s = some (l, r)) : (round s = .done r ∧ l = [s]) ∨
    ∃ t m l', round s = .next t ∧ n = m + 1 ∧ heads round m t = some (l', r) ∧ l = s :: l' := by
  cases n with
  | zero => cases h
  | succ m =>
    cases hround : round s with
    | next t =>
      rw [heads_next hround] at h
      obtain ⟨⟨l', r'⟩, htail, heq⟩ := Option.map_eq_some_iff.mp h
      obtain ⟨rfl, rfl⟩ := Prod.mk.inj heq
      exact .inr ⟨t, m, l', rfl, rfl, htail, rfl⟩
    | done r' =>
      rw [heads_done hround] at h
      obtain ⟨rfl, rfl⟩ := Prod.mk.inj (Option.some.inj h)
      exact .inl ⟨rfl, rfl⟩
    | stuck =>
      rw [heads, hround] at h
      cases h

theorem heads_unique (h : heads round n s = some (l, r)) (h' : heads round m s = some (l', r')) :
    l = l' ∧ r = r' := by
  induction n generalizing s m l l' with
  | zero => cases h
  | succ n ih =>
    rcases heads_cases h with ⟨hs, rfl⟩ | ⟨t, k, l₁, hs, hk, ht, rfl⟩
    · rcases heads_cases h' with ⟨hs', rfl⟩ | ⟨t, k, l₁, hs', -, -, -⟩
      · cases hs.symm.trans hs'
        exact ⟨rfl, rfl⟩
      · cases hs.symm.trans hs'
    · obtain rfl : n = k := Nat.succ.inj hk
      rcases heads_cases h' with ⟨hs', rfl⟩ | ⟨t', k', l₁', hs', -, ht', rfl⟩
      · cases hs.symm.trans hs'
      · cases hs.symm.trans hs'
        obtain ⟨rfl, rfl⟩ := ih ht ht'
        exact ⟨rfl, rfl⟩

/-- A state in which a round begins is reached, and the loop returns from there. -/
theorem mem_heads (h : heads round n s = some (l, r)) (ht : t ∈ l) :
    Reaches round s t ∧ ∃ m l', heads round m t = some (l', r) ∧ l'.length ≤ l.length := by
  induction n generalizing s l with
  | zero => cases h
  | succ n ih =>
    rcases heads_cases h with ⟨hs, rfl⟩ | ⟨u, k, l', hs, hk, hu, rfl⟩
    · rw [List.mem_singleton.mp ht]
      exact ⟨.refl, n + 1, [s], h, Nat.le_refl _⟩
    · obtain rfl : n = k := Nat.succ.inj hk
      rcases List.mem_cons.mp ht with rfl | ht'
      · exact ⟨.refl, n + 1, t :: l', h, Nat.le_refl _⟩
      · obtain ⟨hreach, m, l'', hm, hle⟩ := ih hu ht'
        exact ⟨.head hs hreach, m, l'', hm, Nat.le_trans hle (Nat.le_succ _)⟩

theorem heads_of_reaches (h : heads round n s = some (l, r)) (ht : Reaches round s t) :
    ∃ m l', heads round m t = some (l', r) := by
  induction ht using Relation.ReflTransGen.head_induction_on generalizing n l with
  | refl => exact ⟨n, l, h⟩
  | head hstep _ ih =>
    rcases heads_cases h with ⟨hs, -⟩ | ⟨u, k, l', hs, -, hu, -⟩
    · cases hstep.symm.trans hs
    · cases hstep.symm.trans hs
      exact ih hu

/-- A loop that returns gets stuck nowhere. -/
theorem returns_of_heads (h : heads round n s = some (l, r)) : Returns round s := by
  intro t ht hstuck
  obtain ⟨m, l', hm⟩ := heads_of_reaches h ht
  rcases heads_cases hm with ⟨hs, -⟩ | ⟨u, k, l', hs, -, -, -⟩
  · cases hstuck.symm.trans hs
  · cases hstuck.symm.trans hs

/-- Where the key decides the round, no two rounds of a loop that returns have the same one. -/
theorem nodup_heads {p : σ → Bool} {key : σ → κ} (h : heads round n s = some (l, r))
    (hkey : ∀ a b, Reaches round s a → Reaches round s b → p a → p b → key a = key b → round a = round b) :
    ((l.filter p).map key).Nodup := by
  induction n generalizing s l with
  | zero => cases h
  | succ n ih =>
    rcases heads_cases h with ⟨hs, rfl⟩ | ⟨t, k, l', hs, hk, ht, rfl⟩
    · rw [List.filter_singleton]
      cases p s with
      | true => exact List.nodup_singleton _
      | false => exact List.nodup_nil
    · obtain rfl : n = k := Nat.succ.inj hk
      have htail : ((l'.filter p).map key).Nodup :=
        ih ht fun a b ha hb => hkey a b (.head hs ha) (.head hs hb)
      cases hp : p s with
      | false => rwa [List.filter_cons_of_neg (by rw [hp]; exact Bool.false_ne_true)]
      | true =>
        rw [List.filter_cons_of_pos hp, List.map_cons, List.nodup_cons]
        refine ⟨fun hmem => ?_, htail⟩
        -- a later round with the same key would be followed by all that follows the first one
        obtain ⟨b, hb, heq⟩ := List.mem_map.mp hmem
        obtain ⟨hb, hpb⟩ := List.mem_filter.mp hb
        obtain ⟨hreach, m, l'', hm, hle⟩ := mem_heads ht hb
        have hround : round s = round b := hkey s b .refl (.head hs hreach) hp hpb heq.symm
        rcases heads_cases hm with ⟨hdone, -⟩ | ⟨u, k, l₁, hu, -, htail', rfl⟩
        · cases (hs.symm.trans hround).trans hdone
        · cases (hs.symm.trans hround).trans hu
          rw [(heads_unique ht htail').1, List.length_cons] at hle
          omega

theorem heads_eq_cons (h : heads round n s = some (l, r)) : ∃ l', l = s :: l' := by
  rcases heads_cases h with ⟨-, rfl⟩ | ⟨t, k, l', -, -, -, rfl⟩
  · exact ⟨[], rfl⟩
  · exact ⟨l', rfl⟩

/-- Where every round makes the key larger, no two rounds have the same one. -/
theorem pairwise_heads {key : σ → Nat} (h : heads round n s = some (l, r))
    (hlt : ∀ a b, Reaches round s a → round a = .next b → key a < key b) : (l.map key).Pairwise (· < ·) := by
  induction n generalizing s l with
  | zero => cases h
  | succ n ih =>
    rcases heads_cases h with ⟨hs, rfl⟩ | ⟨t, k, l', hs, hk, ht, rfl⟩
    · exact List.pairwise_singleton _ _
    · obtain rfl : n = k := Nat.succ.inj hk
      have htail : (l'.map key).Pairwise (· < ·) := ih ht fun a b ha => hlt a b (.head hs ha)
      have hst := hlt s t .refl hs
      obtain ⟨l'', rfl⟩ := heads_eq_cons ht
      rw [List.map_cons, List.pairwise_cons]
      refine ⟨fun x hx => ?_, htail⟩
      rw [List.map_cons] at htail hx
      rcases List.mem_cons.mp hx with rfl | hx
      · exact hst
      · exact Nat.lt_trans hst (List.rel_of_pairwise_cons htail hx)

/-- A loop that does not get stuck and makes something smaller returns. -/
theorem exists_heads_of_measure (measure : σ → Nat) (hreturns : Returns round s)
    (hlt : ∀ a b, Reaches round s a → round a = .next b → measure b < measure a) :
    ∃ n l r, heads round n s = some (l, r) := by
  induction hm : measure s using Nat.strongRecOn generalizing s with
  | ind m ih =>
    cases hs : round s with
    | done r => exact ⟨1, [s], r, heads_done hs⟩
    | stuck => exact absurd hs (hreturns s .refl)
    | next t =>
      obtain ⟨n, l, r, h⟩ := ih (measure t) (hm ▸ hlt s t .refl hs) (fun u hu => hreturns u (.head hs hu))
        (fun a b ha => hlt a b (.head hs ha)) rfl
      refine ⟨n + 1, s :: l, r, ?_⟩
      rw [heads_next hs, h]
      rfl

end RetrOS.Lib
