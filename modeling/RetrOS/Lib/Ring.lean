import Mathlib.Data.Nat.ModEq
import Mathlib.Logic.Function.Basic
import Mathlib.Tactic.Common

/-!
# Queues in a ring of slots

`Ring cap vacant slots head tail l` : the first `cap` slots, read from `head` on and around the end, hold the list `l`
and are `vacant` behind it; `tail` is the first slot behind the list.

* `Occupied cap slots first next l` : the same without a word on the other slots, which may keep what was in them;
  `Occupied.push`, `Occupied.pop`, and `Occupied.first_eq_next_iff` : the indices of a full ring are those of an empty one;
* `Ring.empty` : all slots vacant;
* `Ring.slot_tail`, `Ring.push` : there is a vacant slot for one more, and what the ring is with it;
* `Ring.slot_head`, `Ring.pop` : the first one, and what the ring is without it.
-/

namespace RetrOS.Lib

variable {α : Type*}

structure Ring (cap : Nat) (vacant : α) (slots : Nat → α) (head tail : Nat) (l : List α) : Prop where
  head_lt : head < cap
  length_le : l.length ≤ cap
  tail_eq : tail = (head + l.length) % cap
  occupied : ∀ k (h : k < l.length), slots ((head + k) % cap) = l[k]
  others : ∀ k, l.length ≤ k → k < cap → slots ((head + k) % cap) = vacant

/-- The first slots from `first` on hold the list, and `next` is behind it. -/
structure Occupied (cap : Nat) (slots : Nat → α) (first next : Nat) (l : List α) : Prop where
  first_lt : first < cap
  length_le : l.length ≤ cap
  next_eq : next = (first + l.length) % cap
  slot : ∀ k (h : k < l.length), slots ((first + k) % cap) = l[k]

section
variable {cap : Nat} {vacant a : α} {slots : Nat → α} {head tail : Nat} {l : List α}

/-- Different places of a ring are different slots. -/
theorem ring_index_inj {j k : Nat} (hj : j < cap) (hk : k < cap) (h : (head + j) % cap = (head + k) % cap) : j = k := by
  have hmod : j ≡ k [MOD cap] := Nat.ModEq.add_left_cancel' head h
  rwa [Nat.ModEq, Nat.mod_eq_of_lt hj, Nat.mod_eq_of_lt hk] at hmod

/-- The places from the next slot on. -/
theorem ring_index_succ (head k : Nat) : ((head + 1) % cap + k) % cap = (head + (k + 1)) % cap := by
  rw [Nat.mod_add_mod, Nat.add_assoc, Nat.add_comm 1 k]

theorem Occupied.empty {first : Nat} (hfirst : first < cap) (slots : Nat → α) : Occupied cap slots first first [] where
  first_lt := hfirst
  length_le := Nat.zero_le _
  next_eq := (Nat.mod_eq_of_lt hfirst).symm
  slot _ hk := absurd hk (Nat.not_lt_zero _)

theorem Occupied.push {first next : Nat} (h : Occupied cap slots first next l) (hroom : l.length < cap) (a : α) :
    Occupied cap (Function.update slots next a) first ((next + 1) % cap) (l ++ [a]) := by
  have hne : ∀ k, k < cap → k ≠ l.length → (first + k) % cap ≠ next := fun k hk hkl heq =>
    hkl (ring_index_inj hk hroom (heq.trans h.next_eq))
  refine ⟨h.first_lt, ?_, ?_, fun k hk => ?_⟩
  · rw [List.length_append, List.length_singleton]
    exact hroom
  · rw [h.next_eq, Nat.mod_add_mod, List.length_append, List.length_singleton, Nat.add_assoc]
  · rw [List.length_append, List.length_singleton] at hk
    rcases Nat.lt_or_eq_of_le (Nat.le_of_lt_succ hk) with hlt | rfl
    · rw [Function.update_of_ne (hne k (hlt.trans hroom) hlt.ne), h.slot k hlt, List.getElem_append_left]
    · rw [← h.next_eq, Function.update_self, List.getElem_concat_length rfl]

theorem Occupied.pop {first next : Nat} (h : Occupied cap slots first next (a :: l)) :
    slots first = a ∧ Occupied cap slots ((first + 1) % cap) next l := by
  have hcap : 0 < cap := Nat.zero_lt_of_lt h.first_lt
  have hlen : l.length + 1 ≤ cap := h.length_le
  refine ⟨?_, Nat.mod_lt _ hcap, by omega, ?_, fun k hk => ?_⟩
  · have h0 := h.slot 0 (Nat.succ_pos _)
    rwa [Nat.add_zero, Nat.mod_eq_of_lt h.first_lt] at h0
  · rw [ring_index_succ]
    exact h.next_eq
  · rw [ring_index_succ]
    exact h.slot (k + 1) (Nat.succ_lt_succ hk)

/-- The two indices meet in an empty ring and in a full one. -/
theorem Occupied.first_eq_next_iff {first next : Nat} (h : Occupied cap slots first next l) :
    first = next ↔ l = [] ∨ l.length = cap := by
  have hcap : 0 < cap := Nat.zero_lt_of_lt h.first_lt
  constructor
  · intro heq
    rcases Nat.lt_or_eq_of_le h.length_le with hlt | hfull
    · have h0 : (first + 0) % cap = (first + l.length) % cap := by
        rw [← h.next_eq, ← heq, Nat.add_zero, Nat.mod_eq_of_lt h.first_lt]
      exact .inl (List.eq_nil_of_length_eq_zero (ring_index_inj hcap hlt h0).symm)
    · exact .inr hfull
  · rintro (rfl | hfull)
    · rw [h.next_eq, List.length_nil, Nat.add_zero, Nat.mod_eq_of_lt h.first_lt]
    · rw [h.next_eq, hfull, Nat.add_mod_right, Nat.mod_eq_of_lt h.first_lt]

theorem Ring.toOccupied (h : Ring cap vacant slots head tail l) : Occupied cap slots head tail l :=
  ⟨h.head_lt, h.length_le, h.tail_eq, h.occupied⟩

theorem Ring.empty (hcap : 0 < cap) (h : ∀ i, slots i = vacant) : Ring cap vacant slots 0 0 [] where
  head_lt := hcap
  length_le := Nat.zero_le _
  tail_eq := (Nat.zero_mod cap).symm
  occupied _ hk := absurd hk (Nat.not_lt_zero _)
  others _ _ _ := h _

theorem Ring.slot_tail (h : Ring cap vacant slots head tail l) (hroom : l.length < cap) : slots tail = vacant := by
  rw [h.tail_eq]
  exact h.others _ (Nat.le_refl _) hroom

theorem Ring.slot_head (h : Ring cap vacant slots head tail (a :: l)) : slots head = a := h.toOccupied.pop.1

theorem Ring.push (h : Ring cap vacant slots head tail l) (hroom : l.length < cap) (a : α) :
    Ring cap vacant (Function.update slots tail a) head ((tail + 1) % cap) (l ++ [a]) := by
  obtain ⟨hfirst, hlen, hnext, hslot⟩ := h.toOccupied.push hroom a
  refine ⟨hfirst, hlen, hnext, hslot, fun k hk hlt => ?_⟩
  rw [List.length_append, List.length_singleton] at hk
  have hne : (head + k) % cap ≠ tail := fun heq => by
    have hkl := ring_index_inj hlt hroom (heq.trans h.tail_eq)
    omega
  rw [Function.update_of_ne hne, h.others k (by omega) hlt]

theorem Ring.pop (h : Ring cap vacant slots head tail (a :: l)) :
    Ring cap vacant (Function.update slots head vacant) ((head + 1) % cap) tail l := by
  have hcap : 0 < cap := Nat.zero_lt_of_lt h.head_lt
  have hlen : l.length + 1 ≤ cap := h.length_le
  have hne : ∀ k, k + 1 < cap → (head + (k + 1)) % cap ≠ head := by
    intro k hk heq
    have h0 : (head + (k + 1)) % cap = (head + 0) % cap := by rw [heq, Nat.add_zero, Nat.mod_eq_of_lt h.head_lt]
    exact absurd (ring_index_inj hk hcap h0) (Nat.succ_ne_zero k)
  obtain ⟨-, hfirst, -, hnext, hslot⟩ := h.toOccupied.pop
  refine ⟨hfirst, by omega, hnext, fun k hk => ?_, fun k hk hlt => ?_⟩
  · have hk' := hslot k hk
    rw [ring_index_succ] at hk' ⊢
    rw [Function.update_of_ne (hne k (by omega)), hk']
  · rw [ring_index_succ]
    rcases Nat.lt_or_ge (k + 1) cap with hlt' | hge
    · rw [Function.update_of_ne (hne k hlt')]
      exact h.others (k + 1) (Nat.succ_le_succ hk) hlt'
    · -- the slot that has become vacant is the last one
      obtain rfl : cap = k + 1 := by omega
      rw [Nat.add_mod_right, Nat.mod_eq_of_lt h.head_lt, Function.update_self]

end

end RetrOS.Lib
