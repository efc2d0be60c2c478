import Mathlib.Data.List.TakeWhile
import Mathlib.Tactic.Common

/-!
# Fields of a text

A text is read as fields of characters of one kind with a separator between them, as long as it goes: `Fields p sep n s
parts rest` says that `s` starts with `n` separators behind fields, that another field follows, and what the text goes
on with. A field may be empty. `zero_iff` and `succ_iff` are one step of reading it, from which `unique` follows.
-/

namespace RetrOS.Lib

variable {α : Type*}

/-- The fields with the separator between them, and the rest. -/
def joined (sep : α) : List (List α) → List α → List α
  | [], rest => rest
  | [part], rest => part ++ rest
  | part :: next :: parts, rest => part ++ sep :: joined sep (next :: parts) rest

structure Fields (p : α → Bool) (sep : α) (n : Nat) (s : List α) (parts : List (List α)) (rest : List α) : Prop where
  count : parts.length = n + 1
  kind : ∀ part ∈ parts, ∀ c ∈ part, p c
  stop : ∀ c ∈ rest.head?, ¬ p c
  text : s = joined sep parts rest

namespace Fields

variable {p : α → Bool} {sep : α} {n : Nat} {s rest : List α} {parts : List (List α)}

/-- The first field is as long as it can be. -/
theorem takeWhile_append {part : List α} (hpart : ∀ c ∈ part, p c) (hstop : ∀ c ∈ rest.head?, ¬ p c) :
    (part ++ rest).takeWhile p = part ∧ (part ++ rest).dropWhile p = rest := by
  rw [List.takeWhile_append_of_pos hpart, List.dropWhile_append_of_pos hpart]
  cases rest with
  | nil => simp
  | cons c rest => simp [hstop c rfl]

theorem head_dropWhile (s : List α) : ∀ c ∈ (s.dropWhile p).head?, ¬ p c := by
  intro c hc
  have := List.head?_dropWhile_not p s
  rw [hc] at this
  simpa using this

theorem zero_iff : Fields p sep 0 s parts rest ↔ parts = [s.takeWhile p] ∧ rest = s.dropWhile p := by
  constructor
  · intro h
    obtain ⟨part, rfl⟩ := List.length_eq_one_iff.mp h.count
    obtain ⟨htake, hdrop⟩ := takeWhile_append (h.kind part List.mem_cons_self) h.stop
    rw [h.text, joined, htake, hdrop]
    exact ⟨rfl, rfl⟩
  · rintro ⟨rfl, rfl⟩
    refine ⟨rfl, fun part hpart c hc => ?_, head_dropWhile s, List.takeWhile_append_dropWhile.symm⟩
    rw [List.mem_singleton.mp hpart] at hc
    exact List.mem_takeWhile_imp hc

theorem succ_iff (hsep : ¬ p sep) : Fields p sep (n + 1) s parts rest ↔ ∃ s' parts',
    s.dropWhile p = sep :: s' ∧ Fields p sep n s' parts' rest ∧ parts = s.takeWhile p :: parts' := by
  constructor
  · intro h
    obtain ⟨part, next, parts, rfl⟩ : ∃ part next parts', parts = part :: next :: parts' := by
      match parts, h.count with
      | part :: next :: parts, _ => exact ⟨part, next, parts, rfl⟩
    have hstop : ∀ c ∈ (sep :: joined sep (next :: parts) rest).head?, ¬ p c := by simpa using hsep
    obtain ⟨htake, hdrop⟩ := takeWhile_append (h.kind part List.mem_cons_self) hstop
    refine ⟨joined sep (next :: parts) rest, next :: parts, ?_, ?_, ?_⟩
    · rw [h.text, joined, hdrop]
    · exact ⟨by simpa using h.count, fun q hq => h.kind q (List.mem_cons_of_mem _ hq), h.stop, rfl⟩
    · rw [h.text, joined, htake]
  · rintro ⟨s', parts', hdrop, h, rfl⟩
    refine ⟨by simp [h.count], fun part hpart c hc => ?_, h.stop, ?_⟩
    · rcases List.mem_cons.mp hpart with rfl | hpart
      · exact List.mem_takeWhile_imp hc
      · exact h.kind part hpart c hc
    · obtain ⟨next, parts, rfl⟩ := List.exists_cons_of_length_eq_add_one h.count
      rw [joined, ← h.text, ← hdrop, List.takeWhile_append_dropWhile]

theorem unique (hsep : ¬ p sep) {parts' : List (List α)} {rest' : List α} (h : Fields p sep n s parts rest)
    (h' : Fields p sep n s parts' rest') : parts = parts' ∧ rest = rest' := by
  induction n generalizing s parts parts' with
  | zero =>
    obtain ⟨rfl, rfl⟩ := zero_iff.mp h
    obtain ⟨rfl, rfl⟩ := zero_iff.mp h'
    exact ⟨rfl, rfl⟩
  | succ n ih =>
    obtain ⟨s₁, parts₁, hdrop, h₁, rfl⟩ := (succ_iff hsep).mp h
    obtain ⟨s₂, parts₂, hdrop', h₂, rfl⟩ := (succ_iff hsep).mp h'
    obtain rfl : s₁ = s₂ := (List.cons.inj (hdrop.symm.trans hdrop')).2
    obtain ⟨rfl, rfl⟩ := ih h₁ h₂
    exact ⟨rfl, rfl⟩

end Fields

end RetrOS.Lib
