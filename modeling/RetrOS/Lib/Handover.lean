import Mathlib.Logic.Function.Basic
import Mathlib.Data.List.Nodup
import Mathlib.Tactic.Common

/-!
# Locks that are handed over

`Handover P` : a lock with its holder and the queue of the processes that wait for it. Whoever leaves hands it over to
the first in the queue.

`Coherent l phase` : the holder and the queue are those that the phases of the processes say. It is kept when a
process from outside enters (`Coherent.enter_free`, `Coherent.enter_busy`) and when the holder leaves
(`Coherent.leave_last`, `Coherent.leave_next`), and then at most one process is inside (`Coherent.exclusive`).
-/

namespace RetrOS.Lib

variable {P : Type*}

/-- Where a process is. -/
inductive Phase
  | outside
  | waiting
  | inside
  deriving DecidableEq

structure Handover (P : Type*) where
  holder : Option P
  waiters : List P

namespace Handover

/-- The lock after `p` entered, or queued behind the others. -/
def enter (l : Handover P) (p : P) : Handover P :=
  match l.holder with
  | none => { l with holder := some p }
  | some _ => { l with waiters := l.waiters ++ [p] }

/-- The lock after its holder left. -/
def leave (l : Handover P) : Handover P := ⟨l.waiters.head?, l.waiters.tail⟩

structure Coherent (l : Handover P) (phase : P → Phase) : Prop where
  inside : ∀ p, phase p = .inside ↔ l.holder = some p
  waiting : ∀ p, phase p = .waiting ↔ p ∈ l.waiters
  nodup : l.waiters.Nodup
  busy : l.waiters ≠ [] → l.holder ≠ none

section
variable {l : Handover P} {phase phase' : P → Phase} {p q w : P} {ws : List P}

theorem Coherent.init : Coherent (⟨none, []⟩ : Handover P) fun _ => .outside := by
  refine ⟨fun p => ?_, fun p => ?_, List.nodup_nil, fun h => absurd rfl h⟩
  · exact iff_of_false (by decide) (by simp)
  · exact iff_of_false (by decide) List.not_mem_nil

/-- At most one process is inside. -/
theorem Coherent.exclusive (h : Coherent l phase) (hp : phase p = .inside) (hq : phase q = .inside) : p = q :=
  Option.some.inj (((h.inside p).mp hp).symm.trans ((h.inside q).mp hq))

theorem Coherent.not_mem (h : Coherent l phase) (hp : phase p ≠ .waiting) : p ∉ l.waiters := fun hm =>
  hp ((h.waiting p).mpr hm)

variable [DecidableEq P]

/-- Entering a free lock. -/
theorem Coherent.enter_free (h : Coherent l phase) (hp : phase p = .outside) (hfree : l.holder = none)
    (hphase : ∀ q, phase' q = if q = p then .inside else phase q) : Coherent (l.enter p) phase' := by
  have hpw : p ∉ l.waiters := h.not_mem (by rw [hp]; decide)
  have hnone : ∀ q, phase q ≠ .inside := by
    intro q hq
    rw [h.inside, hfree] at hq
    exact absurd hq (by simp)
  rw [enter, hfree]
  refine ⟨fun q => ?_, fun q => ?_, h.nodup, fun _ => Option.some_ne_none p⟩
  · rw [hphase]
    split
    · next hq => exact iff_of_true rfl (congrArg some hq.symm)
    · next hq => exact iff_of_false (hnone q) fun heq => hq (Option.some.inj heq).symm
  · rw [hphase]
    split
    · next hq => exact iff_of_false (by decide) (hq ▸ hpw)
    · exact h.waiting q

/-- Queueing up behind the holder. -/
theorem Coherent.enter_busy (h : Coherent l phase) (hp : phase p = .outside) {r : P} (hbusy : l.holder = some r)
    (hphase : ∀ q, phase' q = if q = p then .waiting else phase q) : Coherent (l.enter p) phase' := by
  have hpw : p ∉ l.waiters := h.not_mem (by rw [hp]; decide)
  have henter : l.enter p = { l with waiters := l.waiters ++ [p] } := by rw [enter, hbusy]
  rw [henter]
  refine ⟨fun q => ?_, fun q => ?_, ?_, fun _ => ?_⟩
  · rw [hphase]
    split
    · next hq =>
      refine iff_of_false (by decide) fun hin => ?_
      rw [← h.inside, hq, hp] at hin
      exact absurd hin (by decide)
    · exact h.inside q
  · rw [hphase, List.mem_append, List.mem_singleton]
    split
    · next hq => exact iff_of_true rfl (.inr hq)
    · next hq => rw [h.waiting, or_iff_left hq]
  · exact List.nodup_append.mpr ⟨h.nodup, List.nodup_singleton p, fun a ha b hb heq => hpw
      (List.mem_singleton.mp hb ▸ heq ▸ ha)⟩
  · show l.holder ≠ none
    rw [hbusy]
    exact Option.some_ne_none r

/-- The holder leaves and nobody waits. -/
theorem Coherent.leave_last (h : Coherent l phase) (hp : l.holder = some p) (hw : l.waiters = [])
    (hphase : ∀ q, phase' q = if q = p then .outside else phase q) : Coherent l.leave phase' := by
  have hin := (h.inside p).mpr hp
  rw [leave, hw]
  refine ⟨fun q => ?_, fun q => ?_, List.nodup_nil, fun hne => absurd rfl hne⟩
  · refine iff_of_false ?_ (Option.some_ne_none q).symm
    rw [hphase]
    split
    · decide
    · next hq => exact fun hqin => hq (h.exclusive hqin hin)
  · refine iff_of_false ?_ List.not_mem_nil
    rw [hphase]
    split
    · decide
    · intro hq
      rw [h.waiting, hw] at hq
      exact List.not_mem_nil hq

/-- The holder leaves and the first waiting process goes in. -/
theorem Coherent.leave_next (h : Coherent l phase) (hp : l.holder = some p) (hw : l.waiters = w :: ws)
    (hphase : ∀ q, phase' q = if q = w then .inside else if q = p then .outside else phase q) :
    Coherent l.leave phase' := by
  have hin := (h.inside p).mpr hp
  have hpw : p ∉ l.waiters := h.not_mem (by rw [hin]; decide)
  have hnodup := h.nodup
  rw [hw, List.nodup_cons] at hnodup
  rw [hw, List.mem_cons, not_or] at hpw
  rw [leave, hw]
  refine ⟨fun q => ?_, fun q => ?_, hnodup.2, fun _ => Option.some_ne_none w⟩
  · rw [hphase]
    split
    · next hq => exact iff_of_true rfl (congrArg some hq.symm)
    · next hqw =>
      refine iff_of_false ?_ fun heq => hqw (Option.some.inj heq).symm
      split
      · decide
      · next hqp => exact fun hqin => hqp (h.exclusive hqin hin)
  · rw [hphase]
    split
    · next hq => exact iff_of_false (by decide) (hq ▸ hnodup.1)
    · next hqw =>
      split
      · next hqp => exact iff_of_false (by decide) (hqp ▸ hpw.2)
      · rw [h.waiting, hw, List.mem_cons, or_iff_right hqw]
        rfl

end

end Handover

end RetrOS.Lib
