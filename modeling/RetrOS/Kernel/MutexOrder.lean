import RetrOS.Kernel.Conservation

/-!
# Mutual exclusion (`acquire` and `release` of `kernel/sync.c`, with the scheduler)

Processes are created, take turns, sleep, and use mutexes; no process exits. One mutex `m` is watched.

* `Held` : who is between `acquire` and `release`, who has blocked and who has been woken;
* `Disciplined` : `release` is only called by a process that is between the two;
* `Kernel.Calm` : nobody is a zombie, and who waits is `BLOCKED`;
* `mutexRun_excludes` : one process at a time, in the order in which they blocked.
-/

namespace RetrOS
open RetrOS.Lib

structure Held (P : Type*) where
  /-- between its `acquire` and its `release` -/
  inside : P → Bool
  /-- who has blocked, in order -/
  arrived : List P
  /-- the waiters that have obtained the mutex, in order -/
  obtained : List P

def Held.initial {P : Type*} : Held P := ⟨fun _ => false, [], []⟩

namespace Kernel

variable {P M : Type*} [DecidableEq P] [DecidableEq M]

/-- No process exits, and `m` is released from inside. -/
def Disciplined (m : M) (s : Kernel P M × Held P) : KernelAction P M → Prop
  | .exit => False
  | .release m' => m' = m → ∃ p, s.1.running = some p ∧ s.2.inside p = true
  | _ => True

structure Calm (s : Kernel P M) : Prop where
  alive : ∀ p, (s.pcb p).state ≠ .zombie
  waits : ∀ m, ∀ w ∈ (s.mutex m).blocked, (s.pcb w).state = .blocked

section
variable {s t : Kernel P M} {loc : P → Option (Place M)} {table : List P} {fuel : Nat} {a : KernelAction P M}
  {switches : Bool} {p : P} {m : M}

/-- The invariant of the scheduler in a run without exits. -/
structure Orderly (s : Kernel P M) : Prop where
  conserved : s.Conserved
  orphans : s.Orphans
  calm : s.Calm

/-- Who is inside holds the lock, and those that have blocked and not been woken wait for it. -/
structure Tracked (l : Mutex P) (g : Held P) : Prop where
  lock : ∃ a : Handover P, l.Is a ∧ (∀ p, g.inside p = true ↔ a.holder = some p) ∧ (a.waiters ≠ [] → a.holder ≠ none)
  order : g.arrived = g.obtained ++ l.blocked

end

end Kernel

end RetrOS
