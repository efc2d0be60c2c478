import RetrOS.Lib.Handover

/-!
# Mutexes (`kernel/sync.c`)

`acquire` and `release` run with interrupts off, each is one step. A mutex does not record who holds it: `release` has
the effect of a handover or of unlocking whoever calls it. `Mutex.Is l a` : the mutex `l` is the lock `a` without its
holder; it stays so while every call of `release` is the holder's.
-/

namespace RetrOS
open RetrOS.Lib

/-- `lock_state_t` of an initialised mutex. -/
inductive LockState
  | locked
  | unlocked
  deriving DecidableEq

structure Mutex (P : Type*) where
  state : LockState
  /-- the processes that wait, the first one in front -/
  blocked : List P

namespace Mutex

variable {P : Type*}

/-- `mutex_init` -/
def init : Mutex P := ⟨.unlocked, []⟩

/-- `acquire`, and whether the caller goes on. -/
def acquire (l : Mutex P) (current : P) : Mutex P × Bool :=
  match l.state with
  | .locked => ({ l with blocked := l.blocked ++ [current] }, false)
  | .unlocked => ({ l with state := .locked }, true)

/-- `release`, and the process woken. -/
def release (l : Mutex P) : Mutex P × Option P :=
  match l.blocked with
  | blocked :: rest => ({ l with blocked := rest }, some blocked)
  | [] => ({ l with state := .unlocked }, none)

theorem blocked_acquire (l : Mutex P) (p : P) :
    (l.acquire p).1.blocked = if (l.acquire p).2 then l.blocked else l.blocked ++ [p] := by
  unfold acquire
  split <;> rfl

theorem blocked_release (l : Mutex P) : l.release.1.blocked = l.blocked.tail ∧ l.release.2 = l.blocked.head? := by
  unfold release
  split
  · next hl => exact ⟨(congrArg List.tail hl).symm, (congrArg List.head? hl).symm⟩
  · next hl => exact ⟨hl.trans (congrArg List.tail hl).symm, (congrArg List.head? hl).symm⟩

structure Is (l : Mutex P) (a : Handover P) : Prop where
  state : l.state = if a.holder = none then .unlocked else .locked
  blocked : l.blocked = a.waiters

theorem init_is : (init : Mutex P).Is ⟨none, []⟩ := ⟨rfl, rfl⟩

section
variable {l : Mutex P} {a : Handover P}

theorem Is.acquire_free (h : l.Is a) (hfree : a.holder = none) (p : P) :
    (l.acquire p).2 = true ∧ (l.acquire p).1.Is (a.enter p) := by
  have hstate := h.state
  rw [if_pos hfree] at hstate
  rw [acquire, hstate, Handover.enter, hfree]
  exact ⟨rfl, (if_neg (Option.some_ne_none p)).symm, h.blocked⟩

theorem Is.acquire_busy (h : l.Is a) {r : P} (hbusy : a.holder = some r) (p : P) :
    (l.acquire p).2 = false ∧ (l.acquire p).1.Is (a.enter p) := by
  have hstate := h.state
  rw [hbusy, if_neg (Option.some_ne_none r)] at hstate
  have henter : a.enter p = { a with waiters := a.waiters ++ [p] } := by rw [Handover.enter, hbusy]
  rw [acquire, hstate, henter]
  refine ⟨rfl, ?_, congrArg (· ++ [p]) h.blocked⟩
  show LockState.locked = if a.holder = none then _ else _
  rw [hbusy, if_neg (Option.some_ne_none r)]

/-- The holder's call of `release`. -/
theorem Is.release (h : l.Is a) {p : P} (hp : a.holder = some p) :
    l.release.2 = a.leave.holder ∧ l.release.1.Is a.leave := by
  have hstate := h.state
  rw [hp, if_neg (Option.some_ne_none p)] at hstate
  rw [Mutex.release, h.blocked, Handover.leave]
  cases hw : a.waiters with
  | nil => exact ⟨rfl, rfl, rfl⟩
  | cons w ws => exact ⟨rfl, hstate.trans (if_neg (Option.some_ne_none w)).symm, rfl⟩

end

end Mutex

end RetrOS
