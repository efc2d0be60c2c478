import RetrOS.Kernel.Conservation

/-!
# Zombies (`pcb_kill`, and who writes the state of a PCB)

The scheduler with what else writes to a PCB's state: `pcb_kill`, the sockets (`net/socket.c`, `net/tcp.c`), the windows
(`graphics/gfxlib.c`) and the network daemon.

* `System.step` : an action of one of them;
* `System.written` : the PCB whose state an action overwrites without a look at it;
* `systemRun_zombie` : a zombie remains one, and is not run again, as long as no such PCB is a zombie.
-/

namespace RetrOS
open RetrOS.Lib

/-- Sockets `S`, each with the process that waits for it. -/
structure System (P M S : Type*) where
  kernel : Kernel P M
  waiting : S → Option P

inductive SystemAction (P M S : Type*)
  | kernel (a : KernelAction P M)
  /-- `pcb_kill` -/
  | kill (p : P)
  /-- `waiting` of a new socket -/
  | socketNew (sock : S)
  /-- `TCP_BLOCK`, and the loop of `net_sock_read` -/
  | tcpBlock (sock : S)
  /-- `TCP_UNBLOCK`, and what `tcp_handle_receive` does where the connection closes -/
  | tcpUnblock (sock : S)
  /-- `net_sock_add_data_segment` -/
  | addData (sock : S)
  /-- `gfx_event_loop` without an event -/
  | eventLoop
  /-- `gfx_push_event` to a window of the process -/
  | pushEvent (owner : P)
  /-- the wake-up of the network daemon -/
  | netdWake (netd : P)

namespace Kernel

variable {P M : Type*} [DecidableEq P]

/-- The running process is `BLOCKED` and yields. -/
def wait (fuel : Nat) (s : Kernel P M) : Option (Kernel P M) :=
  s.running.bind fun p => schedule fuel (s.setState p .blocked)

/-- The wake-up of a process that is tested to be `BLOCKED`. -/
def wake (s : Kernel P M) (p : P) : Kernel P M := if (s.pcb p).state = .blocked then s.setState p .running else s

section
variable {s t : Kernel P M} {fuel : Nat} {q : P}

/-- A switch neither makes a zombie nor wakes one. -/
theorem zombie_roundRobin (h : roundRobin fuel s = some t) :
    ((t.pcb q).state = .zombie ↔ (s.pcb q).state = .zombie) ∧ (t.running = some q → (t.pcb q).state = .running) := by
  obtain ⟨pre, next, post, -, -, hnext, rfl⟩ := roundRobin_eq h
  have hstate := state_setState s.requeue next .running q
  refine ⟨?_, fun hq => ?_⟩
  · show ((s.requeue.setState next .running).pcb q).state = _ ↔ _
    rw [hstate]
    split
    · next hq =>
      refine iff_of_false nofun fun hz => ?_
      subst hq
      unfold Runnable at hnext
      rw [hz] at hnext
      exact hnext
    · exact Iff.rfl
  · show ((s.requeue.setState next .running).pcb q).state = _
    rw [hstate, if_pos (Option.some.inj hq).symm]

theorem zombie_setState {p : P} {state : PcbState} (hstate : state ≠ .zombie) (hz : (s.pcb q).state = .zombie) :
    ((s.setState p state).pcb q).state = .zombie ↔ some p ≠ some q := by
  rw [state_setState]
  split
  · next hq => exact iff_of_false hstate fun hne => hne (congrArg some hq.symm)
  · next hq => exact iff_of_true hz fun heq => hq (Option.some.inj heq).symm

theorem zombie_wake (s : Kernel P M) (p : P) (hz : (s.pcb q).state = .zombie) :
    ((s.wake p).pcb q).state = .zombie ∧ (s.wake p).running = s.running := by
  unfold wake
  split
  · next hb =>
    refine ⟨(zombie_setState (by decide) hz).mpr fun heq => ?_, rfl⟩
    obtain rfl := Option.some.inj heq
    rw [hz] at hb
    exact absurd hb nofun
  · exact ⟨hz, rfl⟩

variable [DecidableEq M]

/-- The PCB whose state an action overwrites without a look at it. -/
def written (s : Kernel P M) : KernelAction P M → Option P
  | .sleep _ => s.running
  | .acquire m => if (s.mutex m).state = .locked then s.running else none
  | .release m => (s.mutex m).blocked.head?
  | _ => none

variable {table : List P} {a : KernelAction P M} {switches : Bool}

theorem zombie_enters (h : Enters table s a switches t) (ha : a ≠ .runWork q) (hz : (s.pcb q).state = .zombie) :
    (t.pcb q).state = .zombie ↔ s.written a ≠ some q := by
  have hnone : (none : Option P) ≠ some q := (Option.some_ne_none q).symm
  have hsame (hpcb : t.pcb q = s.pcb q) : (t.pcb q).state = .zombie ↔ (none : Option P) ≠ some q :=
    iff_of_true (hpcb ▸ hz) hnone
  cases h with
  | yield => exact hsame (congrFun (pcb_dispatch s) q)
  | timer => exact hsame (congrFun (pcb_dispatch _) q)
  | sleep time p hp =>
    rw [pcb_setPcb, written, hp]
    split
    · next hq => exact iff_of_false (by simp) fun hne => hne (congrArg some hq.symm)
    · next hq => exact iff_of_true hz fun heq => hq (Option.some.inj heq).symm
  | exit p hp =>
    rw [state_setState]
    refine iff_of_true ?_ hnone
    split
    · rfl
    · exact hz
  | acquireFree m p hp hfree =>
    have hstate : (s.mutex m).state ≠ .locked := fun hl => by simp [Mutex.acquire, hl] at hfree
    rw [written, if_neg hstate]
    exact hsame rfl
  | acquireBusy m p hp hbusy =>
    have hstate : (s.mutex m).state = .locked := by
      unfold Mutex.acquire at hbusy
      split at hbusy
      · assumption
      · exact absurd hbusy.symm Bool.false_ne_true
    rw [written, if_pos hstate, hp]
    exact zombie_setState (by decide) hz
  | release m =>
    rw [written]
    cases hl : (s.mutex m).blocked with
    | nil =>
      exact hsame (congrFun (congrArg pcb (release_of_nil hl)) q)
    | cons w rest =>
      rw [release_of_cons hl]
      exact zombie_setState (by decide) hz
  | create c isProcess parent t ht =>
    obtain ⟨p, hstopped, rfl⟩ := create_some ht
    refine hsame ((pcb_setPcb _ p _ q).trans (if_neg fun heq => ?_))
    rw [← heq, hz] at hstopped
    exact absurd hstopped (by decide)
  | takeWork t ht =>
    obtain ⟨work, rest, -, rfl⟩ := takeWork_some ht
    exact hsame rfl
  | runWork p t ht =>
    obtain ⟨-, rfl⟩ := runWork_some ht
    have hq : q ≠ p := fun heq => ha (congrArg _ heq.symm)
    refine iff_of_true ?_ hnone
    rw [pcb_cleanup _ hq]
    split
    · rfl
    · exact hz
  | finishWork t ht =>
    obtain ⟨-, rfl⟩ := finishWork_some ht
    exact hsame rfl
  | otherWork => exact hsame (congrFun (pcb_workQueueAdd s none) q)

/-- An action that does not switch leaves the running process. -/
theorem running_enters (h : Enters table s a false t) : t.running = s.running := by
  cases h with
  | acquireFree m p hp hfree => rfl
  | release m =>
    cases hl : (s.mutex m).blocked with
    | nil => rw [release_of_nil hl]
    | cons w rest => rw [release_of_cons hl]; rfl
  | create c isProcess parent t ht =>
    obtain ⟨p, -, rfl⟩ := create_some ht
    rfl
  | takeWork t ht =>
    obtain ⟨work, rest, -, rfl⟩ := takeWork_some ht
    rfl
  | runWork p t ht =>
    obtain ⟨-, rfl⟩ := runWork_some ht
    rfl
  | finishWork t ht =>
    obtain ⟨-, rfl⟩ := finishWork_some ht
    rfl
  | otherWork =>
    unfold workQueueAdd
    split <;> rfl

theorem zombie_kernel (h : s.step table fuel a = some t) (ha : a ≠ .runWork q) (hz : (s.pcb q).state = .zombie) :
    ((t.pcb q).state = .zombie ↔ s.written a ≠ some q) ∧
      ((t.pcb q).state = .zombie → t.running = some q → s.running = some q) := by
  obtain ⟨switches, s', henters, ht⟩ := step_enters h
  rw [← zombie_enters henters ha hz]
  cases switches with
  | true =>
    obtain ⟨hiff, hrun⟩ := zombie_roundRobin (q := q) (by simpa using ht)
    exact ⟨hiff, fun hz' hr => absurd ((hrun hr).symm.trans hz') nofun⟩
  | false =>
    obtain rfl : t = s' := by simpa using ht
    exact ⟨Iff.rfl, fun _ hr => running_enters henters ▸ hr⟩

omit [DecidableEq M] in
theorem zombie_wait (h : s.wait fuel = some t) (hz : (s.pcb q).state = .zombie) :
    ((t.pcb q).state = .zombie ↔ s.running ≠ some q) ∧
      ((t.pcb q).state = .zombie → t.running = some q → s.running = some q) := by
  obtain ⟨p, hp, hsched⟩ := Option.bind_eq_some_iff.mp h
  have hround := schedule_eq hsched
  rw [dispatch, show (s.setState p _).running = some p from hp] at hround
  obtain ⟨hiff, hrun⟩ := zombie_roundRobin (q := q) hround
  rw [hiff, hp]
  exact ⟨zombie_setState (by decide) hz, fun hz' hr => absurd ((hrun hr).symm.trans (hiff.mpr hz')) (by decide)⟩

end

end Kernel

namespace System

variable {P M S : Type*} [DecidableEq P] [DecidableEq M] [DecidableEq S]

def step (table : List P) (fuel : Nat) (s : System P M S) : SystemAction P M S → Option (System P M S)
  | .kernel a => (s.kernel.step table fuel a).map fun kernel => { s with kernel }
  | .kill p => some { s with kernel := s.kernel.setState p .zombie }
  | .socketNew sock => some { s with waiting := Function.update s.waiting sock none }
  | .tcpBlock sock =>
    (s.kernel.wait fuel).map fun kernel => { kernel, waiting := Function.update s.waiting sock s.kernel.running }
  | .tcpUnblock sock =>
    match s.waiting sock with
    | none => some s
    | some p =>
      some { kernel := s.kernel.setState p .running, waiting := Function.update s.waiting sock none }
  | .addData sock =>
    match s.waiting sock with
    | none => some s
    | some p =>
      if (s.kernel.pcb p).state = .blocked then
        some { kernel := s.kernel.setState p .running, waiting := Function.update s.waiting sock none }
      else some s
  | .eventLoop => (s.kernel.wait fuel).map fun kernel => { s with kernel }
  | .pushEvent owner => some { s with kernel := s.kernel.wake owner }
  | .netdWake netd => some { s with kernel := s.kernel.wake netd }

def Step (table : List P) (s : System P M S) (a : SystemAction P M S) (t : System P M S) : Prop :=
  ∃ fuel, s.step table fuel a = some t

/-- The PCB whose state an action overwrites without a look at it. -/
def written (s : System P M S) : SystemAction P M S → Option P
  | .kernel a => s.kernel.written a
  | .tcpBlock _ => s.kernel.running
  | .tcpUnblock sock => s.waiting sock
  | .eventLoop => s.kernel.running
  | _ => none

/-- The PCB that the action overwrites is not a zombie. -/
def Respects (s : System P M S) (a : SystemAction P M S) : Prop :=
  ∀ p, s.written a = some p → (s.kernel.pcb p).state ≠ .zombie

/-- The zombies that the action does not clean up remain zombies, and it does not run them. -/
def Absorbs (s : System P M S) (a : SystemAction P M S) (t : System P M S) : Prop :=
  ∀ q, (s.kernel.pcb q).state = .zombie → a ≠ .kernel (.runWork q) →
    (t.kernel.pcb q).state = .zombie ∧ (t.kernel.running = some q → s.kernel.running = some q)

section
variable {s t : System P M S} {table : List P} {fuel : Nat} {a : SystemAction P M S} {q : P}

theorem zombie_step (h : s.step table fuel a = some t) (ha : a ≠ .kernel (.runWork q))
    (hz : (s.kernel.pcb q).state = .zombie) :
    ((t.kernel.pcb q).state = .zombie ↔ s.written a ≠ some q) ∧
      ((t.kernel.pcb q).state = .zombie → t.kernel.running = some q → s.kernel.running = some q) := by
  cases a with
  | kernel a =>
    obtain ⟨kernel, hk, rfl⟩ := Option.map_eq_some_iff.mp h
    exact Kernel.zombie_kernel hk (fun heq => ha (congrArg _ heq)) hz
  | kill p =>
    obtain rfl := Option.some.inj h
    refine ⟨iff_of_true ?_ nofun, fun _ hr => hr⟩
    show ((s.kernel.setState p .zombie).pcb q).state = _
    rw [Kernel.state_setState]
    split
    · rfl
    · exact hz
  | socketNew sock =>
    obtain rfl := Option.some.inj h
    exact ⟨iff_of_true hz nofun, fun _ hr => hr⟩
  | tcpBlock sock =>
    obtain ⟨kernel, hk, rfl⟩ := Option.map_eq_some_iff.mp h
    exact Kernel.zombie_wait hk hz
  | tcpUnblock sock =>
    rw [step] at h
    rw [written]
    cases hw : s.waiting sock with
    | none =>
      rw [hw] at h
      obtain rfl := Option.some.inj h
      exact ⟨iff_of_true hz nofun, fun _ hr => hr⟩
    | some p =>
      rw [hw] at h
      obtain rfl := Option.some.inj h
      exact ⟨Kernel.zombie_setState (by decide) hz, fun _ hr => hr⟩
  | addData sock =>
    rw [step] at h
    cases hw : s.waiting sock with
    | none =>
      rw [hw] at h
      obtain rfl := Option.some.inj h
      exact ⟨iff_of_true hz nofun, fun _ hr => hr⟩
    | some p =>
      rw [hw] at h
      dsimp only at h
      split at h
      · next hb =>
        obtain rfl := Option.some.inj h
        refine ⟨iff_of_true ((Kernel.zombie_setState (by decide) hz).mpr fun heq => ?_) nofun, fun _ hr => hr⟩
        rw [Option.some.inj heq, hz] at hb
        exact absurd hb nofun
      · obtain rfl := Option.some.inj h
        exact ⟨iff_of_true hz nofun, fun _ hr => hr⟩
  | eventLoop =>
    obtain ⟨kernel, hk, rfl⟩ := Option.map_eq_some_iff.mp h
    exact Kernel.zombie_wait hk hz
  | pushEvent owner =>
    obtain rfl := Option.some.inj h
    obtain ⟨hwake, hrun⟩ := Kernel.zombie_wake s.kernel owner hz
    exact ⟨iff_of_true hwake nofun, fun _ hr => hrun ▸ hr⟩
  | netdWake netd =>
    obtain rfl := Option.some.inj h
    obtain ⟨hwake, hrun⟩ := Kernel.zombie_wake s.kernel netd hz
    exact ⟨iff_of_true hwake nofun, fun _ hr => hrun ▸ hr⟩

/-- A step respects the zombies exactly if the PCB that it overwrites is not one. -/
theorem absorbs_iff (h : s.step table fuel a = some t) : s.Absorbs a t ↔ s.Respects a := by
  constructor
  · intro habsorbs p hp hz
    have ha : a ≠ .kernel (.runWork p) := by
      rintro rfl
      exact absurd hp nofun
    exact (zombie_step h ha hz).1.mp (habsorbs p hz ha).1 hp
  · intro hrespects q hz ha
    obtain ⟨hiff, hrun⟩ := zombie_step h ha hz
    have hz' := hiff.mpr fun hp => hrespects q hp hz
    exact ⟨hz', hrun hz'⟩

/-- In a run that overwrites no zombie, a zombie remains one until it is cleaned up, and is not run again. The next
step respects the zombies exactly if it overwrites none. -/
theorem systemRun_zombie {as : List (SystemAction P M S)} (h : Run (Step table) Respects s as t) :
    (∀ q, (s.kernel.pcb q).state = .zombie → .kernel (.runWork q) ∉ as →
      (t.kernel.pcb q).state = .zombie ∧ (t.kernel.running = some q → s.kernel.running = some q)) ∧
    ∀ a u, Step table t a u → (t.Absorbs a u ↔ t.Respects a) := by
  refine ⟨fun q hz hclean => ?_, fun a u ⟨fuel, hst⟩ => absorbs_iff hst⟩
  induction h with
  | nil => exact ⟨hz, fun hr => hr⟩
  | cons hok hst _ ih =>
    obtain ⟨fuel, hst⟩ := hst
    rw [List.mem_cons, not_or] at hclean
    obtain ⟨hz', hrun⟩ := (absorbs_iff hst).mpr hok q hz (Ne.symm hclean.1)
    obtain ⟨hz'', hrun'⟩ := ih hz' hclean.2
    exact ⟨hz'', fun hr => hrun (hrun' hr)⟩

end

/-- The second process is killed in the ready queue: it remains a zombie when the first one yields. -/
theorem systemRun_zombie_killed : ∃ t : System (Fin 2) Unit Unit, (t.kernel.pcb 1).state = .zombie ∧
    t.kernel.running = some 0 := by
  let s : System (Fin 2) Unit Unit :=
    { kernel :=
        { Kernel.initial with
          pcb := fun p => { Pcb.free with state := if p = 0 then .running else .zombie }
          running := some 0
          queue := [1] }
      waiting := fun _ => none }
  have hrun : Run (Step (List.finRange 2)) Respects s [.kernel .yield] _ :=
    .single nofun ⟨2, rfl⟩
  obtain ⟨hzombie, -⟩ := systemRun_zombie hrun
  exact ⟨_, (hzombie 1 rfl (by simp)).1, rfl⟩

/-- The second process is killed while it waits for a mutex of the first one. -/
def killWaiter : List (SystemAction (Fin 2) Unit Unit) :=
  [.kernel (.create .kthread), .kernel (.create .kthread), .kernel .yield, .kernel .yield, .kernel (.acquire ()),
    .kernel .yield, .kernel (.acquire ()), .kill 1]

/-- `release` makes the zombie run again. -/
theorem release_revives : ∃ s t : System (Fin 2) Unit Unit,
    AnyRun (Step (List.finRange 2)) ⟨.initial, fun _ => none⟩ killWaiter s ∧ (s.kernel.pcb 1).state = .zombie ∧
    s.kernel.running = some 0 ∧ AnyRun (Step (List.finRange 2)) s [.kernel (.release ()), .kernel .yield] t ∧
    (t.kernel.pcb 1).state = .running ∧ t.kernel.running = some 1 := by
  have hend : (exec (step (List.finRange 2) 2) ⟨.initial, fun _ => none⟩ killWaiter).map (fun s =>
      ((s.kernel.pcb 1).state, s.kernel.running,
        (exec (step (List.finRange 2) 2) s [.kernel (.release ()), .kernel .yield]).map fun t =>
          ((t.kernel.pcb 1).state, t.kernel.running))) = some (.zombie, some 0, some (.running, some 1)) := by rfl
  obtain ⟨s, hkill, hs⟩ := Option.map_eq_some_iff.mp hend
  obtain ⟨hzombie, hrunning, hrelease⟩ := Prod.mk.inj hs |>.imp_right Prod.mk.inj
  obtain ⟨t, hrelease, ht⟩ := Option.map_eq_some_iff.mp hrelease
  obtain ⟨hstate, hrevived⟩ := Prod.mk.inj ht
  exact ⟨s, t, (run_of_exec hkill).imp fun _ _ _ h => ⟨2, h⟩, hzombie, hrunning,
    (run_of_exec hrelease).imp fun _ _ _ h => ⟨2, h⟩, hstate, hrevived⟩

end System

end RetrOS
