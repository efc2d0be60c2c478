import RetrOS.Kernel.Sync
import Mathlib.Data.List.TakeWhile

/-!
# The scheduler (`kernel/scheduler.c`, `kernel/work.c`, `kernel/sync.c`, `kernel/pcb.c`)

One processor: interrupts are off in every switch, which is one step. The queues of PCBs are lists, which is what
they are without `remove`. A step that ends in a panic, in a failed `assert`, in the use of a NULL pointer or in the
endless loop of `sched_round_robin` has no next state.

* `Kernel` : the PCBs, the running one, the queues, the mutexes and the pool of works;
* `Kernel.switchLoop`, `Kernel.roundRobin` : `sched_round_robin`;
* `Kernel.step` : an operation of the running process, of the timer or of the worker;
* `switchLoop_eq` : what a switch does, in closed form.
-/

namespace RetrOS
open RetrOS.Lib

/-- `pcb_state_t` -/
inductive PcbState
  | stopped
  | running
  | pcbNew
  | blocked
  | sleeping
  | zombie
  deriving DecidableEq

/-- `pcb_type_t` -/
inductive PcbType
  | kthread
  | process
  | thread
  deriving DecidableEq

/-- The fields of `struct pcb` that the scheduler and the cleanup of a process look at. -/
structure Pcb (P : Type*) where
  state : PcbState
  sleep : BitVec 16
  isProcess : PcbType
  parent : Option P

/-- `__pcb_free` -/
def Pcb.free {P : Type*} : Pcb P := { state := .stopped, sleep := 0, isProcess := .kthread, parent := none }

/-- PCBs `P`, mutexes `M`. A work is the cleanup of a PCB, or one of another kind. -/
structure Kernel (P M : Type*) where
  pcb : P → Pcb P
  running : Option P
  queue : List P
  mutex : M → Mutex P
  /-- the works in the queue -/
  works : List (Option P)
  /-- the works that a worker has taken and not finished -/
  started : List (Option P)
  /-- how many entries of the pool are in use -/
  inUse : Nat
  tick : BitVec 32

abbrev workPoolSize : Nat := 25

namespace Kernel

variable {P M : Type*}

def initial : Kernel P M :=
  { pcb := fun _ => .free, running := none, queue := [], mutex := fun _ => .init, works := [], started := [],
    inUse := 0, tick := 0 }

/-- `work_queue_add`; the scheduler ignores that the pool is full. -/
def workQueueAdd (s : Kernel P M) (work : Option P) : Kernel P M :=
  if s.inUse < workPoolSize then { s with works := s.works ++ [work], inUse := s.inUse + 1 } else s

variable [DecidableEq P]

def setPcb (s : Kernel P M) (p : P) (pcb : Pcb P) : Kernel P M := { s with pcb := Function.update s.pcb p pcb }

def setState (s : Kernel P M) (p : P) (state : PcbState) : Kernel P M :=
  s.setPcb p { s.pcb p with state := state }

/-- The PCB is picked by a switch: it runs, is new, or has slept long enough. -/
def Runnable (s : Kernel P M) (p : P) : Prop :=
  match (s.pcb p).state with
  | .running => True
  | .pcbNew => True
  | .sleeping => ((s.pcb p).sleep.toNat : Int) < s.tick.toInt
  | _ => False

instance (s : Kernel P M) (p : P) : Decidable (s.Runnable p) := by
  unfold Runnable
  split <;> infer_instance

/-- The loop of `sched_round_robin`, and `start_pcb` if the PCB is new. -/
def switchLoop : Nat → Kernel P M → Option (Kernel P M)
  | 0, _ => none
  | fuel + 1, s =>
    match s.queue with
    | [] => none
    | next :: rest =>
      let popped := { s with queue := rest }
      let pushed := { s with queue := rest ++ [next] }
      match (s.pcb next).state with
      | .running => some { popped with running := some next }
      | .pcbNew => some { popped.setState next .running with running := some next }
      | .zombie => switchLoop fuel (popped.workQueueAdd (some next))
      | .sleeping =>
        if ((s.pcb next).sleep.toNat : Int) < s.tick.toInt then
          some { popped.setState next .running with running := some next }
        else switchLoop fuel pushed
      | _ => switchLoop fuel pushed

/-- The running PCB pushed behind the others. -/
def requeue (s : Kernel P M) : Kernel P M := { s with queue := s.queue ++ s.running.toList, running := none }

/-- `sched_round_robin`; `none` if the queue is empty. -/
def roundRobin (fuel : Nat) (s : Kernel P M) : Option (Kernel P M) :=
  if s.queue = [] then none else switchLoop fuel s.requeue

/-- `sched_default` -/
def schedule (fuel : Nat) (s : Kernel P M) : Option (Kernel P M) :=
  match s.running with
  | some _ => roundRobin fuel s
  | none =>
    match s.queue with
    | [] => none
    | p :: rest => roundRobin fuel { s with running := some p, queue := rest }

/-- `sched_sleep` -/
def sleep (fuel : Nat) (s : Kernel P M) (time : BitVec 32) : Option (Kernel P M) :=
  s.running.bind fun p =>
    schedule fuel (s.setPcb p { s.pcb p with sleep := (s.tick + time).setWidth 16, state := .sleeping })

/-- `sched_exit` -/
def exit (fuel : Nat) (s : Kernel P M) : Option (Kernel P M) :=
  s.running.bind fun p => roundRobin fuel (s.setState p .zombie)

variable [DecidableEq M]

/-- `acquire`, with `sched_consume` and `sched_block`. -/
def acquire (fuel : Nat) (s : Kernel P M) (m : M) : Option (Kernel P M) :=
  s.running.bind fun p =>
    let s' := { s with mutex := Function.update s.mutex m ((s.mutex m).acquire p).1 }
    if ((s.mutex m).acquire p).2 then some s'
    else roundRobin fuel ({ s' with running := none }.setState p .blocked)

/-- `release` -/
def release (s : Kernel P M) (m : M) : Kernel P M :=
  let s' := { s with mutex := Function.update s.mutex m (s.mutex m).release.1 }
  match (s.mutex m).release.2 with
  | none => s'
  | some blocked => { s' with queue := s.queue ++ [blocked] }.setState blocked .running

/-- `pcb_create_kthread`, `pcb_create_process` and `pcb_create_thread`: `__pcb_get_free` in the table and `sched_add`. -/
def create (table : List P) (s : Kernel P M) (isProcess : PcbType) (parent : Option P) : Option (Kernel P M) :=
  (table.find? fun p => decide ((s.pcb p).state = .stopped)).map fun p =>
    { s with queue := s.queue ++ [p] }.setPcb p { s.pcb p with state := .pcbNew, isProcess, parent }

/-- A worker takes the first work. -/
def takeWork (s : Kernel P M) : Option (Kernel P M) :=
  match s.works with
  | [] => none
  | work :: rest => some { s with works := rest, started := s.started ++ [work] }

/-- `pcb_cleanup_routine`: the threads of the process are killed, and its PCB is free. -/
def cleanup (s : Kernel P M) (p : P) : Kernel P M :=
  { s with pcb := fun i =>
      if i = p then .free
      else if (s.pcb i).parent = some p ∧ (s.pcb i).isProcess = .thread then { s.pcb i with state := .zombie }
      else s.pcb i }

/-- The cleanup of `p` that a worker has started; the work has nothing left to do. -/
def runWork (s : Kernel P M) (p : P) : Option (Kernel P M) :=
  if some p ∈ s.started then some ({ s with started := none :: s.started.erase (some p) }.cleanup p) else none

/-- A worker frees the entry of a work that is done. -/
def finishWork (s : Kernel P M) : Option (Kernel P M) :=
  if none ∈ s.started then some { s with started := s.started.erase none, inUse := s.inUse - 1 } else none

end Kernel

/-- What is created: a process is the child of the running one. -/
inductive Creation (P : Type*)
  | kthread
  | process
  | thread (parent : P)

inductive KernelAction (P M : Type*)
  | yield
  /-- `timer_callback` -/
  | timer
  | sleep (time : BitVec 32)
  | exit
  | acquire (m : M)
  | release (m : M)
  | create (c : Creation P)
  | takeWork
  | runWork (p : P)
  | finishWork
  /-- `work_queue_add` of other subsystems -/
  | otherWork

namespace Kernel

variable {P M : Type*} [DecidableEq P] [DecidableEq M]

def step (table : List P) (fuel : Nat) (s : Kernel P M) : KernelAction P M → Option (Kernel P M)
  | .yield => s.schedule fuel
  | .timer => schedule fuel { s with tick := s.tick + 1 }
  | .sleep time => s.sleep fuel time
  | .exit => s.exit fuel
  | .acquire m => s.acquire fuel m
  | .release m => some (s.release m)
  | .create .kthread => s.create table .kthread none
  | .create .process => s.create table .process s.running
  | .create (.thread parent) => s.create table .thread (some parent)
  | .takeWork => s.takeWork
  | .runWork p => s.runWork p
  | .finishWork => s.finishWork
  | .otherWork => some (s.workQueueAdd none)

/-- The action, and enough turns of the loop. -/
def Step (table : List P) (s : Kernel P M) (a : KernelAction P M) (t : Kernel P M) : Prop :=
  ∃ fuel, s.step table fuel a = some t

omit [DecidableEq M] in
theorem setState_self {s : Kernel P M} {p : P} {state : PcbState} (h : (s.pcb p).state = state) :
    s.setState p state = s := by
  subst h
  exact congrArg (fun pcb => { s with pcb := pcb }) (Function.update_eq_self p s.pcb)

/-- The state after a switch that looked at `pre`, took `next` and left `post`. -/
def switched (s : Kernel P M) (pre : List P) (next : P) (post : List P) : Kernel P M :=
  let zombies := pre.filter fun p => decide ((s.pcb p).state = .zombie)
  { s.setState next .running with
    running := some next
    queue := post ++ pre.filter fun p => decide ((s.pcb p).state ≠ .zombie)
    works := s.works ++ (zombies.take (workPoolSize - s.inUse)).map some
    inUse := s.inUse + min (workPoolSize - s.inUse) zombies.length }

section Switch
variable {s t : Kernel P M} {fuel : Nat} {pre post : List P} {next x : P}

omit [DecidableEq M] in
theorem switched_cons_zombie (h : (s.pcb x).state = .zombie) (queue : List P) :
    ({ s with queue := queue }.workQueueAdd (some x)).switched pre next post = s.switched (x :: pre) next post := by
  unfold workQueueAdd
  by_cases hroom : s.inUse < workPoolSize
  · obtain ⟨n, hn⟩ : ∃ n, workPoolSize - s.inUse = n + 1 := ⟨workPoolSize - s.inUse - 1, by omega⟩
    have hn' : workPoolSize - (s.inUse + 1) = n := by omega
    simp only [switched, if_pos hroom, List.filter_cons, h, decide_true, if_true, hn, hn', List.take_succ_cons,
      List.map_cons, List.length_cons, ne_eq, not_true_eq_false, decide_false, Bool.false_eq_true, if_false,
      List.append_assoc, List.singleton_append, setState, setPcb, Kernel.mk.injEq, true_and, and_true]
    omega
  · have hzero : workPoolSize - s.inUse = 0 := by omega
    simp [switched, if_neg hroom, h, hzero, setState, setPcb]

omit [DecidableEq M] in
theorem switched_cons_push (h : (s.pcb x).state ≠ .zombie) (queue : List P) :
    { s with queue := queue }.switched pre next (post ++ [x]) = s.switched (x :: pre) next post := by
  simp [switched, h, setState, setPcb]

omit [DecidableEq P] [DecidableEq M] in
@[simp] theorem pcb_workQueueAdd (s : Kernel P M) (work : Option P) : (s.workQueueAdd work).pcb = s.pcb := by
  unfold workQueueAdd
  split <;> rfl

omit [DecidableEq P] [DecidableEq M] in
@[simp] theorem queue_workQueueAdd (s : Kernel P M) (work : Option P) : (s.workQueueAdd work).queue = s.queue := by
  unfold workQueueAdd
  split <;> rfl

omit [DecidableEq P] [DecidableEq M] in
@[simp] theorem tick_workQueueAdd (s : Kernel P M) (work : Option P) : (s.workQueueAdd work).tick = s.tick := by
  unfold workQueueAdd
  split <;> rfl

omit [DecidableEq P] [DecidableEq M] in
theorem runnable_congr {p : P} (hpcb : s.pcb = t.pcb) (htick : s.tick = t.tick) : s.Runnable p ↔ t.Runnable p := by
  unfold Runnable
  rw [hpcb, htick]

omit [DecidableEq M] in
/-- One turn of the loop. -/
theorem switchLoop_cons {rest : List P} (h : s.queue = x :: rest) : switchLoop (fuel + 1) s =
    if s.Runnable x then some { { s with queue := rest }.setState x .running with running := some x }
    else if (s.pcb x).state = .zombie then switchLoop fuel ({ s with queue := rest }.workQueueAdd (some x))
    else switchLoop fuel { s with queue := rest ++ [x] } := by
  rw [switchLoop, h]
  cases hst : (s.pcb x).state with
  | running =>
    have hself : { s with queue := rest }.setState x .running = { s with queue := rest } := setState_self hst
    simp [Runnable, hst, hself]
  | sleeping => simp [Runnable, hst]
  | _ => simp [Runnable, hst]

omit [DecidableEq M] in
/-- The PCBs that the loop has put back are those of `done`. -/
theorem switchLoop_eq_aux {todo done : List P} (h : switchLoop fuel s = some t) (hqueue : s.queue = todo ++ done)
    (hdone : ∀ p ∈ done, ¬ s.Runnable p ∧ (s.pcb p).state ≠ .zombie) : ∃ pre next post, todo = pre ++ next :: post ∧
      (∀ p ∈ pre, ¬ s.Runnable p) ∧ s.Runnable next ∧ t = s.switched pre next (post ++ done) := by
  induction fuel generalizing s todo done with
  | zero => exact absurd h (Option.some_ne_none t).symm
  | succ fuel ih =>
    cases todo with
    | nil =>
      -- all of them have been put back: nothing has changed, and the loop goes on
      cases done with
      | nil =>
        rw [switchLoop, hqueue] at h
        exact absurd h (Option.some_ne_none t).symm
      | cons x done =>
        obtain ⟨hx, hz⟩ := hdone x (List.mem_cons_self ..)
        rw [switchLoop_cons hqueue, if_neg hx, if_neg hz] at h
        obtain ⟨pre, next, post, hnil, -⟩ := ih h (List.nil_append _).symm
          fun p hp => hdone p (by simpa [or_comm] using hp)
        exact absurd hnil (by simp)
    | cons x todo =>
      rw [List.cons_append] at hqueue
      rw [switchLoop_cons hqueue] at h
      split at h
      · next hx =>
        refine ⟨[], x, todo, rfl, List.forall_mem_nil _, hx, ?_⟩
        rw [← Option.some.inj h]
        simp [switched, setState, setPcb]
      · next hx =>
        split at h
        · next hz =>
          have hcongr (p : P) := runnable_congr (p := p) (pcb_workQueueAdd { s with queue := todo ++ done } (some x))
            (tick_workQueueAdd ..)
          obtain ⟨pre, next, post, rfl, hpre, hnext, ht⟩ := ih h (queue_workQueueAdd ..) fun p hp => by
            rw [hcongr p, pcb_workQueueAdd]
            exact hdone p hp
          refine ⟨x :: pre, next, post, rfl, List.forall_mem_cons.mpr ⟨hx, fun p hp => ?_⟩, (hcongr next).mp hnext, ?_⟩
          · exact fun hr => hpre p hp ((hcongr p).mpr hr)
          · rw [ht, switched_cons_zombie hz]
        · next hz =>
          obtain ⟨pre, next, post, rfl, hpre, hnext, ht⟩ := ih h (List.append_assoc todo done [x])
            fun p hp => (List.mem_append.mp hp).elim (hdone p) fun hm => by
              obtain rfl := List.mem_singleton.mp hm
              exact ⟨hx, hz⟩
          refine ⟨x :: pre, next, post, rfl, List.forall_mem_cons.mpr ⟨hx, hpre⟩, hnext, ?_⟩
          rw [ht, ← List.append_assoc, switched_cons_push hz]

omit [DecidableEq M] in
/-- A switch takes the first PCB that can run. Of those in front of it, the zombies are given to the workers as long as
there is room, and the others put back. -/
theorem switchLoop_eq (h : switchLoop fuel s = some t) : ∃ pre next post, s.queue = pre ++ next :: post ∧
    (∀ p ∈ pre, ¬ s.Runnable p) ∧ s.Runnable next ∧ t = s.switched pre next post := by
  have heq := switchLoop_eq_aux h (List.append_nil _).symm (List.forall_mem_nil _)
  simpa only [List.append_nil] using heq

omit [DecidableEq M] in
theorem roundRobin_eq (h : roundRobin fuel s = some t) : ∃ pre next post, s.requeue.queue = pre ++ next :: post ∧
    (∀ p ∈ pre, ¬ s.Runnable p) ∧ s.Runnable next ∧ t = s.requeue.switched pre next post := by
  unfold roundRobin at h
  split at h
  · exact absurd h (Option.some_ne_none t).symm
  · exact switchLoop_eq h

theorem release_of_nil {m : M} (h : (s.mutex m).blocked = []) :
    s.release m = { s with mutex := Function.update s.mutex m (s.mutex m).release.1 } := by
  unfold release
  rw [(s.mutex m).blocked_release.2, h]
  rfl

theorem release_of_cons {m : M} {w : P} {rest : List P} (h : (s.mutex m).blocked = w :: rest) :
    s.release m = { s with
      mutex := Function.update s.mutex m (s.mutex m).release.1, queue := s.queue ++ [w] }.setState w .running := by
  unfold release
  rw [(s.mutex m).blocked_release.2, h]
  rfl

omit [DecidableEq M] in
theorem state_setState (s : Kernel P M) (p : P) (state : PcbState) (q : P) :
    ((s.setState p state).pcb q).state = if q = p then state else (s.pcb q).state := by
  show (Function.update s.pcb p _ q).state = _
  by_cases h : q = p
  · rw [h, Function.update_self, if_pos rfl]
  · rw [Function.update_of_ne h, if_neg h]

omit [DecidableEq M] in
theorem pcb_setPcb (s : Kernel P M) (p : P) (pcb : Pcb P) (q : P) :
    (s.setPcb p pcb).pcb q = if q = p then pcb else s.pcb q := by
  show Function.update s.pcb p pcb q = _
  by_cases h : q = p
  · rw [h, Function.update_self, if_pos rfl]
  · rw [Function.update_of_ne h, if_neg h]

/-- The process from which a switch starts: the running one, or else the first in the queue. -/
def dispatch (s : Kernel P M) : Kernel P M :=
  match s.running, s.queue with
  | none, p :: rest => { s with running := some p, queue := rest }
  | _, _ => s

omit [DecidableEq M] in
theorem schedule_eq (h : schedule fuel s = some t) : roundRobin fuel s.dispatch = some t := by
  unfold schedule at h
  unfold dispatch
  cases hrunning : s.running with
  | some p =>
    rw [hrunning] at h
    exact h
  | none =>
    rw [hrunning] at h
    cases hqueue : s.queue with
    | nil =>
      rw [hqueue] at h
      exact absurd h (Option.some_ne_none t).symm
    | cons p rest =>
      rw [hqueue] at h
      exact h

end Switch

section Works
variable {s t : Kernel P M} {p : P}

omit [DecidableEq M] in
theorem create_some {table : List P} {isProcess : PcbType} {parent : Option P}
    (h : s.create table isProcess parent = some t) : ∃ p, (s.pcb p).state = .stopped ∧
      t = { s with queue := s.queue ++ [p] }.setPcb p { s.pcb p with state := .pcbNew, isProcess, parent } := by
  obtain ⟨p, hp, rfl⟩ := Option.map_eq_some_iff.mp h
  have hfound := List.find?_some hp
  exact ⟨p, of_decide_eq_true hfound, rfl⟩

omit [DecidableEq P] [DecidableEq M] in
theorem takeWork_some (h : s.takeWork = some t) : ∃ work rest, s.works = work :: rest ∧
    t = { s with works := rest, started := s.started ++ [work] } := by
  unfold takeWork at h
  split at h
  · cases h
  · next work rest hworks =>
    cases h
    exact ⟨work, rest, hworks, rfl⟩

omit [DecidableEq M] in
theorem runWork_some (h : s.runWork p = some t) :
    some p ∈ s.started ∧ t = { s with started := none :: s.started.erase (some p) }.cleanup p := by
  unfold runWork at h
  split at h
  · next hp =>
    cases h
    exact ⟨hp, rfl⟩
  · cases h

omit [DecidableEq M] in
theorem finishWork_some (h : s.finishWork = some t) :
    none ∈ s.started ∧ t = { s with started := s.started.erase none, inUse := s.inUse - 1 } := by
  unfold finishWork at h
  split at h
  · next hnone =>
    cases h
    exact ⟨hnone, rfl⟩
  · cases h

omit [DecidableEq M] in
theorem pcb_cleanup_self (s : Kernel P M) (p : P) : (s.cleanup p).pcb p = .free := if_pos rfl

omit [DecidableEq M] in
theorem pcb_cleanup (s : Kernel P M) {p q : P} (hq : q ≠ p) : (s.cleanup p).pcb q =
    if (s.pcb q).parent = some p ∧ (s.pcb q).isProcess = .thread then { s.pcb q with state := .zombie }
    else s.pcb q := if_neg hq

end Works

/-- What an action does before it calls `sched_round_robin` (`true`), or altogether. -/
inductive Enters (table : List P) (s : Kernel P M) : KernelAction P M → Bool → Kernel P M → Prop
  | yield : Enters table s .yield true s.dispatch
  | timer : Enters table s .timer true { s with tick := s.tick + 1 }.dispatch
  | sleep (time : BitVec 32) (p : P) (hp : s.running = some p) : Enters table s (.sleep time) true
      (s.setPcb p { s.pcb p with sleep := (s.tick + time).setWidth 16, state := .sleeping })
  | exit (p : P) (hp : s.running = some p) : Enters table s .exit true (s.setState p .zombie)
  | acquireFree (m : M) (p : P) (hp : s.running = some p) (hfree : ((s.mutex m).acquire p).2 = true) :
      Enters table s (.acquire m) false { s with mutex := Function.update s.mutex m ((s.mutex m).acquire p).1 }
  | acquireBusy (m : M) (p : P) (hp : s.running = some p) (hbusy : ((s.mutex m).acquire p).2 = false) :
      Enters table s (.acquire m) true
        ({ s with mutex := Function.update s.mutex m ((s.mutex m).acquire p).1, running := none }.setState p .blocked)
  | release (m : M) : Enters table s (.release m) false (s.release m)
  | create (c : Creation P) (isProcess : PcbType) (parent : Option P) (t : Kernel P M)
      (ht : s.create table isProcess parent = some t) : Enters table s (.create c) false t
  | takeWork (t : Kernel P M) (ht : s.takeWork = some t) : Enters table s .takeWork false t
  | runWork (p : P) (t : Kernel P M) (ht : s.runWork p = some t) : Enters table s (.runWork p) false t
  | finishWork (t : Kernel P M) (ht : s.finishWork = some t) : Enters table s .finishWork false t
  | otherWork : Enters table s .otherWork false (s.workQueueAdd none)

theorem step_enters {table : List P} {fuel : Nat} {s t : Kernel P M} {a : KernelAction P M}
    (h : s.step table fuel a = some t) : ∃ switches s', Enters table s a switches s' ∧
      if switches then roundRobin fuel s' = some t else t = s' := by
  cases a with
  | yield => exact ⟨true, _, .yield, schedule_eq h⟩
  | timer => exact ⟨true, _, .timer, schedule_eq h⟩
  | sleep time =>
    obtain ⟨p, hp, hsched⟩ := Option.bind_eq_some_iff.mp h
    refine ⟨true, _, .sleep time p hp, ?_⟩
    have hdispatch := schedule_eq hsched
    rwa [dispatch, show (s.setPcb p _).running = some p from hp] at hdispatch
  | exit =>
    obtain ⟨p, hp, hround⟩ := Option.bind_eq_some_iff.mp h
    exact ⟨true, _, .exit p hp, hround⟩
  | acquire m =>
    obtain ⟨p, hp, hacquire⟩ := Option.bind_eq_some_iff.mp h
    dsimp only at hacquire
    split at hacquire
    · next hfree => exact ⟨false, _, .acquireFree m p hp hfree, (Option.some.inj hacquire).symm⟩
    · next hbusy => exact ⟨true, _, .acquireBusy m p hp (Bool.not_eq_true _ ▸ hbusy), hacquire⟩
  | release m => exact ⟨false, _, .release m, (Option.some.inj h).symm⟩
  | create c =>
    cases c with
    | kthread => exact ⟨false, t, .create _ _ _ t h, rfl⟩
    | process => exact ⟨false, t, .create _ _ _ t h, rfl⟩
    | thread parent => exact ⟨false, t, .create _ _ _ t h, rfl⟩
  | takeWork => exact ⟨false, t, .takeWork t h, rfl⟩
  | runWork p => exact ⟨false, t, .runWork p t h, rfl⟩
  | finishWork => exact ⟨false, t, .finishWork t h, rfl⟩
  | otherWork => exact ⟨false, _, .otherWork, (Option.some.inj h).symm⟩

end Kernel

end RetrOS
