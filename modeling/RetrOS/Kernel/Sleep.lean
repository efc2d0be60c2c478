import RetrOS.Kernel.Zombie
import Mathlib.Algebra.GroupWithZero.Nat

/-!
# Sleeping processes (`sched_sleep`, and who is woken)

A process that calls `sched_sleep(time)` in tick `t` is due in tick `t + time`. Its PCB keeps 16 bits of that, which
`sched_round_robin` compares with the tick count taken as an `int`.

* `Kernel.sleepersPopped` : the sleeping PCBs that the loop of a switch pops, and whether it sets them to `RUNNING`;
* `Clock` : the system with the true number of ticks and with the tick till which each process sleeps;
* `Kernel.Told` : what the kernel knows of the two, in every state of every run;
* `OnTime`, `clockRun_iff` : a switch wakes the processes that are due, and no other, exactly if the 16 bits and the
  `int` compare as the true numbers do.
-/

namespace RetrOS
open RetrOS.Lib

namespace Kernel

variable {P M : Type*}

/-- The loop of `sched_round_robin`, by the sleeping PCBs that it pops: `true` for one that is set to `RUNNING`. -/
def sleepersPopped : Nat → Kernel P M → List (P × Bool)
  | 0, _ => []
  | fuel + 1, s =>
    match s.queue with
    | [] => []
    | next :: rest =>
      let popped := { s with queue := rest }
      let pushed := { s with queue := rest ++ [next] }
      match (s.pcb next).state with
      | .running => []
      | .pcbNew => []
      | .zombie => sleepersPopped fuel (popped.workQueueAdd (some next))
      | .sleeping =>
        if ((s.pcb next).sleep.toNat : Int) < s.tick.toInt then [(next, true)]
        else (next, false) :: sleepersPopped fuel pushed
      | _ => sleepersPopped fuel pushed

/-- The sleeping PCBs that `sched_round_robin` pops. -/
def popped (fuel : Nat) (s : Kernel P M) : List (P × Bool) :=
  if s.queue = [] then [] else s.requeue.sleepersPopped fuel

/-- What the kernel knows: the tick count in 32 bits, and 16 bits of the tick till which a process sleeps. -/
structure Told (s : Kernel P M) (uptime : Nat) (due : P → Nat) : Prop where
  tick : s.tick = BitVec.ofNat 32 uptime
  sleep : ∀ p, (s.pcb p).state = .sleeping → (s.pcb p).sleep = BitVec.ofNat 16 (due p)

/-- Every process that sleeps in `t` has slept in `s`, till the same tick. -/
def KeepsSleep (s t : Kernel P M) : Prop :=
  ∀ q, (t.pcb q).state = .sleeping → (s.pcb q).state = .sleeping ∧ (t.pcb q).sleep = (s.pcb q).sleep

section
variable {s t : Kernel P M} {fuel : Nat} {p : P} {uptime : Nat} {due : P → Nat}

/-- One turn of the loop, in the order of `switchLoop_cons`. -/
theorem sleepersPopped_cons {x : P} {rest : List P} (h : s.queue = x :: rest) : s.sleepersPopped (fuel + 1) =
    if s.Runnable x then if (s.pcb x).state = .sleeping then [(x, true)] else []
    else if (s.pcb x).state = .zombie then ({ s with queue := rest }.workQueueAdd (some x)).sleepersPopped fuel
    else
      (if (s.pcb x).state = .sleeping then [(x, false)] else []) ++
        { s with queue := rest ++ [x] }.sleepersPopped fuel := by
  rw [sleepersPopped, h]
  cases hst : (s.pcb x).state with
  | sleeping =>
    by_cases hlt : ((s.pcb x).sleep.toNat : Int) < s.tick.toInt
    · simp [Runnable, hst, hlt]
    · simp [Runnable, hst, hlt]
  | _ => simp [Runnable, hst]

theorem sleepersPopped_nil (h : s.queue = []) : s.sleepersPopped fuel = [] := by
  cases fuel with
  | zero => rfl
  | succ fuel => rw [sleepersPopped, h]

/-- A popped sleeper is woken if the switch finds it runnable. -/
theorem sleepersPopped_spec {woken : Bool} (h : (p, woken) ∈ s.sleepersPopped fuel) :
    (s.pcb p).state = .sleeping ∧ (woken = true ↔ s.Runnable p) := by
  induction fuel generalizing s with
  | zero => exact absurd h List.not_mem_nil
  | succ fuel ih =>
    cases hqueue : s.queue with
    | nil =>
      rw [sleepersPopped_nil hqueue] at h
      exact absurd h List.not_mem_nil
    | cons x rest =>
      rw [sleepersPopped_cons hqueue] at h
      split at h
      · next hx =>
        split at h
        · next hstate =>
          obtain ⟨rfl, rfl⟩ := Prod.mk.inj (List.mem_singleton.mp h)
          exact ⟨hstate, iff_of_true rfl hx⟩
        · exact absurd h List.not_mem_nil
      · next hx =>
        split at h
        · obtain ⟨hstate, hiff⟩ := ih h
          rw [pcb_workQueueAdd] at hstate
          exact ⟨hstate, hiff.trans (runnable_congr (pcb_workQueueAdd ..) (tick_workQueueAdd ..))⟩
        · rcases List.mem_append.mp h with hself | hrest
          · split at hself
            · next hstate =>
              obtain ⟨rfl, rfl⟩ := Prod.mk.inj (List.mem_singleton.mp hself)
              exact ⟨hstate, iff_of_false Bool.false_ne_true hx⟩
            · exact absurd hself List.not_mem_nil
          · obtain ⟨hstate, hiff⟩ := ih hrest
            exact ⟨hstate, hiff.trans (runnable_congr rfl rfl)⟩

variable [DecidableEq P]

theorem running_of_woken (hp : (p, true) ∈ s.sleepersPopped fuel) (h : switchLoop fuel s = some t) :
    t.running = some p := by
  induction fuel generalizing s with
  | zero => exact absurd hp List.not_mem_nil
  | succ fuel ih =>
    cases hqueue : s.queue with
    | nil =>
      rw [sleepersPopped_nil hqueue] at hp
      exact absurd hp List.not_mem_nil
    | cons x rest =>
      rw [sleepersPopped_cons hqueue] at hp
      rw [switchLoop_cons hqueue] at h
      split at hp
      · next hx =>
        rw [if_pos hx] at h
        split at hp
        · obtain ⟨rfl, -⟩ := Prod.mk.inj (List.mem_singleton.mp hp)
          rw [← Option.some.inj h]
        · exact absurd hp List.not_mem_nil
      · next hx =>
        rw [if_neg hx] at h
        split at hp
        · next hz =>
          rw [if_pos hz] at h
          exact ih hp h
        · next hz =>
          rw [if_neg hz] at h
          rcases List.mem_append.mp hp with hself | hrest
          · split at hself
            · exact absurd (Prod.mk.inj (List.mem_singleton.mp hself)).2 nofun
            · exact absurd hself List.not_mem_nil
          · exact ih hrest h

/-- The switch that the list is about: the one woken is set to `RUNNING` and runs, the others go on sleeping. -/
theorem popped_roundRobin {woken : Bool} (hp : (p, woken) ∈ s.popped fuel) (h : roundRobin fuel s = some t) :
    (t.pcb p).state = (if woken then .running else .sleeping) ∧ (woken = true → t.running = some p) := by
  unfold popped at hp
  unfold roundRobin at h
  split at hp
  · exact absurd hp List.not_mem_nil
  · next hqueue =>
    rw [if_neg hqueue] at h
    obtain ⟨hstate, hwoken⟩ := sleepersPopped_spec hp
    cases woken with
    | true =>
      have hrunning := running_of_woken hp h
      obtain ⟨pre, next, post, -, -, -, rfl⟩ := switchLoop_eq h
      obtain rfl : next = p := Option.some.inj hrunning
      exact ⟨(state_setState s.requeue next .running next).trans (if_pos rfl), fun _ => hrunning⟩
    | false =>
      obtain ⟨pre, next, post, -, -, hnext, rfl⟩ := switchLoop_eq h
      have hne : p ≠ next := fun heq => Bool.false_ne_true (hwoken.mpr (heq ▸ hnext))
      exact ⟨(state_setState s.requeue next .running p).trans ((if_neg hne).trans hstate), nofun⟩

omit [DecidableEq P] in
theorem popped_spec {woken : Bool} (h : (p, woken) ∈ s.popped fuel) :
    (s.pcb p).state = .sleeping ∧ (woken = true ↔ s.Runnable p) := by
  unfold popped at h
  split at h
  · exact absurd h List.not_mem_nil
  · obtain ⟨hstate, hwoken⟩ := sleepersPopped_spec h
    exact ⟨hstate, hwoken.trans (runnable_congr rfl rfl)⟩

omit [DecidableEq P] in
theorem KeepsSleep.of_pcb (h : t.pcb = s.pcb) : KeepsSleep s t := fun q hq => ⟨h ▸ hq, by rw [h]⟩

/-- A PCB that is set to another state than `SLEEPING`. -/
theorem KeepsSleep.setPcb {pcb : Pcb P} (hpcb : pcb.state ≠ .sleeping) (hs : t.pcb = s.pcb) :
    KeepsSleep s (t.setPcb p pcb) := by
  intro q hq
  rw [pcb_setPcb] at hq ⊢
  split at hq
  · exact absurd hq hpcb
  · next hne =>
    rw [if_neg hne]
    exact KeepsSleep.of_pcb hs q hq

theorem KeepsSleep.roundRobin (h : roundRobin fuel s = some t) : KeepsSleep s t := by
  obtain ⟨pre, next, post, -, -, -, rfl⟩ := roundRobin_eq h
  have hrunning : ({ s.pcb next with state := .running } : Pcb P).state ≠ .sleeping := nofun
  exact KeepsSleep.setPcb hrunning rfl

theorem tick_roundRobin (h : Kernel.roundRobin fuel s = some t) : t.tick = s.tick := by
  obtain ⟨pre, next, post, -, -, -, rfl⟩ := roundRobin_eq h
  rfl

omit [DecidableEq P] in
theorem Told.congr (hs : s.Told uptime due) (htick : t.tick = s.tick) (hkeeps : KeepsSleep s t) :
    t.Told uptime due where
  tick := htick.trans hs.tick
  sleep p hp := (hkeeps p hp).2.trans (hs.sleep p (hkeeps p hp).1)

/-! ## The number of ticks, and till when a process sleeps -/

/-- The ticks after an action. -/
def uptimeAfter (uptime : Nat) : KernelAction P M → Nat
  | .timer => uptime + 1
  | _ => uptime

/-- The tick till which each process sleeps after an action. -/
def dueAfter (s : Kernel P M) (uptime : Nat) (due : P → Nat) : KernelAction P M → P → Nat
  | .sleep time =>
    match s.running with
    | some p => Function.update due p (uptime + time.toNat)
    | none => due
  | _ => due

variable [DecidableEq M] {table : List P} {a : KernelAction P M} {switches : Bool}

omit [DecidableEq P] [DecidableEq M] in
theorem tick_dispatch (s : Kernel P M) : s.dispatch.tick = s.tick := by
  unfold dispatch
  split <;> rfl

theorem tick_release (s : Kernel P M) (m : M) : (s.release m).tick = s.tick := by
  unfold release
  dsimp only
  split <;> rfl

theorem KeepsSleep.release (s : Kernel P M) (m : M) : KeepsSleep s (s.release m) := by
  cases hl : (s.mutex m).blocked with
  | nil =>
    rw [release_of_nil hl]
    exact .of_pcb rfl
  | cons w rest =>
    rw [release_of_cons hl]
    exact .setPcb nofun rfl

/-- What the kernel knows where an action enters the scheduler, or ends without it. -/
theorem Told.enters (hs : s.Told uptime due) (h : Enters table s a switches t) :
    t.Told (uptimeAfter uptime a) (s.dueAfter uptime due a) := by
  cases h with
  | yield => exact hs.congr (tick_dispatch s) (.of_pcb (pcb_dispatch s))
  | timer =>
    have hnext : { s with tick := s.tick + 1 }.Told (uptime + 1) due :=
      ⟨by rw [hs.tick, BitVec.ofNat_add]; rfl, hs.sleep⟩
    exact hnext.congr (tick_dispatch _) (.of_pcb (pcb_dispatch _))
  | sleep time p hp =>
    have hdue : s.dueAfter uptime due (.sleep time) = Function.update due p (uptime + time.toNat) := by
      simp only [dueAfter, hp]
    refine ⟨hs.tick, fun q hq => ?_⟩
    rw [hdue]
    rw [pcb_setPcb] at hq ⊢
    split at hq
    · next hqp =>
      rw [if_pos hqp, hqp, Function.update_self, hs.tick]
      apply BitVec.eq_of_toNat_eq
      simp only [BitVec.toNat_setWidth, BitVec.toNat_add, BitVec.toNat_ofNat]
      omega
    · next hqp =>
      rw [if_neg hqp, Function.update_of_ne hqp]
      exact hs.sleep q hq
  | exit p hp => exact hs.congr rfl (.setPcb nofun rfl)
  | acquireFree m p hp hfree => exact hs.congr rfl (.of_pcb rfl)
  | acquireBusy m p hp hbusy => exact hs.congr rfl (.setPcb nofun rfl)
  | release m => exact hs.congr (tick_release s m) (.release s m)
  | create c isProcess parent t ht =>
    obtain ⟨p, -, rfl⟩ := create_some ht
    exact hs.congr rfl (.setPcb nofun rfl)
  | takeWork t ht =>
    obtain ⟨work, rest, -, rfl⟩ := takeWork_some ht
    exact hs.congr rfl (.of_pcb rfl)
  | runWork p t ht =>
    obtain ⟨-, rfl⟩ := runWork_some ht
    refine hs.congr rfl fun q hq => ?_
    by_cases hqp : q = p
    · subst hqp
      rw [pcb_cleanup_self] at hq
      exact absurd hq nofun
    · rw [pcb_cleanup _ hqp] at hq ⊢
      split at hq
      · exact absurd hq nofun
      · next hthread =>
        rw [if_neg hthread]
        exact ⟨hq, rfl⟩
  | finishWork t ht =>
    obtain ⟨-, rfl⟩ := finishWork_some ht
    exact hs.congr rfl (.of_pcb rfl)
  | otherWork => exact hs.congr (tick_workQueueAdd s none) (.of_pcb (pcb_workQueueAdd s none))

omit [DecidableEq M] in
theorem Told.roundRobin (hs : s.Told uptime due) (h : Kernel.roundRobin fuel s = some t) : t.Told uptime due :=
  hs.congr (tick_roundRobin h) (.roundRobin h)

theorem Told.step (hs : s.Told uptime due) (h : s.step table fuel a = some t) :
    t.Told (uptimeAfter uptime a) (s.dueAfter uptime due a) := by
  obtain ⟨switches, s', henters, ht⟩ := step_enters h
  have hs' := hs.enters henters
  cases switches with
  | true => exact hs'.roundRobin (by simpa using ht)
  | false =>
    obtain rfl : t = s' := by simpa using ht
    exact hs'

end

/-- Whether a sleeper that is due in tick `due` is woken in tick `now` as it should be: the 16 bits that are left of
`due` are behind the tick count, as an `int`, exactly if `due` is. -/
def OnTime (due now : Nat) : Prop :=
  if due < now then due % 65536 < now % 2 ^ 32 ∧ now % 2 ^ 32 < 2 ^ 31
  else now % 2 ^ 32 ≤ due % 65536 ∨ 2 ^ 31 ≤ now % 2 ^ 32

instance (due now : Nat) : Decidable (OnTime due now) := by
  unfold OnTime
  infer_instance

/-- As long as the tick fits into 16 bits and the tick count into 31, everybody is woken on time. -/
theorem onTime_of_lt {due now : Nat} (hdue : due < 65536) (hnow : now < 2 ^ 31) : OnTime due now := by
  unfold OnTime
  split <;> omega

section
variable {P M : Type*} [DecidableEq P] {s : Kernel P M} {uptime : Nat} {due : P → Nat} {p : P}

omit [DecidableEq P] in
theorem Told.runnable_iff (hs : s.Told uptime due) (hp : (s.pcb p).state = .sleeping) :
    (s.Runnable p ↔ due p < uptime) ↔ OnTime (due p) uptime := by
  have htick : s.tick.toInt = if uptime % 2 ^ 32 < 2 ^ 31 then ((uptime % 2 ^ 32 : Nat) : Int)
      else ((uptime % 2 ^ 32 : Nat) : Int) - 2 ^ 32 := by
    rw [hs.tick, BitVec.toInt_eq_toNat_cond, BitVec.toNat_ofNat]
    split <;> split <;> omega
  have hrunnable : s.Runnable p ↔ due p % 65536 < uptime % 2 ^ 32 ∧ uptime % 2 ^ 32 < 2 ^ 31 := by
    unfold Runnable
    simp only [hp]
    rw [hs.sleep p hp, htick, BitVec.toNat_ofNat]
    split <;> omega
  rw [hrunnable]
  unfold OnTime
  split <;> omega

end

end Kernel

/-- The system, with the number of ticks since the start and the tick till which each process sleeps. -/
structure Clock (P M S : Type*) where
  system : System P M S
  uptime : Nat
  due : P → Nat

namespace System

variable {P M S : Type*} [DecidableEq P] [DecidableEq M] [DecidableEq S]

/-- The action enters `sched_round_robin` in the state `t` of the kernel. -/
inductive Switches (table : List P) (s : System P M S) : SystemAction P M S → Kernel P M → Prop
  | kernel (a : KernelAction P M) (t : Kernel P M) (h : Kernel.Enters table s.kernel a true t) :
      Switches table s (.kernel a) t
  | tcpBlock (sock : S) (p : P) (hp : s.kernel.running = some p) :
      Switches table s (.tcpBlock sock) (s.kernel.setState p .blocked)
  | eventLoop (p : P) (hp : s.kernel.running = some p) : Switches table s .eventLoop (s.kernel.setState p .blocked)

/-- The ticks after an action. -/
def uptimeAfter (uptime : Nat) : SystemAction P M S → Nat
  | .kernel a => Kernel.uptimeAfter uptime a
  | _ => uptime

/-- The tick till which each process sleeps after an action. -/
def dueAfter (s : System P M S) (uptime : Nat) (due : P → Nat) : SystemAction P M S → P → Nat
  | .kernel a => s.kernel.dueAfter uptime due a
  | _ => due

section
variable {s t : System P M S} {table : List P} {fuel : Nat} {a : SystemAction P M S} {uptime : Nat} {due : P → Nat}

omit [DecidableEq S] in
theorem told_switches {k : Kernel P M} (hs : s.kernel.Told uptime due) (h : Switches table s a k) :
    k.Told (uptimeAfter uptime a) (s.dueAfter uptime due a) := by
  cases h with
  | kernel a t h => exact hs.enters h
  | tcpBlock sock p hp => exact hs.congr rfl (.setPcb nofun rfl)
  | eventLoop p hp => exact hs.congr rfl (.setPcb nofun rfl)

omit [DecidableEq M] [DecidableEq S] in
theorem told_wait {k : Kernel P M} (hs : s.kernel.Told uptime due) (h : s.kernel.wait fuel = some k) :
    k.Told uptime due := by
  obtain ⟨p, hp, hsched⟩ := Option.bind_eq_some_iff.mp h
  have hround := Kernel.schedule_eq hsched
  rw [Kernel.dispatch, show (s.kernel.setState p _).running = some p from hp] at hround
  have hblocked : (s.kernel.setState p .blocked).Told uptime due := hs.congr rfl (.setPcb (by simp) rfl)
  exact hblocked.roundRobin hround

omit [DecidableEq M] [DecidableEq S] in
theorem told_wake (hs : s.kernel.Told uptime due) (p : P) : (s.kernel.wake p).Told uptime due := by
  unfold Kernel.wake
  split
  · exact hs.congr rfl (.setPcb (by simp) rfl)
  · exact hs

theorem told_step (hs : s.kernel.Told uptime due) (h : s.step table fuel a = some t) :
    t.kernel.Told (uptimeAfter uptime a) (s.dueAfter uptime due a) := by
  have hset (p : P) (state : PcbState) (hstate : state ≠ .sleeping) : (s.kernel.setState p state).Told uptime due :=
    hs.congr rfl (.setPcb hstate rfl)
  cases a with
  | kernel a =>
    obtain ⟨kernel, hk, rfl⟩ := Option.map_eq_some_iff.mp h
    exact hs.step hk
  | kill p =>
    obtain rfl := Option.some.inj h
    exact hset p .zombie (by decide)
  | socketNew sock =>
    obtain rfl := Option.some.inj h
    exact hs
  | tcpBlock sock =>
    obtain ⟨kernel, hk, rfl⟩ := Option.map_eq_some_iff.mp h
    exact told_wait hs hk
  | tcpUnblock sock =>
    rw [step] at h
    cases hw : s.waiting sock with
    | none =>
      rw [hw] at h
      obtain rfl := Option.some.inj h
      exact hs
    | some p =>
      rw [hw] at h
      obtain rfl := Option.some.inj h
      exact hset p .running (by decide)
  | addData sock =>
    rw [step] at h
    cases hw : s.waiting sock with
    | none =>
      rw [hw] at h
      obtain rfl := Option.some.inj h
      exact hs
    | some p =>
      rw [hw] at h
      dsimp only at h
      split at h
      · obtain rfl := Option.some.inj h
        exact hset p .running (by decide)
      · obtain rfl := Option.some.inj h
        exact hs
  | eventLoop =>
    obtain ⟨kernel, hk, rfl⟩ := Option.map_eq_some_iff.mp h
    exact told_wait hs hk
  | pushEvent owner =>
    obtain rfl := Option.some.inj h
    exact told_wake hs owner
  | netdWake netd =>
    obtain rfl := Option.some.inj h
    exact told_wake hs netd

end

end System

namespace Clock

variable {P M S : Type*} [DecidableEq P] [DecidableEq M] [DecidableEq S]

def initial : Clock P M S :=
  { system := { kernel := .initial, waiting := fun _ => none }, uptime := 0, due := fun _ => 0 }

/-- A sleep for a negative time. -/
def negative : SystemAction P M S → Bool
  | .kernel (.sleep time) => decide (time.toInt < 0)
  | _ => false

def next (table : List P) (fuel : Nat) (c : Clock P M S) (a : SystemAction P M S) : Option (Clock P M S) :=
  if negative a then none
  else (c.system.step table fuel a).map fun system =>
    { system, uptime := System.uptimeAfter c.uptime a, due := c.system.dueAfter c.uptime c.due a }

def Step (table : List P) (c : Clock P M S) (a : SystemAction P M S) (c' : Clock P M S) : Prop :=
  ∃ fuel, c.next table fuel a = some c'

/-- `q` holds of every sleeping PCB that the switch of the action pops: of the tick till which it sleeps, of the tick
count, and of whether it is set to `RUNNING`. -/
def Popped (table : List P) (c : Clock P M S) (a : SystemAction P M S) (q : Nat → Nat → Bool → Prop) : Prop :=
  ∀ k, c.system.Switches table a k → ∀ fuel p woken, (p, woken) ∈ k.popped fuel →
    q (c.system.dueAfter c.uptime c.due a p) (System.uptimeAfter c.uptime a) woken

/-- The popped sleepers that are woken are those that are due. -/
def Punctual (table : List P) (c : Clock P M S) (a : SystemAction P M S) : Prop :=
  c.Popped table a fun due now woken => woken = true ↔ due < now

def Allowed (table : List P) (c : Clock P M S) (a : SystemAction P M S) : Prop :=
  c.Popped table a fun due now _ => Kernel.OnTime due now

def Told (c : Clock P M S) : Prop := c.system.kernel.Told c.uptime c.due

section
variable {c c' : Clock P M S} {table : List P} {a : SystemAction P M S}

omit [DecidableEq P] [DecidableEq M] [DecidableEq S] in
theorem told_initial : (initial : Clock P M S).Told :=
  ⟨rfl, nofun⟩

theorem Told.step (hc : c.Told) (h : Step table c a c') : c'.Told := by
  obtain ⟨fuel, hnext⟩ := h
  unfold next at hnext
  split at hnext
  · exact absurd hnext nofun
  · obtain ⟨system, hstep, rfl⟩ := Option.map_eq_some_iff.mp hnext
    exact System.told_step hc hstep

omit [DecidableEq S] in
theorem Told.punctual_iff (hc : c.Told) : c.Punctual table a ↔ c.Allowed table a := by
  refine forall₂_congr fun k hk => forall₄_congr fun fuel p woken hp => ?_
  obtain ⟨hstate, hwoken⟩ := Kernel.popped_spec hp
  exact (iff_congr hwoken Iff.rfl).trans ((System.told_switches hc hk).runnable_iff hstate)

/-- The switches of a run, and the one of the next action, wake whoever is due and nobody else exactly if the 16 bits
of the PCB and the `int` tell the ticks apart. -/
theorem clockRun_iff (table : List P) (as : List (SystemAction P M S)) (a : SystemAction P M S) (c : Clock P M S) :
    (Run (Step table) (Punctual table) initial as c ∧ c.Punctual table a) ↔
      (Run (Step table) (Allowed table) initial as c ∧ c.Allowed table a) := by
  have hstep : ∀ c a c', c.Told → Allowed table c a → Step table c a c' → c'.Told :=
    fun _ _ _ hc _ hst => Told.step (M := M) (S := S) hc hst
  have hiff : ∀ c a, c.Told → (Allowed table c a ↔ Punctual table c a) := fun _ _ hc =>
    (Told.punctual_iff (M := M) (S := S) hc).symm
  rw [← Run.congr hstep hiff told_initial]
  exact and_congr_right fun h => Told.punctual_iff (h.invariant hstep told_initial)

end

/-- The first process sleeps for 65536 ticks from tick 0 on, of which 16 bits are 0. -/
def sleepLong : List (SystemAction (Fin 2) Unit Unit) :=
  [.kernel (.create .kthread), .kernel (.create .kthread), .kernel .yield, .kernel .yield, .kernel (.sleep 65536)]

/-- It is woken in tick 1. -/
theorem sleepLong_woken : ¬ ∀ as a c, AnyRun (Step (List.finRange 2)) (initial : Clock (Fin 2) Unit Unit) as c →
    c.Punctual (List.finRange 2) a := by
  intro hall
  let ticked (k : Kernel (Fin 2) Unit) : Kernel (Fin 2) Unit := { k with tick := k.tick + 1 }.dispatch
  have hend : (exec (next (List.finRange 2) 2) (initial : Clock (Fin 2) Unit Unit) sleepLong).map (fun c =>
      ((ticked c.system.kernel).popped 1, c.due 0, c.uptime)) = some ([(0, true)], 65536, 0) := by rfl
  obtain ⟨c, hexec, hc⟩ := Option.map_eq_some_iff.mp hend
  obtain ⟨hpopped, hdue, huptime⟩ := Prod.mk.inj hc |>.imp_right Prod.mk.inj
  have hrun : AnyRun (Step (List.finRange 2)) initial sleepLong c :=
    (run_of_exec hexec).imp fun _ _ _ h => ⟨2, h⟩
  have hwoken := hall sleepLong (.kernel .timer) c hrun _ (.kernel .timer _ .timer) 1 0 true
    (by rw [hpopped]; exact List.mem_singleton_self _)
  have hlt : c.due 0 < c.uptime + 1 := hwoken.mp rfl
  omega

end Clock

end RetrOS
