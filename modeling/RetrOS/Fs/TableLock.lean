import RetrOS.Fs.Fat16
import RetrOS.Kernel.Sync
import RetrOS.Lib.Run

/-!
# FAT16: the lock of the table (`fat16_table_lock`)

Processes `P` that call `fat16_set_fat_entry`, `fat16_sync_fat_table` and `fat16_get_free_cluster` in any interleaving.
A call of `acquire` or `release` is one step, what stands between them is one step, and so is each look of the search at
an entry.

* `Pc` : the next statement of a process;
* `TableLock.step` : a call, or the next statement of a process;
* `LockSafe` : only the holder releases, at most one process is in a section, no two calls have the same cluster;
* `lockRun_safe` : so it is as long as no search finds a free entry. A search that does marks the entry, which takes the
  lock and releases it, and then releases the lock again (`releaseFound_not_holder`).
-/

namespace RetrOS.Fs
open RetrOS.Lib

/-- What a process does under the lock. -/
inductive Section
  | setFatEntry (cluster : Nat) (value : BitVec 16)
  | syncFatTable

def Section.run : Section → Fat16 → Fat16
  | .setFatEntry cluster value, fs => fs.setFatEntry cluster value
  | .syncFatTable, fs => fs.syncFatTable

/-- The next statement of a process; `found` is the cluster of the call of `fat16_get_free_cluster` it belongs to. -/
inductive Pc
  | idle
  | acquire (s : Section) (found : Option Nat)
  | blocked (s : Section) (found : Option Nat)
  | inside (s : Section) (found : Option Nat)
  | release (found : Option Nat)
  | search (i : Nat)
  /-- the `release` of `fat16_get_free_cluster` -/
  | releaseFound (i : Nat)

namespace Pc

/-- A process that is woken goes on behind its `acquire`. -/
def wake : Pc → Pc
  | .blocked s found => .inside s found
  | pc => pc

def phase : Pc → Phase
  | .blocked .. => .waiting
  | .inside .. => .inside
  | .release _ => .inside
  | _ => .outside

/-- The cluster that the call in progress returns. -/
def found : Pc → Option Nat
  | .acquire _ found => found
  | .blocked _ found => found
  | .inside _ found => found
  | .release found => found
  | .releaseFound i => some i
  | _ => none

/-- The next statement is `release(&fat16_table_lock)`. -/
def Releases (pc : Pc) : Prop := (∃ found, pc = .release found) ∨ ∃ i, pc = .releaseFound i

/-- Where a process goes from the `release` of `fat16_set_fat_entry` or `fat16_sync_fat_table`. -/
def released : Option Nat → Pc
  | none => .idle
  | some i => .releaseFound i

@[simp] theorem phase_released (f : Option Nat) : (released f).phase = .outside := by cases f <;> rfl

@[simp] theorem found_released (f : Option Nat) : (released f).found = f := by cases f <;> rfl

theorem phase_wake {pc : Pc} (h : pc.phase = .waiting) : pc.wake.phase = .inside := by
  cases pc <;> first | rfl | exact Phase.noConfusion h

@[simp] theorem found_wake (pc : Pc) : pc.wake.found = pc.found := by cases pc <;> rfl

end Pc

structure TableLock (P : Type*) where
  fs : Fat16
  fat16TableLock : Mutex P
  pc : P → Pc
  /-- the process that has the lock; the code does not keep it -/
  holder : Option P

inductive LockAction (P : Type*)
  | setFatEntry (p : P) (cluster : Nat) (value : BitVec 16)
  | syncFatTable (p : P)
  | getFreeCluster (p : P)
  /-- the next statement of `p` -/
  | resume (p : P)

namespace TableLock

variable {P : Type*} [DecidableEq P]

def initial (fs : Fat16) : TableLock P := ⟨fs, .init, fun _ => .idle, none⟩

def goto (s : TableLock P) (p : P) (pc : Pc) : TableLock P := { s with pc := Function.update s.pc p pc }

def call (s : TableLock P) (p : P) (pc : Pc) : Option (TableLock P) :=
  match s.pc p with
  | .idle => some (s.goto p pc)
  | _ => none

/-- `acquire`; a process that is blocked goes on behind it when it is woken. -/
def acquire (s : TableLock P) (p : P) (sec : Section) (found : Option Nat) : TableLock P :=
  let l := s.fat16TableLock.acquire p
  { s.goto p (if l.2 then .inside sec found else .blocked sec found) with
    fat16TableLock := l.1
    holder := if l.2 then some p else s.holder }

def release (s : TableLock P) (p : P) (next : Pc) : TableLock P :=
  let l := s.fat16TableLock.release
  { s with
    fat16TableLock := l.1
    pc := fun q => if l.2 = some q then (s.pc q).wake else if q = p then next else s.pc q
    holder := l.2 }

def resume (s : TableLock P) (p : P) : Option (TableLock P) :=
  match s.pc p with
  | .idle => none
  | .blocked .. => none
  | .acquire sec found => some (s.acquire p sec found)
  | .inside sec found => some { s.goto p (.release found) with fs := sec.run s.fs }
  | .release found => some (s.release p (.released found))
  | .search i =>
    if 65536 ≤ i then some (s.goto p .idle)
    else if s.fs.getFatEntry i = 0x0000 then some (s.goto p (.acquire (.setFatEntry i 0xFFFF) (some i)))
    else some (s.goto p (.search (i + 1)))
  | .releaseFound _ => some (s.release p .idle)

def step (s : TableLock P) : LockAction P → Option (TableLock P)
  | .setFatEntry p cluster value => s.call p (.acquire (.setFatEntry cluster value) none)
  | .syncFatTable p => s.call p (.acquire .syncFatTable none)
  | .getFreeCluster p => s.call p (.search 5)
  | .resume p => s.resume p

/-- `step` as a relation. -/
def LockStep (s : TableLock P) (a : LockAction P) (t : TableLock P) : Prop := s.step a = some t

structure LockSafe (s : TableLock P) : Prop where
  holder : ∀ p, (s.pc p).Releases → s.holder = some p
  exclusive : ∀ p q, (s.pc p).phase = .inside → (s.pc q).phase = .inside → p = q
  distinct : ∀ p q i, (s.pc p).found = some i → (s.pc q).found = some i → p = q

/-- The action is not the look of a search at a free entry. -/
def SearchOk (s : TableLock P) (a : LockAction P) : Prop :=
  ∀ p i, a = .resume p → s.pc p = .search i → i < 65536 → s.fs.getFatEntry i ≠ 0x0000

/-! ## What a step does -/

/-- A step moves one process outside or inside the lock, or is an `acquire`, or a `release`. -/
inductive Effect (s : TableLock P) (a : LockAction P) : TableLock P → Prop
  | move (p : P) (pc : Pc) (fs : Fat16) (hwait : (s.pc p).phase ≠ .waiting) (hphase : pc.phase = (s.pc p).phase)
      (hfound : SearchOk s a → pc.found = (s.pc p).found) : Effect s a { s.goto p pc with fs := fs }
  | acquire (p : P) (sec : Section) (found : Option Nat) (hpc : s.pc p = .acquire sec found) :
      Effect s a (s.acquire p sec found)
  | release (p : P) (found : Option Nat) (hpc : s.pc p = .release found) : Effect s a (s.release p (.released found))
  | releaseFound (p : P) (i : Nat) (hpc : s.pc p = .releaseFound i) : Effect s a (s.release p .idle)

theorem effect_goto {s : TableLock P} {a : LockAction P} {p : P} {pc : Pc} (pc' : Pc) (fs : Fat16) (hpc : s.pc p = pc)
    (hwait : pc.phase ≠ .waiting) (hphase : pc'.phase = pc.phase) (hfound : SearchOk s a → pc'.found = pc.found) :
    Effect s a { s.goto p pc' with fs := fs } := by
  subst hpc
  exact .move p pc' fs hwait hphase hfound

theorem effect_call {s t : TableLock P} {a : LockAction P} {p : P} {pc : Pc} (h : s.call p pc = some t)
    (hphase : pc.phase = .outside) (hfound : pc.found = none) : Effect s a t := by
  unfold call at h
  split at h
  · next hidle => exact Option.some.inj h ▸ effect_goto pc s.fs hidle nofun hphase fun _ => hfound
  · exact absurd h (by simp)

theorem effect_resume {s t : TableLock P} {p : P} (h : s.resume p = some t) : Effect s (.resume p) t := by
  unfold resume at h
  split at h
  case h_1 => exact absurd h (by simp)
  case h_2 => exact absurd h (by simp)
  case h_3 sec found hpc => exact Option.some.inj h ▸ .acquire p sec found hpc
  case h_4 sec found hpc =>
    exact Option.some.inj h ▸ effect_goto (.release found) (sec.run s.fs) hpc nofun rfl fun _ => rfl
  case h_5 found hpc => exact Option.some.inj h ▸ .release p found hpc
  case h_7 i hpc => exact Option.some.inj h ▸ .releaseFound p i hpc
  case h_6 i hpc =>
    split at h
    · exact Option.some.inj h ▸ effect_goto .idle s.fs hpc nofun rfl fun _ => rfl
    · next hi =>
      split at h
      · next hfree =>
        refine Option.some.inj h ▸ effect_goto (.acquire (.setFatEntry i 0xFFFF) (some i)) s.fs hpc nofun rfl
          fun hok => ?_
        exact absurd hfree (hok p i rfl hpc (Nat.lt_of_not_le hi))
      · exact Option.some.inj h ▸ effect_goto (.search (i + 1)) s.fs hpc nofun rfl fun _ => rfl

theorem effect_step {s t : TableLock P} {a : LockAction P} (h : LockStep s a t) : Effect s a t := by
  cases a with
  | setFatEntry p cluster value => exact effect_call h rfl rfl
  | syncFatTable p => exact effect_call h rfl rfl
  | getFreeCluster p => exact effect_call h rfl rfl
  | resume p => exact effect_resume h

/-! ## The processes and the lock -/

variable {s t : TableLock P} {a : LockAction P} {p : P}

/-- The lock with its holder. -/
def handover (s : TableLock P) : Handover P := ⟨s.holder, s.fat16TableLock.blocked⟩

/-- The mutex, its holder and its queue are those that the processes say, and nobody has found a cluster. -/
structure Held (s : TableLock P) : Prop where
  lock : s.fat16TableLock.Is s.handover
  coherent : s.handover.Coherent fun q => (s.pc q).phase
  found : ∀ q, (s.pc q).found = none

omit [DecidableEq P] in
theorem held_initial (fs : Fat16) : Held (initial fs : TableLock P) :=
  ⟨Mutex.init_is, Handover.Coherent.init, fun _ => rfl⟩

theorem phase_goto (s : TableLock P) (p : P) (pc : Pc) (q : P) :
    ((s.goto p pc).pc q).phase = if q = p then pc.phase else (s.pc q).phase := by
  show (Function.update s.pc p pc q).phase = _
  rw [Function.update_apply, apply_ite Pc.phase]

/-- A move that stays on its side of the lock. -/
theorem phase_move {pc : Pc} (hphase : pc.phase = (s.pc p).phase) (q : P) :
    ((s.goto p pc).pc q).phase = (s.pc q).phase := by
  rw [phase_goto]
  split
  · next hq => rw [hq, hphase]
  · rfl

theorem found_goto (s : TableLock P) (p : P) {pc : Pc} (h : pc.found = (s.pc p).found) (q : P) :
    ((s.goto p pc).pc q).found = (s.pc q).found := by
  show (Function.update s.pc p pc q).found = _
  rw [Function.update_apply]
  split
  · next hq => rw [hq, h]
  · rfl

theorem found_release (s : TableLock P) (p : P) {pc : Pc} (h : pc.found = (s.pc p).found) (q : P) :
    ((s.release p pc).pc q).found = (s.pc q).found := by
  show (if _ then _ else if _ then _ else _ : Pc).found = _
  split
  · exact Pc.found_wake _
  · split
    · next hq => rw [hq, h]
    · rfl

theorem held_move (h : Held s) {pc : Pc} {fs : Fat16} (hphase : pc.phase = (s.pc p).phase)
    (hfound : pc.found = (s.pc p).found) : Held { s.goto p pc with fs := fs } := by
  refine ⟨h.lock, ?_, fun q => (found_goto s p hfound q).trans (h.found q)⟩
  show Handover.Coherent s.handover fun q => ((s.goto p pc).pc q).phase
  rw [funext (phase_move hphase)]
  exact h.coherent

theorem handover_acquire (s : TableLock P) (p : P) (sec : Section) (found : Option Nat) :
    handover (s.acquire p sec found) =
      ⟨if (s.fat16TableLock.acquire p).2 then some p else s.holder, (s.fat16TableLock.acquire p).1.blocked⟩ := rfl

theorem phase_acquire (s : TableLock P) (p : P) (sec : Section) (found : Option Nat) (q : P) :
    ((s.acquire p sec found).pc q).phase =
      if q = p then if (s.fat16TableLock.acquire p).2 then .inside else .waiting else (s.pc q).phase := by
  refine (phase_goto s p _ q).trans ?_
  rw [apply_ite Pc.phase]
  rfl

theorem held_acquire (h : Held s) {sec : Section} {found : Option Nat} (hpc : s.pc p = .acquire sec found) :
    Held (s.acquire p sec found) := by
  have hout : (s.pc p).phase = .outside := by rw [hpc]; rfl
  have hfound : ∀ q, ((s.acquire p sec found).pc q).found = none := by
    intro q
    refine (found_goto s p ?_ q).trans (h.found q)
    rw [hpc]
    split <;> rfl
  cases hholder : s.holder with
  | none =>
    obtain ⟨hthrough, his⟩ := h.lock.acquire_free hholder p
    have hlock : handover (s.acquire p sec found) = s.handover.enter p := by
      rw [handover_acquire, his.blocked, hthrough, Handover.enter, show s.handover.holder = _ from hholder]
      rfl
    refine ⟨hlock ▸ his, hlock ▸ h.coherent.enter_free hout hholder fun q => ?_, hfound⟩
    rw [phase_acquire, hthrough]
    rfl
  | some r =>
    obtain ⟨hthrough, his⟩ := h.lock.acquire_busy hholder p
    have hlock : handover (s.acquire p sec found) = s.handover.enter p := by
      rw [handover_acquire, his.blocked, hthrough, Handover.enter, show s.handover.holder = _ from hholder, hholder]
      rfl
    refine ⟨hlock ▸ his, hlock ▸ h.coherent.enter_busy hout hholder fun q => ?_, hfound⟩
    rw [phase_acquire, hthrough]
    rfl

theorem phase_release (s : TableLock P) (p : P) {next : Pc} (hnext : next.phase = .outside) (q : P) :
    ((s.release p next).pc q).phase =
      if s.fat16TableLock.release.2 = some q then (s.pc q).wake.phase
      else if q = p then .outside else (s.pc q).phase := by
  show (if _ then _ else if _ then _ else _ : Pc).phase = _
  rw [apply_ite Pc.phase, apply_ite Pc.phase, hnext]

/-- The holder releases. -/
theorem held_release (h : Held s) {found : Option Nat} (hpc : s.pc p = .release found) :
    Held (s.release p (.released found)) := by
  have hin : (s.pc p).phase = .inside := by rw [hpc]; rfl
  have hholder : s.handover.holder = some p := (h.coherent.inside p).mp hin
  have hfound : ∀ q, ((s.release p (.released found)).pc q).found = none := by
    intro q
    refine (found_release s p ?_ q).trans (h.found q)
    rw [hpc, Pc.found_released]
    rfl
  obtain ⟨hwoken, his⟩ := h.lock.release hholder
  have hlock : handover (s.release p (.released found)) = s.handover.leave := by
    show Handover.mk s.fat16TableLock.release.2 s.fat16TableLock.release.1.blocked = _
    rw [hwoken, his.blocked]
  refine ⟨hlock ▸ his, ?_, hfound⟩
  rw [hlock]
  cases hw : s.handover.waiters with
  | nil =>
    refine h.coherent.leave_last hholder hw fun q => ?_
    have hnone : s.fat16TableLock.release.2 = none := by rw [hwoken, Handover.leave, hw]; rfl
    rw [phase_release s p (Pc.phase_released found), hnone, if_neg (Option.some_ne_none q).symm]
  | cons w ws =>
    refine h.coherent.leave_next hholder hw fun q => ?_
    have hsome : s.fat16TableLock.release.2 = some w := by rw [hwoken, Handover.leave, hw]; rfl
    rw [phase_release s p (Pc.phase_released found), hsome]
    by_cases hq : q = w
    · subst hq
      have hwait : (s.pc q).phase = .waiting := (h.coherent.waiting q).mpr (hw ▸ List.mem_cons_self)
      rw [if_pos rfl, if_pos rfl, Pc.phase_wake hwait]
    · rw [if_neg fun heq => hq (Option.some.inj heq).symm, if_neg hq]

theorem held_effect (h : Held s) (hok : SearchOk s a) (heff : Effect s a t) : Held t := by
  cases heff with
  | move p pc fs _ hphase hfound => exact held_move h hphase (hfound hok)
  | acquire p sec found hpc => exact held_acquire h hpc
  | release p found hpc => exact held_release h hpc
  | releaseFound p i hpc =>
    have hnone := h.found p
    rw [hpc] at hnone
    exact absurd hnone (Option.some_ne_none i)

omit [DecidableEq P] in
theorem lockSafe_of_held (h : Held s) : LockSafe s := by
  refine ⟨fun p hp => ?_, fun p q hp hq => h.coherent.exclusive hp hq, fun p q i hp _ => ?_⟩
  · obtain ⟨found, hpc⟩ | ⟨i, hpc⟩ := hp
    · refine (h.coherent.inside p).mp ?_
      show (s.pc p).phase = _
      rw [hpc]
      rfl
    · have hnone := h.found p
      rw [hpc] at hnone
      exact absurd hnone (Option.some_ne_none i)
  · rw [h.found p] at hp
    exact absurd hp (Option.some_ne_none i).symm

/-- Before a search has found a free entry the lock is safe, in whatever order the processes run. -/
theorem lockRun_safe (fs : Fat16) (as : List (LockAction P)) (s : TableLock P)
    (h : Run LockStep SearchOk (initial fs) as s) : LockSafe s :=
  lockSafe_of_held (h.invariant (P := Held) (fun _ _ _ hs hok hst => held_effect hs hok (effect_step hst))
    (held_initial fs))

/-- A disk whose table has the same value everywhere. -/
def uniformTable (value : BitVec 16) : Fat16 := ⟨⟨1, 512, 1000, 1⟩, fun _ => value, 0, fun _ _ => 0⟩

/-- A search of a full table, while the table is written back. -/
theorem lockRun_safe_full : ∃ s : TableLock Bool, s.pc false = .search 6 ∧ s.pc true = .release none ∧ LockSafe s := by
  have hok : ∀ (s : TableLock Bool) a, s.fs.fatTableMemory = (fun _ => 0xFFFF) → SearchOk s a := by
    intro s a hs p i _ _ _
    rw [Fat16.getFatEntry, hs]
    show (0xFFFF : BitVec 16) ≠ 0
    decide
  have hrun : Run LockStep SearchOk (initial (uniformTable 0xFFFF))
      [.getFreeCluster false, .syncFatTable true, .resume true, .resume false, .resume true] _ :=
    .cons (hok _ _ rfl) rfl (.cons (hok _ _ rfl) rfl (.cons (hok _ _ rfl) rfl (.cons (hok _ _ rfl) rfl
      (.cons (hok _ _ rfl) rfl (.nil _)))))
  exact ⟨_, rfl, rfl, lockRun_safe _ _ _ hrun⟩

/-! ## After a search has found a free entry -/

/-- What holds in every run: those who wait are blocked, and the holder is in a section. -/
structure Queued (s : TableLock P) : Prop where
  waiting : ∀ q ∈ s.fat16TableLock.blocked, (s.pc q).phase = .waiting
  nodup : s.fat16TableLock.blocked.Nodup
  holder : ∀ q, s.holder = some q → (s.pc q).phase = .inside

omit [DecidableEq P] in
theorem queued_initial (fs : Fat16) : Queued (initial fs : TableLock P) :=
  ⟨fun _ hq => absurd hq List.not_mem_nil, List.nodup_nil, fun q hq => absurd hq (Option.some_ne_none q).symm⟩

omit [DecidableEq P] in
theorem Queued.not_mem (h : Queued s) (hp : (s.pc p).phase ≠ .waiting) : p ∉ s.fat16TableLock.blocked := fun hm =>
  hp (h.waiting p hm)

theorem queued_move (h : Queued s) {pc : Pc} {fs : Fat16} (hphase : pc.phase = (s.pc p).phase) :
    Queued { s.goto p pc with fs := fs } := by
  exact ⟨fun q hq => (phase_move hphase q).trans (h.waiting q hq), h.nodup,
    fun q hq => (phase_move hphase q).trans (h.holder q hq)⟩

theorem queued_acquire (h : Queued s) {sec : Section} {found : Option Nat} (hpc : s.pc p = .acquire sec found) :
    Queued (s.acquire p sec found) := by
  have hout : (s.pc p).phase = .outside := by rw [hpc]; rfl
  have hp : p ∉ s.fat16TableLock.blocked := h.not_mem (by rw [hout]; decide)
  have hblocked : (s.acquire p sec found).fat16TableLock.blocked = _ := s.fat16TableLock.blocked_acquire p
  have hself := (phase_acquire s p sec found p).trans (if_pos rfl)
  have hother : ∀ q, q ≠ p → ((s.acquire p sec found).pc q).phase = (s.pc q).phase := fun q hq =>
    (phase_acquire s p sec found q).trans (if_neg hq)
  cases hthrough : (s.fat16TableLock.acquire p).2 with
  | true =>
    rw [hthrough, if_pos rfl] at hself hblocked
    have hholder : (s.acquire p sec found).holder = some p := if_pos hthrough
    refine ⟨fun q hq => ?_, hblocked ▸ h.nodup, fun q hq => ?_⟩
    · rw [hblocked] at hq
      exact (hother q (ne_of_mem_of_not_mem hq hp)).trans (h.waiting q hq)
    · obtain rfl : p = q := Option.some.inj (hholder.symm.trans hq)
      exact hself
  | false =>
    rw [hthrough, if_neg (by decide)] at hself hblocked
    have hholder : (s.acquire p sec found).holder = s.holder := if_neg (ne_true_of_eq_false hthrough)
    refine ⟨fun q hq => ?_, ?_, fun q hq => ?_⟩
    · rw [hblocked, List.mem_append, List.mem_singleton] at hq
      by_cases hqp : q = p
      · exact hqp ▸ hself
      · exact (hother q hqp).trans (h.waiting q (hq.resolve_right hqp))
    · rw [hblocked]
      exact List.nodup_append.mpr ⟨h.nodup, List.nodup_singleton p, fun q hq r hr heq => hp
        (List.mem_singleton.mp hr ▸ heq ▸ hq)⟩
    · have hin := h.holder q (hholder.symm.trans hq)
      refine (hother q ?_).trans hin
      intro hqp
      rw [hqp, hout] at hin
      exact absurd hin (by decide)

/-- Whoever calls `release`, the first in the queue becomes the holder. -/
theorem queued_release (h : Queued s) (hp : (s.pc p).phase ≠ .waiting) {next : Pc} (hnext : next.phase = .outside) :
    Queued (s.release p next) := by
  have hpw := h.not_mem hp
  have hnodup := h.nodup
  have hphase := phase_release s p hnext
  obtain ⟨hblocked, hwoken⟩ := s.fat16TableLock.blocked_release
  have hlock : (s.release p next).fat16TableLock.blocked = s.fat16TableLock.blocked.tail := hblocked
  have hholder : (s.release p next).holder = s.fat16TableLock.blocked.head? := hwoken
  cases hw : s.fat16TableLock.blocked with
  | nil =>
    rw [hw] at hlock hholder
    refine ⟨fun q hq => ?_, hlock ▸ List.nodup_nil, fun q hq => ?_⟩
    · exact absurd (hlock ▸ hq) List.not_mem_nil
    · exact absurd (hholder.symm.trans hq) (Option.some_ne_none q).symm
  | cons w ws =>
    rw [hw, List.nodup_cons] at hnodup
    rw [hw, List.mem_cons, not_or] at hpw
    rw [hw] at hlock hholder hwoken
    refine ⟨fun q hq => ?_, hlock ▸ hnodup.2, fun q hq => ?_⟩
    · rw [hlock, List.tail_cons] at hq
      rw [hphase, hwoken, if_neg, if_neg (ne_of_mem_of_not_mem hq hpw.2)]
      · exact h.waiting q (hw ▸ List.mem_cons_of_mem w hq)
      · intro heq
        exact hnodup.1 (Option.some.inj heq ▸ hq)
    · obtain rfl : w = q := Option.some.inj (hholder.symm.trans hq)
      rw [hphase, hwoken]
      exact (if_pos rfl).trans (Pc.phase_wake (h.waiting w (hw ▸ List.mem_cons_self)))

theorem queued_effect (h : Queued s) (heff : Effect s a t) : Queued t := by
  cases heff with
  | move p pc fs _ hphase _ => exact queued_move h hphase
  | acquire p sec found hpc => exact queued_acquire h hpc
  | release p found hpc => exact queued_release h (by rw [hpc]; nofun) (Pc.phase_released found)
  | releaseFound p i hpc => exact queued_release h (by rw [hpc]; nofun) rfl

/-- In every run: the process that has found a cluster does not hold the lock that it is going to release. -/
theorem releaseFound_not_holder {fs : Fat16} {as : List (LockAction P)} {i : Nat}
    (h : AnyRun LockStep (initial fs) as s) (hpc : s.pc p = .releaseFound i) : s.holder ≠ some p := by
  have hq : Queued s := h.invariant (P := Queued) (fun _ _ _ hs _ hst => queued_effect hs (effect_step hst))
    (queued_initial fs)
  intro hp
  have hin := hq.holder p hp
  rw [hpc] at hin
  exact Phase.noConfusion hin

/-- So the lock is not safe then. -/
theorem not_lockSafe_of_releaseFound {fs : Fat16} {as : List (LockAction P)} {i : Nat}
    (h : AnyRun LockStep (initial fs) as s) (hpc : s.pc p = .releaseFound i) : ¬ LockSafe s := fun hs =>
  releaseFound_not_holder h hpc (hs.holder p (.inr ⟨i, hpc⟩))

/-- Two searches of an empty table: both find the entry 5, and neither holds the lock that it releases. When one of them
releases it while the other is in its section, the section is open. -/
theorem two_searches :
    (∃ as, ∃ s : TableLock Bool, AnyRun LockStep (initial (uniformTable 0)) as s ∧ ¬ LockSafe s ∧ s.holder = none ∧
      s.pc false = .releaseFound 5 ∧ s.pc true = .releaseFound 5) ∧
    ∃ as, ∃ s : TableLock Bool, AnyRun LockStep (initial (uniformTable 0)) as s ∧
      s.pc false = .inside .syncFatTable none ∧ s.pc true = .inside (.setFatEntry 5 0xFFFF) (some 5) := by
  have hboth := @run_of_exec _ _ step [.getFreeCluster false, .getFreeCluster true, .resume false, .resume true,
    .resume false, .resume false, .resume false, .resume true, .resume true, .resume true]
    (initial (uniformTable 0) : TableLock Bool) _ rfl
  have hopen := @run_of_exec _ _ step [.getFreeCluster false, .getFreeCluster true, .resume false, .resume true,
    .resume false, .resume false, .resume false, .resume true, .resume false, .syncFatTable false, .resume false]
    (initial (uniformTable 0) : TableLock Bool) _ rfl
  exact ⟨⟨_, _, hboth, not_lockSafe_of_releaseFound hboth (p := false) rfl, rfl, rfl, rfl⟩, _, _, hopen, rfl, rfl⟩

end TableLock

end RetrOS.Fs
