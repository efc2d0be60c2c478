import RetrOS.Kernel.Scheduler
import RetrOS.Lib.Places
import RetrOS.Lib.Run

/-!
# No PCB is lost

* `Place`, `Kernel.lists` : where the PCBs are;
* `Kernel.Conserved` : every PCB that is in use is in one place, once, and those that are to be cleaned up are zombies;
* `Kernel.Room` : the zombies that a switch passes fit into the pool of works;
* `kernelRun_conserved` : no PCB is lost as long as they do;
* `exits_not_conserved` : the zombie that finds the pool full is in no place.
-/

namespace RetrOS
open RetrOS.Lib

/-- The running slot, the ready queue, the queue of a mutex, the works. -/
inductive Place (M : Type*)
  | running
  | ready
  | blocked (m : M)
  | cleanup
  deriving DecidableEq

namespace Kernel

variable {P M : Type*} [DecidableEq P] [DecidableEq M]

def lists (s : Kernel P M) : Place M → List P
  | .running => s.running.toList
  | .ready => s.queue
  | .blocked m => (s.mutex m).blocked
  | .cleanup => (s.works ++ s.started).filterMap id

structure Conserved (s : Kernel P M) : Prop where
  one : ∀ p, (s.pcb p).state ≠ .stopped → ∃ i, (s.lists i).count p = 1 ∧ ∀ j, j ≠ i → p ∉ s.lists j
  none : ∀ p, (s.pcb p).state = .stopped → ∀ i, p ∉ s.lists i
  zombie : ∀ p ∈ s.lists .cleanup, (s.pcb p).state = .zombie

/-- The zombies in front of the first PCB in the queue that can run fit into the pool. -/
def Room (s : Kernel P M) : Prop :=
  (s.queue.takeWhile fun p => decide (¬ s.Runnable p)).countP (fun p => decide ((s.pcb p).state = .zombie)) ≤
    workPoolSize - s.inUse

instance (s : Kernel P M) : Decidable s.Room := inferInstanceAs (Decidable (_ ≤ _))

/-- `Conserved`, with the place of every PCB. -/
structure Placed (s : Kernel P M) (loc : P → Option (Place M)) : Prop where
  located : Located s.lists loc
  stopped : ∀ p, loc p = none ↔ (s.pcb p).state = .stopped
  zombie : ∀ p, loc p = some .cleanup → (s.pcb p).state = .zombie

section
variable {s t : Kernel P M} {loc : P → Option (Place M)} {p : P} {fuel : Nat}

theorem conserved_iff : s.Conserved ↔ ∃ loc, s.Placed loc := by
  constructor
  · rintro ⟨hone, hnone, hzombie⟩
    obtain ⟨loc, hloc, hstopped⟩ := exists_located_iff.mpr ⟨hone, hnone⟩
    exact ⟨loc, hloc, hstopped, fun p hp => hzombie p (hloc.mem_iff.mpr hp)⟩
  · rintro ⟨loc, hloc, hstopped, hzombie⟩
    obtain ⟨hone, hnone⟩ := exists_located_iff.mp ⟨loc, hloc, hstopped⟩
    exact ⟨hone, hnone, fun p hp => hzombie p (hloc.mem_iff.mp hp)⟩

omit [DecidableEq P] in
/-- The PCBs passed by a switch are those of the queue that cannot run. -/
theorem eq_takeWhile {queue last pre post : List P} {next : P} {runnable : P → Prop} [DecidablePred runnable]
    (h : queue ++ last = pre ++ next :: post) (hlast : last.length ≤ 1) (hpre : ∀ p ∈ pre, ¬ runnable p)
    (hnext : runnable next) : pre = queue.takeWhile fun p => decide (¬ runnable p) := by
  have hpre' : ∀ p ∈ pre, (decide ¬ runnable p) = true := fun p hp => decide_eq_true (hpre p hp)
  have htake : (queue ++ last).takeWhile (fun p => decide (¬ runnable p)) = pre := by
    rw [h, List.takeWhile_append_of_pos hpre', List.takeWhile_cons_of_neg (by simpa using hnext), List.append_nil]
  have hself : pre.takeWhile (fun p => decide (¬ runnable p)) = pre := List.takeWhile_eq_self_iff.mpr hpre'
  rcases List.append_eq_append_iff.mp h with ⟨l, hl, hlast'⟩ | ⟨l, hl, hcons⟩
  · -- `next` is in `last`, alone
    have hnil : l = [] := by
      have hlen := congrArg List.length hlast'
      rw [List.length_append, List.length_cons] at hlen
      exact List.eq_nil_of_length_eq_zero (by omega)
    rw [hnil, List.append_nil] at hl
    rw [← hl, hself]
  · cases l with
    | nil =>
      rw [List.append_nil] at hl
      rw [hl, hself]
    | cons x l =>
      obtain ⟨rfl, -⟩ := List.cons.inj hcons
      rw [hl, List.takeWhile_append_of_pos hpre', List.takeWhile_cons_of_neg (by simpa using hnext), List.append_nil]

/-- The zombies that a switch passes. -/
def passed (s : Kernel P M) (pre : List P) : List P := pre.filter fun p => decide ((s.pcb p).state = .zombie)

omit [DecidableEq P] [DecidableEq M] in
theorem mem_passed {pre : List P} : p ∈ s.passed pre ↔ p ∈ pre ∧ (s.pcb p).state = .zombie := by
  rw [passed, List.mem_filter, decide_eq_true_iff]

omit [DecidableEq M] in
theorem count_filter_not_zombie (s : Kernel P M) (pre : List P) (p : P) :
    (pre.filter fun p => decide ((s.pcb p).state ≠ .zombie)).count p + (s.passed pre).count p = pre.count p := by
  by_cases hz : (s.pcb p).state = .zombie
  · have hcount : (s.passed pre).count p = pre.count p :=
      List.count_filter (p := fun p => decide ((s.pcb p).state = .zombie)) (decide_eq_true hz)
    rw [hcount, Nat.add_eq_right, List.count_eq_zero]
    exact fun hm => of_decide_eq_true (List.mem_filter.mp hm).2 hz
  · rw [List.count_filter (p := fun p => decide ((s.pcb p).state ≠ .zombie)) (decide_eq_true hz), Nat.add_eq_left,
      List.count_eq_zero]
    exact fun hm => hz (mem_passed.mp hm).2

theorem Placed.place (hs : s.Placed loc) (i : Place M) (hp : p ∈ s.lists i) : loc p = some i := hs.located.mem_iff.mp hp

theorem Placed.state_ne (hs : s.Placed loc) {i : Place M} (hp : loc p = some i) : (s.pcb p).state ≠ .stopped := fun h =>
  Option.some_ne_none i (hp.symm.trans ((hs.stopped p).mpr h))

theorem Placed.congr (hs : s.Placed loc) (hlists : ∀ i p, (t.lists i).count p = (s.lists i).count p)
    (hpcb : t.pcb = s.pcb) : t.Placed loc := by
  refine ⟨hs.located.congr hlists, fun p => ?_, fun p hp => ?_⟩
  · rw [hpcb]
    exact hs.stopped p
  · rw [hpcb]
    exact hs.zombie p hp

/-- PCBs move from one place to another, and states change. -/
theorem Placed.move (hs : s.Placed loc) {l : List P} {r d : Option (Place M)}
    (hsource : ∀ p ∈ l, loc p = r) (hnodup : l.Nodup)
    (hcount : ∀ i p, (t.lists i).count p + (if r = some i then l.count p else 0) =
      (s.lists i).count p + if d = some i then l.count p else 0)
    (hdest : ∀ p ∈ l, d = none ↔ (t.pcb p).state = .stopped)
    (hrest : ∀ p, p ∉ l → ((t.pcb p).state = .stopped ↔ (s.pcb p).state = .stopped))
    (hzombie : ∀ p, moved l d loc p = some .cleanup → (t.pcb p).state = .zombie) : t.Placed (moved l d loc) := by
  refine ⟨hs.located.move hsource hnodup hcount, fun p => ?_, hzombie⟩
  by_cases hp : p ∈ l
  · rw [moved_of_mem hp]
    exact hdest p hp
  · rw [moved_of_notMem hp]
    exact (hs.stopped p).trans (hrest p hp).symm

/-- One PCB moves, not into a work. -/
theorem Placed.moveOne (hs : s.Placed loc) {r d : Option (Place M)} (hp : loc p = r)
    (hcleanup : d ≠ some .cleanup)
    (hcount : ∀ i q, (t.lists i).count q + (if r = some i then [p].count q else 0) =
      (s.lists i).count q + if d = some i then [p].count q else 0)
    (hdest : d = none ↔ (t.pcb p).state = .stopped)
    (hrest : ∀ q, q ≠ p → ((t.pcb q).state = .stopped ↔ (s.pcb q).state = .stopped))
    (hzombie : ∀ q, q ≠ p → (s.pcb q).state = .zombie → (t.pcb q).state = .zombie) :
    t.Placed (moved [p] d loc) := by
  refine hs.move (by simpa using hp) (List.nodup_singleton p) hcount (by simpa using hdest)
    (fun q hq => hrest q fun heq => hq (List.mem_singleton.mpr heq)) fun q hq => ?_
  have hqp : q ∉ [p] := by
    intro hm
    rw [moved_of_mem hm] at hq
    exact hcleanup hq
  rw [moved_of_notMem hqp] at hq
  exact hzombie q (fun heq => hqp (List.mem_singleton.mpr heq)) (hs.zombie q hq)

theorem Placed.requeue (hs : s.Placed loc) : s.requeue.Placed (moved s.running.toList (some .ready) loc) := by
  have hmem : ∀ p ∈ s.running.toList, loc p = some .running := fun p hp => hs.place .running hp
  refine hs.move hmem (hs.located.nodup .running) (fun i p => ?_) (fun p hp => ?_) (fun p _ => Iff.rfl) fun p hp => ?_
  · cases i with
    | ready => simp [lists, Kernel.requeue, List.count_append]
    | _ => simp [lists, Kernel.requeue]
  · exact iff_of_false (Option.some_ne_none _) (hs.state_ne (hmem p hp))
  · by_cases hpr : p ∈ s.running.toList
    · rw [moved_of_mem hpr] at hp
      exact absurd hp (by simp)
    · rw [moved_of_notMem hpr] at hp
      exact hs.zombie p hp

section
variable {pre post : List P} {next : P}

/-- The queue after a switch has given the zombies to the workers. -/
def swept (s : Kernel P M) (pre : List P) (next : P) (post : List P) : Kernel P M :=
  { s with
    queue := next :: (post ++ pre.filter fun p => decide ((s.pcb p).state ≠ .zombie))
    works := s.works ++ ((s.passed pre).take (workPoolSize - s.inUse)).map some }

theorem filterMap_works (works started : List (Option P)) (zs : List P) (p : P) :
    ((works ++ zs.map some ++ started).filterMap id).count p =
      ((works ++ started).filterMap id).count p + zs.count p := by
  have hmap : (zs.map some).filterMap id = zs := by simp [List.filterMap_map]
  simp only [List.filterMap_append, hmap, List.count_append]
  omega

theorem swept_placed (hs : s.Placed loc) (hqueue : s.queue = pre ++ next :: post)
    (hroom : (s.passed pre).length ≤ workPoolSize - s.inUse) :
    (s.swept pre next post).Placed (moved (s.passed pre) (some .cleanup) loc) := by
  have hnodup : pre.Nodup := by
    have hn : s.queue.Nodup := hs.located.nodup .ready
    rw [hqueue] at hn
    exact (List.nodup_append.mp hn).1
  have hmem : ∀ p ∈ s.passed pre, loc p = some .ready := by
    intro p hp
    refine hs.place .ready ?_
    show p ∈ s.queue
    rw [hqueue]
    exact List.mem_append_left _ (mem_passed.mp hp).1
  refine hs.move hmem (hnodup.filter _) (fun i p => ?_) (fun p hp => ?_) (fun p _ => Iff.rfl) fun p hp => ?_
  · cases i with
    | ready =>
      have hcount := count_filter_not_zombie s pre p
      have hq : s.queue.count p = _ := congrArg (List.count p) hqueue
      rw [List.count_append, List.count_cons] at hq
      show (next :: (post ++ pre.filter _)).count p + (if _ then _ else 0) = s.queue.count p + if _ then _ else 0
      rw [if_pos rfl, if_neg (by simp), hq, List.count_cons, List.count_append]
      omega
    | cleanup =>
      show ((s.works ++ ((s.passed pre).take (workPoolSize - s.inUse)).map some ++ s.started).filterMap id).count p +
        (if _ then _ else 0) = ((s.works ++ s.started).filterMap id).count p + if _ then _ else 0
      rw [filterMap_works, List.take_of_length_le hroom, if_neg (by simp), if_pos rfl, Nat.add_zero]
    | _ => rfl
  · exact iff_of_false (Option.some_ne_none _) (hs.state_ne (hmem p hp))
  · by_cases hpz : p ∈ s.passed pre
    · exact (mem_passed.mp hpz).2
    · rw [moved_of_notMem hpz] at hp
      exact hs.zombie p hp

theorem switched_placed (hs : s.Placed loc) (hrunning : s.running = none) (hqueue : s.queue = pre ++ next :: post)
    (hroom : (s.passed pre).length ≤ workPoolSize - s.inUse) :
    ∃ loc', (s.switched pre next post).Placed loc' := by
  have hw := swept_placed hs hqueue hroom
  have hready : moved (s.passed pre) (some .cleanup) loc next = some .ready :=
    hw.place .ready (List.mem_cons_self ..)
  refine ⟨_, hw.move (l := [next]) (r := some .ready) (d := some .running) (by simpa using hready)
    (List.nodup_singleton next) (fun i p => ?_) (fun p hp => ?_) (fun p hp => ?_) fun p hp => ?_⟩
  · cases i with
    | running =>
      show [next].count p + (if _ then _ else 0) = s.running.toList.count p + if _ then _ else 0
      rw [hrunning, if_neg (by simp), if_pos rfl, Option.toList_none, List.count_nil, Nat.add_zero, Nat.zero_add]
    | ready =>
      show (post ++ pre.filter _).count p + (if _ then _ else 0) =
        (next :: (post ++ pre.filter _)).count p + if _ then _ else 0
      rw [if_pos rfl, if_neg (by simp), List.count_cons, List.count_cons, List.count_nil]
      omega
    | _ => rfl
  · obtain rfl := List.mem_singleton.mp hp
    refine iff_of_false (Option.some_ne_none _) ?_
    show (Function.update s.pcb p _ p).state ≠ .stopped
    rw [Function.update_self]
    exact nofun
  · have hpn : p ≠ next := fun heq => hp (List.mem_singleton.mpr heq)
    show (Function.update s.pcb next _ p).state = _ ↔ _
    rw [Function.update_of_ne hpn]
    exact Iff.rfl
  · have hpn : p ∉ [next] := by
      intro hm
      rw [moved_of_mem hm] at hp
      exact absurd hp (by simp)
    rw [moved_of_notMem hpn] at hp
    show (Function.update s.pcb next _ p).state = _
    rw [Function.update_of_ne fun heq => hpn (List.mem_singleton.mpr heq)]
    exact hw.zombie p hp

/-- The first zombie that finds the pool full is lost. -/
theorem not_conserved_switched (hs : s.Placed loc) (hqueue : s.queue = pre ++ next :: post)
    (hroom : ¬ (s.passed pre).length ≤ workPoolSize - s.inUse) : ¬ (s.switched pre next post).Conserved := by
  intro ht
  have hnodup : (pre ++ next :: post).Nodup := hqueue ▸ hs.located.nodup .ready
  obtain ⟨p, hp⟩ := List.exists_mem_of_length_pos (l := (s.passed pre).drop (workPoolSize - s.inUse))
    (by rw [List.length_drop]; omega)
  obtain ⟨hpre, hz⟩ := mem_passed.mp (List.mem_of_mem_drop hp)
  have hrest : p ∉ next :: post := fun hm => List.disjoint_of_nodup_append hnodup hpre hm
  have hpn : p ≠ next := fun heq => hrest (List.mem_cons.mpr (.inl heq))
  have hready : loc p = some .ready := by
    refine hs.place .ready ?_
    show p ∈ s.queue
    rw [hqueue]
    exact List.mem_append_left _ hpre
  have hlive : ((s.switched pre next post).pcb p).state = .zombie := by
    show (Function.update s.pcb next _ p).state = _
    rwa [Function.update_of_ne hpn]
  obtain ⟨i, hcount, -⟩ := ht.one p (by rw [hlive]; exact nofun)
  refine absurd (List.count_pos_iff.mp (by omega : 0 < ((s.switched pre next post).lists i).count p)) fun hm => ?_
  cases i with
  | running => exact hpn (List.mem_singleton.mp hm)
  | ready =>
    rcases List.mem_append.mp hm with hm | hm
    · exact hrest (List.mem_cons_of_mem next hm)
    · exact of_decide_eq_true (List.mem_filter.mp hm).2 hz
  | blocked m => exact absurd (hready.symm.trans (hs.place (.blocked m) hm)) (by simp)
  | cleanup =>
    have htake : p ∉ (s.passed pre).take (workPoolSize - s.inUse) := fun hm =>
      List.disjoint_take_drop (hnodup.of_append_left.filter _) (Nat.le_refl _) hm hp
    have hcleanup : p ∉ s.lists .cleanup := fun hm =>
      absurd (hready.symm.trans (hs.place .cleanup hm)) (by simp)
    have hpos := List.count_pos_iff.mpr hm
    change 0 < ((s.works ++ ((s.passed pre).take (workPoolSize - s.inUse)).map some ++ s.started).filterMap id).count p
      at hpos
    rw [filterMap_works, List.count_eq_zero.mpr htake, Nat.add_zero] at hpos
    exact hcleanup (List.count_pos_iff.mp hpos)

/-- A switch loses no PCB exactly if the zombies that it passes fit into the pool. -/
theorem roundRobin_conserved (hs : s.Placed loc) (h : roundRobin fuel s = some t) : t.Conserved ↔ s.Room := by
  obtain ⟨pre, next, post, hqueue, hpre, hnext, rfl⟩ := roundRobin_eq h
  have htake := eq_takeWhile hqueue (by cases s.running <;> simp) hpre hnext
  have hroom : s.Room ↔ (s.requeue.passed pre).length ≤ workPoolSize - s.requeue.inUse := by
    rw [Room, ← htake, List.countP_eq_length_filter]
    rfl
  rw [hroom]
  constructor
  · intro ht
    by_contra hfull
    exact not_conserved_switched hs.requeue hqueue hfull ht
  · exact fun hfits => conserved_iff.mpr (switched_placed hs.requeue rfl hqueue hfits)

end

theorem Placed.dispatch (hs : s.Placed loc) : ∃ loc', s.dispatch.Placed loc' := by
  unfold Kernel.dispatch
  split
  · next p rest hrunning hqueue =>
    have hp : loc p = some .ready := hs.place .ready (by show p ∈ s.queue; simp [hqueue])
    refine ⟨_, hs.moveOne hp (d := some .running) nofun (fun i q => ?_) ?_ (fun q _ => Iff.rfl) fun q _ hq => hq⟩
    · cases i with
      | running => simp [lists, hrunning]
      | ready =>
        simp only [lists, hqueue, if_true, List.count_cons, List.count_nil]
        simp
      | _ => rfl
    · exact iff_of_false (Option.some_ne_none _) (hs.state_ne hp)
  · exact ⟨loc, hs⟩

/-- A PCB that is not about to be cleaned up is changed. -/
theorem Placed.setPcb (hs : s.Placed loc) {i : Place M} (hp : loc p = some i) (hi : i ≠ .cleanup) {pcb : Pcb P}
    (hpcb : pcb.state ≠ .stopped) : (s.setPcb p pcb).Placed loc := by
  refine ⟨hs.located, fun q => ?_, fun q hq => ?_⟩
  · show _ ↔ (Function.update s.pcb p pcb q).state = _
    by_cases hqp : q = p
    · rw [hqp, Function.update_self]
      exact iff_of_false (by rw [hp]; exact Option.some_ne_none i) hpcb
    · rw [Function.update_of_ne hqp]
      exact hs.stopped q
  · show (Function.update s.pcb p pcb q).state = _
    have hqp : q ≠ p := by
      rintro rfl
      exact hi (Option.some.inj (hp.symm.trans hq))
    rw [Function.update_of_ne hqp]
    exact hs.zombie q hq

omit [DecidableEq M] in
theorem lists_setState (s : Kernel P M) (p : P) (state : PcbState) (i : Place M) :
    (s.setState p state).lists i = s.lists i := by
  cases i <;> rfl

omit [DecidableEq P] in
theorem blocked_update (f : M → Mutex P) (m : M) (l : Mutex P) (m' : M) :
    (Function.update f m l m').blocked = if m' = m then l.blocked else (f m').blocked := by
  by_cases h : m' = m
  · rw [h, Function.update_self, if_pos rfl]
  · rw [Function.update_of_ne h, if_neg h]

/-- `acquire` of a free lock. -/
theorem Placed.acquire_free (hs : s.Placed loc) {m : M} (hfree : ((s.mutex m).acquire p).2 = true) :
    Placed { s with mutex := Function.update s.mutex m ((s.mutex m).acquire p).1 } loc := by
  have hblocked := (s.mutex m).blocked_acquire p
  rw [if_pos hfree] at hblocked
  refine hs.congr (fun i q => ?_) rfl
  cases i with
  | blocked m' =>
    show (Function.update s.mutex m _ m').blocked.count q = (s.mutex m').blocked.count q
    rw [blocked_update]
    split
    · next hm => rw [hm, hblocked]
    · rfl
  | _ => rfl

/-- `sched_consume`, and the push to the queue of the mutex. -/
theorem Placed.acquire_busy (hs : s.Placed loc) {m : M} (hp : s.running = some p)
    (hbusy : ((s.mutex m).acquire p).2 = false) :
    Placed ({ s with mutex := Function.update s.mutex m ((s.mutex m).acquire p).1, running := none }.setState p .blocked)
      (moved [p] (some (.blocked m)) loc) := by
  have hblocked := (s.mutex m).blocked_acquire p
  rw [if_neg (by rw [hbusy]; exact Bool.false_ne_true)] at hblocked
  have hrunning : loc p = some .running := hs.place .running (by show p ∈ s.running.toList; simp [hp])
  refine hs.moveOne hrunning nofun (fun i q => ?_) ?_ (fun q hq => ?_) fun q hq hz => ?_
  · rw [lists_setState]
    cases i with
    | running => simp [lists, hp]
    | blocked m' =>
      show (Function.update s.mutex m _ m').blocked.count q + _ = (s.mutex m').blocked.count q + _
      rw [blocked_update]
      split
      · next hm => simp [hm, hblocked, List.count_append]
      · next hm => simpa using fun heq => absurd heq.symm hm
    | _ => simp [lists]
  · rw [state_setState, if_pos rfl]
    exact iff_of_false (Option.some_ne_none _) nofun
  · rw [state_setState, if_neg hq]
  · rwa [state_setState, if_neg hq]

theorem Placed.release (hs : s.Placed loc) (m : M) : ∃ loc', (s.release m).Placed loc' := by
  have hblocked := (s.mutex m).blocked_release.1
  cases hl : (s.mutex m).blocked with
  | nil =>
    rw [hl, List.tail_nil] at hblocked
    rw [release_of_nil hl]
    refine ⟨loc, hs.congr (fun i q => ?_) rfl⟩
    cases i with
    | blocked m' =>
      show (Function.update s.mutex m _ m').blocked.count q = (s.mutex m').blocked.count q
      rw [blocked_update]
      split
      · next hm => rw [hm, hblocked, hl]
      · rfl
    | _ => rfl
  | cons w rest =>
    rw [hl, List.tail_cons] at hblocked
    rw [release_of_cons hl]
    have hw : loc w = some (.blocked m) := hs.place (.blocked m) (by show w ∈ (s.mutex m).blocked; simp [hl])
    refine ⟨_, hs.moveOne hw (d := some .ready) nofun (fun i q => ?_) ?_ (fun q hq => ?_) fun q hq hz => ?_⟩
    · rw [lists_setState]
      cases i with
      | ready => simp [lists, List.count_append]
      | blocked m' =>
        show (Function.update s.mutex m _ m').blocked.count q + _ = (s.mutex m').blocked.count q + _
        rw [blocked_update]
        split
        · next hm => simp [hm, hblocked, hl, List.count_cons]
        · next hm => simpa using fun heq => absurd heq.symm hm
      | _ => simp [lists]
    · rw [state_setState, if_pos rfl]
      exact iff_of_false (Option.some_ne_none _) nofun
    · rw [state_setState, if_neg hq]
    · rwa [state_setState, if_neg hq]

theorem Placed.create (hs : s.Placed loc) {table : List P} {isProcess : PcbType} {parent : Option P}
    (h : s.create table isProcess parent = some t) : ∃ loc', t.Placed loc' := by
  obtain ⟨p, hstopped, rfl⟩ := create_some h
  have hpcb (q : P) : (({ s with queue := s.queue ++ [p] }.setPcb p
      { s.pcb p with state := .pcbNew, isProcess, parent }).pcb q).state =
        if q = p then .pcbNew else (s.pcb q).state := by
    show (Function.update s.pcb p _ q).state = _
    by_cases hq : q = p
    · rw [hq, Function.update_self, if_pos rfl]
    · rw [Function.update_of_ne hq, if_neg hq]
  refine ⟨_, hs.moveOne ((hs.stopped p).mpr hstopped) (d := some .ready) (by simp) (fun i q => ?_) ?_ (fun q hq => ?_)
    fun q hq hz => ?_⟩
  · cases i with
    | ready => simp [lists, Kernel.setPcb, List.count_append]
    | _ => simp [lists, Kernel.setPcb]
  · rw [hpcb, if_pos rfl]
    exact iff_of_false (Option.some_ne_none _) (by decide)
  · rw [hpcb, if_neg hq]
  · rwa [hpcb, if_neg hq]

/-! ## Works -/

theorem Placed.takeWork (hs : s.Placed loc) (h : s.takeWork = some t) : t.Placed loc := by
  obtain ⟨work, rest, hw, rfl⟩ := takeWork_some h
  refine hs.congr (fun i q => ?_) rfl
  cases i with
  | cleanup =>
    refine List.Perm.count_eq (List.Perm.filterMap id ?_) q
    rw [hw, List.cons_append, ← List.append_assoc]
    exact List.perm_append_singleton work _
  | _ => rfl

theorem Placed.otherWork (hs : s.Placed loc) : (s.workQueueAdd none).Placed loc := by
  unfold workQueueAdd
  split
  · refine hs.congr (fun i q => ?_) rfl
    cases i with
    | cleanup => simp [lists, List.filterMap_append]
    | _ => rfl
  · exact hs

theorem Placed.finishWork (hs : s.Placed loc) (h : s.finishWork = some t) : t.Placed loc := by
  obtain ⟨hnone, rfl⟩ := finishWork_some h
  refine hs.congr (fun i q => ?_) rfl
  cases i with
  | cleanup =>
    have hperm := (List.perm_cons_erase hnone).filterMap id
    show ((s.works ++ s.started.erase none).filterMap id).count q = ((s.works ++ s.started).filterMap id).count q
    rw [List.filterMap_append, List.filterMap_append, List.count_append, List.count_append, hperm.count_eq q]
    rfl
  | _ => rfl

/-- A PCB that is free has no parent. -/
def Orphans (s : Kernel P M) : Prop := ∀ p, (s.pcb p).state = .stopped → (s.pcb p).parent = none

theorem Placed.runWork (hs : s.Placed loc) (horphans : s.Orphans) (h : s.runWork p = some t) :
    ∃ loc', t.Placed loc' := by
  obtain ⟨hp, rfl⟩ := runWork_some h
  have hcleanup : loc p = some .cleanup := by
    refine hs.place .cleanup (List.mem_filterMap.mpr ⟨some p, ?_, rfl⟩)
    exact List.mem_append_right _ hp
  refine ⟨_, hs.moveOne hcleanup (d := none) nofun (fun i q => ?_) ?_ (fun q hq => ?_) fun q hq hz => ?_⟩
  · cases i with
    | cleanup =>
      have hperm := (List.perm_cons_erase hp).filterMap id
      have hcount := hperm.count_eq q
      show ((s.works ++ none :: s.started.erase (some p)).filterMap id).count q + _ =
        ((s.works ++ s.started).filterMap id).count q + _
      rw [List.filterMap_append, List.filterMap_append, List.count_append, List.count_append, hcount, if_pos rfl,
        if_neg (by simp)]
      simp only [List.filterMap_cons, id, List.count_cons, List.count_nil]
      omega
    | _ => rfl
  · exact iff_of_true rfl (congrArg Pcb.state (pcb_cleanup_self _ p))
  · rw [pcb_cleanup _ hq]
    split
    · next hchild =>
      refine iff_of_false nofun fun hstopped => ?_
      exact Option.some_ne_none p (hchild.1.symm.trans (horphans q hstopped))
    · exact Iff.rfl
  · rw [pcb_cleanup _ hq]
    split
    · rfl
    · exact hz

omit [DecidableEq M] in
theorem pcb_roundRobin (h : roundRobin fuel s = some t) (q : P) :
    t.pcb q = s.pcb q ∨ (t.pcb q).state ≠ .stopped := by
  obtain ⟨pre, next, post, -, -, -, rfl⟩ := roundRobin_eq h
  have hpcb : (s.requeue.switched pre next post).pcb q = _ := pcb_setPcb s.requeue next _ q
  rw [hpcb]
  split
  · exact .inr nofun
  · exact .inl rfl

variable {table : List P} {a : KernelAction P M} {switches : Bool}

theorem Placed.enters (hs : s.Placed loc) (horphans : s.Orphans) (h : Enters table s a switches t) :
    ∃ loc', t.Placed loc' := by
  cases h with
  | yield => exact hs.dispatch
  | timer =>
    have htick : Placed { s with tick := s.tick + 1 } loc := ⟨hs.located, hs.stopped, hs.zombie⟩
    exact htick.dispatch
  | sleep time p hp =>
    exact ⟨loc, hs.setPcb (hs.place .running (by show p ∈ s.running.toList; simp [hp])) nofun nofun⟩
  | exit p hp =>
    exact ⟨loc, hs.setPcb (hs.place .running (by show p ∈ s.running.toList; simp [hp])) nofun nofun⟩
  | acquireFree m p hp hfree => exact ⟨loc, hs.acquire_free hfree⟩
  | acquireBusy m p hp hbusy => exact ⟨_, hs.acquire_busy hp hbusy⟩
  | release m => exact hs.release m
  | create c isProcess parent t ht => exact hs.create ht
  | takeWork t ht => exact ⟨loc, hs.takeWork ht⟩
  | runWork p t ht => exact hs.runWork horphans ht
  | finishWork t ht => exact ⟨loc, hs.finishWork ht⟩
  | otherWork => exact ⟨loc, hs.otherWork⟩

omit [DecidableEq P] [DecidableEq M] in
theorem pcb_dispatch (s : Kernel P M) : s.dispatch.pcb = s.pcb := by
  unfold dispatch
  split <;> rfl

/-- What a step does to a PCB before it switches: only its cleanup makes it free. -/
theorem pcb_enters (h : Enters table s a switches t) (q : P) :
    t.pcb q = s.pcb q ∨ (t.pcb q).state ≠ .stopped ∨ some q ∈ s.started ∧ t.pcb q = .free := by
  have hset (p : P) (pcb : Pcb P) (hpcb : pcb.state ≠ .stopped) (s' : Kernel P M) :
      (s'.setPcb p pcb).pcb q = s'.pcb q ∨ ((s'.setPcb p pcb).pcb q).state ≠ .stopped := by
    rw [pcb_setPcb]
    split
    · exact .inr hpcb
    · exact .inl rfl
  cases h with
  | yield => exact .inl (congrFun (pcb_dispatch s) q)
  | timer => exact .inl (congrFun (pcb_dispatch _) q)
  | sleep time p hp => exact (hset p _ (by simp) s).imp_right .inl
  | exit p hp => exact (hset p _ (by simp) s).imp_right .inl
  | acquireFree m p hp hfree => exact .inl rfl
  | acquireBusy m p hp hbusy => exact (hset p _ (by simp) _).imp_right .inl
  | release m =>
    cases hl : (s.mutex m).blocked with
    | nil =>
      rw [release_of_nil hl]
      exact .inl rfl
    | cons w rest =>
      rw [release_of_cons hl]
      exact (hset w _ (by simp) _).imp_right .inl
  | create c isProcess parent t ht =>
    obtain ⟨p, -, rfl⟩ := create_some ht
    exact (hset p _ (by simp) _).imp_right .inl
  | takeWork t ht =>
    obtain ⟨work, rest, -, rfl⟩ := takeWork_some ht
    exact .inl rfl
  | runWork p t ht =>
    obtain ⟨hp, rfl⟩ := runWork_some ht
    by_cases hq : q = p
    · subst hq
      exact .inr (.inr ⟨hp, pcb_cleanup_self _ q⟩)
    · rw [pcb_cleanup _ hq]
      split
      · exact .inr (.inl nofun)
      · exact .inl rfl
  | finishWork t ht =>
    obtain ⟨-, rfl⟩ := finishWork_some ht
    exact .inl rfl
  | otherWork => exact .inl (congrFun (pcb_workQueueAdd s none) q)

theorem pcb_step (h : s.step table fuel a = some t) (q : P) :
    t.pcb q = s.pcb q ∨ (t.pcb q).state ≠ .stopped ∨ some q ∈ s.started ∧ t.pcb q = .free := by
  obtain ⟨switches, s', henters, ht⟩ := step_enters h
  have hq := pcb_enters henters q
  split at ht
  · rcases pcb_roundRobin ht q with heq | hne
    · rwa [heq]
    · exact .inr (.inl hne)
  · rwa [ht]

theorem orphans_step (hs : s.Orphans) (h : s.step table fuel a = some t) : t.Orphans := by
  intro q hq
  rcases pcb_step h q with heq | hne | ⟨-, hfree⟩
  · rw [heq] at hq ⊢
    exact hs q hq
  · exact absurd hq hne
  · rw [hfree]
    rfl

/-- The zombies that the step passes fit into the pool of works. -/
def Fits (table : List P) (s : Kernel P M) (a : KernelAction P M) : Prop := ∀ s', Enters table s a true s' → s'.Room

/-- In use, and not in a work. -/
def Scheduled (s : Kernel P M) (p : P) : Prop := ∃ i, i ≠ .cleanup ∧ p ∈ s.lists i

/-- The step loses no PCB: what leaves the running slot and the queues is a zombie, and in one work. -/
structure Keeps (s t : Kernel P M) : Prop where
  conserved : t.Conserved
  leaves : ∀ p, s.Scheduled p → ¬ t.Scheduled p → (t.pcb p).state = .zombie ∧ (t.lists .cleanup).count p = 1

theorem leaves_step (hs : s.Placed loc) (ht : t.Conserved) (h : s.step table fuel a = some t)
    (hp : s.Scheduled p) (hp' : ¬ t.Scheduled p) : (t.pcb p).state = .zombie ∧ (t.lists .cleanup).count p = 1 := by
  obtain ⟨i, hi, hmem⟩ := hp
  have hplace := hs.place i hmem
  have hlive : (t.pcb p).state ≠ .stopped := by
    rcases pcb_step h p with heq | hne | ⟨hstarted, -⟩
    · rw [heq]
      exact hs.state_ne hplace
    · exact hne
    · have hcleanup := hs.place (p := p) .cleanup
        (List.mem_filterMap.mpr ⟨some p, List.mem_append_right _ hstarted, rfl⟩)
      exact absurd (Option.some.inj (hplace.symm.trans hcleanup)) hi
  obtain ⟨j, hcount, -⟩ := ht.one p hlive
  have hj : j = .cleanup := by
    by_contra hj
    exact hp' ⟨j, hj, List.count_pos_iff.mp (by omega)⟩
  subst hj
  exact ⟨ht.zombie p (List.count_pos_iff.mp (by omega)), hcount⟩

theorem enters_unique (h : Enters table s a true t) {t' : Kernel P M} (h' : Enters table s a true t') : t = t' := by
  cases h with
  | yield =>
    cases h'
    rfl
  | timer =>
    cases h'
    rfl
  | sleep time p hp =>
    cases h' with
    | sleep _ p' hp' =>
      obtain rfl := Option.some.inj (hp.symm.trans hp')
      rfl
  | exit p hp =>
    cases h' with
    | exit p' hp' =>
      obtain rfl := Option.some.inj (hp.symm.trans hp')
      rfl
  | acquireBusy m p hp hbusy =>
    cases h' with
    | acquireBusy _ p' hp' hbusy' =>
      obtain rfl := Option.some.inj (hp.symm.trans hp')
      rfl

/-- An action that has not called `sched_round_robin` does not call it. -/
theorem enters_false (h : Enters table s a false t) {t' : Kernel P M} (h' : Enters table s a true t') : False := by
  cases h with
  | acquireFree m p hp hfree =>
    cases h' with
    | acquireBusy _ p' hp' hbusy =>
      obtain rfl := Option.some.inj (hp.symm.trans hp')
      exact Bool.false_ne_true (hbusy.symm.trans hfree)
  | _ => nomatch h'

/-- A step loses no PCB exactly if the zombies that it passes fit into the pool. -/
theorem step_keeps (hs : s.Conserved) (horphans : s.Orphans) (h : s.step table fuel a = some t) :
    s.Keeps t ↔ s.Fits table a := by
  obtain ⟨loc, hloc⟩ := conserved_iff.mp hs
  have hconserved : t.Conserved ↔ s.Fits table a := by
    obtain ⟨switches, s', henters, ht⟩ := step_enters h
    obtain ⟨loc', hloc'⟩ := hloc.enters horphans henters
    cases switches with
    | true =>
      rw [if_pos rfl] at ht
      rw [roundRobin_conserved hloc' ht]
      refine ⟨fun hroom s'' hs'' => ?_, fun hfits => hfits s' henters⟩
      rwa [← enters_unique henters hs'']
    | false =>
      rw [if_neg Bool.false_ne_true] at ht
      subst ht
      exact iff_of_true (conserved_iff.mpr ⟨loc', hloc'⟩) fun s'' hs'' => (enters_false henters hs'').elim
  exact ⟨fun hk => hconserved.mp hk.conserved, fun hf => ⟨hconserved.mpr hf, fun p hp hp' =>
    leaves_step hloc (hconserved.mpr hf) h hp hp'⟩⟩

omit [DecidableEq P] [DecidableEq M] in
theorem orphans_initial : (initial : Kernel P M).Orphans := fun _ _ => rfl

omit [DecidableEq M] in
theorem conserved_initial : (initial : Kernel P M).Conserved :=
  ⟨fun _ h => absurd rfl h, fun p _ i => by cases i <;> exact List.not_mem_nil, fun _ h => absurd h List.not_mem_nil⟩

/-- No PCB is lost in a run all of whose switches have room, and the next step loses none exactly if it has. -/
theorem kernelRun_conserved {as : List (KernelAction P M)} (h : Run (Step table) (Fits table) initial as s) :
    s.Conserved ∧ ∀ a t, Step table s a t → (s.Keeps t ↔ s.Fits table a) := by
  have hs : s.Conserved ∧ s.Orphans := by
    refine h.invariant (P := fun s => s.Conserved ∧ s.Orphans) (fun s a t hs hfits hst => ?_)
      ⟨conserved_initial, orphans_initial⟩
    obtain ⟨fuel, hst⟩ := hst
    exact ⟨((step_keeps hs.1 hs.2 hst).mpr hfits).conserved, orphans_step hs.2 hst⟩
  exact ⟨hs.1, fun a t ⟨fuel, hst⟩ => step_keeps hs.1 hs.2 hst⟩

end

/-- The second process exits, and the first one yields: there is room for one zombie. -/
theorem kernelRun_conserved_exit : ∃ s : Kernel (Fin 64) Unit, s.Conserved ∧
    ∀ t, Step (List.finRange 64) s .yield t → s.Keeps t := by
  have hcreate (s : Kernel (Fin 64) Unit) : s.Fits (List.finRange 64) (.create .process) := nofun
  have hyield (s : Kernel (Fin 64) Unit) (h : s.dispatch.Room) : s.Fits (List.finRange 64) .yield := by
    rintro s' ⟨⟩
    exact h
  have hexit (s : Kernel (Fin 64) Unit) (h : ∀ p, s.running = some p → (s.setState p .zombie).Room) :
      s.Fits (List.finRange 64) .exit := by
    rintro s' ⟨⟩
    exact h _ ‹_›
  have hrun : Run (Step (List.finRange 64)) (Fits (List.finRange 64)) (initial : Kernel (Fin 64) Unit)
      [.create .process, .create .process, .yield, .exit] _ :=
    .cons (hcreate _) ⟨0, rfl⟩ (.cons (hcreate _) ⟨0, rfl⟩ (.cons (hyield _ (by decide)) ⟨1, rfl⟩
      (.single (hexit _ fun p hp => by obtain rfl := Option.some.inj hp; decide) ⟨1, rfl⟩)))
  obtain ⟨hs, hnext⟩ := kernelRun_conserved hrun
  exact ⟨_, hs, fun t ht => (hnext _ t ht).mpr (hyield _ (by decide))⟩

/-- Twenty-six of twenty-seven processes exit before the first one has its turn again. -/
def crowd : List (KernelAction (Fin 64) Unit) :=
  List.replicate 27 (.create .process) ++ .yield :: List.replicate 26 .exit ++ [.yield]

/-- The last one that exits is in no place. -/
theorem exits_not_conserved : ∃ s, AnyRun (Step (List.finRange 64)) initial crowd s ∧
    (s.pcb 26).state = .zombie ∧ (∀ i, 26 ∉ s.lists i) ∧ ¬ s.Conserved := by
  have hend : (exec (step (List.finRange 64) 30) initial crowd).map (fun s => ((s.pcb 26).state, s.running, s.queue,
      (s.mutex ()).blocked, (s.works ++ s.started).filterMap id)) =
      some (.zombie, some 0, [], [], (List.finRange 64).tail.take 25) := by rfl
  obtain ⟨s, hexec, hs⟩ := Option.map_eq_some_iff.mp hend
  simp only [Prod.mk.injEq] at hs
  obtain ⟨hstate, hrunning, hqueue, hblocked, hcleanup⟩ := hs
  have hlost : ∀ i, 26 ∉ s.lists i := by
    intro i
    cases i with
    | running => simp [lists, hrunning]
    | ready => simp [lists, hqueue]
    | blocked m => simp [lists, hblocked]
    | cleanup =>
      rw [lists, hcleanup]
      decide
  refine ⟨s, (run_of_exec hexec).imp fun _ _ _ h => ⟨30, h⟩, hstate, hlost, fun hs => ?_⟩
  obtain ⟨i, hi, -⟩ := hs.one 26 (by rw [hstate]; decide)
  exact hlost i (List.count_pos_iff.mp (by omega))

end Kernel

end RetrOS
