import RetrOS.Kernel.WorkQueue

/-!
# The order of the works

As long as the worker clears no link behind which another work hangs, the queue is the list of the accepted works that
are still to be executed, and every slot is in one place.

* `Placed` : a slot is free, a caller's, in the queue or at the worker;
* `Inv` : the queue and the places, what the callers have written, and what is left to execute;
* `workRun_exact` : the works are executed in order and each once, and the worker alone executes all that wait.
-/

namespace RetrOS.Workers
open RetrOS.Lib

namespace WorkQueue

variable {P : Type*} [DecidableEq P]

/-! ## Who has a slot -/

/-- Where a slot is. -/
inductive Place (P : Type*)
  | free
  | caller (p : P)
  | queue
  | worker

structure Placed (s : WorkQueue P) (q : List Slot) (place : Slot → Place P) : Prop where
  inUse : ∀ i, (s.pool i).inUse = true ↔ place i ≠ .free
  caller : ∀ p i, (s.caller p).slot = some i ↔ place i = .caller p
  queue : ∀ i, i ∈ q ↔ place i = .queue
  worker : ∀ i, s.worker.slot = some i ↔ place i = .worker

omit [DecidableEq P] in
/-- The slot `i` goes to `dest`, the others stay. -/
theorem Placed.move {s t : WorkQueue P} {q q' : List Slot} {place : Slot → Place P} (h : Placed s q place) (i : Slot)
    (dest : Place P) (hinUse : ∀ j, j ≠ i → (t.pool j).inUse = (s.pool j).inUse)
    (hcaller : ∀ p j, j ≠ i → ((t.caller p).slot = some j ↔ (s.caller p).slot = some j))
    (hqueue : ∀ j, j ≠ i → (j ∈ q' ↔ j ∈ q)) (hworker : ∀ j, j ≠ i → (t.worker.slot = some j ↔ s.worker.slot = some j))
    (hi : ((t.pool i).inUse = true ↔ dest ≠ .free) ∧ (∀ p, (t.caller p).slot = some i ↔ dest = .caller p) ∧
      (i ∈ q' ↔ dest = .queue) ∧ (t.worker.slot = some i ↔ dest = .worker)) :
    Placed t q' (Function.update place i dest) := by
  have heq (j : Slot) : j = i ∧ Function.update place i dest j = dest ∨
      j ≠ i ∧ Function.update place i dest j = place j := by
    by_cases hj : j = i
    · exact .inl ⟨hj, hj ▸ Function.update_self ..⟩
    · exact .inr ⟨hj, Function.update_of_ne hj ..⟩
  refine ⟨fun j => ?_, fun p j => ?_, fun j => ?_, fun j => ?_⟩
  · rcases heq j with ⟨rfl, hj⟩ | ⟨hne, hj⟩
    · rw [hj]; exact hi.1
    · rw [hj, hinUse j hne, h.inUse j]
  · rcases heq j with ⟨rfl, hj⟩ | ⟨hne, hj⟩
    · rw [hj]; exact hi.2.1 p
    · rw [hj, hcaller p j hne, h.caller p j]
  · rcases heq j with ⟨rfl, hj⟩ | ⟨hne, hj⟩
    · rw [hj]; exact hi.2.2.1
    · rw [hj, hqueue j hne, h.queue j]
  · rcases heq j with ⟨rfl, hj⟩ | ⟨hne, hj⟩
    · rw [hj]; exact hi.2.2.2
    · rw [hj, hworker j hne, h.worker j]

/-! ## The assignments of a caller -/

/-- The assignments before `st` have been made. -/
def Written (job : Job) (w : Work) : Statement → Prop
  | .workFn => True
  | .arg => w.workFn = job.fn
  | .state => w.workFn = job.fn ∧ w.arg = job.arg
  | .callback => w.workFn = job.fn ∧ w.arg = job.arg
  | .next => w.job = job

/-- What a caller has written to its slot. -/
def Filled (pool : Slot → Work) : Caller → Prop
  | .fill job i st => Written job (pool i) st
  | .link job i => (pool i).job = job ∧ (pool i).next = none
  | _ => True

theorem written_write {job : Job} {w : Work} {st : Statement} (h : Written job w st) :
    Written job (st.write job w) st := by
  cases st <;> exact h

theorem filled_following {pool : Slot → Work} {job : Job} {w : Work} {st : Statement} {i : Slot}
    (h : Written job w st) (hw : pool i = st.write job w) : Filled pool (st.following job i) := by
  cases st with
  | workFn => exact congrArg Work.workFn hw
  | arg => exact ⟨(congrArg Work.workFn hw).trans h, congrArg Work.arg hw⟩
  | state => exact ⟨(congrArg Work.workFn hw).trans h.1, (congrArg Work.arg hw).trans h.2⟩
  | callback =>
    show (pool i).job = job
    rw [hw]
    show Job.mk w.workFn w.arg job.callback = job
    rw [h.1, h.2]
  | next => exact ⟨by rw [hw]; exact h, congrArg Work.next hw⟩

theorem Filled.congr {pool pool' : Slot → Work} {c : Caller} (h : Filled pool c)
    (hjob : ∀ i, c.slot = some i → (pool' i).job = (pool i).job)
    (hnext : ∀ i, c.slot = some i → (pool i).next = none → (pool' i).next = none) : Filled pool' c := by
  cases c with
  | fill job i st =>
    have hi := hjob i rfl
    have hfn : (pool' i).workFn = (pool i).workFn := congrArg Job.fn hi
    have harg : (pool' i).arg = (pool i).arg := congrArg Job.arg hi
    cases st with
    | workFn => trivial
    | arg => exact hfn.trans h
    | state => exact ⟨hfn.trans h.1, harg.trans h.2⟩
    | callback => exact ⟨hfn.trans h.1, harg.trans h.2⟩
    | next => exact hi.trans h
  | link job i => exact ⟨(hjob i rfl).trans h.1, hnext i rfl h.2⟩
  | idle => trivial
  | take job => trivial

/-! ## The invariant -/

structure Inv (s : WorkQueue P) (q : List Slot) (place : Slot → Place P) : Prop where
  queued : s.Queued q
  tail : s.tail = q.getLast?
  placed : Placed s q place
  filled : ∀ p, Filled s.pool (s.caller p)
  executed : s.accepted.map Job.run = s.executed ++ (s.worker.toRun.toList ++ q).map fun i => (s.pool i).job.run
  answered : s.accepted.flatMap Job.callbacks =
    s.answered ++ (s.worker.toAnswer.toList ++ q).flatMap fun i => (s.pool i).job.callbacks

omit [DecidableEq P] in
theorem Inv.exact {s : WorkQueue P} {q : List Slot} {place : Slot → Place P} (h : Inv s q place) : Exact s q where
  queued := h.queued
  executed := h.executed
  answered := h.answered
  unlinked p i hp hi := by
    have hplace := (h.placed.caller p i).mp hp
    rw [(h.placed.queue i).mp hi] at hplace
    cases hplace
  finished p i hp hi := by
    have hplace := (h.placed.caller p i).mp hp
    rw [(h.placed.worker i).mp hi] at hplace
    cases hplace
  exclusive p p' i hp hp' :=
    Place.caller.inj (((h.placed.caller p i).mp hp).symm.trans ((h.placed.caller p' i).mp hp'))

omit [DecidableEq P] in
theorem inv_initial : Inv (initial : WorkQueue P) [] fun _ => .free where
  queued := rfl
  tail := rfl
  placed := ⟨fun _ => by simp [initial], fun _ _ => by simp [initial, Caller.slot], fun _ => by simp,
    fun _ => by simp [initial, Worker.slot]⟩
  filled _ := trivial
  executed := rfl
  answered := rfl

/-! ## Single steps -/

section
variable {s t : WorkQueue P} {q : List Slot} {place place' : Slot → Place P} {p : P} {i : Slot}

theorem Worker.slot_of_toRun {w : Worker} (h : w.toRun = some i) : w.slot = some i := by
  cases w with
  | start => exact h
  | run => exact h
  | _ => cases h

theorem Worker.slot_of_toAnswer {w : Worker} (h : w.toAnswer = some i) : w.slot = some i := by
  cases w with
  | start => exact h
  | run => exact h
  | callback => exact h
  | _ => cases h

omit [DecidableEq P] in
theorem Placed.unplaced (h : Placed s q place) (hfree : place i = .free) :
    (∀ p, (s.caller p).slot ≠ some i) ∧ i ∉ q ∧ s.worker.slot ≠ some i := by
  refine ⟨fun p hp => ?_, fun hq => ?_, fun hw => ?_⟩
  · exact nomatch hfree.symm.trans ((h.caller p i).mp hp)
  · exact nomatch hfree.symm.trans ((h.queue i).mp hq)
  · exact nomatch hfree.symm.trans ((h.worker i).mp hw)

/-- A step that links no work and takes none. -/
structure Keeps (s t : WorkQueue P) (q : List Slot) : Prop where
  head : t.head = s.head
  tail : t.tail = s.tail
  accepted : t.accepted = s.accepted
  executed : t.executed = s.executed
  answered : t.answered = s.answered
  toRun : t.worker.toRun = s.worker.toRun
  toAnswer : t.worker.toAnswer = s.worker.toAnswer
  next : ∀ j ∈ q, t.next j = s.next j
  job : ∀ j, j ∈ q ∨ s.worker.slot = some j → (t.pool j).job = (s.pool j).job

omit [DecidableEq P] in
theorem Inv.keep (h : Inv s q place) (hk : Keeps s t q) (hplaced : Placed t q place')
    (hfilled : ∀ p, Filled t.pool (t.caller p)) : Inv t q place' := by
  have hrun : ∀ j ∈ t.worker.toRun.toList ++ q, (t.pool j).job = (s.pool j).job := by
    intro j hj
    rcases List.mem_append.mp hj with hj | hj
    · rw [hk.toRun] at hj
      exact hk.job j (.inr (Worker.slot_of_toRun (Option.mem_toList.mp hj)))
    · exact hk.job j (.inl hj)
  have hanswer : ∀ j ∈ t.worker.toAnswer.toList ++ q, (t.pool j).job = (s.pool j).job := by
    intro j hj
    rcases List.mem_append.mp hj with hj | hj
    · rw [hk.toAnswer] at hj
      exact hk.job j (.inr (Worker.slot_of_toAnswer (Option.mem_toList.mp hj)))
    · exact hk.job j (.inl hj)
  refine ⟨?_, hk.tail.trans h.tail, hplaced, hfilled, ?_, ?_⟩
  · show Linked t.next t.head q
    rw [hk.head]
    exact h.queued.congr fun j hj => (hk.next j hj).symm
  · rw [hk.accepted, hk.executed, List.map_congr_left (g := fun j => (s.pool j).job.run)
      fun j hj => congrArg Job.run (hrun j hj), hk.toRun]
    exact h.executed
  · rw [hk.accepted, hk.answered, List.flatMap_congr (g := fun j => (s.pool j).job.callbacks)
      fun j hj => congrArg Job.callbacks (hanswer j hj), hk.toAnswer]
    exact h.answered

theorem slot_goto (s : WorkQueue P) (p : P) (c : Caller) (p' : P) :
    ((s.goto p c).caller p').slot = if p' = p then c.slot else (s.caller p').slot := by
  show (Function.update s.caller p c p').slot = _
  rw [Function.update_apply]
  split <;> rfl

theorem filled_goto {pool : Slot → Work} {c : Caller} (hc : Filled pool c)
    (h : ∀ p', p' ≠ p → Filled pool (s.caller p')) (p' : P) : Filled pool ((s.goto p c).caller p') := by
  show Filled pool (Function.update s.caller p c p')
  rw [Function.update_apply]
  split
  · exact hc
  · next hp => exact h p' hp

/-- A caller goes on, with the slot it has. -/
theorem Inv.goto (h : Inv s q place) {c : Caller} (hslot : c.slot = (s.caller p).slot) (hfilled : Filled s.pool c) :
    Inv (s.goto p c) q place := by
  refine h.keep ⟨rfl, rfl, rfl, rfl, rfl, rfl, rfl, fun _ _ => rfl, fun _ _ => rfl⟩
    { h.placed with caller := fun p' i => ?_ } (filled_goto hfilled fun p' _ => h.filled p')
  rw [slot_goto, ← h.placed.caller p' i]
  split
  · next hp => rw [hp, hslot]
  · rfl

omit [DecidableEq P] in
/-- A node is written to; where it is in use, its work stays. -/
theorem Inv.setWork (h : Inv s q place) {w : Work} (hinUse : w.inUse = (s.pool i).inUse)
    (hnext : i ∈ q → w.next = s.next i) (hjob : i ∈ q ∨ s.worker.slot = some i → w.job = (s.pool i).job)
    (hfilled : ∀ p, (s.caller p).slot = some i → Filled (Function.update s.pool i w) (s.caller p)) :
    Inv (s.setWork i w) q place := by
  have hself : (s.setWork i w).pool i = w := Function.update_self ..
  have hother {j : Slot} (hj : j ≠ i) : (s.setWork i w).pool j = s.pool j := Function.update_of_ne hj ..
  refine h.keep ⟨rfl, rfl, rfl, rfl, rfl, rfl, rfl, fun j hj => ?_, fun j hj => ?_⟩
    { h.placed with inUse := fun j => ?_ } fun p => ?_
  · by_cases hji : j = i
    · subst hji
      exact (congrArg Work.next hself).trans (hnext hj)
    · exact congrArg Work.next (hother hji)
  · by_cases hji : j = i
    · subst hji
      exact (congrArg Work.job hself).trans (hjob hj)
    · exact congrArg Work.job (hother hji)
  · rw [← h.placed.inUse j]
    by_cases hji : j = i
    · rw [hji, hself, hinUse]
    · rw [hother hji]
  · by_cases hp : (s.caller p).slot = some i
    · exact hfilled p hp
    · refine (h.filled p).congr (fun j hj => ?_) fun j hj hnone => ?_
      · rw [hother fun heq => hp (heq ▸ hj)]
      · rw [hother fun heq => hp (heq ▸ hj)]
        exact hnone

/-- A caller takes a free slot. -/
theorem Inv.getNewWork (h : Inv s q place) {job : Job} (hp : s.caller p = .take job) :
    ∃ place', Inv (s.getNewWork p job) q place' := by
  have hslot : (s.caller p).slot = none := by rw [hp]; rfl
  unfold WorkQueue.getNewWork
  split
  case h_2 => exact ⟨place, h.goto (by rw [hslot]; rfl) trivial⟩
  case h_1 i hfind =>
    have hinUse : (s.pool i).inUse = false := by simpa using List.find?_some hfind
    have hfree : place i = .free := by
      by_contra hne
      exact Bool.noConfusion (hinUse.symm.trans ((h.placed.inUse i).mpr hne))
    obtain ⟨hcaller, hqueue, hworker⟩ := h.placed.unplaced hfree
    have hself : (s.setWork i { s.pool i with inUse := true }).pool i = { s.pool i with inUse := true } :=
      Function.update_self ..
    have hpool (j : Slot) : ((s.setWork i { s.pool i with inUse := true }).pool j).job = (s.pool j).job ∧
        (s.setWork i { s.pool i with inUse := true }).next j = s.next j := by
      by_cases hj : j = i
      · subst hj
        exact ⟨(congrArg Work.job hself).trans rfl, (congrArg Work.next hself).trans rfl⟩
      · exact ⟨congrArg Work.job (Function.update_of_ne hj ..), congrArg Work.next (Function.update_of_ne hj ..)⟩
    refine ⟨Function.update place i (.caller p), h.keep ⟨rfl, rfl, rfl, rfl, rfl, rfl, rfl, fun j _ => (hpool j).2,
      fun j _ => (hpool j).1⟩ (h.placed.move i (.caller p) (fun j hj => ?_) (fun p' j hj => ?_) (fun _ _ => Iff.rfl)
        (fun _ _ => Iff.rfl) ⟨?_, fun p' => ?_, ?_, ?_⟩) (filled_goto trivial fun p' _ => ?_)⟩
    · exact congrArg Work.inUse (Function.update_of_ne hj ..)
    · rw [slot_goto]
      split
      · next heq =>
        rw [heq, hslot]
        exact iff_of_false (fun h => hj (Option.some.inj h).symm) nofun
      · exact Iff.rfl
    · exact iff_of_true (congrArg Work.inUse hself) nofun
    · rw [slot_goto]
      split
      · next heq => exact iff_of_true rfl (congrArg _ heq.symm)
      · next hne => exact iff_of_false (hcaller p') fun heq => hne (Place.caller.inj heq).symm
    · exact iff_of_false hqueue nofun
    · exact iff_of_false hworker nofun
    · exact (h.filled p').congr (fun j _ => (hpool j).1) fun j _ hnone => (hpool j).2.trans hnone

/-- A caller writes one field of its work. -/
theorem Inv.fill (h : Inv s q place) {job : Job} {st : Statement} (hp : s.caller p = .fill job i st) :
    Inv ((s.setWork i (st.write job (s.pool i))).goto p (st.following job i)) q place := by
  have hplace : place i = .caller p := (h.placed.caller p i).mp (by rw [hp]; rfl)
  have hqueue : i ∉ q := fun hq => nomatch hplace.symm.trans ((h.placed.queue i).mp hq)
  have hworker : s.worker.slot ≠ some i := fun hw => nomatch hplace.symm.trans ((h.placed.worker i).mp hw)
  have hwritten : Written job (s.pool i) st := by
    have hfilled := h.filled p
    rw [hp] at hfilled
    exact hfilled
  have hself : (s.setWork i (st.write job (s.pool i))).pool i = st.write job (s.pool i) := Function.update_self ..
  refine (h.setWork (w := st.write job (s.pool i)) ?_ (fun hq => absurd hq hqueue)
    (fun hin => absurd hin (not_or.mpr ⟨hqueue, hworker⟩)) fun p' hp' => ?_).goto ?_ (filled_following hwritten hself)
  · cases st <;> rfl
  · obtain rfl : p = p' := Place.caller.inj (hplace.symm.trans ((h.placed.caller p' i).mp hp'))
    rw [hp]
    show Written job (Function.update s.pool i (st.write job (s.pool i)) i) st
    rw [Function.update_self]
    exact written_write hwritten
  · show _ = (s.caller p).slot
    rw [hp]
    cases st <;> rfl

/-- A work is linked behind the last one; the works stay. -/
theorem Inv.link_eq (h : Inv s q place) (job : Job) (hqueue : i ∉ q) (hnone : s.next i = none) : ∃ pool,
    s.link p job i = { s.goto p .idle with
      pool := pool
      head := s.head.or (some i)
      tail := some i
      worksInQueue := s.worksInQueue + 1
      accepted := s.accepted ++ [job] } ∧
    Linked (fun j => (pool j).next) (s.head.or (some i)) (q ++ [i]) ∧
    ∀ j, (pool j).job = (s.pool j).job ∧ (pool j).inUse = (s.pool j).inUse ∧ (j ∉ q → pool j = s.pool j) := by
  rcases List.eq_nil_or_concat q with rfl | ⟨r, z, rfl⟩
  · have hhead : s.head = none := h.queued
    refine ⟨s.pool, ?_, ?_, fun j => ⟨rfl, rfl, fun _ => rfl⟩⟩
    · unfold WorkQueue.link
      rw [hhead]
      rfl
    · rw [hhead]
      exact linked_cons.mpr ⟨rfl, hnone⟩
  · rw [List.concat_eq_append] at *
    obtain ⟨x, -, hhead⟩ := Linked.head_mem (q := []) (by rw [List.append_nil]; exact h.queued) (by simp)
    have htail : s.tail = some z := by rw [h.tail, List.getLast?_concat]
    have hz : z ≠ i := fun heq => hqueue (by simp [heq])
    have hself : Function.update s.pool z { s.pool z with next := some i } z = { s.pool z with next := some i } :=
      Function.update_self ..
    refine ⟨Function.update s.pool z { s.pool z with next := some i }, ?_, ?_, fun j => ?_⟩
    · simp only [WorkQueue.link, hhead, htail, WorkQueue.setWork, WorkQueue.goto, Option.some_or]
    · have hpush := Linked.push h.queued hqueue
      rw [hhead] at hpush ⊢
      rw [List.append_assoc]
      refine hpush.congr fun j _ => ?_
      by_cases hji : j = i
      · subst hji
        rw [Function.update_self, Function.update_of_ne hz.symm]
        exact hnone.symm
      · rw [Function.update_of_ne hji]
        by_cases hjz : j = z
        · subst hjz
          rw [Function.update_self, Function.update_self]
        · rw [Function.update_of_ne hjz, Function.update_of_ne hjz]
          rfl
    · by_cases hjz : j = z
      · subst hjz
        exact ⟨(congrArg Work.job hself).trans rfl, (congrArg Work.inUse hself).trans rfl,
          fun hj => absurd (by simp) hj⟩
      · rw [Function.update_of_ne hjz]
        exact ⟨rfl, rfl, fun _ => rfl⟩

/-- A caller links its work behind the last one. -/
theorem Inv.link (h : Inv s q place) {job : Job} (hp : s.caller p = .link job i) :
    Inv (s.link p job i) (q ++ [i]) (Function.update place i .queue) := by
  have hplace : place i = .caller p := (h.placed.caller p i).mp (by rw [hp]; rfl)
  have hqueue : i ∉ q := fun hq => nomatch hplace.symm.trans ((h.placed.queue i).mp hq)
  have hworker : s.worker.slot ≠ some i := fun hw => nomatch hplace.symm.trans ((h.placed.worker i).mp hw)
  obtain ⟨hjob, hnone⟩ : (s.pool i).job = job ∧ (s.pool i).next = none := by
    have hfilled := h.filled p
    rw [hp] at hfilled
    exact hfilled
  obtain ⟨pool, hlink, hlinked, hpool⟩ := h.link_eq (p := p) job hqueue hnone
  have hslot (p' : P) : ((s.goto p .idle).caller p').slot = if p' = p then none else (s.caller p').slot :=
    slot_goto s p .idle p'
  rw [hlink]
  refine ⟨hlinked, (List.getLast?_concat ..).symm, h.placed.move i .queue (fun j _ => (hpool j).2.1) (fun p' j hj => ?_)
    (fun j hj => ?_) (fun _ _ => Iff.rfl) ⟨?_, fun p' => ?_, ?_, ?_⟩, ?_, ?_, ?_⟩
  · show ((s.goto p .idle).caller p').slot = some j ↔ _
    rw [hslot]
    split
    · next heq =>
      rw [heq, hp]
      exact iff_of_false nofun fun h => hj (Option.some.inj h).symm
    · exact Iff.rfl
  · rw [List.mem_append, List.mem_singleton]
    exact or_iff_left hj
  · refine iff_of_true ((hpool i).2.1.trans ((h.placed.inUse i).mpr ?_)) nofun
    rw [hplace]
    exact nofun
  · show ((s.goto p .idle).caller p').slot = some i ↔ _
    rw [hslot]
    split
    · exact iff_of_false nofun nofun
    · next hne =>
      refine iff_of_false (fun hp' => hne ?_) nofun
      exact Place.caller.inj (((h.placed.caller p' i).mp hp').symm.trans hplace)
  · exact iff_of_true (by simp) rfl
  · exact iff_of_false hworker nofun
  · refine filled_goto trivial fun p' _ => (h.filled p').congr (fun j _ => (hpool j).1) fun j hj hnext => ?_
    have hjq : j ∉ q := fun hq => nomatch ((h.placed.caller p' j).mp hj).symm.trans ((h.placed.queue j).mp hq)
    exact (congrArg Work.next ((hpool j).2.2 hjq)).trans hnext
  · show (s.accepted ++ [job]).map Job.run =
      s.executed ++ (s.worker.toRun.toList ++ (q ++ [i])).map fun j => (pool j).job.run
    rw [List.map_append, h.executed, ← List.append_assoc s.worker.toRun.toList, @List.map_append _ _ _ _ [i],
      ← List.append_assoc, List.map_congr_left fun j _ => congrArg Job.run (hpool j).1]
    show _ = _ ++ [(pool i).job.run]
    rw [(hpool i).1, hjob]
    rfl
  · show (s.accepted ++ [job]).flatMap Job.callbacks =
      s.answered ++ (s.worker.toAnswer.toList ++ (q ++ [i])).flatMap fun j => (pool j).job.callbacks
    rw [List.flatMap_append, h.answered, ← List.append_assoc s.worker.toAnswer.toList,
      @List.flatMap_append _ _ _ [i], ← List.append_assoc,
      List.flatMap_congr fun j _ => congrArg Job.callbacks (hpool j).1]
    show _ = _ ++ ((pool i).job.callbacks ++ [])
    rw [(hpool i).1, hjob]
    rfl

omit [DecidableEq P] in
/-- The worker takes the first work. -/
theorem Inv.take (h : Inv s (i :: q) place) (hw : s.worker = .take) :
    Inv { s with
      head := s.next i
      tail := if s.next i = none then none else s.tail
      worksInQueue := s.worksInQueue - 1
      worker := .start i } q (Function.update place i .worker) := by
  obtain ⟨-, hlinked⟩ := linked_cons.mp h.queued
  have hplace : place i = .queue := (h.placed.queue i).mp (List.mem_cons_self ..)
  have hiq : i ∉ q := (List.nodup_cons.mp h.queued.nodup).1
  have hexecuted := h.executed
  have hanswered := h.answered
  rw [hw] at hexecuted hanswered
  refine ⟨hlinked, ?_, h.placed.move i .worker (fun _ _ => rfl) (fun _ _ _ => Iff.rfl) (fun j hj => ?_)
    (fun j hj => ?_) ⟨?_, fun p => ?_, ?_, ?_⟩, h.filled, hexecuted, hanswered⟩
  · cases q with
    | nil =>
      rw [if_pos (linked_nil.mp hlinked)]
      rfl
    | cons j q =>
      rw [if_neg (by rw [(linked_cons.mp hlinked).1]; exact Option.some_ne_none j), h.tail, List.getLast?_cons_cons]
  · rw [List.mem_cons]
    exact (or_iff_right hj).symm
  · rw [hw]
    exact iff_of_false (fun heq => hj (Option.some.inj heq).symm) nofun
  · refine iff_of_true ((h.placed.inUse i).mpr ?_) nofun
    rw [hplace]
    exact nofun
  · exact iff_of_false (fun hp => nomatch hplace.symm.trans ((h.placed.caller p i).mp hp)) nofun
  · exact iff_of_false hiq nofun
  · exact iff_of_true rfl rfl

omit [DecidableEq P] in
/-- The worker calls the function. -/
theorem Inv.run (h : Inv s q place) (hw : s.worker = .run i) :
    Inv { s with executed := s.executed ++ [(s.pool i).job.run], worker := .callback i } q place := by
  have hplaced := h.placed
  have hexecuted := h.executed
  have hanswered := h.answered
  rw [hw] at hexecuted hanswered
  refine { h with placed := { hplaced with worker := fun j => ?_ }, executed := ?_, answered := hanswered }
  · rw [← hplaced.worker j, hw]
    rfl
  · show _ = _ ++ [_] ++ _
    rw [List.append_assoc]
    exact hexecuted

omit [DecidableEq P] in
/-- The worker calls the callback. -/
theorem Inv.callback (h : Inv s q place) (hw : s.worker = .callback i) :
    Inv { s with answered := s.answered ++ (s.pool i).job.callbacks, worker := .release i } q place := by
  have hplaced := h.placed
  have hexecuted := h.executed
  have hanswered := h.answered
  rw [hw] at hexecuted hanswered
  refine { h with placed := { hplaced with worker := fun j => ?_ }, executed := hexecuted, answered := ?_ }
  · rw [← hplaced.worker j, hw]
    rfl
  · show _ = _ ++ _ ++ _
    rw [List.append_assoc]
    exact hanswered

omit [DecidableEq P] in
/-- The worker gives the slot back. -/
theorem Inv.release (h : Inv s q place) (hw : s.worker = .release i) :
    Inv { s.setWork i { s.pool i with inUse := false } with worker := .clear i } q (Function.update place i .free) := by
  have hplace : place i = .worker := (h.placed.worker i).mp (by rw [hw]; rfl)
  have hself : (s.setWork i { s.pool i with inUse := false }).pool i = { s.pool i with inUse := false } :=
    Function.update_self ..
  have hpool (j : Slot) : ((s.setWork i { s.pool i with inUse := false }).pool j).job = (s.pool j).job ∧
      (s.setWork i { s.pool i with inUse := false }).next j = s.next j := by
    by_cases hj : j = i
    · subst hj
      exact ⟨(congrArg Work.job hself).trans rfl, (congrArg Work.next hself).trans rfl⟩
    · exact ⟨congrArg Work.job (Function.update_of_ne hj ..), congrArg Work.next (Function.update_of_ne hj ..)⟩
  refine h.keep ⟨rfl, rfl, rfl, rfl, rfl, by rw [hw]; rfl, by rw [hw]; rfl, fun j _ => (hpool j).2,
    fun j _ => (hpool j).1⟩ (h.placed.move i .free (fun j hj => ?_) (fun _ _ _ => Iff.rfl) (fun _ _ => Iff.rfl)
      (fun j hj => ?_) ⟨?_, fun p => ?_, ?_, ?_⟩)
      fun p => (h.filled p).congr (fun j _ => (hpool j).1) fun j _ hnone => (hpool j).2.trans hnone
  · exact congrArg Work.inUse (Function.update_of_ne hj ..)
  · rw [hw]
    exact iff_of_false nofun fun heq => hj (Option.some.inj heq).symm
  · refine iff_of_false (fun htrue => ?_) fun hne => hne rfl
    exact Bool.noConfusion ((congrArg Work.inUse hself).symm.trans htrue)
  · exact iff_of_false (fun hp => nomatch hplace.symm.trans ((h.placed.caller p i).mp hp)) nofun
  · exact iff_of_false (fun hq => nomatch hplace.symm.trans ((h.placed.queue i).mp hq)) nofun
  · exact iff_of_false nofun nofun

omit [DecidableEq P] in
/-- Where the worker is does not matter as long as it has the same slot. -/
theorem Inv.move (h : Inv s q place) {w : Worker} (hslot : w.slot = s.worker.slot)
    (hrun : w.toRun = s.worker.toRun) (hanswer : w.toAnswer = s.worker.toAnswer) :
    Inv { s with worker := w } q place :=
  h.keep ⟨rfl, rfl, rfl, rfl, rfl, hrun, hanswer, fun _ _ => rfl, fun _ _ => rfl⟩
    { h.placed with worker := fun j => by rw [← h.placed.worker j, ← hslot] } h.filled

omit [DecidableEq P] in
/-- The worker marks the work as started. -/
theorem Inv.start (h : Inv s q place) (hw : s.worker = .start i) :
    Inv { s.setWork i { s.pool i with state := .started } with worker := .run i } q place := by
  have hplace : place i = .worker := (h.placed.worker i).mp (by rw [hw]; rfl)
  have hset : Inv (s.setWork i { s.pool i with state := .started }) q place :=
    h.setWork rfl (fun _ => rfl) (fun _ => rfl)
      fun p hp => nomatch hplace.symm.trans ((h.placed.caller p i).mp hp)
  have hworker : (s.setWork i { s.pool i with state := .started }).worker = .start i := hw
  exact hset.move (by rw [hworker]; rfl) (by rw [hworker]; rfl) (by rw [hworker]; rfl)

omit [DecidableEq P] in
/-- The worker clears the link of a slot it no longer has. -/
theorem Inv.clear (h : Inv s q place) (hok : ClearOk s .work) (hw : s.worker = .clear i) :
    Inv { s.setWork i { s.pool i with next := none } with worker := .take } q place := by
  have hself : Function.update s.pool i { s.pool i with next := none } i = { s.pool i with next := none } :=
    Function.update_self ..
  have hset : Inv (s.setWork i { s.pool i with next := none }) q place := by
    refine h.setWork rfl (fun hi => ?_) (fun _ => rfl) fun p hp =>
      (h.filled p).congr (fun j hj => ?_) fun j hj hnone => ?_
    · cases hnext : s.next i with
      | none => rfl
      | some j => exact absurd hi (hok i j rfl hw hnext q h.queued)
    · obtain rfl : i = j := Option.some.inj (hp.symm.trans hj)
      exact (congrArg Work.job hself).trans rfl
    · obtain rfl : i = j := Option.some.inj (hp.symm.trans hj)
      exact (congrArg Work.next hself).trans rfl
  have hworker : (s.setWork i { s.pool i with next := none }).worker = .clear i := hw
  exact hset.move (by rw [hworker]; rfl) (by rw [hworker]; rfl) (by rw [hworker]; rfl)

/-! ## Runs -/

/-- How many statements the worker is away from an empty queue. -/
def toGo (s : WorkQueue P) (q : List Slot) : ℕ :=
  6 * q.length + match s.worker with
    | .take => 0
    | .start _ => 5
    | .run _ => 4
    | .callback _ => 3
    | .release _ => 2
    | .clear _ => 1

omit [DecidableEq P] in
/-- The worker gets nearer to an empty queue; and what it clears next is no longer in the queue. -/
theorem Inv.work (h : Inv s q place) (hok : ClearOk s .work) :
    ∃ q' place', Inv s.work q' place' ∧ ClearOk s.work .work ∧ toGo s.work q' = toGo s q - 1 := by
  have hclear (t : WorkQueue P) (ht : ∀ i, t.worker ≠ .clear i) : ClearOk t .work :=
    fun i _ _ hw => absurd hw (ht i)
  unfold WorkQueue.work toGo
  cases hw : s.worker with
  | take =>
    cases q with
    | nil =>
      have hhead : s.head = none := h.queued
      rw [hhead]
      exact ⟨[], place, h, hok, by rw [hw]; rfl⟩
    | cons i q =>
      have hhead : s.head = some i := h.queued.1
      rw [hhead]
      refine ⟨q, _, h.take hw, hclear _ nofun, ?_⟩
      show 6 * q.length + 5 = 6 * (q.length + 1) + 0 - 1
      omega
  | start i => exact ⟨q, place, h.start hw, hclear _ nofun, rfl⟩
  | run i => exact ⟨q, place, h.run hw, hclear _ nofun, rfl⟩
  | callback i => exact ⟨q, place, h.callback hw, hclear _ nofun, rfl⟩
  | release i =>
    have hplace : place i = .worker := (h.placed.worker i).mp (by rw [hw]; rfl)
    refine ⟨q, _, h.release hw, fun j _ _ hj _ q' hq' => ?_, rfl⟩
    obtain rfl : i = j := Worker.clear.inj hj
    rw [hq'.unique (h.release hw).queued]
    exact fun hq => nomatch hplace.symm.trans ((h.placed.queue i).mp hq)
  | clear i => exact ⟨q, place, h.clear hok hw, hclear _ nofun, rfl⟩

theorem Inv.step (h : Inv s q place) {a : WorkAction P} (hok : ClearOk s a) (hst : WorkStep s a t) :
    ∃ q' place', Inv t q' place' := by
  cases a with
  | add p job =>
    rw [WorkStep, WorkQueue.step] at hst
    split at hst
    · next hp => exact ⟨q, place, Option.some.inj hst ▸ h.goto (by rw [hp]; rfl) trivial⟩
    · cases hst
  | resume p =>
    have hresume : s.resume p = some t := hst
    unfold WorkQueue.resume at hresume
    split at hresume
    · cases hresume
    · next hp =>
      obtain ⟨place', h'⟩ := h.getNewWork hp
      exact ⟨q, place', Option.some.inj hresume ▸ h'⟩
    · next hp => exact ⟨q, place, Option.some.inj hresume ▸ h.fill hp⟩
    · next hp => exact ⟨_, _, Option.some.inj hresume ▸ h.link hp⟩
  | work =>
    obtain ⟨q', place', h', -⟩ := h.work hok
    exact ⟨q', place', Option.some.inj hst ▸ h'⟩

omit [DecidableEq P] in
@[simp] theorem work_accepted (s : WorkQueue P) : s.work.accepted = s.accepted := by
  unfold WorkQueue.work
  split
  · split <;> rfl
  all_goals rfl

omit [DecidableEq P] in
/-- The worker alone executes all works that wait. -/
theorem Inv.drain (h : Inv s q place) (hok : ClearOk s .work) :
    ∃ n, (WorkQueue.work^[n] s).executed = s.accepted.map Job.run ∧
      (WorkQueue.work^[n] s).answered = s.accepted.flatMap Job.callbacks := by
  induction hn : toGo s q generalizing s q place with
  | zero =>
    unfold toGo at hn
    refine ⟨0, ?_⟩
    obtain rfl : q = [] := List.length_eq_zero_iff.mp (by omega)
    have hexecuted := h.executed
    have hanswered := h.answered
    cases hw : s.worker <;> rw [hw] at hn hexecuted hanswered <;> try simp at hn
    exact ⟨by simpa [Worker.toRun] using hexecuted.symm, by simpa [Worker.toAnswer] using hanswered.symm⟩
  | succ n ih =>
    obtain ⟨q', place', h', hok', hgo⟩ := h.work hok
    obtain ⟨m, hm⟩ := ih h' hok' (by omega)
    rw [work_accepted] at hm
    exact ⟨m + 1, by rwa [Function.iterate_succ_apply]⟩

omit [DecidableEq P] in
/-- A clear behind which another work is linked loses the works behind it. -/
theorem Inv.work_loses (h : Inv s q place) {j : Slot} (hw : s.worker = .clear i) (hnext : s.next i = some j)
    (hi : i ∈ q) : ∀ q', ¬Exact s.work q' := by
  intro q' h'
  obtain ⟨l, r, rfl⟩ := List.append_of_mem hi
  have ht : s.work = { s.setWork i { s.pool i with next := none } with worker := .take } := by
    unfold WorkQueue.work
    rw [hw]
  have hcut : Linked s.work.next s.work.head (l ++ [i]) := by
    rw [ht]
    refine h.queued.cut.congr fun k _ => ?_
    show _ = (Function.update s.pool i { s.pool i with next := none } k).next
    by_cases hk : k = i
    · rw [hk, Function.update_self, Function.update_self]
    · rw [Function.update_of_ne hk, Function.update_of_ne hk]
      rfl
  obtain rfl : l ++ [i] = q' := hcut.unique h'.queued
  -- as many works were accepted as wait and have been executed
  have hbefore := congrArg List.length h.executed
  have hafter := congrArg List.length h'.executed
  rw [hw] at hbefore
  rw [ht] at hafter
  simp only [List.length_map, List.length_append, List.length_cons, Worker.toRun, Option.toList_none, List.length_nil,
    WorkQueue.setWork] at hbefore hafter
  obtain rfl : r = [] := List.length_eq_zero_iff.mp (by omega)
  exact absurd (hnext.symm.trans (Linked.next_eq_none h.queued)) (Option.some_ne_none j)

end

/-- As long as the worker clears no link behind which another work hangs, the works are executed in the order in which
they were linked and each once, in whatever order the callers and the worker run. -/
theorem workRun_exact (as : List (WorkAction P)) (s : WorkQueue P) (h : Run WorkStep ClearOk initial as s) :
    (∃ q, Exact s q) ∧ (ClearOk s .work →
      ∃ n, (WorkQueue.work^[n] s).executed = s.accepted.map Job.run ∧
        (WorkQueue.work^[n] s).answered = s.accepted.flatMap Job.callbacks) := by
  obtain ⟨q, place, hinv⟩ : ∃ q place, Inv s q place := by
    refine h.invariant (P := fun s => ∃ q place, Inv s q place) ?_ ⟨[], _, inv_initial⟩
    rintro s a t ⟨q, place, hinv⟩ hok hst
    exact hinv.step hok hst
  exact ⟨⟨q, hinv.exact⟩, hinv.drain⟩

/-- One caller adds a work and the worker executes it, while a second caller has taken a slot. -/
theorem workRun_exact_two : ∃ s : WorkQueue Bool, s.executed = [(16, 1)] ∧ s.caller true = .fill ⟨32, 2, 48⟩ 1 .workFn ∧
    ∃ q, Exact s q := by
  have hrun : Run WorkStep ClearOk initial [.add false ⟨16, 1, 0⟩, .resume false, .resume false, .resume false,
      .resume false, .resume false, .resume false, .resume false, .add true ⟨32, 2, 48⟩, .resume true,
      .work, .work, .work] (_ : WorkQueue Bool) :=
    .cons nofun rfl (.cons nofun rfl (.cons nofun rfl (.cons nofun rfl (.cons nofun rfl (.cons nofun rfl
      (.cons nofun rfl (.cons nofun rfl (.cons nofun rfl (.cons nofun rfl (.cons nofun rfl (.cons nofun rfl
      (.cons nofun rfl (.nil _)))))))))))))
  exact ⟨_, rfl, rfl, (workRun_exact _ _ hrun).1⟩

/-- The statements of a call of `work_queue_add`. -/
def addAll {P : Type*} (p : P) (job : Job) : List (WorkAction P) := .add p job :: List.replicate 7 (.resume p)

/-- The worker has released its slot, a caller takes it and links it again, and another caller links a work behind it.
Then the worker clears the link. -/
def relinked : List (WorkAction Bool) :=
  addAll false ⟨16, 1, 0⟩ ++ List.replicate 5 .work ++ addAll false ⟨32, 2, 0⟩ ++ addAll true ⟨48, 3, 0⟩ ++
    List.replicate 7 .work

/-- The second work is never executed. -/
theorem workRun_loses : ¬∀ (as : List (WorkAction Bool)) (s : WorkQueue Bool), AnyRun WorkStep initial as s →
    ∃ n, (WorkQueue.work^[n] s).executed = s.accepted.map Job.run := by
  intro hall
  have hend : (exec step initial relinked).any (fun s => s.head = none ∧ s.worker = .take ∧ s.executed.length = 2 ∧
      s.accepted.length = 3) = true := by decide +kernel
  obtain ⟨s, hs, hend⟩ := (Option.any_eq_true ..).mp hend
  obtain ⟨hhead, hworker, hexecuted, haccepted⟩ := of_decide_eq_true hend
  obtain ⟨n, hn⟩ := hall _ s (run_of_exec hs)
  have hfixed : s.work = s := by
    unfold WorkQueue.work
    rw [hworker, hhead]
  rw [Function.iterate_fixed hfixed] at hn
  have hlen := congrArg List.length hn
  rw [List.length_map, hexecuted, haccepted] at hlen
  exact absurd hlen (by decide)

end WorkQueue

end RetrOS.Workers
