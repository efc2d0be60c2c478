import RetrOS.Lib.Linked
import RetrOS.Lib.Run
import Mathlib.Data.Fintype.Basic

/-!
# PCB queues (`kernel/pcb_queue.c`)

The queues `Q` of the kernel are linked through the PCBs `P` themselves, a PCB has one `next` for all of them.

* `PcbQueue.push`, `add`, `remove`, `pop` : the operations; the loops of `push` and `remove` have fuel;
* `QueueOp.onList`, `QueueOp.popped` : what they do to a plain list, and return;
* `Queues.Holds` : the queues are the lists; `Follows` : and `total` is the length;
* `Holds.step` : what an operation returns and does to the links and to `total`;
* `queueRun_lists` : without `remove`, the queues are the lists. A PCB that was removed keeps its link, and takes it into
  the next queue if it is pushed there alone;
* `queueRun_follows` : `total` is right as long as nothing is pushed to an empty queue or taken out.
-/

namespace RetrOS
open RetrOS.Lib

variable {P Q : Type*}

/-- The fields `next` and `prev` of the PCBs. -/
structure PcbLinks (P : Type*) where
  next : P → Option P
  prev : P → Option P

/-- `struct pcb_queue` -/
structure PcbQueue (P : Type*) where
  list : Option P
  total : Int

namespace PcbQueue

/-- `pcb_new_queue` -/
def new : PcbQueue P := ⟨none, 0⟩

/-- The loop of `__pcb_queue_push`: the last PCB. -/
def last (next : P → Option P) : Nat → P → Option P
  | 0, _ => none
  | fuel + 1, current =>
    match next current with
    | none => some current
    | some following => last next fuel following

variable [DecidableEq P]

def push (fuel : Nat) (m : PcbLinks P) (queue : PcbQueue P) (pcb : P) : Option (PcbLinks P × PcbQueue P) :=
  match queue.list with
  | none => some (m, { queue with list := some pcb })
  | some head => (last m.next fuel head).map fun current =>
      ({ m with next := Function.update (Function.update m.next current (some pcb)) pcb none },
        { queue with total := queue.total + 1 })

def add (m : PcbLinks P) (queue : PcbQueue P) (pcb : P) : PcbLinks P × PcbQueue P :=
  ({ m with next := Function.update m.next pcb queue.list }, ⟨some pcb, queue.total + 1⟩)

/-- The loop of `__pcb_queue_remove`: the PCB in front of `pcb`, or the last one. -/
def before (next : P → Option P) (pcb : P) : Nat → P → Option P
  | 0, _ => none
  | fuel + 1, current =>
    match next current with
    | none => some current
    | some following => if following = pcb then some current else before next pcb fuel following

def remove (fuel : Nat) (m : PcbLinks P) (queue : PcbQueue P) (pcb : P) : Option (PcbLinks P × PcbQueue P) :=
  match queue.list with
  | none => some (m, queue)
  | some head =>
    if head = pcb then some (m, { queue with list := m.next pcb })
    else (before m.next pcb fuel head).map fun current =>
      match m.next current with
      | none => (m, queue)
      | some _ => ({ m with next := Function.update m.next current (m.next pcb) }, queue)

def pop (m : PcbLinks P) (queue : PcbQueue P) : PcbLinks P × PcbQueue P × Option P :=
  match queue.list with
  | none => (m, queue, none)
  | some front =>
    ({ next := Function.update m.next front none, prev := Function.update m.prev front none },
      { queue with list := m.next front }, some front)

end PcbQueue

inductive QueueOp (P : Type*)
  | push (p : P)
  | add (p : P)
  | remove (p : P)
  | pop

/-- The queues of the kernel and the links of the PCBs. -/
structure Queues (Q P : Type*) where
  links : PcbLinks P
  queue : Q → PcbQueue P

section Steps
variable [DecidableEq P] [DecidableEq Q]

/-- An operation, and the PCB that it returns; `none` if a loop needs more fuel. -/
def PcbQueue.run (fuel : Nat) (m : PcbLinks P) (queue : PcbQueue P) :
    QueueOp P → Option (PcbLinks P × PcbQueue P × Option P)
  | .push p => (queue.push fuel m p).map fun r => (r.1, r.2, none)
  | .add p => some ((queue.add m p).1, (queue.add m p).2, none)
  | .remove p => (queue.remove fuel m p).map fun r => (r.1, r.2, none)
  | .pop => some (queue.pop m)

def queueStep (fuel : Nat) (s : Queues Q P) (q : Q) (op : QueueOp P) : Option (Queues Q P × Option P) :=
  ((s.queue q).run fuel s.links op).map fun r => (⟨r.1, Function.update s.queue q r.2.1⟩, r.2.2)

namespace QueueOp

/-- The operation on a plain list. -/
def onList (l : List P) : QueueOp P → List P
  | push p => l ++ [p]
  | add p => p :: l
  | remove p => l.erase p
  | pop => l.tail

/-- What the operation returns on a plain list. -/
def popped (l : List P) : QueueOp P → Option P
  | pop => l.head?
  | _ => none

/-- A PCB that is pushed or added is not in the list. -/
def Fresh (l : List P) : QueueOp P → Prop
  | push p => p ∉ l
  | add p => p ∉ l
  | _ => True

instance (l : List P) : (op : QueueOp P) → Decidable (op.Fresh l)
  | push p => inferInstanceAs (Decidable (p ∉ l))
  | add p => inferInstanceAs (Decidable (p ∉ l))
  | remove _ => inferInstanceAs (Decidable True)
  | pop => inferInstanceAs (Decidable True)

/-- A PCB that becomes the only one of the queue holds no link. -/
def Unlinked (next : P → Option P) (l : List P) : QueueOp P → Prop
  | push p => l = [] → next p = none
  | _ => True

/-- What the operation adds to `total`. -/
def counted (l : List P) : QueueOp P → Int
  | push _ => if l = [] then 0 else 1
  | add _ => 1
  | remove _ => 0
  | pop => 0

/-- The operation changes the length of the list by what it adds to `total`. -/
def Counts (l : List P) : QueueOp P → Prop
  | push _ => l ≠ []
  | add _ => True
  | remove p => p ∉ l
  | pop => l = []

end QueueOp

end Steps

/-- The queues are the lists, each ends with NULL, and no PCB is in two of them. -/
structure Queues.Holds (s : Queues Q P) (lists : Q → List P) : Prop where
  linked : ∀ q, Linked s.links.next (s.queue q).list (lists q)
  apart : ∀ q q' p, p ∈ lists q → p ∈ lists q' → q = q'

namespace PcbQueue

section Loops
variable {next : P → Option P} {c x z : P} {l r : List P} {fuel n : Nat}

theorem last_mono (h : last next fuel c = some x) : last next (fuel + n) c = some x := by
  induction fuel generalizing c with
  | zero => exact absurd h (Option.some_ne_none x).symm
  | succ fuel ih =>
    rw [Nat.add_right_comm]
    unfold last at h ⊢
    cases hc : next c with
    | none =>
      rw [hc] at h
      exact h
    | some following =>
      rw [hc] at h
      exact ih h

/-- The loop of `push` arrives at the last PCB. -/
theorem last_linked (h : Linked next (some c) (l ++ [z])) (hfuel : l.length < fuel) : last next fuel c = some z := by
  induction l generalizing c fuel with
  | nil =>
    obtain ⟨fuel, rfl⟩ := Nat.exists_eq_add_of_lt hfuel
    obtain ⟨hc, hnext⟩ := linked_cons.mp h
    obtain rfl := Option.some.inj hc
    rw [last, linked_nil.mp hnext]
  | cons y l ih =>
    obtain ⟨fuel, rfl⟩ := Nat.exists_eq_add_of_lt hfuel
    rw [List.cons_append] at h
    obtain ⟨hc, hrest⟩ := linked_cons.mp h
    obtain rfl := Option.some.inj hc
    obtain ⟨w, -, hw⟩ := Linked.head_mem (q := []) (by rwa [List.append_nil]) (List.concat_ne_nil z l)
    rw [hw] at hrest
    rw [last, hw]
    exact ih hrest (by rw [List.length_cons]; omega)

variable [DecidableEq P] {p : P}

theorem before_mono (h : before next p fuel c = some x) : before next p (fuel + n) c = some x := by
  induction fuel generalizing c with
  | zero => exact absurd h (Option.some_ne_none x).symm
  | succ fuel ih =>
    rw [Nat.add_right_comm]
    unfold before at h ⊢
    cases hc : next c with
    | none =>
      rw [hc] at h
      exact h
    | some following =>
      rw [hc] at h
      dsimp only at h ⊢
      split at h
      · next hp => rwa [if_pos hp]
      · next hp =>
        rw [if_neg hp]
        exact ih h

/-- The loop of `remove` arrives at the PCB in front, or at the last one. -/
theorem before_linked (h : Linked next (some c) (l ++ z :: r)) (hp : p ∉ l ++ [z])
    (hz : next z = none ∨ next z = some p) (hfuel : l.length < fuel) : before next p fuel c = some z := by
  induction l generalizing c fuel with
  | nil =>
    obtain ⟨fuel, rfl⟩ := Nat.exists_eq_add_of_lt hfuel
    obtain rfl := Option.some.inj (linked_cons.mp h).1
    rw [before]
    rcases hz with hz | hz
    · rw [hz]
    · rw [hz]
      exact if_pos rfl
  | cons y l ih =>
    obtain ⟨fuel, rfl⟩ := Nat.exists_eq_add_of_lt hfuel
    rw [List.cons_append] at h
    obtain ⟨hc, hrest⟩ := linked_cons.mp h
    obtain rfl := Option.some.inj hc
    have hpl : p ∉ l ++ [z] := fun hm => hp (List.mem_cons_of_mem c hm)
    obtain ⟨w, hwl, hw⟩ := Linked.head_mem (p := l ++ [z]) (by rwa [List.append_assoc]) (List.concat_ne_nil z l)
    rw [hw] at hrest
    rw [before, hw]
    dsimp only
    rw [if_neg (ne_of_mem_of_not_mem hwl hpl)]
    exact ih hrest hpl (by rw [List.length_cons]; omega)

end Loops

section Operations
variable [DecidableEq P] {m : PcbLinks P} {queue : PcbQueue P} {p : P} {l : List P} {fuel : Nat}

theorem push_of_ne_nil (h : Linked m.next queue.list l) (hl : l ≠ []) (hp : p ∉ l) (hfuel : l.length ≤ fuel) :
    ∃ m', queue.push fuel m p = some (m', { queue with total := queue.total + 1 }) ∧
      Linked m'.next queue.list (l ++ [p]) ∧ ∀ x, x ∉ l → x ≠ p → m'.next x = m.next x := by
  obtain ⟨l, z, rfl⟩ := (List.eq_nil_or_concat' l).resolve_left hl
  obtain ⟨c, -, hc⟩ := Linked.head_mem (q := []) (by rwa [List.append_nil]) hl
  rw [List.length_append, List.length_singleton] at hfuel
  rw [push, hc]
  dsimp only
  rw [last_linked (hc ▸ h) (by omega), Option.map_some]
  refine ⟨_, rfl, ?_, fun x hx hxp => ?_⟩
  · rw [← hc, List.append_assoc]
    exact h.push hp
  · have hxz : x ≠ z := fun heq => hx (by simp [heq])
    exact (Function.update_of_ne hxp _ _).trans (Function.update_of_ne hxz _ _)

theorem push_of_nil (h : queue.list = none) (fuel : Nat) :
    queue.push fuel m p = some (m, { queue with list := some p }) := by
  rw [push, h]

theorem remove_of_mem (h : Linked m.next queue.list l) (hp : p ∈ l) (hfuel : l.length ≤ fuel) :
    ∃ m' queue', queue.remove fuel m p = some (m', queue') ∧ queue'.total = queue.total ∧
      Linked m'.next queue'.list (l.erase p) ∧ ∀ x, x ∉ l → m'.next x = m.next x := by
  have hnodup := h.nodup
  obtain ⟨l, r, hpl, rfl, herase⟩ := List.exists_erase_eq hp
  rw [herase]
  rcases List.eq_nil_or_concat' l with rfl | ⟨l, y, rfl⟩
  · obtain ⟨hc, hrest⟩ := linked_cons.mp h
    rw [remove, hc]
    dsimp only
    rw [if_pos rfl]
    exact ⟨_, _, rfl, rfl, hrest, fun _ _ => rfl⟩
  · have hsplit : l ++ [y] ++ p :: r = l ++ y :: p :: r := by simp
    obtain ⟨c, hcl, hc⟩ := h.head_mem (List.concat_ne_nil y l)
    rw [hsplit] at h hfuel
    have hy : m.next y = some p := h.next_eq_some
    rw [List.length_append] at hfuel
    rw [remove, hc]
    dsimp only
    rw [if_neg (ne_of_mem_of_not_mem hcl hpl), before_linked (hc ▸ h) hpl (.inr hy)
      (by rw [List.length_cons] at hfuel; omega), Option.map_some, hy]
    refine ⟨_, _, rfl, rfl, ?_, fun x hx => Function.update_of_ne (fun heq => hx (by simp [heq])) _ _⟩
    rw [List.append_assoc]
    exact hc ▸ h.bypass

theorem remove_of_notMem (h : Linked m.next queue.list l) (hp : p ∉ l) (hfuel : l.length ≤ fuel) :
    queue.remove fuel m p = some (m, queue) := by
  rcases List.eq_nil_or_concat' l with rfl | ⟨l, z, rfl⟩
  · rw [remove, linked_nil.mp h]
  · obtain ⟨c, hcl, hc⟩ := Linked.head_mem (q := []) (by rwa [List.append_nil]) (List.concat_ne_nil z l)
    rw [List.length_append, List.length_singleton] at hfuel
    have hz : m.next z = none := h.next_eq_none
    rw [remove, hc]
    dsimp only
    rw [if_neg (ne_of_mem_of_not_mem hcl hp), before_linked (hc ▸ h) hp (.inl hz) (by omega), Option.map_some, hz]

theorem pop_linked (h : Linked m.next queue.list l) : ∃ m' queue', queue.pop m = (m', queue', l.head?) ∧
    queue'.total = queue.total ∧ Linked m'.next queue'.list l.tail ∧ ∀ x, x ∉ l → m'.next x = m.next x := by
  cases l with
  | nil =>
    have hnil := linked_nil.mp h
    rw [pop, hnil]
    exact ⟨m, queue, rfl, rfl, h, fun _ _ => rfl⟩
  | cons front r =>
    have hnodup := List.nodup_cons.mp h.nodup
    obtain ⟨hc, hrest⟩ := linked_cons.mp h
    rw [pop, hc]
    refine ⟨_, _, rfl, rfl, hrest.update_of_notMem hnodup.1, fun x hx => Function.update_of_ne ?_ _ _⟩
    exact fun heq => hx (by simp [heq])

/-- An operation returns, and what it returns and does to the links and to `total`. -/
theorem run_linked (h : Linked m.next queue.list l) {op : QueueOp P} (hop : op.Fresh l) (hfuel : l.length ≤ fuel) :
    ∃ m' queue', queue.run fuel m op = some (m', queue', op.popped l) ∧
      queue'.total = queue.total + op.counted l ∧
      (Linked m'.next queue'.list (op.onList l) ↔ op.Unlinked m.next l) ∧
      ∀ x, x ∉ l → x ∉ op.onList l → m'.next x = m.next x := by
  cases op with
  | push p =>
    by_cases hl : l = []
    · subst hl
      rw [run, push_of_nil (linked_nil.mp h)]
      refine ⟨_, _, rfl, (Int.add_zero _).symm, ?_, fun _ _ _ => rfl⟩
      show Linked m.next (some p) [p] ↔ ([] = [] → m.next p = none)
      rw [linked_cons, linked_nil]
      exact ⟨fun hp _ => hp.2, fun hp => ⟨rfl, hp rfl⟩⟩
    · obtain ⟨m', hpush, hlinked, hframe⟩ := push_of_ne_nil h hl hop hfuel
      rw [run, hpush]
      refine ⟨_, _, rfl, ?_, iff_of_true hlinked fun hnil => absurd hnil hl, fun x hx hx' => ?_⟩
      · rw [QueueOp.counted, if_neg hl]
      · exact hframe x hx fun heq => hx' (by simp [QueueOp.onList, heq])
  | add p =>
    refine ⟨_, _, rfl, rfl, iff_of_true ?_ trivial, fun x _ hx => Function.update_of_ne ?_ _ _⟩
    · refine linked_cons.mpr ⟨rfl, ?_⟩
      show Linked (Function.update m.next p queue.list) (Function.update m.next p queue.list p) l
      rw [Function.update_self]
      exact h.update_of_notMem hop
    · exact fun heq => hx (by simp [QueueOp.onList, heq])
  | remove p =>
    by_cases hp : p ∈ l
    · obtain ⟨m', queue', hremove, htotal, hlinked, hframe⟩ := remove_of_mem h hp hfuel
      rw [run, hremove]
      exact ⟨_, _, rfl, htotal.trans (Int.add_zero _).symm, iff_of_true hlinked trivial, fun x hx _ => hframe x hx⟩
    · rw [run, remove_of_notMem h hp hfuel]
      refine ⟨_, _, rfl, (Int.add_zero _).symm, iff_of_true ?_ trivial, fun _ _ _ => rfl⟩
      rwa [QueueOp.onList, List.erase_of_not_mem hp]
  | pop =>
    obtain ⟨m', queue', hpop, htotal, hlinked, hframe⟩ := pop_linked h
    rw [run, hpop]
    exact ⟨_, _, rfl, htotal.trans (Int.add_zero _).symm, iff_of_true hlinked trivial, fun x hx _ => hframe x hx⟩

theorem push_mono {r : PcbLinks P × PcbQueue P} (n : Nat) (h : queue.push fuel m p = some r) :
    queue.push (fuel + n) m p = some r := by
  unfold push at h ⊢
  cases hq : queue.list with
  | none =>
    rw [hq] at h
    exact h
  | some head =>
    rw [hq] at h
    obtain ⟨x, hx, hr⟩ := Option.map_eq_some_iff.mp h
    exact Option.map_eq_some_iff.mpr ⟨x, last_mono hx, hr⟩

theorem remove_mono {r : PcbLinks P × PcbQueue P} (n : Nat) (h : queue.remove fuel m p = some r) :
    queue.remove (fuel + n) m p = some r := by
  unfold remove at h ⊢
  cases hq : queue.list with
  | none =>
    rw [hq] at h
    exact h
  | some head =>
    rw [hq] at h
    dsimp only at h ⊢
    split at h
    · next heq => rwa [if_pos heq]
    · next hne =>
      rw [if_neg hne]
      obtain ⟨x, hx, hr⟩ := Option.map_eq_some_iff.mp h
      exact Option.map_eq_some_iff.mpr ⟨x, before_mono hx, hr⟩

theorem run_mono {op : QueueOp P} {r : PcbLinks P × PcbQueue P × Option P} (n : Nat)
    (h : queue.run fuel m op = some r) : queue.run (fuel + n) m op = some r := by
  cases op with
  | push p =>
    obtain ⟨r', hpush, hr⟩ := Option.map_eq_some_iff.mp h
    exact Option.map_eq_some_iff.mpr ⟨r', push_mono n hpush, hr⟩
  | add p => exact h
  | remove p =>
    obtain ⟨r', hremove, hr⟩ := Option.map_eq_some_iff.mp h
    exact Option.map_eq_some_iff.mpr ⟨r', remove_mono n hremove, hr⟩
  | pop => exact h

theorem pop_unlinks {front : P} (h : queue.list = some front) : (queue.pop m).1.next front = none := by
  rw [pop, h]
  exact Function.update_self ..

end Operations

end PcbQueue

theorem QueueOp.length_onList [DecidableEq P] {l : List P} (op : QueueOp P) :
    (l.length : Int) + op.counted l = (op.onList l).length ↔ op.Counts l := by
  cases op with
  | push p => by_cases hl : l = [] <;> simp [counted, onList, Counts, hl]
  | add p => simp [counted, onList, Counts]
  | remove p =>
    by_cases hp : p ∈ l
    · have hpos := List.length_pos_of_mem hp
      rw [counted, onList, List.length_erase_of_mem hp]
      refine iff_of_false (by omega) fun hc => hc hp
    · simp [counted, onList, Counts, hp, List.erase_of_not_mem]
  | pop =>
    cases l with
    | nil => exact iff_of_true rfl rfl
    | cons x l =>
      refine iff_of_false ?_ (List.cons_ne_nil x l)
      rw [counted, onList, List.length_cons, List.tail_cons]
      omega

namespace Queues

/-- One queue and the links of its own PCBs changed. -/
theorem Holds.set [DecidableEq Q] {s : Queues Q P} {lists : Q → List P} {q : Q} (h : s.Holds lists) {m : PcbLinks P}
    {queue : PcbQueue P} {l : List P} (hl : Linked m.next queue.list l)
    (hframe : ∀ x, x ∉ lists q → x ∉ l → m.next x = s.links.next x)
    (hfresh : ∀ x ∈ l, x ∈ lists q ∨ ∀ q', x ∉ lists q') :
    Holds ⟨m, Function.update s.queue q queue⟩ (Function.update lists q l) := by
  have hother : ∀ q', q' ≠ q → ∀ x ∈ lists q', x ∉ lists q ∧ x ∉ l := by
    intro q' hq x hx
    have hxq : x ∉ lists q := fun hm => hq (h.apart q' q x hx hm)
    exact ⟨hxq, fun hm => (hfresh x hm).elim hxq fun hnone => hnone q' hx⟩
  refine ⟨fun q' => ?_, fun q' q'' x hx hx' => ?_⟩
  · show Linked m.next (Function.update s.queue q queue q').list _
    by_cases hq : q' = q
    · subst hq
      rwa [Function.update_self, Function.update_self]
    · rw [Function.update_of_ne hq, Function.update_of_ne hq]
      exact (h.linked q').congr fun x hx => (hframe x (hother q' hq x hx).1 (hother q' hq x hx).2).symm
  · by_cases hq : q' = q
    · by_cases hq' : q'' = q
      · exact hq.trans hq'.symm
      · rw [hq, Function.update_self] at hx
        rw [Function.update_of_ne hq'] at hx'
        exact absurd hx (hother q'' hq' x hx').2
    · rw [Function.update_of_ne hq] at hx
      by_cases hq' : q'' = q
      · rw [hq', Function.update_self] at hx'
        exact absurd hx' (hother q' hq x hx).2
      · rw [Function.update_of_ne hq'] at hx'
        exact h.apart q' q'' x hx hx'

section
variable [DecidableEq P] [DecidableEq Q] {s t : Queues Q P} {lists : Q → List P} {q : Q} {op : QueueOp P} {fuel : Nat}

/-- An operation returns what it returns on the lists; the links are right afterwards unless a PCB that is alone in its
queue still holds one. -/
theorem Holds.step (h : s.Holds lists) (q : Q) (hop : ∀ q', op.Fresh (lists q')) : ∃ fuel t,
    queueStep fuel s q op = some (t, op.popped (lists q)) ∧
      (t.Holds (Function.update lists q (op.onList (lists q))) ↔ op.Unlinked s.links.next (lists q)) ∧
      (t.queue q).total = (s.queue q).total + op.counted (lists q) ∧ (∀ q', q' ≠ q → t.queue q' = s.queue q') ∧
      ∀ x, x ∉ lists q → x ∉ op.onList (lists q) → t.links.next x = s.links.next x := by
  obtain ⟨m', queue', hrun, htotal, hlinked, hframe⟩ := PcbQueue.run_linked (h.linked q) (hop q) (Nat.le_refl _)
  refine ⟨(lists q).length, ⟨m', Function.update s.queue q queue'⟩, ?_, ⟨fun ht => ?_, fun hun => ?_⟩, ?_, fun q' hq =>
    Function.update_of_ne hq _ _, hframe⟩
  · rw [queueStep, hrun, Option.map_some]
  · have hq := ht.linked q
    rw [Function.update_self] at hq
    dsimp only at hq
    rw [Function.update_self] at hq
    exact hlinked.mp hq
  · refine h.set (hlinked.mpr hun) hframe fun x hx => ?_
    cases op with
    | push p =>
      refine (List.mem_append.mp hx).imp_right fun hm q' hq => hop q' ?_
      rwa [← List.mem_singleton.mp hm]
    | add p =>
      refine (List.mem_cons.mp hx).symm.imp_right ?_
      rintro rfl
      exact hop
    | remove p => exact .inl (List.mem_of_mem_erase hx)
    | pop => exact .inl (List.mem_of_mem_tail hx)
  · show (Function.update s.queue q queue' q).total = _
    rw [Function.update_self]
    exact htotal

theorem queueStep_unique {f g : Nat} {r r' : Queues Q P × Option P} (h : queueStep f s q op = some r)
    (h' : queueStep g s q op = some r') : r = r' := by
  obtain ⟨x, hx, rfl⟩ := Option.map_eq_some_iff.mp h
  obtain ⟨y, hy, rfl⟩ := Option.map_eq_some_iff.mp h'
  have hxg := PcbQueue.run_mono g hx
  have hyf := PcbQueue.run_mono f hy
  rw [Nat.add_comm, hxg] at hyf
  rw [Option.some.inj hyf]

/-- A step of the queues beside the lists that they are meant to be. -/
def QueueStep (s : Queues Q P × (Q → List P)) (a : Q × QueueOp P) (t : Queues Q P × (Q → List P)) : Prop :=
  (∀ q, a.2.Fresh (s.2 q)) ∧ (∃ fuel r, queueStep fuel s.1 a.1 a.2 = some (t.1, r)) ∧
    t.2 = Function.update s.2 a.1 (a.2.onList (s.2 a.1))

/-- A step, computed. -/
def queueExec [Fintype Q] (fuel : Nat) (s : Queues Q P × (Q → List P)) (a : Q × QueueOp P) :
    Option (Queues Q P × (Q → List P)) :=
  if ∀ q, a.2.Fresh (s.2 q) then
    (queueStep fuel s.1 a.1 a.2).map fun r => (r.1, Function.update s.2 a.1 (a.2.onList (s.2 a.1)))
  else none

theorem queueStep_of_exec [Fintype Q] {s t : Queues Q P × (Q → List P)} {a : Q × QueueOp P}
    (h : queueExec fuel s a = some t) : QueueStep s a t := by
  unfold queueExec at h
  split at h
  · next hfresh =>
    obtain ⟨r, hr, rfl⟩ := Option.map_eq_some_iff.mp h
    exact ⟨hfresh, ⟨fuel, r.2, hr⟩, rfl⟩
  · exact absurd h (Option.some_ne_none t).symm

/-- New queues, of PCBs whose links are `links`. -/
def initial (links : PcbLinks P) : Queues Q P × (Q → List P) := (⟨links, fun _ => .new⟩, fun _ => [])

omit [DecidableEq P] [DecidableEq Q] in
theorem holds_initial (links : PcbLinks P) : (initial links : Queues Q P × (Q → List P)).1.Holds (initial links).2 :=
  ⟨fun _ => linked_nil.mpr rfl, fun _ _ _ h => absurd h List.not_mem_nil⟩

/-- The queues are the lists, and a PCB that is in none of them holds no link. -/
structure Clean (s : Queues Q P × (Q → List P)) : Prop where
  holds : s.1.Holds s.2
  unlinked : ∀ p, (∀ q, p ∉ s.2 q) → s.1.links.next p = none

theorem Clean.step {s : Queues Q P × (Q → List P)} (h : Clean s) (q : Q) (hop : ∀ q', op.Fresh (s.2 q'))
    (hremove : ∀ p, op ≠ .remove p) : ∃ fuel t, queueStep fuel s.1 q op = some (t, op.popped (s.2 q)) ∧
      Clean (t, Function.update s.2 q (op.onList (s.2 q))) := by
  obtain ⟨fuel, t, hstep, hholds, -, -, hframe⟩ := h.holds.step q hop
  refine ⟨fuel, t, hstep, hholds.mpr ?_, fun x hx => ?_⟩
  · cases op with
    | push p => exact fun _ => h.unlinked p hop
    | _ => exact trivial
  · have hxq := hx q
    dsimp only at hxq
    rw [Function.update_self] at hxq
    by_cases hxl : x ∈ s.2 q
    · -- only `pop` takes a PCB out, and it clears the link
      cases op with
      | push p => exact absurd (List.mem_append_left _ hxl) hxq
      | add p => exact absurd (List.mem_cons_of_mem p hxl) hxq
      | remove p => exact absurd rfl (hremove p)
      | pop =>
        have hlinked := h.holds.linked q
        obtain ⟨front, rest, hl⟩ := List.exists_cons_of_ne_nil (List.ne_nil_of_mem hxl)
        rw [QueueOp.onList, hl, List.tail_cons] at hxq
        rw [hl] at hxl hlinked
        obtain rfl := (List.mem_cons.mp hxl).resolve_right hxq
        obtain ⟨rfl, -⟩ := Prod.mk.inj (Option.some.inj hstep)
        exact PcbQueue.pop_unlinks (linked_cons.mp hlinked).1
    · refine (hframe x hxl hxq).trans (h.unlinked x fun q' => ?_)
      by_cases hq : q' = q
      · rwa [hq]
      · have hx' := hx q'
        dsimp only at hx'
        rwa [Function.update_of_ne hq] at hx'

/-- Queues that are only pushed to, added to and popped are the lists. -/
theorem queueRun_lists {links : PcbLinks P} (hlinks : ∀ p, links.next p = none) {as : List (Q × QueueOp P)}
    {s : Queues Q P × (Q → List P)} (h : Run QueueStep (fun _ a => ∀ p, a.2 ≠ .remove p) (initial links) as s) :
    Clean s := by
  refine h.invariant (P := Clean) (fun s a t hs hok hst => ?_) ⟨holds_initial links, fun p _ => hlinks p⟩
  obtain ⟨hfresh, ⟨fuel, r, hstep⟩, ht⟩ := hst
  obtain ⟨fuel', t', hstep', hclean⟩ := hs.step a.1 hfresh hok
  obtain ⟨rfl, -⟩ := Prod.mk.inj (queueStep_unique hstep hstep')
  rw [show t = (t.1, Function.update s.2 a.1 (a.2.onList (s.2 a.1))) from Prod.ext rfl ht]
  exact hclean

/-- The queues are the lists, and `total` is the length. -/
structure Follows (s : Queues Q P × (Q → List P)) : Prop where
  holds : s.1.Holds s.2
  total : ∀ q, (s.1.queue q).total = (s.2 q).length

omit [DecidableEq P] [DecidableEq Q] in
theorem follows_initial (links : PcbLinks P) : Follows (initial links : Queues Q P × (Q → List P)) :=
  ⟨holds_initial links, fun _ => rfl⟩

/-- What one operation does to queues that follow their lists. -/
theorem Follows.step {s : Queues Q P × (Q → List P)} (h : Follows s) (q : Q) (hop : ∀ q', op.Fresh (s.2 q')) :
    ∃ fuel t, queueStep fuel s.1 q op = some (t, op.popped (s.2 q)) ∧
      (Follows (t, Function.update s.2 q (op.onList (s.2 q))) ↔ op.Counts (s.2 q)) := by
  obtain ⟨fuel, t, hstep, hholds, htotal, hother, -⟩ := h.holds.step q hop
  rw [h.total q] at htotal
  refine ⟨fuel, t, hstep, fun ht => ?_, fun hc => ⟨hholds.mpr ?_, fun q' => ?_⟩⟩
  · have hq := ht.total q
    dsimp only at hq
    rw [Function.update_self, htotal] at hq
    exact op.length_onList.mp hq
  · cases op with
    | push p => exact fun hnil => absurd hnil hc
    | _ => exact trivial
  · dsimp only
    by_cases hq : q' = q
    · subst hq
      rw [Function.update_self, htotal]
      exact op.length_onList.mpr hc
    · rw [Function.update_of_ne hq, hother q' hq]
      exact h.total q'

/-- Queues on which every operation counted follow the lists, and the next one is right exactly if it counts. -/
theorem queueRun_follows {links : PcbLinks P} {as : List (Q × QueueOp P)} {s : Queues Q P × (Q → List P)}
    (h : Run QueueStep (fun s a => a.2.Counts (s.2 a.1)) (initial links) as s) :
    Follows s ∧ ∀ q op, (∀ q', op.Fresh (s.2 q')) → ∃ fuel t,
      queueStep fuel s.1 q op = some (t, op.popped (s.2 q)) ∧
        (Follows (t, Function.update s.2 q (op.onList (s.2 q))) ↔ op.Counts (s.2 q)) := by
  have hs : Follows s := by
    refine h.invariant (P := Follows) (fun s a t hs hok hst => ?_) (follows_initial links)
    obtain ⟨hfresh, ⟨fuel, r, hstep⟩, ht⟩ := hst
    obtain ⟨fuel', t', hstep', hiff⟩ := hs.step a.1 hfresh
    obtain ⟨rfl, -⟩ := Prod.mk.inj (queueStep_unique hstep hstep')
    rw [show t = (t.1, Function.update s.2 a.1 (a.2.onList (s.2 a.1))) from Prod.ext rfl ht]
    exact hiff.mpr hok
  exact ⟨hs, fun q op hop => hs.step q hop⟩

/-- One PCB, added to a new queue: the next one can be pushed behind it, but it cannot be popped. -/
theorem queueRun_follows_added : ∃ s : Queues Unit Bool × (Unit → List Bool), s.2 () = [true] ∧ Follows s ∧
    (∃ fuel t, queueStep fuel s.1 () (.push false) = some (t, none) ∧
      Follows (t, Function.update s.2 () [true, false])) ∧
    ∃ fuel t, queueStep fuel s.1 () .pop = some (t, some true) ∧ ¬ Follows (t, Function.update s.2 () []) := by
  have hrun : Run QueueStep (fun s a => a.2.Counts (s.2 a.1)) (initial ⟨fun _ => none, fun _ => none⟩)
      [((), .add true)] (_, Function.update (fun _ => []) () [true]) :=
    .single trivial ⟨fun _ => List.not_mem_nil, ⟨0, _, rfl⟩, rfl⟩
  obtain ⟨hs, hnext⟩ := queueRun_follows hrun
  obtain ⟨fuel, t, hpush, hcounts⟩ := hnext () (.push false) fun _ => show false ∉ [true] by decide
  obtain ⟨fuel', t', hpop, hlost⟩ := hnext () .pop fun _ => trivial
  exact ⟨_, rfl, hs, ⟨fuel, t, hpush, hcounts.mpr (List.cons_ne_nil _ _)⟩, fuel', t', hpop, fun ht =>
    List.cons_ne_nil _ _ (hlost.mp ht)⟩

/-- The first PCB pushed is not counted; and a PCB that was removed comes back with the one it was linked to. -/
theorem push_not_followed : (∃ s : Queues Unit Bool × (Unit → List Bool),
      AnyRun QueueStep (initial ⟨fun _ => none, fun _ => none⟩) [((), .push false)] s ∧
        (s.1.queue ()).total ≠ (s.2 ()).length) ∧
    ∃ s : Queues Unit Bool × (Unit → List Bool), AnyRun QueueStep (initial ⟨fun _ => none, fun _ => none⟩)
      [((), .push false), ((), .push true), ((), .remove false), ((), .pop), ((), .push false)] s ∧
        Linked s.1.links.next (s.1.queue ()).list [false, true] ∧ s.2 () = [false] := by
  have hpush := @run_of_exec _ _ (queueExec 2) [((), .push false)]
    (initial ⟨fun _ => none, fun _ => none⟩ : Queues Unit Bool × (Unit → List Bool)) _ rfl
  have hstale := @run_of_exec _ _ (queueExec 2)
    [((), .push false), ((), .push true), ((), .remove false), ((), .pop), ((), .push false)]
    (initial ⟨fun _ => none, fun _ => none⟩ : Queues Unit Bool × (Unit → List Bool)) _ rfl
  exact ⟨⟨_, hpush.imp fun _ _ _ => queueStep_of_exec, by decide⟩, _, hstale.imp fun _ _ _ => queueStep_of_exec,
    ⟨rfl, rfl, rfl⟩, rfl⟩

end

end Queues

end RetrOS
