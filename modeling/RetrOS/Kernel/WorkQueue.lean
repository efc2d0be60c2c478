import RetrOS.Lib.Linked
import RetrOS.Lib.Run
import Mathlib.Data.List.FinRange
import Mathlib.Logic.Function.Iterate

/-!
# The work queue (`kernel/work.c`)

Callers `P` of `work_queue_add` and the worker thread in any interleaving. A critical section is one step, and so is
each statement between them. The pool and the queue share their nodes: `next` links the works that wait.

* `Caller`, `Worker` : the next statement of a caller and of the worker;
* `WorkQueue.step` : a call, the next statement of a caller, the next statement of the worker;
* `Exact` : the works are executed in the order in which they were linked, each once, and a slot has one user.
-/

namespace RetrOS.Workers
open RetrOS.Lib

/-- A pointer. -/
abbrev Word := BitVec 32

/-- A place in `__work_pool`. -/
abbrev Slot := Fin 25

inductive WorkState
  | waiting
  | started
  | finished
  deriving DecidableEq

/-- `struct work` -/
structure Work where
  workFn : Word
  callback : Word
  next : Option Slot
  state : WorkState
  inUse : Bool
  arg : Word

/-- The arguments of a call of `work_queue_add`. -/
structure Job where
  fn : Word
  arg : Word
  callback : Word
  deriving DecidableEq

/-- What the worker calls for a work: the function with its argument, and the callback if there is one. -/
def Job.run (job : Job) : Word × Word := (job.fn, job.arg)

def Job.callbacks (job : Job) : List Word := if job.callback ≠ 0 then [job.callback] else []

def Work.job (w : Work) : Job := ⟨w.workFn, w.arg, w.callback⟩

/-- The assignments to a new work, in order. -/
inductive Statement
  | workFn
  | arg
  | state
  | callback
  | next
  deriving DecidableEq

/-- The next statement of a caller. -/
inductive Caller
  | idle
  /-- `get_new_work` -/
  | take (job : Job)
  | fill (job : Job) (slot : Slot) (st : Statement)
  /-- the critical section that links the work -/
  | link (job : Job) (slot : Slot)
  deriving DecidableEq

/-- The next statement of the worker. -/
inductive Worker
  /-- the critical section that takes the first work -/
  | take
  | start (slot : Slot)
  | run (slot : Slot)
  | callback (slot : Slot)
  /-- `work->in_use = 0` -/
  | release (slot : Slot)
  /-- `work->next = NULL` -/
  | clear (slot : Slot)
  deriving DecidableEq

def Statement.write (st : Statement) (job : Job) (w : Work) : Work :=
  match st with
  | .workFn => { w with workFn := job.fn }
  | .arg => { w with arg := job.arg }
  | .state => { w with state := .waiting }
  | .callback => { w with callback := job.callback }
  | .next => { w with next := none }

/-- Where a caller goes from an assignment. -/
def Statement.following (st : Statement) (job : Job) (slot : Slot) : Caller :=
  match st with
  | .workFn => .fill job slot .arg
  | .arg => .fill job slot .state
  | .state => .fill job slot .callback
  | .callback => .fill job slot .next
  | .next => .link job slot

/-- The slot that a caller has taken. -/
def Caller.slot : Caller → Option Slot
  | .fill _ slot _ => some slot
  | .link _ slot => some slot
  | _ => none

/-- The slot of the work that the worker is at. -/
def Worker.slot : Worker → Option Slot
  | .start slot => some slot
  | .run slot => some slot
  | .callback slot => some slot
  | .release slot => some slot
  | _ => none

/-- The work whose function is still to be called. -/
def Worker.toRun : Worker → Option Slot
  | .start slot => some slot
  | .run slot => some slot
  | _ => none

/-- The work whose callback is still to be called. -/
def Worker.toAnswer : Worker → Option Slot
  | .start slot => some slot
  | .run slot => some slot
  | .callback slot => some slot
  | _ => none

structure WorkQueue (P : Type*) where
  pool : Slot → Work
  head : Option Slot
  tail : Option Slot
  worksInQueue : Int
  caller : P → Caller
  worker : Worker
  /-- the works that were linked, in order; their calls return 0 -/
  accepted : List Job
  /-- the calls of work functions, and of callbacks -/
  executed : List (Word × Word)
  answered : List Word

inductive WorkAction (P : Type*)
  | add (p : P) (job : Job)
  /-- the next statement of a caller -/
  | resume (p : P)
  /-- the next statement of the worker -/
  | work

namespace WorkQueue

variable {P : Type*} [DecidableEq P]

/-- After `init_worker`; the pool is zeroed. -/
def initial : WorkQueue P :=
  ⟨fun _ => ⟨0, 0, none, .waiting, false, 0⟩, none, none, 0, fun _ => .idle, .take, [], [], []⟩

def next (s : WorkQueue P) (i : Slot) : Option Slot := (s.pool i).next

def setWork (s : WorkQueue P) (i : Slot) (w : Work) : WorkQueue P := { s with pool := Function.update s.pool i w }

def goto (s : WorkQueue P) (p : P) (c : Caller) : WorkQueue P := { s with caller := Function.update s.caller p c }

/-- `get_new_work`; without a free work the call returns an error. -/
def getNewWork (s : WorkQueue P) (p : P) (job : Job) : WorkQueue P :=
  match (List.finRange 25).find? fun i => !(s.pool i).inUse with
  | some i => (s.setWork i { s.pool i with inUse := true }).goto p (.fill job i .workFn)
  | none => s.goto p .idle

/-- The critical section of `work_queue_add`. -/
def link (s : WorkQueue P) (p : P) (job : Job) (i : Slot) : WorkQueue P :=
  let linked :=
    match s.head, s.tail with
    | some _, some z => { s.setWork z { s.pool z with next := some i } with tail := some i }
    | some _, none => { s with tail := some i }
    | none, _ => { s with head := some i, tail := some i }
  { linked.goto p .idle with
    worksInQueue := s.worksInQueue + 1
    accepted := s.accepted ++ [job] }

/-- The next statement of a caller. -/
def resume (s : WorkQueue P) (p : P) : Option (WorkQueue P) :=
  match s.caller p with
  | .idle => none
  | .take job => some (s.getNewWork p job)
  | .fill job i st => some ((s.setWork i (st.write job (s.pool i))).goto p (st.following job i))
  | .link job i => some (s.link p job i)

/-- The next statement of `worker_thread`; with nothing to do it yields. -/
def work (s : WorkQueue P) : WorkQueue P :=
  match s.worker with
  | .take =>
    match s.head with
    | none => s
    | some i =>
      { s with
        head := s.next i
        tail := if s.next i = none then none else s.tail
        worksInQueue := s.worksInQueue - 1
        worker := .start i }
  | .start i => { s.setWork i { s.pool i with state := .started } with worker := .run i }
  | .run i => { s with executed := s.executed ++ [(s.pool i).job.run], worker := .callback i }
  | .callback i => { s with answered := s.answered ++ (s.pool i).job.callbacks, worker := .release i }
  | .release i => { s.setWork i { s.pool i with inUse := false } with worker := .clear i }
  | .clear i => { s.setWork i { s.pool i with next := none } with worker := .take }

def step (s : WorkQueue P) : WorkAction P → Option (WorkQueue P)
  | .add p job =>
    match s.caller p with
    | .idle => some (s.goto p (.take job))
    | _ => none
  | .resume p => s.resume p
  | .work => some s.work

/-- `step` as a relation. -/
def WorkStep (s : WorkQueue P) (a : WorkAction P) (t : WorkQueue P) : Prop := s.step a = some t

/-- The works that wait. -/
abbrev Queued (s : WorkQueue P) (q : List Slot) : Prop := Linked s.next s.head q

/-- The works are executed in the order in which they were linked, each once; and a slot that a caller has taken is
not in the queue, not at the worker and not another caller's. -/
structure Exact (s : WorkQueue P) (q : List Slot) : Prop where
  queued : s.Queued q
  executed : s.accepted.map Job.run = s.executed ++ (s.worker.toRun.toList ++ q).map fun i => (s.pool i).job.run
  answered : s.accepted.flatMap Job.callbacks =
    s.answered ++ (s.worker.toAnswer.toList ++ q).flatMap fun i => (s.pool i).job.callbacks
  unlinked : ∀ p i, (s.caller p).slot = some i → i ∉ q
  finished : ∀ p i, (s.caller p).slot = some i → s.worker.slot ≠ some i
  exclusive : ∀ p p' i, (s.caller p).slot = some i → (s.caller p').slot = some i → p = p'

/-- The worker does not clear the link of a work behind which another one is linked: a caller has not taken the slot
since it was released, and linked it, and another caller has not linked a work behind it. -/
def ClearOk (s : WorkQueue P) (a : WorkAction P) : Prop :=
  ∀ i j, a = .work → s.worker = .clear i → s.next i = some j → ∀ q, s.Queued q → i ∉ q

end WorkQueue

end RetrOS.Workers
