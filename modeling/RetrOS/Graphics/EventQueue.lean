import RetrOS.Kernel.Scheduler
import RetrOS.Lib.Ring
import RetrOS.Lib.Run

/-!
# Event queues (`graphics/gfxlib.c`, `drivers/keyboard.c`)

Both queues are a ring of slots with the index of the next event to write, `head`, and of the next one to read, `tail`.
Nothing counts the events, and the writer does not look at `tail`.

* `IndexQueue.push`, `IndexQueue.take` : the ring;
* `gfxPushEvent`, `gfxEventLoop`, `kbAddChar`, `kbGetChar` : the functions of the source, without waiting;
* `pendingAfter` : what the queue is for, a list of at most `size` events of which what comes on top is lost;
* `gfx_kb_queueRun` : the next call returns what is pending after every step exactly if there is never a push with
  `size - 1` events pending, and, for the keyboard, the next character is not the 0 that stands for none.
-/

namespace RetrOS.Events
open RetrOS.Lib

abbrev gfxMaxEvents : Nat := 10

abbrev kbBufferSize : Nat := 255

/-- The slots and the two indices. -/
structure IndexQueue (α : Type*) where
  list : Nat → α
  head : Nat
  tail : Nat

section
variable {α : Type*}

def IndexQueue.push (size : Nat) (q : IndexQueue α) (e : α) : IndexQueue α :=
  { q with list := Function.update q.list q.head e, head := (q.head + 1) % size }

def IndexQueue.take (size : Nat) (q : IndexQueue α) : Option (α × IndexQueue α) :=
  if q.tail = q.head then none else some (q.list q.tail, { q with tail := (q.tail + 1) % size })

/-- A queue without events, whatever its slots hold. -/
def IndexQueue.start (list : Nat → α) (i : Nat) : IndexQueue α := { list, head := i, tail := i }

end

/-- `struct gfx_event` -/
structure GfxEvent where
  event : BitVec 8
  data : BitVec 16
  data2 : BitVec 16
deriving DecidableEq, Repr

/-- The fields of `struct window`, and the state of its owner. -/
structure EventWindow where
  events : IndexQueue GfxEvent
  owner : PcbState

def gfxPushEvent (w : EventWindow) (e : GfxEvent) : Int × EventWindow :=
  let w := { w with events := w.events.push gfxMaxEvents e }
  (0, if w.owner = .blocked then { w with owner := .running } else w)

/-- `gfx_event_loop` with `GFX_EVENT_NONBLOCKING`: the result, and what it has written to `event`. -/
def gfxEventLoop (w : EventWindow) : Int × Option GfxEvent × EventWindow :=
  match w.events.take gfxMaxEvents with
  | none => (-1, none, w)
  | some (e, events) => (0, some e, { w with events })

abbrev Char8 := BitVec 8

def kbAddChar (q : IndexQueue Char8) (c : Char8) : IndexQueue Char8 := q.push kbBufferSize c

/-- `kb_get_char(0)` -/
def kbGetChar (q : IndexQueue Char8) : Char8 × IndexQueue Char8 :=
  match q.take kbBufferSize with
  | none => (0, q)
  | some (c, q) => (c, q)

/-- A call of the writer or of the reader. -/
inductive QueueOp (α : Type*)
  | push (e : α)
  | take

/-- What is pending after a call. -/
def pendingAfter {α : Type*} (size : Nat) (pending : List α) : QueueOp α → List α
  | .push e => if pending.length < size then pending ++ [e] else pending
  | .take => pending.tail

/-- A queue, and what has been pushed, delivered to nobody, and not lost. -/
structure Queued (σ α : Type*) where
  queue : σ
  pending : List α

def EventWindow.step (w : EventWindow) : QueueOp GfxEvent → EventWindow
  | .push e => (gfxPushEvent w e).2
  | .take => (gfxEventLoop w).2.2

def kbStep (q : IndexQueue Char8) : QueueOp Char8 → IndexQueue Char8
  | .push c => kbAddChar q c
  | .take => (kbGetChar q).2

def Queued.stepGfx (s : Queued EventWindow GfxEvent) (op : QueueOp GfxEvent) : Queued EventWindow GfxEvent :=
  { queue := s.queue.step op, pending := pendingAfter gfxMaxEvents s.pending op }

def Queued.stepKb (s : Queued (IndexQueue Char8) Char8) (op : QueueOp Char8) : Queued (IndexQueue Char8) Char8 :=
  { queue := kbStep s.queue op, pending := pendingAfter kbBufferSize s.pending op }

/-- The next call returns the first event that is pending, and reports an empty queue only if there is none. -/
def Queued.DeliversGfx (s : Queued EventWindow GfxEvent) : Prop :=
  (gfxEventLoop s.queue).2.1 = s.pending.head? ∧ ((gfxEventLoop s.queue).1 = -1 ↔ s.pending = [])

/-- The same for the keyboard, where the character 0 is the report of an empty buffer. -/
def Queued.DeliversKb (s : Queued (IndexQueue Char8) Char8) : Prop :=
  (∀ c ∈ s.pending.head?, (kbGetChar s.queue).1 = c) ∧ ((kbGetChar s.queue).1 = 0 ↔ s.pending = [])

/-- There is a slot left behind the event that is pushed. -/
def Room {α : Type*} (size : Nat) (pending : List α) : QueueOp α → Prop
  | .push _ => pending.length < size - 1
  | .take => True

/-- The first character after the call is not 0. -/
def FirstVisible (pending : List Char8) : QueueOp Char8 → Prop
  | .push c => pending = [] → c ≠ 0
  | .take => pending.tail.head? ≠ some 0

section
variable {α : Type*} {size : Nat} {q : IndexQueue α} {pending : List α} {e : α}

/-- The ring holds what is pending, and is not full. -/
def IndexQueue.Holds (size : Nat) (q : IndexQueue α) (pending : List α) : Prop :=
  Occupied size q.list q.tail q.head pending ∧ pending.length < size

theorem IndexQueue.Holds.start {i : Nat} (hi : i < size) (list : Nat → α) : (IndexQueue.start list i).Holds size [] :=
  ⟨.empty hi list, Nat.zero_lt_of_lt hi⟩

theorem IndexQueue.Holds.tail_eq_head_iff (h : q.Holds size pending) : q.tail = q.head ↔ pending = [] := by
  rw [h.1.first_eq_next_iff]
  exact or_iff_left h.2.ne

theorem IndexQueue.Holds.take_nil (h : q.Holds size []) : q.take size = none :=
  if_pos (h.tail_eq_head_iff.mpr rfl)

theorem IndexQueue.Holds.take_cons (h : q.Holds size (e :: pending)) :
    ∃ q', q.take size = some (e, q') ∧ q'.Holds size pending := by
  obtain ⟨hslot, hrest⟩ := h.1.pop
  have hlen : pending.length + 1 < size := h.2
  refine ⟨{ q with tail := (q.tail + 1) % size }, ?_, hrest, by omega⟩
  rw [IndexQueue.take, if_neg (h.tail_eq_head_iff.not.mpr (List.cons_ne_nil e pending)), hslot]

/-- A push appends the event, and the ring is not taken for empty as long as a slot is left. -/
theorem IndexQueue.Holds.push (h : q.Holds size pending) (e : α) :
    Occupied size (q.push size e).list (q.push size e).tail (q.push size e).head (pending ++ [e]) := h.1.push h.2 e

theorem IndexQueue.Holds.push_room (h : q.Holds size pending) (e : α) (hroom : pending.length < size - 1) :
    (q.push size e).Holds size (pending ++ [e]) :=
  ⟨h.push e, by rw [List.length_append, List.length_singleton]; omega⟩

/-- The event in the last slot makes the ring look empty. -/
theorem IndexQueue.Holds.push_full (h : q.Holds size pending) (e : α) (hfull : ¬ pending.length < size - 1) :
    (q.push size e).take size = none := by
  have hlen := h.2
  refine if_pos ((h.push e).first_eq_next_iff.mpr (.inr ?_))
  rw [List.length_append, List.length_singleton]
  omega

theorem pendingAfter_push (h : q.Holds size pending) (e : α) : pendingAfter size pending (.push e) = pending ++ [e] :=
  if_pos h.2

end

/-! ## Windows -/

section
variable {s : Queued EventWindow GfxEvent} {op : QueueOp GfxEvent}

theorem events_gfxPushEvent (w : EventWindow) (e : GfxEvent) :
    (gfxPushEvent w e).2.events = w.events.push gfxMaxEvents e := by
  unfold gfxPushEvent
  dsimp only
  split <;> rfl

/-- The invariant of a window's queue. -/
def Queued.HoldsGfx (s : Queued EventWindow GfxEvent) : Prop := s.queue.events.Holds gfxMaxEvents s.pending

theorem Queued.HoldsGfx.delivers (h : s.HoldsGfx) : s.DeliversGfx := by
  obtain ⟨w, pending⟩ := s
  unfold DeliversGfx gfxEventLoop
  cases pending with
  | nil =>
    rw [h.take_nil]
    exact ⟨rfl, iff_of_true rfl rfl⟩
  | cons e pending =>
    obtain ⟨q', htake, -⟩ := h.take_cons
    rw [htake]
    exact ⟨rfl, iff_of_false nofun (List.cons_ne_nil e pending)⟩

theorem Queued.HoldsGfx.step (h : s.HoldsGfx) (hroom : Room gfxMaxEvents s.pending op) : (s.stepGfx op).HoldsGfx := by
  obtain ⟨w, pending⟩ := s
  cases op with
  | push e =>
    show (gfxPushEvent w e).2.events.Holds gfxMaxEvents (pendingAfter gfxMaxEvents pending (.push e))
    rw [events_gfxPushEvent, pendingAfter_push h]
    exact h.push_room e hroom
  | take =>
    show (gfxEventLoop w).2.2.events.Holds gfxMaxEvents pending.tail
    unfold gfxEventLoop
    cases pending with
    | nil =>
      rw [h.take_nil]
      exact h
    | cons e pending =>
      obtain ⟨q', htake, hholds⟩ := h.take_cons
      rw [htake]
      exact hholds

theorem Queued.HoldsGfx.delivers_iff (h : s.HoldsGfx) (op : QueueOp GfxEvent) :
    (s.stepGfx op).DeliversGfx ↔ Room gfxMaxEvents s.pending op := by
  refine ⟨fun hdelivers => ?_, fun hroom => (h.step hroom).delivers⟩
  cases op with
  | take => trivial
  | push e =>
    by_contra hfull
    have htake : (s.stepGfx (.push e)).queue.events.take gfxMaxEvents = none := by
      show (gfxPushEvent s.queue e).2.events.take gfxMaxEvents = none
      rw [events_gfxPushEvent]
      exact h.push_full e hfull
    have hempty : (gfxEventLoop (s.stepGfx (.push e)).queue).1 = -1 := by rw [gfxEventLoop, htake]
    have hpending : pendingAfter gfxMaxEvents s.pending (.push e) = [] := hdelivers.2.mp hempty
    rw [pendingAfter_push h] at hpending
    exact List.append_ne_nil_of_right_ne_nil s.pending (List.cons_ne_nil e []) hpending

end

/-! ## The keyboard -/

section
variable {s : Queued (IndexQueue Char8) Char8} {op : QueueOp Char8}

/-- The invariant of the keyboard buffer. -/
def Queued.HoldsKb (s : Queued (IndexQueue Char8) Char8) : Prop :=
  s.queue.Holds kbBufferSize s.pending

theorem Queued.HoldsKb.delivers_iff_head (h : s.HoldsKb) : s.DeliversKb ↔ s.pending.head? ≠ some 0 := by
  obtain ⟨q, pending⟩ := s
  unfold DeliversKb kbGetChar
  cases pending with
  | nil =>
    rw [h.take_nil]
    exact iff_of_true ⟨nofun, iff_of_true rfl rfl⟩ nofun
  | cons c pending =>
    obtain ⟨q', htake, -⟩ := h.take_cons
    rw [htake]
    simp

theorem Queued.HoldsKb.step (h : s.HoldsKb) (hroom : Room kbBufferSize s.pending op) : (s.stepKb op).HoldsKb := by
  obtain ⟨q, pending⟩ := s
  cases op with
  | push c =>
    show (q.push kbBufferSize c).Holds kbBufferSize (pendingAfter kbBufferSize pending (.push c))
    rw [pendingAfter_push h]
    exact h.push_room c hroom
  | take =>
    show (kbGetChar q).2.Holds kbBufferSize pending.tail
    unfold kbGetChar
    cases pending with
    | nil =>
      rw [h.take_nil]
      exact h
    | cons c pending =>
      obtain ⟨q', htake, hholds⟩ := h.take_cons
      rw [htake]
      exact hholds

/-- What the next call sees after a call in a state in which it has seen what is pending. -/
theorem Queued.HoldsKb.delivers_iff (h : s.HoldsKb) (hfirst : s.pending.head? ≠ some 0) (op : QueueOp Char8) :
    (s.stepKb op).DeliversKb ↔ Room kbBufferSize s.pending op ∧ FirstVisible s.pending op := by
  by_cases hroom : Room kbBufferSize s.pending op
  · rw [(h.step hroom).delivers_iff_head, and_iff_right hroom]
    cases op with
    | take => exact Iff.rfl
    | push c =>
      show (pendingAfter kbBufferSize s.pending (.push c)).head? ≠ some 0 ↔ (s.pending = [] → c ≠ 0)
      rw [pendingAfter_push h]
      cases hpending : s.pending with
      | nil => simp
      | cons d pending =>
        rw [hpending, List.head?_cons] at hfirst
        exact iff_of_true hfirst fun hnil => absurd hnil (List.cons_ne_nil d pending)
  · refine iff_of_false (fun hdelivers => ?_) fun hallowed => hroom hallowed.1
    cases op with
    | take => exact hroom trivial
    | push c =>
      have htake : (s.queue.push kbBufferSize c).take kbBufferSize = none := h.push_full c hroom
      have hzero : (kbGetChar (s.stepKb (.push c)).queue).1 = 0 := by
        show (kbGetChar (s.queue.push kbBufferSize c)).1 = 0
        rw [kbGetChar, htake]
      have hpending : pendingAfter kbBufferSize s.pending (.push c) = [] := hdelivers.2.mp hzero
      rw [pendingAfter_push h] at hpending
      exact List.append_ne_nil_of_right_ne_nil s.pending (List.cons_ne_nil c []) hpending

end

/-! ## Runs -/

def gfxStart (list : Nat → GfxEvent) (i : Fin gfxMaxEvents) (owner : PcbState) : Queued EventWindow GfxEvent :=
  { queue := { events := .start list i, owner }, pending := [] }

def kbStart (list : Nat → Char8) (i : Fin kbBufferSize) : Queued (IndexQueue Char8) Char8 :=
  { queue := .start list i, pending := [] }

/-- After every call the next one returns what is pending. -/
def GfxRun (s : Queued EventWindow GfxEvent) (ops : List (QueueOp GfxEvent)) (t : Queued EventWindow GfxEvent) : Prop :=
  Run (fun s op t => s.stepGfx op = t) (fun s op => (s.stepGfx op).DeliversGfx) s ops t

def KbRun (s : Queued (IndexQueue Char8) Char8) (ops : List (QueueOp Char8)) (t : Queued (IndexQueue Char8) Char8) :
    Prop :=
  Run (fun s op t => s.stepKb op = t) (fun s op => (s.stepKb op).DeliversKb) s ops t

/-- Both queues behave like a list of what is pending exactly as long as no push is made with all slots but one taken,
and no 0 becomes the first character of the keyboard buffer. -/
theorem gfx_kb_queueRun (list : Nat → GfxEvent) (i : Fin gfxMaxEvents) (owner : PcbState) (ops : List (QueueOp GfxEvent))
    (s : Queued EventWindow GfxEvent) (buffer : Nat → Char8) (j : Fin kbBufferSize) (calls : List (QueueOp Char8))
    (t : Queued (IndexQueue Char8) Char8) :
    (GfxRun (gfxStart list i owner) ops s ↔ Run (fun s op t => s.stepGfx op = t)
      (fun s op => Room gfxMaxEvents s.pending op) (gfxStart list i owner) ops s) ∧
    (KbRun (kbStart buffer j) calls t ↔ Run (fun s op t => s.stepKb op = t)
      (fun s op => Room kbBufferSize s.pending op ∧ FirstVisible s.pending op) (kbStart buffer j) calls t) := by
  constructor
  · have hstep : ∀ s op t, Queued.HoldsGfx s → Room gfxMaxEvents s.pending op → s.stepGfx op = t → t.HoldsGfx := by
      rintro s op _ hs hroom rfl
      exact hs.step hroom
    have hiff : ∀ s op, Queued.HoldsGfx s → (Room gfxMaxEvents s.pending op ↔ (s.stepGfx op).DeliversGfx) :=
      fun s op hs => (hs.delivers_iff op).symm
    have hstart : (gfxStart list i owner).HoldsGfx := IndexQueue.Holds.start i.isLt list
    exact (Run.congr hstep hiff hstart).symm
  · have hstep : ∀ s op t, Queued.HoldsKb s ∧ s.pending.head? ≠ some 0 →
        Room kbBufferSize s.pending op ∧ FirstVisible s.pending op → s.stepKb op = t →
        t.HoldsKb ∧ t.pending.head? ≠ some 0 := by
      rintro s op _ ⟨hs, hfirst⟩ hallowed rfl
      have hholds := hs.step hallowed.1
      exact ⟨hholds, hholds.delivers_iff_head.mp ((hs.delivers_iff hfirst op).mpr hallowed)⟩
    have hiff : ∀ s op, Queued.HoldsKb s ∧ s.pending.head? ≠ some 0 →
        (Room kbBufferSize s.pending op ∧ FirstVisible s.pending op ↔ (s.stepKb op).DeliversKb) :=
      fun s op hs => (hs.1.delivers_iff hs.2 op).symm
    have hstart : (kbStart buffer j).HoldsKb := IndexQueue.Holds.start j.isLt buffer
    exact (Run.congr hstep hiff ⟨hstart, nofun⟩).symm

/-- Ten events in a row, and the queue is empty. -/
theorem gfx_tenEvents : ¬ ∀ ops s, AnyRun (fun s op t => Queued.stepGfx s op = t)
    (gfxStart (fun _ => ⟨0, 0, 0⟩) 0 .running) ops s → s.DeliversGfx := by
  intro h
  have hdelivers := h _ _ (run_foldl Queued.stepGfx _ (List.replicate 10 (.push ⟨0, 65, 0⟩)))
  have hnil : List.replicate 10 (⟨0, 65, 0⟩ : GfxEvent) = [] := hdelivers.2.mp rfl
  exact List.cons_ne_nil _ _ hnil

end RetrOS.Events
