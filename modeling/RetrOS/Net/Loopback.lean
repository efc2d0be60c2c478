import RetrOS.Lib.Ring
import RetrOS.Lib.Run

/-!
# The loopback device (`drivers/loopback.c`)

Packets wait in a ring of 32 entries. The size of an entry is also the mark that it is taken.

* `ifaceLoopbackWrite`, `ifaceLoopbackRead` : the driver;
* `LoopbackQueue.Holds` : the queue is a list of packets (`Holds.write`, `Holds.read`);
* `loopback_fifo` : the packets that are read are those that were accepted.

A call that does not return is `none`. `kalloc` panics if there is no memory, and for a size that is negative as an
`int` it returns `NULL`, to which the packet would be copied; all memory is less than 2^31 bytes, so there is no such
packet.
-/

namespace RetrOS.Loopback
open RetrOS.Lib

/-- `struct queue_entry`; `data` is a block of `kalloc` with its bytes, or `NULL`. -/
structure QueueEntry where
  data : Option (List UInt8)
  size : Int
  deriving DecidableEq

/-- `loopback_queue` -/
structure LoopbackQueue where
  entries : Nat → QueueEntry
  head : Nat
  tail : Nat
  size : Nat

/-- `{0}` -/
def loopbackQueue : LoopbackQueue := ⟨fun _ => ⟨none, 0⟩, 0, 0, 0⟩

/-- `iface_loopback_write`: the result and the queue. The packet is `NULL` or as many bytes as `size` says; one without
bytes gets no block. -/
def ifaceLoopbackWrite (q : LoopbackQueue) (buffer : Option (List UInt8)) : Option (Int × LoopbackQueue) :=
  match buffer with
  | none => some (-1, q)
  | some bytes =>
    if q.size = 32 then some (-2, q)
    else if (q.entries q.tail).size ≠ 0 then some (-3, q)
    else if 2147483648 ≤ bytes.length then none
    else
      let data := if bytes.length = 0 then none else some bytes
      some (0, { q with
        entries := Function.update q.entries q.tail ⟨data, bytes.length⟩
        tail := (q.tail + 1) % 32
        size := q.size + 1 })

/-- `iface_loopback_read`: the result, the bytes copied to the buffer, and the queue. A negative length is not one that
`memcpy` can copy. -/
def ifaceLoopbackRead (q : LoopbackQueue) (size : BitVec 32) : Option (Int × List UInt8 × LoopbackQueue) :=
  if q.size = 0 then some (-1, [], q)
  else
    let entry := q.entries q.head
    let read := if entry.size < size.toInt then entry.size else size.toInt
    if read < 0 then none
    else some (read, (entry.data.getD []).take read.toNat, { q with
      entries := Function.update q.entries q.head ⟨none, 0⟩
      head := (q.head + 1) % 32
      size := q.size - 1 })

/-- The entry of a packet. -/
def entryOf (bytes : List UInt8) : QueueEntry := ⟨some bytes, bytes.length⟩

/-- The packets that wait. -/
structure LoopbackQueue.Holds (q : LoopbackQueue) (l : List (List UInt8)) : Prop where
  ring : Ring 32 ⟨none, 0⟩ q.entries q.head q.tail (l.map entryOf)
  size : q.size = l.length
  nonempty : ∀ bytes ∈ l, bytes ≠ []

section
variable {q q' : LoopbackQueue} {l : List (List UInt8)} {bytes : List UInt8} {r : Int}

theorem holds_loopbackQueue : loopbackQueue.Holds [] where
  ring := Ring.empty (by decide) fun _ => rfl
  size := rfl
  nonempty _ h := absurd h List.not_mem_nil

theorem LoopbackQueue.Holds.length_le (h : q.Holds l) : l.length ≤ 32 := by
  have hle := h.ring.length_le
  rwa [List.length_map] at hle

/-- A full queue refuses a packet. -/
theorem LoopbackQueue.Holds.write_full (h : q.Holds l) (hfull : l.length = 32) (bytes : List UInt8) :
    ifaceLoopbackWrite q (some bytes) = some (-2, q) := if_pos (h.size.trans hfull)

theorem LoopbackQueue.Holds.slot_tail (h : q.Holds l) (hroom : l.length ≠ 32) : q.entries q.tail = ⟨none, 0⟩ := by
  refine h.ring.slot_tail ?_
  rw [List.length_map]
  exact Nat.lt_of_le_of_ne h.length_le hroom

theorem LoopbackQueue.Holds.write_none (h : q.Holds l) (hroom : l.length ≠ 32) (hle : 2147483648 ≤ bytes.length) :
    ifaceLoopbackWrite q (some bytes) = none := by
  rw [ifaceLoopbackWrite, if_neg (h.size.trans_ne hroom), h.slot_tail hroom]
  exact if_pos hle

/-- Any other takes it. -/
theorem LoopbackQueue.Holds.write (h : q.Holds l) (hroom : l.length ≠ 32) (hbytes : bytes ≠ [])
    (hlt : bytes.length < 2147483648) :
    ∃ q', ifaceLoopbackWrite q (some bytes) = some (0, q') ∧ q'.Holds (l ++ [bytes]) := by
  have hlen : (l.map entryOf).length < 32 := by
    rw [List.length_map]
    exact Nat.lt_of_le_of_ne h.length_le hroom
  have hvacant : (q.entries q.tail).size = 0 := by rw [h.slot_tail hroom]
  have hpos : bytes.length ≠ 0 := fun h0 => hbytes (List.eq_nil_of_length_eq_zero h0)
  have hwrite : ifaceLoopbackWrite q (some bytes) = some (0, { q with
      entries := Function.update q.entries q.tail (entryOf bytes)
      tail := (q.tail + 1) % 32
      size := q.size + 1 }) := by
    rw [ifaceLoopbackWrite, if_neg (h.size.trans_ne hroom), if_neg (not_not_intro hvacant), if_neg (Nat.not_le.mpr hlt)]
    dsimp only
    rw [if_neg hpos, entryOf]
  refine ⟨_, hwrite, ?_, ?_, ?_⟩
  · rw [List.map_append]
    exact h.ring.push hlen (entryOf bytes)
  · rw [List.length_append, ← h.size]
    rfl
  · intro b hb
    rcases List.mem_append.mp hb with hb | hb
    · exact h.nonempty b hb
    · exact List.mem_singleton.mp hb ▸ hbytes

theorem LoopbackQueue.Holds.read_empty (h : q.Holds []) (size : BitVec 32) :
    ifaceLoopbackRead q size = some (-1, [], q) := if_pos h.size

theorem LoopbackQueue.Holds.read_none (h : q.Holds (bytes :: l)) {size : BitVec 32} (hneg : size.toInt < 0) :
    ifaceLoopbackRead q size = none := by
  have hentry : q.entries q.head = entryOf bytes := h.ring.slot_head
  have hsome : q.size ≠ 0 := by
    rw [h.size, List.length_cons]
    omega
  have hnot : ¬ (entryOf bytes).size < size.toInt := by
    dsimp only [entryOf]
    omega
  rw [ifaceLoopbackRead, if_neg hsome, hentry]
  dsimp only
  rw [if_neg hnot, if_pos hneg]

/-- The first packet is read, into a buffer that it fits. -/
theorem LoopbackQueue.Holds.read (h : q.Holds (bytes :: l)) {size : BitVec 32}
    (hsize : (bytes.length : Int) ≤ size.toInt) :
    ∃ q', ifaceLoopbackRead q size = some ((bytes.length : Int), bytes, q') ∧ q'.Holds l := by
  have hentry : q.entries q.head = entryOf bytes := h.ring.slot_head
  have hread : (if (entryOf bytes).size < size.toInt then (entryOf bytes).size else size.toInt) = bytes.length :=
    ite_eq_left_iff.mpr fun hge => Int.le_antisymm (Int.not_lt.mp hge) hsize
  have hneg : ¬ (bytes.length : Int) < 0 := by omega
  have hsome : q.size ≠ 0 := by
    rw [h.size, List.length_cons]
    omega
  have hpop : ifaceLoopbackRead q size = some ((bytes.length : Int), bytes, { q with
      entries := Function.update q.entries q.head ⟨none, 0⟩
      head := (q.head + 1) % 32
      size := q.size - 1 }) := by
    rw [ifaceLoopbackRead, if_neg hsome, hentry]
    dsimp only
    rw [hread, if_neg hneg, entryOf, Option.getD_some, Int.toNat_natCast, List.take_length]
  refine ⟨_, hpop, ⟨h.ring.pop, ?_, fun b hb => h.nonempty b (List.mem_cons_of_mem _ hb)⟩⟩
  · dsimp only
    rw [h.size, List.length_cons, Nat.add_sub_cancel]

end

/-! ## Runs -/

/-- The queue, the packets that were accepted and those that were read. -/
structure LoopRun where
  queue : LoopbackQueue
  accepted : List (List UInt8)
  delivered : List (List UInt8)

inductive LoopOp
  | write (bytes : List UInt8)
  | read (size : BitVec 32)

def loopStart : LoopRun := ⟨loopbackQueue, [], []⟩

def loopStep (s : LoopRun) : LoopOp → Option LoopRun
  | .write bytes => (ifaceLoopbackWrite s.queue (some bytes)).map fun (r, queue) =>
    { s with queue := queue, accepted := if r = 0 then s.accepted ++ [bytes] else s.accepted }
  | .read size => (ifaceLoopbackRead s.queue size).map fun (r, bytes, queue) =>
    { s with queue := queue, delivered := if r < 0 then s.delivered else s.delivered ++ [bytes] }

/-- The packets are not empty, and the buffers large enough for the packet that is read. -/
def LoopOp.Ok (s : LoopRun) : LoopOp → Prop
  | .write bytes => bytes ≠ []
  | .read size => (s.queue.entries s.queue.head).size ≤ size.toNat

instance (s : LoopRun) : (op : LoopOp) → Decidable (op.Ok s)
  | .write bytes => inferInstanceAs (Decidable (bytes ≠ []))
  | .read size => inferInstanceAs (Decidable ((s.queue.entries s.queue.head).size ≤ size.toNat))

/-- The packets that were accepted are those that were read and those that wait. -/
def LoopInv (s : LoopRun) (l : List (List UInt8)) : Prop := s.queue.Holds l ∧ s.accepted = s.delivered ++ l

theorem LoopInv.write {s t : LoopRun} {l : List (List UInt8)} {bytes : List UInt8} (h : LoopInv s l)
    (hbytes : bytes ≠ []) (hst : loopStep s (.write bytes) = some t) : ∃ l', LoopInv t l' := by
  obtain ⟨hholds, hhistory⟩ := h
  by_cases hfull : l.length = 32
  · rw [loopStep, hholds.write_full hfull] at hst
    cases hst
    exact ⟨l, hholds, hhistory⟩
  · by_cases hlt : bytes.length < 2147483648
    · obtain ⟨queue, hwrite, hholds'⟩ := hholds.write hfull hbytes hlt
      rw [loopStep, hwrite] at hst
      cases hst
      refine ⟨l ++ [bytes], hholds', ?_⟩
      dsimp only
      rw [if_pos rfl, hhistory, List.append_assoc]
    · rw [loopStep, hholds.write_none hfull (Nat.not_lt.mp hlt)] at hst
      cases hst

/-- A buffer that is large enough, but too large for an `int`. -/
theorem toInt_neg_of_toNat {size : BitVec 32} {n : Nat} (hle : n ≤ size.toNat) (hlt : size.toInt < n) :
    size.toInt < 0 := by
  rw [BitVec.toInt_eq_toNat_cond] at hlt ⊢
  have := size.isLt
  split at hlt <;> omega

theorem LoopInv.read {s t : LoopRun} {l : List (List UInt8)} {size : BitVec 32} (h : LoopInv s l)
    (hsize : (LoopOp.read size).Ok s) (hst : loopStep s (.read size) = some t) : ∃ l', LoopInv t l' := by
  obtain ⟨hholds, hhistory⟩ := h
  cases l with
  | nil =>
    rw [loopStep, hholds.read_empty] at hst
    cases hst
    exact ⟨[], hholds, hhistory⟩
  | cons bytes l =>
    have hentry : s.queue.entries s.queue.head = entryOf bytes := hholds.ring.slot_head
    rw [LoopOp.Ok, hentry] at hsize
    have hle : bytes.length ≤ size.toNat := Int.ofNat_le.mp hsize
    rcases Int.lt_or_le size.toInt bytes.length with hlt | hfits
    · rw [loopStep, hholds.read_none (toInt_neg_of_toNat hle hlt)] at hst
      cases hst
    · obtain ⟨queue, hread, hholds'⟩ := hholds.read hfits
      rw [loopStep, hread] at hst
      cases hst
      refine ⟨l, hholds', ?_⟩
      dsimp only
      rw [if_neg (Int.not_lt.mpr (Int.natCast_nonneg _)), hhistory, List.append_assoc, List.singleton_append]

/-- **The device is a queue of at most 32 packets.** After any run the packets that were read are the first of those
that were accepted, byte for byte and in the same order, and the others wait. A write is refused, and changes nothing,
exactly when 32 packets wait; a read returns the first one. -/
theorem loopback_fifo (ops : List LoopOp) (s : LoopRun)
    (h : Run (fun s op t => loopStep s op = some t) (fun s op => op.Ok s) loopStart ops s) :
    ∃ queued : List (List UInt8), s.accepted = s.delivered ++ queued ∧
      s.queue.size = queued.length ∧ queued.length ≤ 32 ∧
      (∀ bytes, queued.length = 32 → ∃ r < 0, ifaceLoopbackWrite s.queue (some bytes) = some (r, s.queue)) ∧
      (∀ bytes, queued.length ≠ 32 → bytes ≠ [] → bytes.length < 2147483648 →
        ∃ queue, ifaceLoopbackWrite s.queue (some bytes) = some (0, queue)) ∧
      (∀ size : BitVec 32, queued = [] → ∃ r < 0, ifaceLoopbackRead s.queue size = some (r, [], s.queue)) ∧
      ∀ bytes, queued.head? = some bytes → ∀ size : BitVec 32, (bytes.length : Int) ≤ size.toInt →
        ∃ queue, ifaceLoopbackRead s.queue size = some ((bytes.length : Int), bytes, queue) := by
  have hinv : ∃ l, LoopInv s l := by
    refine h.invariant (P := fun s => ∃ l, LoopInv s l) (fun s op t hs hok hst => ?_) ⟨[], holds_loopbackQueue, rfl⟩
    obtain ⟨l, hs⟩ := hs
    cases op with
    | write bytes => exact hs.write hok hst
    | read size => exact hs.read hok hst
  obtain ⟨l, hholds, hhistory⟩ := hinv
  refine ⟨l, hhistory, hholds.size, hholds.length_le, fun bytes hfull => ?_, fun bytes hroom hbytes hlt => ?_,
    fun size hnil => ?_, fun bytes hhead size hsize => ?_⟩
  · exact ⟨-2, by decide, hholds.write_full hfull bytes⟩
  · obtain ⟨queue, hwrite, -⟩ := hholds.write hroom hbytes hlt
    exact ⟨queue, hwrite⟩
  · subst hnil
    exact ⟨-1, by decide, hholds.read_empty size⟩
  · obtain ⟨rest, rfl⟩ := List.head?_eq_some_iff.mp hhead
    obtain ⟨queue, hread, -⟩ := hholds.read hsize
    exact ⟨queue, hread⟩

/-- Two packets, of which one is read. -/
theorem loopback_two : ∃ s : LoopRun, s.accepted = [[1, 2], [3]] ∧ s.delivered = [[1, 2]] ∧
    ∃ queued : List (List UInt8), s.accepted = s.delivered ++ queued ∧ s.queue.size = queued.length := by
  obtain ⟨queued, h⟩ := loopback_fifo [.write [1, 2], .write [3], .read 2] _
    (.cons (by decide) rfl <| .cons (by decide) rfl <| .cons (by decide) rfl <| .nil _)
  exact ⟨_, rfl, rfl, queued, h.1, h.2.1⟩

end RetrOS.Loopback
