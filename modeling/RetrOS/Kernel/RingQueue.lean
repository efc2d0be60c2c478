import RetrOS.Kernel.RingBuffer
import RetrOS.Lib.Run

/-!
# Ring buffers as byte queues (`kernel/rbuffer.c`, `kernel/ipc.c`)

* `RingOp.run`, `RingOp.onQueue` : a request to the ring, and to a byte queue of the same capacity;
* `Agrees` : both have the same outcome, and leave the same bytes;
* `RingOp.Exact` : the requests for which they agree (`agrees_iff`). A ring that has wrapped around refuses every read,
  takes more bytes than fit, and is taken to be empty when it is full.
-/

namespace RetrOS.RBuffer
open RetrOS.Lib

/-- A request: `sys_ipc_send` or `sys_ipc_receive`. -/
inductive RingOp
  | add (data : List UInt8)
  | read (length : Nat)

namespace RingOp

/-- The lengths are positive. -/
def Positive : RingOp → Prop
  | add data => 0 < data.length
  | read length => 0 < length

instance : (op : RingOp) → Decidable op.Positive
  | add data => inferInstanceAs (Decidable (0 < data.length))
  | read length => inferInstanceAs (Decidable (0 < length))

/-- The request to the ring: the number of bytes and the bytes returned, or nothing if it fails. -/
def run (r : RingBuffer) : RingOp → Option (Int × List UInt8) × RingBuffer
  | add data =>
    (if (ringBufferAdd r data).1 < 0 then none else some ((ringBufferAdd r data).1, []), (ringBufferAdd r data).2)
  | read length =>
    (if (ringBufferRead r length).1 < 0 then none
      else some ((ringBufferRead r length).1, (ringBufferRead r length).2.1), (ringBufferRead r length).2.2)

/-- The request to a byte queue. -/
def onQueue (size : Nat) (q : List UInt8) : RingOp → Option (Int × List UInt8) × List UInt8
  | add data => if data.length ≤ size - q.length then (some (data.length, []), q ++ data) else (none, q)
  | read length => if q = [] then (none, q) else (some ((min length q.length : Nat), q.take length), q.drop length)

/-- The request does not fill a ring up to `start`, nor finds too much room in one that has wrapped around, nor reads
from one. -/
def Exact (r : RingBuffer) : RingOp → Prop
  | add data =>
    if r.start ≤ r.stop then r.start = 0 ∨ data.length ≠ r.size - r.stop + r.start
    else data.length < r.start - r.stop ∨ r.size - r.stop + r.start < data.length
  | read _ => r.start ≤ r.stop

end RingOp

/-- The ring has the outcome that the byte queue has, and its bytes; a request that fails changes nothing. -/
structure Agrees (r : RingBuffer) (op : RingOp) : Prop where
  outcome : (op.run r).1 = (op.onQueue r.size r.contents).1
  contents : (op.run r).2.contents = (op.onQueue r.size r.contents).2
  failed : (op.run r).1 = none → (op.run r).2 = r

/-- The shape of the rings whose requests all agreed. -/
def Shape (r : RingBuffer) : Prop :=
  r.start = 0 ∧ r.stop = 0 ∨ r.start < r.stop ∧ r.stop ≤ r.size ∨ r.stop < r.start ∧ r.start < r.size

section
variable {r : RingBuffer} {data : List UInt8} {length : Nat} {op : RingOp}

theorem Shape.ok (h : Shape r) : r.Ok := by
  rcases h with h | h | h
  · exact ⟨by omega, by omega⟩
  · exact ⟨by omega, by omega⟩
  · exact ⟨by omega, by omega⟩

theorem length_contents (r : RingBuffer) :
    r.contents.length = if r.start ≤ r.stop then r.stop - r.start else r.size - r.start + r.stop := by
  split
  · next hle => simp [contents_of_le hle]
  · next hlt => simp [contents_of_lt (Nat.not_le.mp hlt)]

/-- Equal indices: the ring is taken to be empty. -/
theorem contents_of_eq (h : r.start = r.stop) : r.contents = [] := by
  rw [contents_of_le (Nat.le_of_eq h), h, Nat.sub_self, Slice.read_zero]

theorem exact_add : (RingOp.add data).Exact r ↔
    if r.start ≤ r.stop then r.start = 0 ∨ data.length ≠ r.size - r.stop + r.start
    else data.length < r.start - r.stop ∨ r.size - r.stop + r.start < data.length := Iff.rfl

theorem add_agrees (h : Shape r) (hpos : 0 < data.length) (hexact : (RingOp.add data).Exact r) :
    Agrees r (.add data) := by
  have hok := h.ok
  have hlen := length_contents r
  have hstart := hok.start
  have hstop := hok.stop
  by_cases hfit : r.Fits data.length
  · obtain ⟨hres, -, -, hcontents⟩ := ringBufferAdd_fits hok hfit
    have hroom : data.length ≤ r.size - r.contents.length := by
      unfold RingBuffer.Fits at hfit
      split at hlen <;> omega
    refine ⟨?_, ?_, fun hnone => ?_⟩
    · simp only [RingOp.run, RingOp.onQueue, hres, if_pos hroom]
      exact if_neg (by omega)
    · simp only [RingOp.run, RingOp.onQueue, hcontents, if_pos hroom]
    · simp only [RingOp.run, hres] at hnone
      rw [if_neg (by omega)] at hnone
      exact absurd hnone (Option.some_ne_none _)
  · have hfull : (r.size : Int) - r.stop + r.start < data.length := by
      unfold RingBuffer.Fits at hfit
      rw [exact_add] at hexact
      split at hexact
      · next hle =>
        rw [if_pos hle] at hlen
        omega
      · next hlt =>
        rw [if_neg hlt] at hlen
        omega
    have hroom : ¬ data.length ≤ r.size - r.contents.length := by
      split at hlen <;> omega
    have hadd : ringBufferAdd r data = (-errorRbufferFull, r) := if_pos hfull
    refine ⟨?_, ?_, fun _ => ?_⟩
    · simp only [RingOp.run, RingOp.onQueue, hadd, if_neg hroom]
      exact if_pos (by decide)
    · simp only [RingOp.run, RingOp.onQueue, hadd, if_neg hroom]
    · simp only [RingOp.run, hadd]

theorem add_disagrees (h : Shape r) (hpos : 0 < data.length) (hexact : ¬ (RingOp.add data).Exact r) :
    ¬ Agrees r (.add data) := by
  intro hagrees
  have hok := h.ok
  have hlen := length_contents r
  have hstart := hok.start
  have hstop := hok.stop
  have hroom : ¬ (r.size : Int) - r.stop + r.start < data.length := by
    rw [exact_add] at hexact
    split at hexact <;> omega
  have hres : (ringBufferAdd r data).1 = data.length := by
    rw [ringBufferAdd, if_neg hroom]
    split <;> rfl
  by_cases hmore : data.length ≤ r.size - r.contents.length
  · -- the ring becomes full, and its indices equal
    have hfull : (ringBufferAdd r data).2.start = (ringBufferAdd r data).2.stop := by
      rw [exact_add] at hexact
      rw [ringBufferAdd, if_neg hroom]
      split at hexact
      · next hle =>
        rw [if_pos hle] at hlen
        rw [if_neg (by omega)]
        show r.start = data.length - (r.size - r.stop)
        omega
      · next hlt =>
        rw [if_neg hlt] at hlen
        rw [if_pos (by omega)]
        show r.start = r.stop + data.length
        omega
    have hcontents := hagrees.contents
    simp only [RingOp.run, RingOp.onQueue, if_pos hmore, contents_of_eq hfull] at hcontents
    have hnil := (List.append_eq_nil_iff.mp hcontents.symm).2
    rw [hnil] at hpos
    exact Nat.lt_irrefl 0 hpos
  · have houtcome := hagrees.outcome
    simp only [RingOp.run, RingOp.onQueue, hres, if_neg hmore] at houtcome
    rw [if_neg (by omega)] at houtcome
    exact absurd houtcome (Option.some_ne_none _)

theorem read_agrees (h : Shape r) (hle : r.start ≤ r.stop) : Agrees r (.read length) := by
  obtain ⟨htake, hres, -⟩ := ringBufferRead_take h.ok hle length
  have happ := (ringBufferRead_append h.ok length).1
  rcases hres with ⟨hres, hne⟩ | ⟨hres, hnil⟩
  · refine ⟨?_, ?_, fun hnone => ?_⟩
    · simp only [RingOp.run, RingOp.onQueue, hres, htake, if_neg hne]
      rw [if_neg (by omega), List.length_take]
    · simp only [RingOp.run, RingOp.onQueue, if_neg hne]
      rw [htake] at happ
      exact List.append_cancel_left (happ.symm.trans (List.take_append_drop length r.contents).symm)
    · simp only [RingOp.run, hres] at hnone
      rw [if_neg (by omega)] at hnone
      exact absurd hnone (Option.some_ne_none _)
  · have hlen := length_contents r
    rw [hnil, if_pos hle, List.length_nil] at hlen
    have heq : ringBufferRead r length = (-errorRbufferEmpty, [], r) := by
      rw [ringBufferRead, if_pos (by omega)]
    refine ⟨?_, ?_, fun _ => ?_⟩
    · simp only [RingOp.run, RingOp.onQueue, heq, hnil]
      exact if_pos (by decide)
    · simp only [RingOp.run, RingOp.onQueue, heq, hnil, if_true]
    · simp only [RingOp.run, heq]

theorem read_disagrees (h : Shape r) (hlt : r.stop < r.start) : ¬ Agrees r (.read length) := by
  intro hagrees
  have hlen := length_contents r
  rw [if_neg (by omega)] at hlen
  have hne : r.contents ≠ [] := by
    intro hnil
    rw [hnil, List.length_nil] at hlen
    rcases h with h | h | h <;> omega
  have houtcome := hagrees.outcome
  simp only [RingOp.run, RingOp.onQueue, ringBufferRead_wrapped hlt, if_neg hne] at houtcome
  rw [if_pos (by decide)] at houtcome
  exact absurd houtcome (Option.some_ne_none _).symm

/-- When the ring does what the byte queue does. -/
theorem agrees_iff (h : Shape r) (hpos : op.Positive) : Agrees r op ↔ op.Exact r := by
  cases op with
  | add data =>
    refine ⟨fun hagrees => ?_, add_agrees h hpos⟩
    by_contra hexact
    exact add_disagrees h hpos hexact hagrees
  | read length =>
    refine ⟨fun hagrees => ?_, read_agrees h⟩
    by_contra hle
    exact read_disagrees h (Nat.not_le.mp hle) hagrees

theorem size_run (op : RingOp) (h : Shape r) : (op.run r).2.size = r.size := by
  cases op with
  | add data =>
    simp only [RingOp.run]
    unfold ringBufferAdd
    split
    · rfl
    · split <;> rfl
  | read length => exact (ringBufferRead_append h.ok length).2.2

/-- A ring that is not taken to be empty has different indices. -/
theorem shape_add (h : Shape r) (hne : (ringBufferAdd r data).2.start ≠ (ringBufferAdd r data).2.stop) :
    Shape (ringBufferAdd r data).2 := by
  unfold ringBufferAdd at hne ⊢
  split
  · exact h
  · next hroom =>
    rw [if_neg hroom] at hne
    unfold Shape at h ⊢
    split
    · next hend =>
      rw [if_pos hend] at hne
      dsimp only at hne ⊢
      omega
    · next hend =>
      rw [if_neg hend] at hne
      dsimp only at hne ⊢
      omega

theorem shape_read (h : Shape r) : Shape (ringBufferRead r length).2.2 := by
  unfold ringBufferRead
  split
  · exact h
  · split
    · exact h
    · dsimp only
      unfold Shape at h ⊢
      split
      · exact .inl ⟨rfl, rfl⟩
      · split <;> dsimp only <;> omega

theorem shape_run (h : Shape r) (hpos : op.Positive) (hagrees : Agrees r op) : Shape (op.run r).2 := by
  cases op with
  | add data =>
    by_cases hres : (ringBufferAdd r data).1 < 0
    · show Shape (ringBufferAdd r data).2
      rwa [ringBufferAdd_full hres]
    · refine shape_add h fun heq => ?_
      have houtcome := hagrees.outcome
      have hcontents := hagrees.contents
      simp only [RingOp.run, RingOp.onQueue, if_neg hres] at houtcome hcontents
      split at houtcome
      · next hroom =>
        rw [if_pos hroom, contents_of_eq heq] at hcontents
        have hnil := (List.append_eq_nil_iff.mp hcontents.symm).2
        exact Nat.ne_of_gt hpos (congrArg List.length hnil)
      · exact absurd houtcome (Option.some_ne_none _)
  | read length => exact shape_read h

/-- A request to the ring beside the one to a byte queue. -/
def RingStep (s : RingBuffer × List UInt8) (op : RingOp) (t : RingBuffer × List UInt8) : Prop :=
  op.Positive ∧ t.1 = (op.run s.1).2 ∧ t.2 = (op.onQueue s.1.size s.2).2

/-- A ring whose requests were all exact holds the bytes of the queue, and the next one agrees exactly if it is. -/
theorem ringRun_agrees {size : Nat} {ops : List RingOp} {s : RingBuffer × List UInt8}
    (h : Run RingStep (fun s op => op.Exact s.1) (rbufferNew size, []) ops s) :
    s.1.contents = s.2 ∧ s.1.size = size ∧ ∀ op : RingOp, op.Positive → (Agrees s.1 op ↔ op.Exact s.1) := by
  have hs : s.1.contents = s.2 ∧ s.1.size = size ∧ Shape s.1 := by
    refine h.invariant (P := fun s => s.1.contents = s.2 ∧ s.1.size = size ∧ Shape s.1) ?_
      ⟨contents_rbufferNew size, rfl, .inl ⟨rfl, rfl⟩⟩
    rintro s op t ⟨hcontents, hsize, hshape⟩ hexact ⟨hpos, ht, hq⟩
    have hagrees := (agrees_iff hshape hpos).mpr hexact
    rw [ht, hq, ← hcontents]
    exact ⟨hagrees.contents, (size_run op hshape).trans hsize, shape_run hshape hpos hagrees⟩
  exact ⟨hs.1, hs.2.1, fun op hpos => agrees_iff hs.2.2 hpos⟩

/-- A ring of four bytes with three in it: one more byte can be added, two cannot. -/
theorem ringRun_agrees_three : ∃ s : RingBuffer × List UInt8, s.2 = [1, 2, 3] ∧ s.1.contents = s.2 ∧
    Agrees s.1 (.add [4]) ∧ Agrees s.1 (.add [4, 5]) ∧ Agrees s.1 (.read 2) := by
  have hrun : Run RingStep (fun s op => op.Exact s.1) (rbufferNew 4, []) [.add [1, 2, 3]] (_, _) :=
    .single (.inl rfl) ⟨by decide, rfl, rfl⟩
  obtain ⟨hcontents, -, hnext⟩ := ringRun_agrees hrun
  exact ⟨_, rfl, hcontents, (hnext _ (by decide)).mpr (.inl rfl), (hnext _ (by decide)).mpr (.inl rfl),
    (hnext _ (by decide)).mpr (by decide : 0 ≤ 3)⟩

/-- Two bytes read and then two or three more added: the ring cannot be read, or it is taken to be empty. -/
theorem ring_not_queue : (∃ s : RingBuffer × List UInt8,
      AnyRun RingStep (rbufferNew 4, []) [.add [1, 2, 3], .read 2, .add [4, 5]] s ∧ s.2 = [3, 4, 5] ∧
        ((RingOp.read 1).run s.1).1 = none) ∧
    ∃ s : RingBuffer × List UInt8,
      AnyRun RingStep (rbufferNew 4, []) [.add [1, 2, 3], .read 2, .add [4, 5, 6]] s ∧ s.2 = [3, 4, 5, 6] ∧
        s.1.contents = [] := by
  have hread (data : List UInt8) (hpos : (RingOp.add data).Positive) :
      AnyRun RingStep (rbufferNew 4, []) [.add [1, 2, 3], .read 2, .add data] (_, _) :=
    .cons trivial (t := (_, _)) ⟨by decide, rfl, rfl⟩ (.cons trivial (t := (_, _)) ⟨by decide, rfl, rfl⟩
      (.single trivial ⟨hpos, rfl, rfl⟩))
  exact ⟨⟨_, hread [4, 5] (by decide), by decide, by decide⟩, _, hread [4, 5, 6] (by decide), by decide, by decide⟩

end

end RetrOS.RBuffer
