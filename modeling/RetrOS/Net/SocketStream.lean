import RetrOS.Net.Socket
import RetrOS.Lib.Run

/-!
# The byte stream through a socket

`streamStep` interleaves `net_sock_add_data` and `net_sock_read` on one socket. `StreamOk` is what a stream
promises: the bytes returned by the reads are a prefix of the payloads in the order they were taken, and every
read returns as many bytes as it copied. The code keeps this as long as

* no segment goes into the ring buffer past segments that wait in the queue,
* every segment that is moved into the ring buffer fits (`MovesFit`), and
* no read finds the ring buffer wrapped around.

`Stored` : a socket whose counters match its ring buffer (`netSockAddData_stored`, `netSockRead_stored`);
`stream_ok` is the result for every run that meets the condition.
-/

namespace RetrOS.Net

open RetrOS.Lib RetrOS.RBuffer

/-- The payloads of a list of segments. -/
def bytes (l : List SkBuff) : List UInt8 := l.flatMap SkBuff.data

/-- The bytes a socket holds: those in the ring buffer and those in the queue. -/
def Sock.held (sk : Sock) : List UInt8 := sk.recvBuffer.contents ++ bytes sk.skbQueue

/-- Of the segments `l`, those that are moved into the ring buffer of `sk` behind `n` others fit: after each the
next one follows unless there is data to be read. -/
def MovesFit (sk : Sock) (n : Nat) : List SkBuff → Prop
  | [] => True
  | skb :: rest =>
    sk.recvBuffer.Fits (n + skb.data.length) ∧
      (sk.tcp ≠ none → skb.tcp.psh = false → sk.recvd + (n + skb.data.length) < netMaxBufferSize →
        MovesFit sk (n + skb.data.length) rest)

/-- The counters of the socket match its ring buffer. -/
structure Stored (sk : Sock) : Prop where
  ring : sk.recvBuffer.Ok
  recvd : sk.recvd = sk.recvBuffer.contents.length

@[simp] theorem bytes_nil : bytes [] = [] := rfl

@[simp] theorem bytes_cons (skb : SkBuff) (l : List SkBuff) : bytes (skb :: l) = skb.data ++ bytes l := rfl

@[simp] theorem bytes_append (l l' : List SkBuff) : bytes (l ++ l') = bytes l ++ bytes l' :=
  List.flatMap_append

section Add
variable {sk sk' : Sock} {skb : SkBuff} {n m : Nat}

theorem not_ready_iff : ¬ netSockDataReady sk n ↔ sk.dataReady ≠ 1 ∧ sk.recvd < n ∧ sk.dataReady ≠ -1 := by
  unfold netSockDataReady
  omega

/-- What fits behind bytes that were just added is what fits together with them. -/
theorem fits_add {r : RingBuffer} {data : List UInt8} (hr : r.Ok) (h : r.Fits data.length) (n : Nat) :
    (ringBufferAdd r data).2.Fits n ↔ r.Fits (data.length + n) := by
  obtain ⟨-, -, hsize, hcontents⟩ := ringBufferAdd_fits hr h
  have h1 := hr.start
  have h2 := hr.stop
  unfold RingBuffer.Fits
  rw [hcontents, hsize, List.length_append, Nat.add_assoc]
  refine or_congr_left' fun hnot => ?_
  rcases Nat.lt_or_ge r.stop r.start with hw | hw
  · have hlen : r.contents.length = r.size - r.start + r.stop := by simp [contents_of_lt hw]
    have hfit : r.stop + data.length < r.start := by
      rcases h with h | h <;> omega
    rw [ringBufferAdd, if_neg (by omega), if_pos (by omega)]
    dsimp only
    omega
  · have hlen : r.contents.length = r.stop - r.start := by simp [contents_of_le hw]
    by_cases hend : r.stop + data.length ≤ r.size
    · rw [ringBufferAdd, if_neg (by omega), if_pos hend]
      dsimp only
      omega
    · have hfit : data.length - (r.size - r.stop) < r.start := by
        rcases h with h | h <;> omega
      rw [ringBufferAdd, if_neg (by omega), if_neg hend]
      dsimp only
      omega

theorem netSockAddDataSegment_fits (hs : Stored sk) (h : sk.recvBuffer.Fits skb.data.length) :
    (netSockAddDataSegment sk skb).1 = 0 ∧ (netSockAddDataSegment sk skb).2 = { sk with
      recvBuffer := (ringBufferAdd sk.recvBuffer skb.data).2
      recvd := sk.recvd + skb.data.length
      dataReady := if sk.tcp = none then 1 else if skb.tcp.psh then 1 else 0
      waiting := none
      rx := sk.rx + skb.data.length } ∧ Stored (netSockAddDataSegment sk skb).2 := by
  obtain ⟨h1, h2, -, h4⟩ := ringBufferAdd_fits hs.ring h
  unfold netSockAddDataSegment
  dsimp only
  rw [h1, if_neg (by omega)]
  refine ⟨rfl, rfl, h2, ?_⟩
  dsimp only
  rw [h4, hs.recvd, List.length_append]

theorem movesFit_add (hs : Stored sk) (h : sk.recvBuffer.Fits skb.data.length) :
    ∀ (l : List SkBuff) (n : Nat), MovesFit (netSockAddDataSegment sk skb).2 n l ↔
      MovesFit sk (skb.data.length + n) l
  | [], _ => Iff.rfl
  | skb' :: rest, n => by
    obtain ⟨-, heq, -⟩ := netSockAddDataSegment_fits hs h
    have ih := movesFit_add hs h rest (n + skb'.data.length)
    simp only [MovesFit]
    rw [ih, heq]
    dsimp only
    rw [fits_add hs.ring h, Nat.add_assoc, Nat.add_assoc]

theorem movesFit_congr (hbuffer : sk'.recvBuffer = sk.recvBuffer) (hrecvd : sk'.recvd = sk.recvd)
    (htcp : sk'.tcp = none ↔ sk.tcp = none) : ∀ (l : List SkBuff) (n : Nat), MovesFit sk' n l ↔ MovesFit sk n l
  | [], _ => Iff.rfl
  | skb :: rest, n => by
    simp only [MovesFit, ne_eq, htcp]
    rw [movesFit_congr hbuffer hrecvd htcp rest, hbuffer, hrecvd]

/-- After the first of the segments is stored, the others fit, or there is data to be read. -/
theorem movesFit_next {rest : List SkBuff} (hs : Stored sk) (h : MovesFit sk 0 (skb :: rest)) :
    netSockDataReady (netSockAddDataSegment sk skb).2 netMaxBufferSize ∨
      MovesFit (netSockAddDataSegment sk skb).2 0 rest := by
  obtain ⟨hone, hrest⟩ := h
  rw [Nat.zero_add] at hone hrest
  obtain ⟨-, heq, -⟩ := netSockAddDataSegment_fits hs hone
  rw [or_iff_not_imp_left, not_ready_iff, movesFit_add hs hone, Nat.add_zero, heq]
  dsimp only
  rintro ⟨h1, h2, -⟩
  have htcp : sk.tcp ≠ none := fun hn => h1 (if_pos hn)
  rw [if_neg htcp] at h1
  refine hrest htcp ?_ h2
  cases hp : skb.tcp.psh with
  | false => rfl
  | true => exact absurd (if_pos hp) h1

/-- Draining the queue moves bytes from the queue to the ring buffer, and keeps them in order. -/
theorem drainQueue_stored : ∀ {l : List SkBuff} {sk : Sock}, Stored sk →
    (netSockDataReady sk netMaxBufferSize ∨ MovesFit sk 0 l) →
      Stored (drainQueue l sk) ∧ (drainQueue l sk).held = sk.recvBuffer.contents ++ bytes l
  | [], sk, hs, _ => ⟨⟨hs.ring, hs.recvd⟩, by simp [drainQueue, Sock.held]⟩
  | skb :: rest, sk, hs, hfit => by
    rw [drainQueue]
    split
    · exact ⟨⟨hs.ring, hs.recvd⟩, by simp [Sock.held]⟩
    · next hready =>
      have hfit : MovesFit { sk with skbQueue := rest } 0 (skb :: rest) := by
        refine (movesFit_congr ?_ ?_ ?_ _ _).mpr (hfit.resolve_left hready) <;> rfl
      have hs' : Stored { sk with skbQueue := rest } := ⟨hs.ring, hs.recvd⟩
      have hone : sk.recvBuffer.Fits skb.data.length := by simpa using hfit.1
      obtain ⟨-, heq, hst⟩ := netSockAddDataSegment_fits hs' hone
      obtain ⟨-, -, -, hcontents⟩ := ringBufferAdd_fits hs.ring hone
      obtain ⟨h1, h2⟩ := drainQueue_stored hst (movesFit_next hs' hfit)
      refine ⟨h1, ?_⟩
      rw [h2, heq]
      dsimp only
      rw [hcontents, bytes_cons, List.append_assoc]

/-- **A segment that fits is kept**: in the queue behind all others, or in the ring buffer in front of the
queue. -/
theorem netSockAddData_stored (hs : Stored sk)
    (hfit : netSockDataReady sk netMaxBufferSize ∨ MovesFit sk 0 (skb :: sk.skbQueue)) :
    Stored (netSockAddData sk skb).2 ∧ (netSockAddData sk skb).2.held =
      if netSockDataReady sk netMaxBufferSize then sk.held ++ skb.data
      else sk.recvBuffer.contents ++ (skb.data ++ bytes sk.skbQueue) := by
  unfold netSockAddData
  split
  · exact ⟨⟨hs.ring, hs.recvd⟩, by simp [Sock.held]⟩
  · next hready =>
    have hfit := hfit.resolve_left hready
    have hone : sk.recvBuffer.Fits skb.data.length := by simpa using hfit.1
    obtain ⟨-, heq, hst⟩ := netSockAddDataSegment_fits hs hone
    obtain ⟨-, -, -, hcontents⟩ := ringBufferAdd_fits hs.ring hone
    have hqueue : (netSockAddDataSegment sk skb).2.skbQueue = sk.skbQueue := by rw [heq]
    dsimp only
    rw [hqueue]
    obtain ⟨h1, h2⟩ := drainQueue_stored hst (movesFit_next hs hfit)
    refine ⟨h1, ?_⟩
    rw [h2, heq]
    dsimp only
    rw [hcontents, List.append_assoc]

/-- **A read takes bytes from the front of what is held**; its result is their number if the ring buffer has
not wrapped around. -/
theorem netSockRead_stored {length : Nat} {ret : Int} {data : List UInt8} (hs : Stored sk)
    (h : netSockRead sk length = some (ret, data, sk')) : Stored sk' ∧ sk.held = data ++ sk'.held ∧
      (sk.dataReady ≠ -1 → sk'.dataReady ≠ -1 ∧
        (sk.recvBuffer.start ≤ sk.recvBuffer.stop ∨ length = 0 → ret = data.length)) := by
  unfold netSockRead at h
  split at h
  · cases h
  · split at h
    · next hclosed =>
      cases h
      exact ⟨hs, rfl, fun hopen => absurd hclosed hopen⟩
    · have hmin : min length sk.recvd ≤ sk.recvBuffer.contents.length := by
        rw [← hs.recvd]
        exact Nat.min_le_right _ _
      rcases Nat.lt_or_ge sk.recvBuffer.stop sk.recvBuffer.start with hw | hw
      · dsimp only at h
        rw [ringBufferRead_wrapped hw] at h
        dsimp only at h
        rw [if_pos (by simp only [errorOutOfMemory]; omega)] at h
        cases h
        exact ⟨⟨hs.ring, hs.recvd⟩, rfl, fun hopen => ⟨hopen, fun hc => by
          simp [hc.resolve_left (by omega)]⟩⟩
      · obtain ⟨htake, hret, -⟩ := ringBufferRead_take hs.ring hw (min length sk.recvd)
        obtain ⟨happ, hok, -⟩ := ringBufferRead_append hs.ring (min length sk.recvd)
        have hlen : (ringBufferRead sk.recvBuffer (min length sk.recvd)).2.1.length = min length sk.recvd := by
          rw [htake, List.length_take, Nat.min_eq_left hmin]
        have htotal := (congrArg List.length happ).trans List.length_append
        rw [hlen, ← hs.recvd] at htotal
        have hleft : sk.recvd - min length sk.recvd =
            (ringBufferRead sk.recvBuffer (min length sk.recvd)).2.2.contents.length := by omega
        dsimp only at h
        split at h
        · next hne =>
          have hnil : sk.recvBuffer.contents = [] := by
            rcases hret with ⟨h1, -⟩ | ⟨-, h1⟩
            · exact absurd (by rw [h1, hlen]) hne
            · exact h1
          have hzero : sk.recvd = 0 := by rw [hs.recvd, hnil, List.length_nil]
          cases h
          refine ⟨⟨hok, ?_⟩, ?_, fun hopen => ⟨hopen, fun _ => by rw [hlen]⟩⟩
          · rw [hzero, Nat.min_zero] at hleft
            rw [hzero, Nat.min_zero]
            exact hleft
          · rw [Sock.held, happ, List.append_assoc]
            rfl
        · cases h
          refine ⟨⟨hok, ?_⟩, ?_, fun hopen => ⟨?_, fun _ => by rw [hlen]⟩⟩
          · exact hleft
          · rw [Sock.held, happ, List.append_assoc]
            rfl
          · dsimp only
            split
            · decide
            · exact hopen

end Add

/-! ## Runs -/

/-- A socket, the payloads it was given, and the results of the reads with the bytes they copied. -/
structure StreamRun where
  sk : Sock
  taken : List UInt8
  reads : List (Int × List UInt8)

inductive StreamOp
  | add (skb : SkBuff)
  | read (length : Nat)

/-- One call. A read that blocks makes no step. -/
def streamStep (s : StreamRun) : StreamOp → Option StreamRun
  | .add skb => some { s with sk := (netSockAddData s.sk skb).2, taken := s.taken ++ skb.data }
  | .read length =>
    (netSockRead s.sk length).map fun (ret, data, sk) => { s with sk := sk, reads := s.reads ++ [(ret, data)] }

/-- What a stream promises. -/
structure StreamOk (s : StreamRun) : Prop where
  /-- The bytes returned are a prefix of the bytes taken. -/
  order : s.reads.flatMap Prod.snd <+: s.taken
  /-- Every read returns the number of bytes it copied. -/
  count : ∀ r ∈ s.reads, r.1 = r.2.length

/-- The condition on a call: a segment that goes into the ring buffer does not pass any queued bytes, and what
is moved into the ring buffer fits; a read does not find the ring buffer wrapped around. -/
def StreamStepOk (s : StreamRun) : StreamOp → Prop
  | .add skb => netSockDataReady s.sk netMaxBufferSize ∨
      (bytes s.sk.skbQueue = [] ∨ skb.data = []) ∧ MovesFit s.sk 0 (skb :: s.sk.skbQueue)
  | .read length => s.sk.recvBuffer.start ≤ s.sk.recvBuffer.stop ∨ length = 0

/-- A socket nothing was received on. -/
structure Fresh (sk : Sock) : Prop where
  buffer : sk.recvBuffer = rbufferNew netMaxBufferSize
  queue : sk.skbQueue = []
  recvd : sk.recvd = 0
  dataReady : sk.dataReady = 0

theorem Fresh.stored {sk : Sock} (h : Fresh sk) : Stored sk :=
  ⟨by rw [h.buffer]; exact ok_rbufferNew _, by rw [h.recvd, h.buffer]; rfl⟩

/-- The invariant of a stream: what was taken was returned, or is held. -/
structure StreamInv (s : StreamRun) : Prop where
  stored : Stored s.sk
  taken : s.taken = s.reads.flatMap Prod.snd ++ s.sk.held
  count : ∀ r ∈ s.reads, r.1 = r.2.length
  isOpen : s.sk.dataReady ≠ -1

theorem netSockAddDataSegment_isOpen {sk : Sock} {skb : SkBuff} (h : sk.dataReady ≠ -1) :
    (netSockAddDataSegment sk skb).2.dataReady ≠ -1 := by
  unfold netSockAddDataSegment
  dsimp only
  split
  · exact h
  · dsimp only
    split
    · decide
    · split <;> decide

theorem drainQueue_isOpen : ∀ {l : List SkBuff} {sk : Sock}, sk.dataReady ≠ -1 → (drainQueue l sk).dataReady ≠ -1
  | [], _, h => h
  | skb :: rest, sk, h => by
    rw [drainQueue]
    split
    · exact h
    · exact drainQueue_isOpen (netSockAddDataSegment_isOpen h)

theorem netSockAddData_isOpen {sk : Sock} {skb : SkBuff} (h : sk.dataReady ≠ -1) :
    (netSockAddData sk skb).2.dataReady ≠ -1 := by
  unfold netSockAddData
  split
  · exact h
  · exact drainQueue_isOpen (netSockAddDataSegment_isOpen h)

theorem streamStep_inv {s t : StreamRun} {op : StreamOp} (hs : StreamInv s) (hok : StreamStepOk s op)
    (h : streamStep s op = some t) : StreamInv t := by
  cases op with
  | add skb =>
    cases h
    have hfit : netSockDataReady s.sk netMaxBufferSize ∨ MovesFit s.sk 0 (skb :: s.sk.skbQueue) :=
      hok.imp_right And.right
    obtain ⟨h1, h2⟩ := netSockAddData_stored hs.stored hfit
    refine ⟨h1, ?_, hs.count, netSockAddData_isOpen hs.isOpen⟩
    dsimp only
    rw [hs.taken, h2, List.append_assoc]
    congr 1
    split
    · rfl
    · next hready =>
      rw [Sock.held, List.append_assoc]
      congr 1
      rcases (hok.resolve_left hready).1 with he | he
      · rw [he, List.append_nil, List.nil_append]
      · rw [he, List.append_nil, List.nil_append]
  | read length =>
    rw [streamStep, Option.map_eq_some_iff] at h
    obtain ⟨⟨ret, data, sk'⟩, hr, he⟩ := h
    cases he
    obtain ⟨h1, h2, h3⟩ := netSockRead_stored hs.stored hr
    obtain ⟨h4, h5⟩ := h3 hs.isOpen
    refine ⟨h1, ?_, fun r hr => ?_, h4⟩
    · dsimp only
      rw [hs.taken, h2, List.flatMap_append, List.append_assoc]
      simp
    · rcases List.mem_append.mp hr with hr | hr
      · exact hs.count r hr
      · rw [List.mem_singleton.mp hr]
        exact h5 hok

/-- **In every run of adds and reads whose calls meet the condition, the stream keeps its promises.** -/
theorem stream_ok {sk : Sock} {ops : List StreamOp} {t : StreamRun} (hfresh : Fresh sk)
    (hrun : Run (fun s op t => streamStep s op = some t) StreamStepOk ⟨sk, [], []⟩ ops t) : StreamOk t := by
  have hinit : StreamInv ⟨sk, [], []⟩ := by
    refine ⟨hfresh.stored, ?_, by simp, by rw [hfresh.dataReady]; decide⟩
    simp [Sock.held, hfresh.buffer, hfresh.queue]
  have ht := hrun.invariant (fun _ _ _ hs hok h => streamStep_inv hs hok h) hinit
  exact ⟨by rw [ht.taken]; exact List.prefix_append _ _, ht.count⟩

/-- A segment of one byte. -/
def oneByte (b : UInt8) : SkBuff :=
  { saddr := 0, tcp := { source := 0, dest := 0, seq := 0, ackSeq := 0, ack := true, psh := true }, data := [b] }

/-- A socket that has just connected. -/
def establishedSock : Sock := { kernelSocketCreate with tcp := some ⟨.established, 2, 2⟩ }

theorem fresh_establishedSock : Fresh establishedSock := ⟨rfl, rfl, rfl, rfl⟩

theorem stream_ok_two : ∃ t,
    Run (fun s op t => streamStep s op = some t) StreamStepOk ⟨establishedSock, [], []⟩
      [.add (oneByte 1), .add (oneByte 2), .read 4] t ∧ StreamOk t := by
  have hfit : MovesFit establishedSock 0 [oneByte 1] := ⟨.inl (by decide), fun _ _ _ => trivial⟩
  have hrun : ∃ t, Run (fun s op t => streamStep s op = some t) StreamStepOk ⟨establishedSock, [], []⟩
      [.add (oneByte 1), .add (oneByte 2), .read 4] t :=
    ⟨_, .cons (.inr ⟨.inl rfl, hfit⟩) rfl (.cons (.inl (.inl rfl)) rfl (.single (.inl (by decide)) rfl))⟩
  obtain ⟨t, hrun⟩ := hrun
  exact ⟨t, hrun, stream_ok fresh_establishedSock hrun⟩

/-- Without the condition the order is lost: a segment that arrives while another one is queued and there is
nothing to be read goes first. -/
theorem stream_reordered : ∃ t,
    AnyRun (fun s op t => streamStep s op = some t) ⟨establishedSock, [], []⟩
      [.add (oneByte 1), .add (oneByte 2), .read 1, .add (oneByte 3), .read 1] t ∧ ¬ StreamOk t := by
  have hexec : ∃ t, exec streamStep ⟨establishedSock, [], []⟩
      [.add (oneByte 1), .add (oneByte 2), .read 1, .add (oneByte 3), .read 1] = some t ∧
        t.taken = [1, 2, 3] ∧ t.reads = [(1, [1]), (1, [3])] := ⟨_, rfl, rfl, rfl⟩
  obtain ⟨t, hrun, h1, h2⟩ := hexec
  refine ⟨t, run_of_exec hrun, fun hok => ?_⟩
  have := hok.order
  rw [h1, h2] at this
  exact absurd this (by decide)

end RetrOS.Net
