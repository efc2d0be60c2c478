import RetrOS.Net.Transmit
import RetrOS.Net.Listener

/-!
# A SYN that cannot be answered (`tcp_recv_syn`)

`tcp_recv_syn` changes the state of the listener first, and then needs a buffer, the headers and the transmit queue
for the SYN-ACK. `tcp_state_machine` ignores its result.

* `Below.tcpRecvSyn`, `Below.recvSyn` : `tcp_recv_syn`, and `case TCP_LISTEN` for a SYN, with the three calls apart;
* `Below.recvSyn_refines` : they are `tcpRecvSyn` and `recvListen` over the `Route` of these calls;
* `SynLaw` : a failure leaves the listener as it was, and it is in `synRcvd` only behind a SYN-ACK;
* `synLaw_iff` : this holds exactly when none of the calls fails;
* `wedged` : from then on no SYN is answered.
-/

namespace RetrOS.Net

namespace Below

/-- `tcp_recv_syn`: its result, the socket, and what is below. -/
def tcpRecvSyn (below : Below) (sk : Sock) (tcp : TcpConnection) (hdr : TcpHeader) : Int × Sock × Below :=
  if tcp.state ≠ .listen then (-1, sk, below)
  else
    let tcp := { tcp with state := .synRcvd }
    if ¬ below.buffer then (-errorNullPointer, sk.withTcp tcp, below)
    else
      let synAck := { sk.header tcp.sequence (htonl hdr.seq + 1) with syn := true, ack := true }
      let (ret, below) := below.tcpSend sk synAck []
      if ret < 0 then (-1, sk.withTcp tcp, below)
      else
        let sk := sk.withTcp { tcp with sequence := tcp.sequence + 1, acknowledgement := htonl hdr.seq + 1 }
        (0, { sk with recvAddr := { sk.recvAddr with port := hdr.source } }, below)

end Below

/-- The remote address is stored in the listening socket. -/
def Sock.heard (sk : Sock) (skb : SkBuff) : Sock := { sk with recvAddr := ⟨skb.tcp.source, skb.saddr⟩ }

/-- `case TCP_LISTEN` of `tcp_state_machine` for a SYN: the result of `tcp_recv_syn` if it is called, the socket, and
what is below. -/
def Below.recvSyn (below : Below) (sk : Sock) (tcp : TcpConnection) (skb : SkBuff) : Option Int × Sock × Below :=
  if sk.backlog.count = sk.backlog.size then (none, sk, below)
  else
    let (ret, r) := below.tcpRecvSyn (sk.heard skb) tcp skb.tcp
    (some ret, r)

/-- A segment that asks for a connection. -/
def SkBuff.asks (skb : SkBuff) : Prop := skb.tcp.syn = true ∧ skb.tcp.ack = false ∧ skb.tcp.rst = false

/-- The answer to a SYN. -/
def IsSynAck (skb : SkBuff) (p : Packet) : Prop :=
  p.tcp.syn = true ∧ p.tcp.ack = true ∧ p.daddr = skb.saddr ∧ p.tcp.dest = skb.tcp.source ∧
    htonl p.tcp.ackSeq = htonl skb.tcp.seq + 1

/-- A SYN for the listening socket `sk`. If `tcp_recv_syn` fails, the connection is as before and the next SYN is
answered by any network that can; and the socket is in `synRcvd` only if a SYN-ACK was put into the transmit queue. -/
structure SynLaw (below : Below) (sk : Sock) (tcp : TcpConnection) (skb : SkBuff) : Prop where
  kept : ∀ ret ∈ (below.recvSyn sk tcp skb).1, ret < 0 → (below.recvSyn sk tcp skb).2.1.tcp = some tcp
  answers : ∀ ret ∈ (below.recvSyn sk tcp skb).1, ret < 0 → ∀ (route : Route) (next : SkBuff), next.asks →
    (route next.saddr).isSome → (tcpStateMachine route (below.recvSyn sk tcp skb).2.1 next).sent ≠ []
  queued : (below.recvSyn sk tcp skb).2.1.tcp.map TcpConnection.state = some .synRcvd →
    ∃ queue p, below.txQueue = some queue ∧ (below.recvSyn sk tcp skb).2.2.txQueue = some (queue ++ [p]) ∧
      IsSynAck skb p

section
variable {below : Below} {route : Route} {sk : Sock} {tcp : TcpConnection} {skb : SkBuff} {hdr : TcpHeader}

/-- The SYN-ACK that `tcp_recv_syn` sends. -/
def synAckOf (sk : Sock) (tcp : TcpConnection) (hdr : TcpHeader) (saddr : BitVec 32) : Packet where
  saddr := saddr
  daddr := sk.recvAddr.addr
  tcp :=
    { source := sk.boundPort
      dest := sk.recvAddr.port
      seq := htonl tcp.sequence
      ackSeq := htonl (htonl hdr.seq + 1)
      syn := true
      ack := true }
  payload := []

theorem Below.tcpRecvSyn_sent {saddr : BitVec 32} {queue : List Packet} (hstate : tcp.state = .listen)
    (hbuffer : below.buffer = true) (hheader : below.header sk.recvAddr.addr = some saddr)
    (hqueue : below.txQueue = some queue) : below.tcpRecvSyn sk tcp hdr =
      (0, { sk.withTcp ⟨.synRcvd, tcp.sequence + 1, htonl hdr.seq + 1⟩ with
        recvAddr := { sk.recvAddr with port := hdr.source } },
        { below with txQueue := some (queue ++ [synAckOf sk tcp hdr saddr]) }) := by
  unfold tcpRecvSyn
  rw [if_neg (not_not.mpr hstate), if_neg (not_not.mpr hbuffer)]
  dsimp only
  rw [tcpSend_queued hheader hqueue]
  rfl

theorem Below.tcpRecvSyn_failed (sk : Sock) (hdr : TcpHeader) (hstate : tcp.state = .listen)
    (h : ¬ below.Sends sk.recvAddr.addr) :
    ∃ ret, ret < 0 ∧ below.tcpRecvSyn sk tcp hdr = (ret, sk.withTcp { tcp with state := .synRcvd }, below) := by
  unfold tcpRecvSyn
  rw [if_neg (not_not.mpr hstate)]
  by_cases hbuffer : below.buffer = true
  · have hlost : below.header sk.recvAddr.addr = none ∨ below.txQueue = none := by
      by_contra hnot
      obtain ⟨hheader, hqueue⟩ := not_or.mp hnot
      exact h ⟨hbuffer, Option.isSome_iff_ne_none.mpr hheader, Option.isSome_iff_ne_none.mpr hqueue⟩
    rw [if_neg (not_not.mpr hbuffer)]
    dsimp only
    rw [tcpSend_lost hlost]
    exact ⟨-1, by decide, rfl⟩
  · rw [if_pos hbuffer]
    exact ⟨-errorNullPointer, by decide, rfl⟩

/-- **The three calls apart and as one**: the same socket, the same sign of the result, and what is sent is queued. -/
theorem Below.tcpRecvSyn_refines (below : Below) (sk : Sock) (hdr : TcpHeader) (hstate : tcp.state = .listen) :
    (below.tcpRecvSyn sk tcp hdr).2.1 = (Net.tcpRecvSyn below.toRoute sk tcp hdr).2.1 ∧
      ((below.tcpRecvSyn sk tcp hdr).1 < 0 ↔ (Net.tcpRecvSyn below.toRoute sk tcp hdr).1 < 0) ∧
      (below.tcpRecvSyn sk tcp hdr).2.2.txQueue =
        below.txQueue.map fun queue => queue ++ (Net.tcpRecvSyn below.toRoute sk tcp hdr).2.2.toList := by
  unfold Net.tcpRecvSyn Net.tcpSend
  rw [if_neg (not_not.mpr hstate)]
  dsimp only [Sock.header]
  by_cases hsends : below.Sends sk.recvAddr.addr
  · obtain ⟨hbuffer, hheader, hqueue⟩ := hsends
    obtain ⟨saddr, hheader⟩ := Option.isSome_iff_exists.mp hheader
    obtain ⟨queue, hqueue⟩ := Option.isSome_iff_exists.mp hqueue
    have hroute : below.toRoute sk.recvAddr.addr = some saddr := by
      rw [toRoute, if_pos ⟨hbuffer, by rw [hqueue]; rfl⟩, hheader]
    rw [tcpRecvSyn_sent hstate hbuffer hheader hqueue, hroute, hqueue]
    exact ⟨rfl, Iff.rfl, rfl⟩
  · have hroute : below.toRoute sk.recvAddr.addr = none := by
      rw [sends_iff] at hsends
      simpa using hsends
    obtain ⟨ret, hret, hfailed⟩ := tcpRecvSyn_failed sk hdr hstate hsends
    rw [hfailed, hroute]
    have hneg : (-1 : Int) < 0 := by decide
    exact ⟨rfl, iff_of_true hret hneg, by simp⟩

theorem Below.recvSyn_room (below : Below) (tcp : TcpConnection) (skb : SkBuff)
    (hroom : sk.backlog.count ≠ sk.backlog.size) : below.recvSyn sk tcp skb =
    (some (below.tcpRecvSyn (sk.heard skb) tcp skb.tcp).1, (below.tcpRecvSyn (sk.heard skb) tcp skb.tcp).2) := by
  rw [recvSyn, if_neg hroom]

/-- The state machine does with a SYN what it does over the `Route` of the three calls. -/
theorem Below.recvSyn_refines (hstate : tcp.state = .listen) (hsyn : skb.tcp.syn = true) (hack : skb.tcp.ack = false) :
    (below.recvSyn sk tcp skb).2.1 = (recvListen below.toRoute sk tcp skb).sk ∧
      (below.recvSyn sk tcp skb).2.2.txQueue =
        below.txQueue.map fun queue => queue ++ (recvListen below.toRoute sk tcp skb).sent := by
  rw [recvListen, if_pos (by simp [hsyn, hack])]
  by_cases hfull : sk.backlog.count = sk.backlog.size
  · rw [recvSyn, if_pos hfull, if_pos hfull]
    exact ⟨rfl, by simp⟩
  · rw [recvSyn_room below tcp skb hfull, if_neg hfull]
    obtain ⟨h1, -, h3⟩ := tcpRecvSyn_refines below (sk.heard skb) skb.tcp hstate
    exact ⟨h1, h3⟩

/-- **From a SYN-ACK that was not sent on, no SYN is answered**, whatever the network is. -/
theorem wedged (htcp : sk.tcp = some tcp) (hstate : tcp.state = .synRcvd) (hskb : skb.asks) :
    tcpStateMachine route sk skb = drop sk := by
  rw [tcpStateMachine, htcp]
  dsimp only
  rw [hstate]
  simp [recvSynRcvd, hskb.1, hskb.2.2]

/-- **The law holds exactly when the backlog is full, so that the SYN is dropped, or the SYN-ACK can be sent**: there
is a buffer, an interface and an ARP entry for the address of the SYN, and the transmit queue exists. -/
theorem synLaw_iff (below : Below) (sk : Sock) (tcp : TcpConnection) (skb : SkBuff) (htcp : sk.tcp = some tcp)
    (hstate : tcp.state = .listen) :
    SynLaw below sk tcp skb ↔ sk.backlog.count = sk.backlog.size ∨ below.Sends skb.saddr := by
  constructor
  · intro h
    by_contra hnot
    obtain ⟨hroom, hsends⟩ := not_or.mp hnot
    obtain ⟨ret, hret, hfailed⟩ := Below.tcpRecvSyn_failed (sk.heard skb) skb.tcp hstate hsends
    have hkept := h.kept
    rw [below.recvSyn_room tcp skb hroom, hfailed] at hkept
    have hsame := congrArg TcpConnection.state (Option.some.inj (hkept ret rfl hret))
    rw [hstate] at hsame
    cases hsame
  · intro h
    by_cases hfull : sk.backlog.count = sk.backlog.size
    · have hsyn : below.recvSyn sk tcp skb = (none, sk, below) := by rw [Below.recvSyn, if_pos hfull]
      refine ⟨?_, ?_, ?_⟩
      all_goals rw [hsyn]
      · intro ret hret
        cases hret
      · intro ret hret
        cases hret
      · simp [htcp, hstate]
    · obtain ⟨hbuffer, hheader, hqueue⟩ := h.resolve_left hfull
      obtain ⟨saddr, hheader⟩ := Option.isSome_iff_exists.mp hheader
      obtain ⟨queue, hqueue⟩ := Option.isSome_iff_exists.mp hqueue
      have hsyn := below.recvSyn_room tcp skb hfull
      rw [Below.tcpRecvSyn_sent hstate hbuffer hheader hqueue] at hsyn
      refine ⟨?_, ?_, ?_⟩
      all_goals rw [hsyn]
      · intro ret hret hneg
        cases hret
        exact absurd hneg (lt_irrefl 0)
      · intro ret hret hneg
        cases hret
        exact absurd hneg (lt_irrefl 0)
      · intro _
        exact ⟨queue, _, hqueue, rfl, rfl, rfl, rfl, rfl, htonl_htonl _⟩

end

/-- ARP does not know the sender of the SYN. -/
def noArp : Below := ⟨true, fun _ => none, some []⟩

/-- The SYN-ACK cannot be sent, and the listener is in `synRcvd`. -/
theorem synLaw_noArp : ¬ SynLaw noArp (kernelListen boundSock 5) ⟨.listen, 1, 0⟩ (synFrom 7) := by
  intro h
  have hkept := h.kept (-1) rfl (by decide)
  exact absurd (congrArg TcpConnection.state (Option.some.inj hkept)) (by decide)

/-- The SYN-ACK is sent. -/
theorem synLaw_iff_sent : SynLaw ⟨true, anyRoute, some []⟩ (kernelListen boundSock 5) ⟨.listen, 1, 0⟩ (synFrom 7) :=
  (synLaw_iff ⟨true, anyRoute, some []⟩ (kernelListen boundSock 5) ⟨.listen, 1, 0⟩ (synFrom 7) rfl rfl).mpr
    (.inr ⟨rfl, rfl, rfl⟩)

end RetrOS.Net
