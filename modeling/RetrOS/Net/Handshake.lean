import RetrOS.Net.Tcp

/-!
# The three-way handshake

`handshake` : the SYN of a connecting socket, the SYN-ACK of a listening one, the ACK, and
`tcp_accept_connection`. Both ends should then agree on their sequence numbers (`InStep`), and the first data
segment of either side be accepted by the other one (`firstAccepted`).

The listener counts from `y` and ends at `y + 1`. `tcp_accept_connection` takes this number from the ACK without
changing its byte order, so the ends agree exactly when `y + 1` reads the same in both orders
(`handshake_inStep`).
-/

namespace RetrOS.Net

/-- The connection that `tcp_accept_connection` makes after `n` others. -/
def acceptAfter : Nat → Sock → Sock → Option (Sock × Sock)
  | 0, sk, new => tcpAcceptConnection sk new
  | n + 1, sk, new => (tcpAcceptConnection sk new).bind fun (sk, _) => acceptAfter n sk new

/-- A connecting socket, a listening socket and a new one: the connected socket and the accepted one, if the
handshake completes. The connections that wait in the backlog are accepted first. -/
def handshake (routeC routeL : Route) (client listener new : Sock) : Option (Sock × Sock) := do
  let tcp ← client.tcp
  let syn ← tcpConnect routeC client tcp
  let o₁ := tcpStateMachine routeL listener syn.skb
  let synAck ← o₁.sent.head?
  let o₂ := tcpStateMachine routeC client synAck.skb
  let ack ← o₂.sent.head?
  let o₃ := tcpStateMachine routeL o₁.sk ack.skb
  let (_, new) ← acceptAfter listener.backlog.queue.length o₃.sk new
  return (o₂.sk, new)

/-- The first data segment of `a` is accepted by `b`. -/
def FirstAccepted (a b : Sock) : Prop := ∀ routeA routeB message sk u p,
  kernelSend routeA a message = some (sk, u, some p) → (tcpStateMachine routeB b p.skb).accepted = some p.skb

/-- Both ends agree on their sequence numbers. -/
structure InStep (client new : Sock) : Prop where
  numbers : ∃ c n, client.tcp = some c ∧ new.tcp = some n ∧ c.sequence = n.acknowledgement ∧
    n.sequence = c.acknowledgement
  toNew : FirstAccepted client new
  toClient : FirstAccepted new client

theorem firstAccepted {a b : Sock} {s t : TcpConnection} (ha : a.tcp = some s) (hb : b.tcp = some t)
    (hstate : t.state = .established) (hseq : s.sequence = t.acknowledgement) : FirstAccepted a b := by
  intro routeA routeB message sk u p hsend
  rw [kernelSend, ha] at hsend
  dsimp only at hsend
  split at hsend
  · simp only [tcpSendSegment, Option.some.injEq, Prod.mk.injEq] at hsend
    obtain ⟨-, -, hp⟩ := hsend
    obtain ⟨hplain, hnumber, -⟩ := transmit_some hp
    have hnext : t.acknowledgement = htonl p.skb.tcp.seq := by
      rw [← hseq]
      exact hnumber.symm
    exact congrArg Outcome.accepted (established_inOrder routeB hb hstate hplain hnext)
  · cases hsend

/-! ## The segments of a handshake -/

section Segments
variable {route : Route} {sk : Sock} {x a saddr : BitVec 32}

theorem tcpConnect_some (tcp : TcpConnection) (hroute : route sk.recvAddr.addr = some saddr) :
    ∃ p, tcpConnect route sk tcp = some p ∧ p.saddr = saddr ∧ p.tcp.syn = true ∧ p.tcp.ack = false ∧
      htonl p.tcp.seq = tcp.sequence := by
  simp only [tcpConnect, tcpSend, hroute, Option.map_some]
  exact ⟨_, rfl, rfl, rfl, rfl, htonl_htonl _⟩

theorem listen_answer (skb : SkBuff) (htcp : sk.tcp = some ⟨.listen, x, a⟩) (hsyn : skb.tcp.syn = true)
    (hack : skb.tcp.ack = false) (hroom : sk.backlog.count < sk.backlog.size) (hroute : route skb.saddr = some saddr) :
    ∃ p, (tcpStateMachine route sk skb).sent = [p] ∧ p.tcp.syn = true ∧ p.tcp.ack = true ∧ htonl p.tcp.seq = x ∧
      htonl p.tcp.ackSeq = htonl skb.tcp.seq + 1 ∧
      (tcpStateMachine route sk skb).sk.tcp = some ⟨.synRcvd, x + 1, htonl skb.tcp.seq + 1⟩ ∧
      (tcpStateMachine route sk skb).sk.backlog = sk.backlog := by
  have hlisten : tcpStateMachine route sk skb = recvListen route sk ⟨.listen, x, a⟩ skb := by
    rw [tcpStateMachine, htcp]
  rw [hlisten, recvListen_syn rfl hsyn hack (by omega) hroute]
  exact ⟨_, rfl, rfl, rfl, htonl_htonl _, htonl_htonl _, rfl, rfl⟩

theorem synSent_answer (skb : SkBuff) (htcp : sk.tcp = some ⟨.synSent, x, a⟩) (hsyn : skb.tcp.syn = true)
    (hack : skb.tcp.ack = true) (hroute : route sk.recvAddr.addr = some saddr) :
    ∃ p, (tcpStateMachine route sk skb).sent = [p] ∧ Plain p.tcp ∧ p.tcp.seq = skb.tcp.ackSeq ∧
      htonl p.tcp.ackSeq = htonl skb.tcp.seq + 1 ∧
      (tcpStateMachine route sk skb).sk.tcp =
        some ⟨.established, htonl skb.tcp.ackSeq, htonl skb.tcp.seq + 1⟩ := by
  have hsent : tcpStateMachine route sk skb = recvSynSent route sk ⟨.synSent, x, a⟩ skb := by
    rw [tcpStateMachine, htcp]
  rw [hsent, recvSynSent, if_pos ⟨hsyn, hack⟩]
  simp only [tcpSendAck, tcpSend, Sock.withTcp, hroute, Option.map_some, Option.toList_some]
  exact ⟨_, rfl, ⟨rfl, rfl, rfl, rfl⟩, htonl_htonl _, htonl_htonl _, rfl⟩

/-- The socket that is accepted with an ACK: its sequence number is in network order. -/
theorem acceptAfter_queue (new : Sock) {skb : SkBuff} (l : List SkBuff) (hqueue : sk.backlog.queue = l ++ [skb]) :
    ∃ sk' new', acceptAfter l.length sk new = some (sk', new') ∧
      new'.tcp = some ⟨.established, skb.tcp.ackSeq, htonl skb.tcp.seq⟩ := by
  induction l generalizing sk with
  | nil =>
    rw [List.length_nil, acceptAfter, tcpAcceptConnection, hqueue]
    exact ⟨_, _, rfl, rfl⟩
  | cons first rest ih =>
    rw [List.length_cons, acceptAfter, tcpAcceptConnection, hqueue]
    exact ih rfl

theorem synRcvd_accept (route : Route) (new : Sock) (skb : SkBuff) (htcp : sk.tcp = some ⟨.synRcvd, x, a⟩)
    (hroom : sk.backlog.count < sk.backlog.size) (hplain : Plain skb.tcp) :
    ∃ sk' new', acceptAfter sk.backlog.queue.length (tcpStateMachine route sk skb).sk new = some (sk', new') ∧
      new'.tcp = some ⟨.established, skb.tcp.ackSeq, htonl skb.tcp.seq⟩ := by
  have hrcvd : tcpStateMachine route sk skb = recvSynRcvd sk ⟨.synRcvd, x, a⟩ skb := by
    rw [tcpStateMachine, htcp]
  rw [hrcvd, recvSynRcvd, if_neg (by simp [hplain.rst]), if_pos (by simp [hplain.syn, hplain.ack]), if_pos hroom]
  exact acceptAfter_queue new _ rfl

end Segments

/-! ## The numbers -/

section Numbers
variable {routeC routeL : Route} {client listener : Sock} (new : Sock) {x a y b saddr saddr' : BitVec 32}

/-- A handshake completes. The connected socket is at `x + 1` and expects `y + 1`; the accepted one expects `x + 1`
and is at the number whose bytes are those of `y + 1`, reversed. -/
theorem handshake_numbers (hclient : client.tcp = some ⟨.synSent, x, a⟩)
    (hlistener : listener.tcp = some ⟨.listen, y, b⟩) (hroom : listener.backlog.count < listener.backlog.size)
    (hrouteC : routeC client.recvAddr.addr = some saddr) (hrouteL : routeL saddr = some saddr') :
    ∃ client' new', handshake routeC routeL client listener new = some (client', new') ∧
      client'.tcp = some ⟨.established, x + 1, y + 1⟩ ∧ new'.tcp = some ⟨.established, htonl (y + 1), x + 1⟩ := by
  obtain ⟨syn, h1, rfl, hsyn, hsynAck, hx⟩ := tcpConnect_some ⟨.synSent, x, a⟩ hrouteC
  obtain ⟨synAck, h2, h3, h4, hy, hx', h5, h6⟩ := listen_answer syn.skb hlistener hsyn hsynAck hroom hrouteL
  obtain ⟨ack, h7, hplain, hseq, hack, h8⟩ := synSent_answer synAck.skb hclient h3 h4 hrouteC
  obtain ⟨sk', new', h9, h10⟩ := synRcvd_accept routeL new ack.skb h5 (by rw [h6]; exact hroom) hplain
  rw [h6] at h9
  have hnumber : htonl synAck.skb.tcp.ackSeq = x + 1 := hx'.trans (congrArg (· + 1) hx)
  have hnumber' : htonl synAck.skb.tcp.seq + 1 = y + 1 := congrArg (· + 1) hy
  refine ⟨(tcpStateMachine routeC client synAck.skb).sk, new', ?_, ?_, ?_⟩
  · simp only [handshake, hclient, h1, h2, h7, h9, List.head?_cons, Option.bind_eq_bind, Option.bind_some]
    rfl
  · rw [h8, hnumber, hnumber']
  · have hseq' : htonl ack.skb.tcp.seq = x + 1 := (congrArg htonl hseq).trans hnumber
    have hack' : ack.skb.tcp.ackSeq = htonl (y + 1) := by
      rw [← hnumber', ← hack, htonl_htonl]
      rfl
    rw [h10, hseq', hack']

/-- **A handshake completes, and leaves both ends in step exactly if the number after the one the listening socket
began with reads the same in both byte orders.** -/
theorem handshake_inStep (hclient : client.tcp = some ⟨.synSent, x, a⟩)
    (hlistener : listener.tcp = some ⟨.listen, y, b⟩) (hroom : listener.backlog.count < listener.backlog.size)
    (hrouteC : routeC client.recvAddr.addr = some saddr) (hrouteL : routeL saddr = some saddr') :
    ∃ client' new', handshake routeC routeL client listener new = some (client', new') ∧
      (InStep client' new' ↔ htonl (y + 1) = y + 1) := by
  obtain ⟨client', new', h1, h2, h3⟩ := handshake_numbers new hclient hlistener hroom hrouteC hrouteL
  refine ⟨client', new', h1, fun h => ?_, fun h => ?_⟩
  · obtain ⟨c, n, hc, hn, -, hnumber⟩ := h.numbers
    rw [h2] at hc
    rw [h3] at hn
    cases hc
    cases hn
    exact hnumber
  · exact ⟨⟨_, _, h2, h3, rfl, h⟩, firstAccepted h2 h3 rfl rfl, firstAccepted h3 h2 rfl h⟩

end Numbers

/-- A socket that connects to port 80 of the host `1`, with the sequence number `x`. -/
def connecting (x : BitVec 32) : Sock :=
  { kernelSocketCreate with boundPort := 7, recvAddr := ⟨80, 1⟩, tcp := some ⟨.synSent, x, 0⟩ }

/-- A socket that listens on port 80, with the sequence number `y`. -/
def listening (y : BitVec 32) : Sock :=
  { kernelSocketCreate with boundPort := 80, backlog := ⟨[], 0, 5⟩, tcp := some ⟨.listen, y, 0⟩ }

theorem handshake_inStep_max : ∃ client new,
    handshake anyRoute anyRoute (connecting 1) (listening 0xffffffff) kernelSocketCreate = some (client, new) ∧
      (InStep client new ↔ htonl (0xffffffff + 1) = 0xffffffff + 1) :=
  handshake_inStep kernelSocketCreate rfl rfl (by decide) rfl rfl

/-- With the sequence numbers that `tcp_new_connection` sets, the first data of the accepted socket is dropped. -/
theorem handshake_outOfStep : ∃ client new,
    handshake anyRoute anyRoute (connecting 1) (listening 1) kernelSocketCreate = some (client, new) ∧
      client.tcp = some ⟨.established, 2, 2⟩ ∧ new.tcp = some ⟨.established, 0x02000000, 2⟩ ∧
      ¬ FirstAccepted new client ∧ ¬ InStep client new := by
  have hrun : ∃ client new,
      handshake anyRoute anyRoute (connecting 1) (listening 1) kernelSocketCreate = some (client, new) ∧
        client.tcp = some ⟨.established, 2, 2⟩ ∧ new.tcp = some ⟨.established, 0x02000000, 2⟩ ∧
        ∃ sk u p, kernelSend anyRoute new [1] = some (sk, u, some p) ∧
          (tcpStateMachine anyRoute client p.skb).accepted = none := ⟨_, _, rfl, rfl, rfl, _, _, _, rfl, rfl⟩
  obtain ⟨client, new, h1, h2, h3, sk, u, p, hsend, hdrop⟩ := hrun
  have hfirst : ¬ FirstAccepted new client := by
    intro h
    have haccepted := h anyRoute anyRoute [1] sk u p hsend
    rw [hdrop] at haccepted
    cases haccepted
  exact ⟨client, new, h1, h2, h3, hfirst, fun h => hfirst h.toClient⟩

end RetrOS.Net
