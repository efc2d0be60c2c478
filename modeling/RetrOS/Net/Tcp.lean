import RetrOS.Net.Socket

/-!
# TCP (`net/tcp.c`)

* `tcpSend` : `__tcp_send`; `tcpConnect`, `tcpSendAck`, `tcpRecvSyn`, `tcpSendFin` : the segments the stack
  sends by itself; `tcpSendSegment` : a data segment, which its sender keeps to send it again (`Unacked`);
* `tcpStateMachine` : the `switch` of `tcp_state_machine`, one function for each state;
* `netSockFindTcp` : the socket a segment goes to; `tcpAcceptConnection` : the end of a passive open.

The interface, the route and the link below are a parameter: `route a = some s` means that a segment to `a` is
sent, from the address `s`. `skb_new` returns a buffer. The window, the checksum and the urgent pointer of a
header are never read.
-/

namespace RetrOS.Net

/-- `net_ipv4_add_header` and `net_send_skb`: the source address of a segment to an address, if it is sent. -/
abbrev Route := BitVec 32 → Option (BitVec 32)

/-- A network that sends everything, from the address `1`. -/
def anyRoute : Route := fun _ => some 1

/-- `__tcp_send`: `hdr` in host order, with the `TCP_HTONS` of its sequence numbers. -/
def tcpSend (route : Route) (sk : Sock) (hdr : TcpHeader) (data : List UInt8) : Option Packet :=
  (route sk.recvAddr.addr).map fun saddr =>
    { saddr := saddr
      daddr := sk.recvAddr.addr
      tcp := { hdr with seq := htonl hdr.seq, ackSeq := htonl hdr.ackSeq }
      payload := data }

/-- A header of `sk` to its remote, with no flags. -/
def Sock.header (sk : Sock) (seq ackSeq : BitVec 32) : TcpHeader :=
  { source := sk.boundPort, dest := sk.recvAddr.port, seq := seq, ackSeq := ackSeq }

/-- Set the connection of a socket. -/
def Sock.withTcp (sk : Sock) (tcp : TcpConnection) : Sock := { sk with tcp := some tcp }

/-- Set the state of the connection of a socket. -/
def Sock.withState (sk : Sock) (state : TcpState) : Sock :=
  { sk with tcp := sk.tcp.map fun tcp => { tcp with state := state } }

/-! ## Sending -/

def tcpNewConnection (sk : Sock) : Sock := sk.withTcp { state := .created, sequence := 1, acknowledgement := 0 }

def tcpConnect (route : Route) (sk : Sock) (tcp : TcpConnection) : Option Packet :=
  tcpSend route sk { sk.header tcp.sequence 0 with syn := true } []

def tcpSendAck (route : Route) (sk : Sock) (tcp : TcpConnection) (hdr : TcpHeader) (len : Nat) :
    Sock × Option Packet :=
  let reply : TcpHeader :=
    { source := hdr.dest
      dest := hdr.source
      seq := htonl hdr.ackSeq
      ackSeq := htonl hdr.seq + BitVec.ofNat 32 len
      ack := true }
  (sk.withTcp { tcp with sequence := htonl hdr.ackSeq, acknowledgement := htonl hdr.seq + BitVec.ofNat 32 len },
    tcpSend route sk reply [])

def tcpRecvAck (sk : Sock) (tcp : TcpConnection) (hdr : TcpHeader) : Sock :=
  if tcp.sequence = htonl hdr.ackSeq then
    sk.withTcp { tcp with acknowledgement := htonl hdr.seq, state := .established }
  else sk

/-- `tcp_recv_syn`; the result is negative if the SYN-ACK is not sent. -/
def tcpRecvSyn (route : Route) (sk : Sock) (tcp : TcpConnection) (hdr : TcpHeader) : Int × Sock × Option Packet :=
  if tcp.state ≠ .listen then (-1, sk, none)
  else
    let tcp := { tcp with state := .synRcvd }
    match tcpSend route sk { sk.header tcp.sequence (htonl hdr.seq + 1) with syn := true, ack := true } [] with
    | none => (-1, sk.withTcp tcp, none)
    | some p =>
      let sk := sk.withTcp { tcp with sequence := tcp.sequence + 1, acknowledgement := htonl hdr.seq + 1 }
      (0, { sk with recvAddr := { sk.recvAddr with port := hdr.source } }, some p)

def tcpSendFin (route : Route) (sk : Sock) (tcp : TcpConnection) : Sock × Option Packet :=
  (sk.withTcp { tcp with sequence := tcp.sequence + 1 },
    tcpSend route sk { sk.header tcp.sequence tcp.acknowledgement with ack := true, fin := true } [])

/-- `tcp_close_connection`, up to its wait. -/
def tcpCloseConnection (route : Route) (sk : Sock) (tcp : TcpConnection) : Sock × Option Packet :=
  tcpSendFin route sk { tcp with state := .closeWait }

/-- A data segment that `tcp_send_segment` waits for the acknowledgement of. -/
structure Unacked where
  seq : BitVec 32
  ack : BitVec 32
  data : List UInt8
  push : Bool
  retries : Nat

/-- One round of the loop of `tcp_send_segment`. -/
def transmit (route : Route) (sk : Sock) (u : Unacked) : Option Packet :=
  tcpSend route sk { sk.header u.seq u.ack with psh := u.push, ack := true } u.data

/-- `tcp_send_segment` up to the first wait. -/
def tcpSendSegment (route : Route) (sk : Sock) (tcp : TcpConnection) (data : List UInt8) (push : Bool) :
    Sock × Unacked × Option Packet :=
  let u : Unacked := { seq := tcp.sequence, ack := tcp.acknowledgement, data := data, push := push, retries := 0 }
  let sk := sk.withTcp { tcp with sequence := tcp.sequence + BitVec.ofNat 32 data.length }
  (sk, u, transmit route sk u)

/-- The timer of `tcp_send_segment` runs out: what it waits for then, and the segment it sends again. -/
def retransmit (route : Route) (sk : Sock) (u : Unacked) : Option Unacked × Option Packet :=
  if (sk.tcp.map TcpConnection.state = some .waitAck) ∧ u.retries < 3 then
    (some { u with retries := u.retries + 1 }, transmit route sk u)
  else (none, none)

/-- `kernel_send`, once the socket is established. -/
def kernelSend (route : Route) (sk : Sock) (message : List UInt8) : Option (Sock × Unacked × Option Packet) :=
  match sk.tcp with
  | none => none
  | some tcp =>
    if message.length ≤ 1400 ∧ tcp.state = .established then
      some (tcpSendSegment route sk { tcp with state := .waitAck } message true)
    else none

/-! ## Receiving -/

/-- What `tcp_state_machine` does with a segment: the socket, the segments it sends, the `len` of its
`tcp_send_ack`, the segment it passes to `net_sock_add_data`, the one it puts on the retry queue, and its result. -/
structure Outcome where
  sk : Sock
  sent : List Packet := []
  acked : Nat := 0
  accepted : Option SkBuff := none
  retry : Option SkBuff := none
  ret : Int := 0

/-- The segment is dropped. -/
def drop (sk : Sock) : Outcome := { sk := sk, ret := -1 }

/-- A reset closes the connection and wakes the reader. -/
def recvRst (sk : Sock) (tcp : TcpConnection) : Outcome :=
  { sk := { sk.withTcp { tcp with state := .closed } with dataReady := -1, waiting := none } }

/-- `case TCP_LISTEN`. -/
def recvListen (route : Route) (sk : Sock) (tcp : TcpConnection) (skb : SkBuff) : Outcome :=
  if skb.tcp.syn ∧ ¬ skb.tcp.ack then
    if sk.backlog.count = sk.backlog.size then drop sk
    else
      let sk := { sk with recvAddr := ⟨skb.tcp.source, skb.saddr⟩ }
      let (_, sk, p) := tcpRecvSyn route sk tcp skb.tcp
      { sk := sk, sent := p.toList }
  else if skb.tcp.ack ∧ skb.tcp.psh ∧ skb.retries < 3 then
    { sk := sk, retry := some { skb with retries := skb.retries + 1 } }
  else drop sk

/-- `case TCP_SYN_RCVD`. -/
def recvSynRcvd (sk : Sock) (tcp : TcpConnection) (skb : SkBuff) : Outcome :=
  if skb.tcp.rst then recvRst sk tcp
  else if ¬ skb.tcp.syn ∧ skb.tcp.ack then
    if sk.backlog.count < sk.backlog.size then
      let backlog := { sk.backlog with queue := sk.backlog.queue ++ [skb], count := sk.backlog.count + 1 }
      { sk := { sk.withTcp { tcp with state := .listen } with backlog := backlog, waiting := none } }
    else drop sk
  else drop sk

/-- `case TCP_SYN_SENT`. -/
def recvSynSent (route : Route) (sk : Sock) (tcp : TcpConnection) (skb : SkBuff) : Outcome :=
  if skb.tcp.syn ∧ skb.tcp.ack then
    let (sk, p) := tcpSendAck route sk { tcp with state := .established } skb.tcp 1
    { sk := sk, sent := p.toList, acked := 1 }
  else drop sk

/-- `case TCP_WAIT_ACK`. -/
def recvWaitAck (sk : Sock) (tcp : TcpConnection) (skb : SkBuff) : Outcome :=
  if skb.tcp.rst then recvRst sk tcp
  else if ¬ skb.tcp.syn ∧ skb.tcp.ack then
    if htonl skb.tcp.ackSeq < tcp.sequence then { sk := sk }
    else { sk := tcpRecvAck sk tcp skb.tcp }
  else drop sk

/-- `case TCP_ESTABLISHED`. -/
def recvEstablished (route : Route) (sk : Sock) (tcp : TcpConnection) (skb : SkBuff) : Outcome :=
  if skb.tcp.rst then recvRst sk tcp
  else if ¬ skb.tcp.syn ∧ skb.tcp.ack ∧ ¬ skb.tcp.fin then
    if tcp.acknowledgement ≠ htonl skb.tcp.seq then drop sk
    else
      let (sk, p) := tcpSendAck route sk tcp skb.tcp skb.data.length
      { sk := (netSockAddData sk skb).2, sent := p.toList, acked := skb.data.length, accepted := some skb }
  else if skb.tcp.fin ∧ skb.tcp.ack then
    let (sk, p) := tcpSendAck route sk tcp skb.tcp 1
    let tcp : TcpConnection :=
      { state := .closeWait2, sequence := htonl skb.tcp.ackSeq, acknowledgement := htonl skb.tcp.seq + 1 }
    let (sk, q) := tcpSendFin route sk tcp
    { sk := sk, sent := p.toList ++ q.toList, acked := 1 }
  else drop sk

/-- `case TCP_FIN_WAIT`. -/
def recvFinWait (route : Route) (sk : Sock) (tcp : TcpConnection) (skb : SkBuff) : Outcome :=
  if skb.tcp.fin ∧ skb.tcp.ack then
    let (sk, p) := tcpSendAck route sk { tcp with state := .closed } skb.tcp 1
    { sk := sk, sent := p.toList, acked := 1, ret := -1 }
  else drop sk

/-- `case TCP_CLOSE_WAIT`. -/
def recvCloseWait (sk : Sock) (tcp : TcpConnection) (skb : SkBuff) : Outcome :=
  if ¬ skb.tcp.fin ∧ skb.tcp.ack then drop (sk.withTcp { tcp with state := .finWait }) else drop sk

/-- `case TCP_CLOSE_WAIT2`. -/
def recvCloseWait2 (sk : Sock) (tcp : TcpConnection) (skb : SkBuff) : Outcome :=
  if ¬ skb.tcp.fin ∧ skb.tcp.ack then
    let sk := sk.withTcp { tcp with state := .closed }
    drop (if sk.waiting = none then sk else { sk with waiting := none, dataReady := -1 })
  else drop sk

/-- The `switch` of `tcp_state_machine`. -/
def tcpStateMachine (route : Route) (sk : Sock) (skb : SkBuff) : Outcome :=
  match sk.tcp with
  | none => drop sk
  | some tcp =>
    match tcp.state with
    | .listen => recvListen route sk tcp skb
    | .synRcvd => recvSynRcvd sk tcp skb
    | .synSent => recvSynSent route sk tcp skb
    | .waitAck => recvWaitAck sk tcp skb
    | .established => recvEstablished route sk tcp skb
    | .finWait => recvFinWait route sk tcp skb
    | .closeWait => recvCloseWait sk tcp skb
    | .closeWait2 => recvCloseWait2 sk tcp skb
    | _ => drop sk

/-- The two ends of a connection. -/
inductive Side
  | a | b
  deriving DecidableEq

/-- The other end. -/
def Side.peer : Side → Side
  | .a => .b
  | .b => .a

/-! ## Which socket -/

/-- The listening socket a segment to `dport` may go to. -/
def Sock.listens (sk : Sock) (dport : BitVec 16) : Bool :=
  match sk.tcp with
  | none => false
  | some tcp => sk.boundPort = dport ∧ (tcp.state = .listen ∨ tcp.state = .synRcvd)

/-- The socket of the connection a segment belongs to. -/
def Sock.connected (sk : Sock) (sport dport : BitVec 16) (ip : BitVec 32) : Bool :=
  match sk.tcp with
  | none => false
  | some tcp => sk.boundPort = dport ∧ sk.recvAddr.port = sport ∧ tcp.state ≠ .listen ∧ tcp.state ≠ .synRcvd ∧
      tcp.state ≠ .prepare ∧ ntohl sk.recvAddr.addr = ip

/-- The loop of `net_sock_find_tcp` over the rest of the table; `listener` is the last listening socket seen. -/
def findTcp (sport dport : BitVec 16) (ip : BitVec 32) : List (Option Sock) → Nat → Option Nat → Option Nat
  | [], _, listener => listener
  | none :: rest, i, listener => findTcp sport dport ip rest (i + 1) listener
  | some sk :: rest, i, listener =>
    let listener := if sk.listens dport then some i else listener
    if sk.connected sport dport ip then some i else findTcp sport dport ip rest (i + 1) listener

/-- `net_sock_find_tcp`: an index of the socket table. -/
def netSockFindTcp (table : List (Option Sock)) (sport dport : BitVec 16) (ip : BitVec 32) : Option Nat :=
  findTcp sport dport ip table 0 none

/-! ## Accepting -/

def netPrepareTcpSock (sk : Sock) (port : BitVec 16) (addr : SockaddrIn) : Sock :=
  (tcpNewConnection { sk with boundPort := port, recvAddr := addr }).withState .prepare

/-- `tcp_accept_connection` from its wait for the backlog on: the listening socket and the new one. The state of
the listening socket is only checked before the wait. -/
def tcpAcceptConnection (sk new : Sock) : Option (Sock × Sock) :=
  match sk.backlog.queue with
  | [] => none
  | skb :: rest =>
    let new := (netPrepareTcpSock new sk.boundPort sk.recvAddr).withTcp
      { state := .established, sequence := skb.tcp.ackSeq, acknowledgement := htonl skb.tcp.seq }
    let backlog := { sk.backlog with queue := rest, count := sk.backlog.count - 1 }
    some ({ sk with backlog := backlog, recvAddr := ⟨0, 0⟩ }, new)

def tcpSetListening (sk : Sock) (backlog : Nat) : Sock := { sk with backlog := ⟨[], 0, backlog⟩ }.withState .listen

def kernelListen (sk : Sock) (backlog : Nat) : Sock := tcpSetListening (tcpNewConnection sk) backlog

/-! ## What a segment can do -/

/-- A segment that only acknowledges, or carries data: no SYN, FIN or RST. -/
structure Plain (hdr : TcpHeader) : Prop where
  ack : hdr.ack = true
  syn : hdr.syn = false
  fin : hdr.fin = false
  rst : hdr.rst = false

theorem tcpSend_some {route : Route} {sk : Sock} {hdr : TcpHeader} {data : List UInt8} {p : Packet}
    (h : tcpSend route sk hdr data = some p) : p.tcp = { hdr with seq := htonl hdr.seq, ackSeq := htonl hdr.ackSeq } ∧
      p.payload = data ∧ p.daddr = sk.recvAddr.addr := by
  rw [tcpSend, Option.map_eq_some_iff] at h
  obtain ⟨saddr, -, rfl⟩ := h
  exact ⟨rfl, rfl, rfl⟩

theorem tcpSendAck_some {route : Route} {sk : Sock} {tcp : TcpConnection} {hdr : TcpHeader} {len : Nat} {p : Packet}
    (h : (tcpSendAck route sk tcp hdr len).2 = some p) : Plain p.tcp ∧ p.payload = [] ∧ p.tcp.seq = hdr.ackSeq ∧
      p.tcp.ackSeq = htonl (htonl hdr.seq + BitVec.ofNat 32 len) := by
  obtain ⟨h1, h2, -⟩ := tcpSend_some h
  rw [h1]
  exact ⟨⟨rfl, rfl, rfl, rfl⟩, h2, htonl_htonl _, rfl⟩

theorem transmit_some {route : Route} {sk : Sock} {u : Unacked} {p : Packet} (h : transmit route sk u = some p) :
    Plain p.tcp ∧ htonl p.tcp.seq = u.seq ∧ p.payload = u.data := by
  obtain ⟨h1, h2, -⟩ := tcpSend_some h
  rw [h1]
  exact ⟨⟨rfl, rfl, rfl, rfl⟩, htonl_htonl _, h2⟩

theorem retransmit_same (route : Route) (sk : Sock) (u : Unacked) :
    (∀ u' ∈ (retransmit route sk u).1, u'.seq = u.seq ∧ u'.data = u.data) ∧
      ∀ p ∈ (retransmit route sk u).2, transmit route sk u = some p := by
  unfold retransmit
  split
  · refine ⟨fun u' hu' => ?_, fun p hp => hp⟩
    cases hu'
    exact ⟨rfl, rfl⟩
  · exact ⟨fun _ hu' => (by cases hu'), fun _ hp => (by cases hp)⟩

section States
variable (route : Route) (sk : Sock) (tcp : TcpConnection) (skb : SkBuff)

@[simp] theorem drop_accepted : (drop sk).accepted = none := rfl

@[simp] theorem drop_sent : (drop sk).sent = [] := rfl

@[simp] theorem recvListen_accepted : (recvListen route sk tcp skb).accepted = none := by
  unfold recvListen
  repeat' split
  all_goals rfl

@[simp] theorem recvSynRcvd_accepted : (recvSynRcvd sk tcp skb).accepted = none := by
  unfold recvSynRcvd
  repeat' split
  all_goals rfl

@[simp] theorem recvSynRcvd_sent : (recvSynRcvd sk tcp skb).sent = [] := by
  unfold recvSynRcvd
  repeat' split
  all_goals rfl

@[simp] theorem recvSynSent_accepted : (recvSynSent route sk tcp skb).accepted = none := by
  unfold recvSynSent
  split <;> rfl

@[simp] theorem recvWaitAck_accepted : (recvWaitAck sk tcp skb).accepted = none := by
  unfold recvWaitAck
  repeat' split
  all_goals rfl

@[simp] theorem recvWaitAck_sent : (recvWaitAck sk tcp skb).sent = [] := by
  unfold recvWaitAck
  repeat' split
  all_goals rfl

@[simp] theorem recvFinWait_accepted : (recvFinWait route sk tcp skb).accepted = none := by
  unfold recvFinWait
  split <;> rfl

@[simp] theorem recvCloseWait_accepted : (recvCloseWait sk tcp skb).accepted = none := by
  unfold recvCloseWait
  split <;> rfl

@[simp] theorem recvCloseWait_sent : (recvCloseWait sk tcp skb).sent = [] := by
  unfold recvCloseWait
  split <;> rfl

@[simp] theorem recvCloseWait2_accepted : (recvCloseWait2 sk tcp skb).accepted = none := by
  unfold recvCloseWait2
  split <;> rfl

@[simp] theorem recvCloseWait2_sent : (recvCloseWait2 sk tcp skb).sent = [] := by
  unfold recvCloseWait2
  split <;> rfl

end States

section Plain
variable {route : Route} {sk : Sock} {tcp : TcpConnection} {skb : SkBuff}

/-- What a segment without SYN and FIN makes a socket send, it sends for a segment it accepts. -/
theorem sent_accepted (route : Route) (sk : Sock) (hsyn : skb.tcp.syn = false) (hfin : skb.tcp.fin = false) :
    (tcpStateMachine route sk skb).sent = [] ∨ (tcpStateMachine route sk skb).accepted = some skb := by
  unfold tcpStateMachine
  split
  · exact .inl rfl
  · split
    · rw [recvListen, if_neg (by simp [hsyn])]
      split <;> exact .inl rfl
    · exact .inl (recvSynRcvd_sent _ _ _)
    · rw [recvSynSent, if_neg (by simp [hsyn])]
      exact .inl rfl
    · exact .inl (recvWaitAck_sent _ _ _)
    · unfold recvEstablished
      split
      · exact .inl rfl
      · split
        · split
          · exact .inl rfl
          · exact .inr rfl
        · rw [if_neg (by simp [hfin])]
          exact .inl rfl
    · rw [recvFinWait, if_neg (by simp [hfin])]
      exact .inl rfl
    · exact .inl (recvCloseWait_sent _ _ _)
    · exact .inl (recvCloseWait2_sent _ _ _)
    · exact .inl rfl

/-- Only an established socket accepts, and only a plain segment that is in order. -/
theorem accepted_established {skb' : SkBuff} (h : (tcpStateMachine route sk skb).accepted = some skb') :
    skb' = skb ∧ Plain skb.tcp ∧ ∃ tcp, sk.tcp = some tcp ∧ tcp.state = .established ∧
      tcp.acknowledgement = htonl skb.tcp.seq := by
  unfold tcpStateMachine at h
  split at h
  · cases h
  · next tcp htcp =>
    split at h
    case h_5 hstate =>
      unfold recvEstablished at h
      split at h
      · cases h
      · next hrst =>
        split at h
        · next hplain =>
          split at h
          · cases h
          · next hseq =>
            cases h
            refine ⟨rfl, ⟨hplain.2.1, ?_, ?_, ?_⟩, tcp, htcp, hstate, not_not.mp hseq⟩ <;> simp_all
        · split at h <;> cases h
    all_goals simp at h

end Plain

section Listen
variable {route : Route} {sk : Sock} {tcp : TcpConnection} {skb : SkBuff} {saddr : BitVec 32}

/-- A SYN is answered with a SYN-ACK, if there is room in the backlog and the SYN-ACK can be sent. -/
theorem recvListen_syn (hstate : tcp.state = .listen) (hsyn : skb.tcp.syn = true) (hack : skb.tcp.ack = false)
    (hroom : sk.backlog.count ≠ sk.backlog.size) (hroute : route skb.saddr = some saddr) :
    recvListen route sk tcp skb = {
      sk := { sk with
        recvAddr := ⟨skb.tcp.source, skb.saddr⟩
        tcp := some ⟨.synRcvd, tcp.sequence + 1, htonl skb.tcp.seq + 1⟩ }
      sent := [{
        saddr := saddr
        daddr := skb.saddr
        tcp := {
          source := sk.boundPort
          dest := skb.tcp.source
          seq := htonl tcp.sequence
          ackSeq := htonl (htonl skb.tcp.seq + 1)
          syn := true
          ack := true }
        payload := [] }] } := by
  rw [recvListen, if_pos (by simp [hsyn, hack]), if_neg hroom]
  simp only [tcpRecvSyn, hstate, ne_eq, not_true_eq_false, if_false, tcpSend, hroute, Option.map_some]
  rfl

end Listen

section Established
variable (route : Route) {sk : Sock} {tcp : TcpConnection} {skb : SkBuff}

theorem established_outOfOrder (htcp : sk.tcp = some tcp) (hstate : tcp.state = .established) (hp : Plain skb.tcp)
    (hseq : tcp.acknowledgement ≠ htonl skb.tcp.seq) : tcpStateMachine route sk skb = drop sk := by
  rw [tcpStateMachine, htcp]
  dsimp only
  rw [hstate]
  simp [recvEstablished, hp.ack, hp.syn, hp.fin, hp.rst, hseq]

theorem established_inOrder (htcp : sk.tcp = some tcp) (hstate : tcp.state = .established) (hp : Plain skb.tcp)
    (hseq : tcp.acknowledgement = htonl skb.tcp.seq) : tcpStateMachine route sk skb =
      { sk := (netSockAddData (tcpSendAck route sk tcp skb.tcp skb.data.length).1 skb).2
        sent := (tcpSendAck route sk tcp skb.tcp skb.data.length).2.toList
        acked := skb.data.length
        accepted := some skb } := by
  rw [tcpStateMachine, htcp]
  dsimp only
  rw [hstate]
  simp [recvEstablished, hp.ack, hp.syn, hp.fin, hp.rst, hseq]

theorem inOrder_connection (htcp : sk.tcp = some tcp) (hstate : tcp.state = .established) (hp : Plain skb.tcp)
    (hseq : tcp.acknowledgement = htonl skb.tcp.seq) :
    (tcpStateMachine route sk skb).accepted = some skb ∧
      (tcpStateMachine route sk skb).sent = (tcpSendAck route sk tcp skb.tcp skb.data.length).2.toList ∧
      (tcpStateMachine route sk skb).sk.tcp = some { tcp with
        sequence := htonl skb.tcp.ackSeq
        acknowledgement := htonl skb.tcp.seq + BitVec.ofNat 32 skb.data.length } := by
  rw [established_inOrder route htcp hstate hp hseq]
  refine ⟨rfl, rfl, ?_⟩
  dsimp only
  rw [Sock.tcp_of_connection (netSockAddData_connection _ _)]
  rfl

end Established

end RetrOS.Net
