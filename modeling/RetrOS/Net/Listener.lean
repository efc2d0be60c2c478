import RetrOS.Net.SocketStream
import RetrOS.Net.Tcp

/-!
# A listening socket

`listenStep` : segments arrive for any socket of the table, `tcp_accept_connection` takes connections from the
backlog of one listening socket, and the other sockets of the table change in any way. The run keeps the remotes
whose SYN the listening socket has answered, the segments that entered its backlog, and the accepted sockets.

`HandshakeOk` is what a listening socket promises. It has one `recv_addr` for all its clients and checks no ACK,
so the code keeps the promise as long as handshakes come one at a time and every ACK that arrives in
`TCP_SYN_RCVD` is the one that is expected (`Single`).

* `Serving`, `serving_machine` : what one segment does to the listening socket;
* `handshake_ok` : the result for every run that meets the condition;
* `handshake_forged` : an ACK of another remote enters the backlog.
-/

namespace RetrOS.Net

open RetrOS.Lib

/-- Where a segment comes from. -/
def SkBuff.remote (skb : SkBuff) : SockaddrIn := ⟨skb.tcp.source, skb.saddr⟩

/-- The remote of a SYN, with the sequence number of the SYN-ACK it is answered with. -/
def answers (skb : SkBuff) (o : Outcome) : List (SockaddrIn × BitVec 32) :=
  (o.sent.filter fun p => p.tcp.syn).map fun p => (skb.remote, htonl p.tcp.seq)

/-- The segments that enter the backlog of a socket. -/
def enters (sk : Sock) (o : Outcome) : List SkBuff := o.sk.backlog.queue.drop sk.backlog.queue.length

/-- An ACK that acknowledges a SYN-ACK that was sent to where it comes from. -/
def Expected (answered : List (SockaddrIn × BitVec 32)) (skb : SkBuff) : Prop :=
  skb.tcp.ack = true ∧ ∃ y, (skb.remote, y) ∈ answered ∧ htonl skb.tcp.ackSeq = y + 1

theorem Expected.append {answered l : List (SockaddrIn × BitVec 32)} {skb : SkBuff} (h : Expected answered skb) :
    Expected (answered ++ l) skb := by
  obtain ⟨h1, y, h2, h3⟩ := h
  exact ⟨h1, y, List.mem_append_left _ h2, h3⟩

/-! ## One segment -/

/-- The condition on a segment. A SYN that is answered finds the backlog empty, and its SYN-ACK can be sent; an
ACK that goes to the backlog comes from `recv_addr` and acknowledges the sequence number. -/
structure Single (route : Route) (sk : Sock) (skb : SkBuff) : Prop where
  syn : ∀ tcp, sk.tcp = some tcp → tcp.state = .listen → skb.tcp.syn = true → skb.tcp.ack = false →
    sk.backlog.count ≠ sk.backlog.size → sk.backlog.queue = [] ∧ (route skb.saddr).isSome
  ack : ∀ tcp, sk.tcp = some tcp → tcp.state = .synRcvd → skb.tcp.rst = false → skb.tcp.syn = false →
    skb.tcp.ack = true → sk.backlog.count < sk.backlog.size →
    sk.recvAddr = skb.remote ∧ htonl skb.tcp.ackSeq = tcp.sequence

/-- The invariant of a listening socket: at most one ACK waits in the backlog, and it came from `recv_addr`; in
`TCP_SYN_RCVD` none does, and the SYN of `recv_addr` was answered with the sequence number before the current
one. -/
structure Serving (sk : Sock) (answered : List (SockaddrIn × BitVec 32)) : Prop where
  state : ∃ tcp, sk.tcp = some tcp ∧ (tcp.state = .listen ∨ tcp.state = .closed ∨
    tcp.state = .synRcvd ∧ sk.backlog.queue = [] ∧ ∃ y, (sk.recvAddr, y) ∈ answered ∧ tcp.sequence = y + 1)
  queue : sk.backlog.queue = [] ∨ ∃ skb, sk.backlog.queue = [skb] ∧ sk.recvAddr = skb.remote

section Segment
variable {route : Route} {sk : Sock} {tcp : TcpConnection} {skb : SkBuff}
  {answered : List (SockaddrIn × BitVec 32)}

/-- A socket whose backlog, address and connection stay as they are, or whose connection is closed. -/
theorem Serving.same (h : Serving sk answered) {o : Outcome} (hbacklog : o.sk.backlog = sk.backlog)
    (haddr : o.sk.recvAddr = sk.recvAddr)
    (htcp : o.sk.tcp = sk.tcp ∨ ∃ tcp, o.sk.tcp = some tcp ∧ tcp.state = .closed) (hsent : o.sent = []) :
    Serving o.sk (answered ++ answers skb o) ∧ ∀ q ∈ enters sk o, Expected (answered ++ answers skb o) q := by
  have hanswers : answers skb o = [] := by simp [answers, hsent]
  have henters : enters sk o = [] := by simp [enters, hbacklog]
  rw [hanswers, henters, List.append_nil]
  refine ⟨⟨?_, by rw [hbacklog, haddr]; exact h.queue⟩, by simp⟩
  rcases htcp with htcp | ⟨tcp, htcp, hclosed⟩
  · rw [htcp, hbacklog, haddr]
    exact h.state
  · exact ⟨tcp, htcp, .inr (.inl hclosed)⟩

theorem serving_listen (h : Serving sk answered) (htcp : sk.tcp = some tcp) (hstate : tcp.state = .listen)
    (hok : Single route sk skb) : Serving (recvListen route sk tcp skb).sk
        (answered ++ answers skb (recvListen route sk tcp skb)) ∧
      ∀ q ∈ enters sk (recvListen route sk tcp skb),
        Expected (answered ++ answers skb (recvListen route sk tcp skb)) q := by
  by_cases hsyn : skb.tcp.syn = true ∧ skb.tcp.ack = false
  · by_cases hfull : sk.backlog.count = sk.backlog.size
    · rw [recvListen, if_pos (by simp [hsyn]), if_pos hfull]
      exact h.same rfl rfl (.inl rfl) rfl
    · obtain ⟨hempty, hroute⟩ := hok.syn tcp htcp hstate hsyn.1 hsyn.2 hfull
      obtain ⟨saddr, hroute⟩ := Option.isSome_iff_exists.mp hroute
      -- the SYN-ACK is sent, and the socket is in `TCP_SYN_RCVD` with the next sequence number
      have ho := recvListen_syn hstate hsyn.1 hsyn.2 hfull hroute
      have hanswers : answers skb (recvListen route sk tcp skb) = [(skb.remote, tcp.sequence)] := by
        rw [ho]
        simp [answers]
      rw [hanswers, ho]
      refine ⟨⟨⟨_, rfl, .inr (.inr ⟨rfl, hempty, tcp.sequence, ?_, rfl⟩)⟩, .inl hempty⟩, fun q hq => ?_⟩
      · exact List.mem_append_right _ (List.mem_singleton_self _)
      · simp [enters, hempty] at hq
  · rw [recvListen, if_neg (by simpa using hsyn)]
    split <;> exact h.same rfl rfl (.inl rfl) rfl

theorem serving_synRcvd (h : Serving sk answered) (htcp : sk.tcp = some tcp) (hstate : tcp.state = .synRcvd)
    (hok : Single route sk skb) : Serving (recvSynRcvd sk tcp skb).sk
        (answered ++ answers skb (recvSynRcvd sk tcp skb)) ∧
      ∀ q ∈ enters sk (recvSynRcvd sk tcp skb), Expected (answered ++ answers skb (recvSynRcvd sk tcp skb)) q := by
  obtain ⟨tcp', htcp', hsyn⟩ := h.state
  obtain rfl : tcp' = tcp := Option.some.inj (htcp'.symm.trans htcp)
  rw [hstate] at hsyn
  obtain ⟨-, hempty, y, hy, hseq⟩ := (hsyn.resolve_left (by decide)).resolve_left (by decide)
  rw [recvSynRcvd]
  split
  · exact h.same rfl rfl (.inr ⟨_, rfl, rfl⟩) rfl
  · next hrst =>
    split
    · next hack =>
      split
      · next hroom =>
        obtain ⟨hremote, hnumber⟩ :=
          hok.ack tcp' htcp hstate (by simpa using hrst) (by simpa using hack.1) hack.2 hroom
        have hanswers : ∀ o : Outcome, o.sent = [] → answers skb o = [] := fun o ho => by simp [answers, ho]
        rw [hanswers _ rfl, List.append_nil]
        refine ⟨⟨⟨_, rfl, .inl rfl⟩, .inr ⟨skb, ?_, hremote⟩⟩, fun q hq => ?_⟩
        · simp [hempty]
        · obtain rfl : q = skb := by simpa [enters, Sock.withTcp, hempty] using hq
          exact ⟨hack.2, y, by rw [← hremote]; exact hy, by rw [hnumber, hseq]⟩
      · exact h.same rfl rfl (.inl rfl) rfl
    · exact h.same rfl rfl (.inl rfl) rfl

/-- **One segment** at a listening socket. -/
theorem serving_machine (route : Route) (h : Serving sk answered) (hok : Single route sk skb) :
    Serving (tcpStateMachine route sk skb).sk (answered ++ answers skb (tcpStateMachine route sk skb)) ∧
      ∀ q ∈ enters sk (tcpStateMachine route sk skb),
        Expected (answered ++ answers skb (tcpStateMachine route sk skb)) q := by
  obtain ⟨tcp, htcp, hstate | hstate | ⟨hstate, -⟩⟩ := h.state
  · rw [tcpStateMachine, htcp]
    dsimp only
    rw [hstate]
    exact serving_listen h htcp hstate hok
  · rw [tcpStateMachine, htcp]
    dsimp only
    rw [hstate]
    exact h.same rfl rfl (.inl rfl) rfl
  · rw [tcpStateMachine, htcp]
    dsimp only
    rw [hstate]
    exact serving_synRcvd h htcp hstate hok

/-- The socket that `tcp_accept_connection` sets up has the remote of the ACK it is built from. -/
theorem serving_accept {new sk' new' : Sock} {rest : List SkBuff} (h : Serving sk answered)
    (hqueue : sk.backlog.queue = skb :: rest) (haccept : tcpAcceptConnection sk new = some (sk', new')) :
    Serving sk' answered ∧ new'.recvAddr = skb.remote := by
  obtain ⟨tcp, htcp, hstate⟩ := h.state
  rcases h.queue with hempty | ⟨skb', hone, hremote⟩
  · rw [hempty] at hqueue
    cases hqueue
  · rw [hone] at hqueue
    cases hqueue
    rw [tcpAcceptConnection, hone] at haccept
    cases haccept
    refine ⟨⟨⟨tcp, htcp, ?_⟩, .inl rfl⟩, hremote⟩
    rcases hstate with hlisten | hclosed | ⟨-, hempty, -⟩
    · exact .inl hlisten
    · exact .inr (.inl hclosed)
    · rw [hempty] at hone
      cases hone

end Segment

/-! ## Runs -/

/-- The socket table; the remotes that were answered, the segments that entered the backlog of the listening
socket, and the accepted sockets with the ACKs they were built from. -/
structure Service where
  table : List (Option Sock)
  answered : List (SockaddrIn × BitVec 32)
  entered : List SkBuff
  accepted : List (SkBuff × Sock)

inductive ListenOp
  | deliver (route : Route) (skb : SkBuff)
  | accept (new : Nat)
  | other (i : Nat) (sk : Option Sock)

/-- The socket a segment goes to, with its index. -/
def destination (table : List (Option Sock)) (skb : SkBuff) : Option (Nat × Sock) :=
  (netSockFindTcp table skb.tcp.source skb.tcp.dest (htonl skb.saddr)).bind fun i =>
    (table[i]?).join.map fun sk => (i, sk)

/-- A segment arrives; `i` is the index of the listening socket. -/
def Service.deliver (i : Nat) (s : Service) (route : Route) (skb : SkBuff) : Service :=
  match destination s.table skb with
  | none => s
  | some (j, sk) =>
    let o := tcpStateMachine route sk skb
    let s := { s with table := s.table.set j (some o.sk) }
    if j = i then { s with answered := s.answered ++ answers skb o, entered := s.entered ++ enters sk o } else s

/-- `tcp_accept_connection` of the listening socket, with the socket `j` as the new one. -/
def Service.accept (i : Nat) (s : Service) (j : Nat) : Option Service :=
  match (s.table[i]?).join, (s.table[j]?).join with
  | some sk, some new =>
    match sk.backlog.queue, tcpAcceptConnection sk new with
    | skb :: _, some (sk, new) =>
      some { s with table := (s.table.set i (some sk)).set j (some new), accepted := s.accepted ++ [(skb, new)] }
    | _, _ => none
  | _, _ => none

/-- One step; `i` is the index of the listening socket. -/
def listenStep (i : Nat) (s : Service) : ListenOp → Option Service
  | .deliver route skb => some (s.deliver i route skb)
  | .accept j => if j = i then none else s.accept i j
  | .other j sk => if j = i then none else some { s with table := s.table.set j sk }

/-- What a listening socket promises. -/
structure HandshakeOk (s : Service) : Prop where
  /-- Only ACKs that were asked for enter the backlog. -/
  entered : ∀ skb ∈ s.entered, Expected s.answered skb
  /-- An accepted socket belongs to the remote of its ACK. -/
  accepted : ∀ e ∈ s.accepted, e.2.recvAddr = e.1.remote

/-- The condition on a step. -/
def ListenStepOk (i : Nat) (s : Service) : ListenOp → Prop
  | .deliver route skb => ∀ sk, destination s.table skb = some (i, sk) → Single route sk skb
  | _ => True

/-- The invariant of a run. -/
structure ServiceInv (i : Nat) (s : Service) : Prop where
  serving : ∃ sk, s.table[i]? = some (some sk) ∧ Serving sk s.answered
  promise : HandshakeOk s

theorem ServiceInv.deliver {i : Nat} {s : Service} {route : Route} {skb : SkBuff} (h : ServiceInv i s)
    (hok : ∀ sk, destination s.table skb = some (i, sk) → Single route sk skb) :
    ServiceInv i (s.deliver i route skb) := by
  obtain ⟨sk, htable, hserving⟩ := h.serving
  rw [Service.deliver]
  split
  · exact h
  · next j sk' hdest =>
    dsimp only
    split
    · next hj =>
      subst hj
      have hsk : sk' = sk := by
        rw [destination, Option.bind_eq_some_iff] at hdest
        obtain ⟨j', -, hj'⟩ := hdest
        rw [Option.map_eq_some_iff] at hj'
        obtain ⟨sk'', hsk'', he⟩ := hj'
        cases he
        rw [htable] at hsk''
        exact (Option.some.inj hsk'').symm
      subst hsk
      obtain ⟨h1, h2⟩ := serving_machine route hserving (hok _ hdest)
      have hlt : j < s.table.length := (List.getElem?_eq_some_iff.mp htable).1
      refine ⟨⟨_, by simp [hlt], h1⟩, fun q hq => ?_, h.promise.accepted⟩
      rcases List.mem_append.mp hq with hq | hq
      · exact (h.promise.entered q hq).append
      · exact h2 q hq
    · next hj =>
      exact ⟨⟨sk, by rw [← htable]; simp [hj], hserving⟩, h.promise.entered, h.promise.accepted⟩

theorem ServiceInv.accept {i j : Nat} {s t : Service} (h : ServiceInv i s) (hj : j ≠ i)
    (haccept : s.accept i j = some t) : ServiceInv i t := by
  obtain ⟨sk, htable, hserving⟩ := h.serving
  have hlt : i < s.table.length := (List.getElem?_eq_some_iff.mp htable).1
  rw [Service.accept, htable] at haccept
  split at haccept
  · next sk' new hsk' hnew =>
    obtain rfl : sk = sk' := by simpa using hsk'
    split at haccept
    · next skb rest sk'' new' hqueue hacc =>
      cases haccept
      obtain ⟨h1, h2⟩ := serving_accept hserving hqueue hacc
      refine ⟨⟨sk'', by simp [hlt, hj], h1⟩, h.promise.entered, fun e he => ?_⟩
      rcases List.mem_append.mp he with he | he
      · exact h.promise.accepted e he
      · rw [List.mem_singleton.mp he]
        exact h2
    · cases haccept
  · cases haccept

theorem listenStep_inv {i : Nat} {s t : Service} {op : ListenOp} (h : ServiceInv i s) (hok : ListenStepOk i s op)
    (hstep : listenStep i s op = some t) : ServiceInv i t := by
  cases op with
  | deliver route skb =>
    cases hstep
    exact h.deliver hok
  | accept j =>
    rw [listenStep] at hstep
    split at hstep
    · cases hstep
    · next hj => exact h.accept hj hstep
  | other j sk' =>
    rw [listenStep] at hstep
    split at hstep
    · cases hstep
    · next hj =>
      cases hstep
      obtain ⟨sk, htable, hserving⟩ := h.serving
      exact ⟨⟨sk, by rw [← htable]; simp [hj], hserving⟩, h.promise.entered, h.promise.accepted⟩

/-- **In every run whose segments meet the condition, a listening socket keeps its promises.** -/
theorem handshake_ok {i n : Nat} {sk : Sock} {table : List (Option Sock)} {ops : List ListenOp} {t : Service}
    (htable : table[i]? = some (some (kernelListen sk n)))
    (hrun : Run (fun s op t => listenStep i s op = some t) (ListenStepOk i) ⟨table, [], [], []⟩ ops t) :
    HandshakeOk t := by
  have hinit : ServiceInv i ⟨table, [], [], []⟩ :=
    ⟨⟨_, htable, ⟨⟨_, rfl, .inl rfl⟩, .inl rfl⟩⟩, by simp, by simp⟩
  exact (hrun.invariant (fun _ _ _ h hok hs => listenStep_inv h hok hs) hinit).promise

/-- A socket bound to port 80. -/
def boundSock : Sock := { kernelSocketCreate with boundPort := 80 }

/-- The sockets of a server: one that listens, and one to accept with. -/
def serverTable : List (Option Sock) := [some (kernelListen boundSock 5), some kernelSocketCreate]

/-- A SYN from port `port` of the host `1`. -/
def synFrom (port : BitVec 16) : SkBuff where
  saddr := 1
  tcp := { source := port, dest := 80, seq := htonl 1, ackSeq := 0, syn := true }
  data := []

/-- An ACK from port `port` of the host `1`. -/
def ackFrom (port : BitVec 16) (ackSeq : BitVec 32) : SkBuff where
  saddr := 1
  tcp := { source := port, dest := 80, seq := htonl 2, ackSeq := htonl ackSeq, ack := true }
  data := []

theorem handshake_ok_accept : ∃ t, Run (fun s op t => listenStep 0 s op = some t) (ListenStepOk 0)
    ⟨serverTable, [], [], []⟩ [.deliver anyRoute (synFrom 7), .deliver anyRoute (ackFrom 7 2), .accept 1] t ∧
      HandshakeOk t := by
  have hrun : ∃ t, Run (fun s op t => listenStep 0 s op = some t) (ListenStepOk 0) ⟨serverTable, [], [], []⟩
      [.deliver anyRoute (synFrom 7), .deliver anyRoute (ackFrom 7 2), .accept 1] t := by
    refine ⟨_, .cons ?_ rfl (.cons ?_ rfl (.single trivial rfl))⟩
    · intro sk hsk
      cases hsk
      exact ⟨fun _ _ _ _ _ _ => ⟨rfl, rfl⟩, fun _ _ _ _ _ hack => absurd hack (by decide)⟩
    · intro sk hsk
      cases hsk
      refine ⟨fun _ _ _ hsyn => absurd hsyn (by decide), fun tcp htcp _ _ _ _ _ => ?_⟩
      cases htcp
      exact ⟨rfl, rfl⟩
  obtain ⟨t, hrun⟩ := hrun
  exact ⟨t, hrun, handshake_ok rfl hrun⟩

/-- The SYN of one client is answered, and the ACK of another one enters the backlog; the socket that is accepted
belongs to the first one. -/
theorem handshake_forged : ∃ t, AnyRun (fun s op t => listenStep 0 s op = some t) ⟨serverTable, [], [], []⟩
    [.deliver anyRoute (synFrom 7), .deliver anyRoute (ackFrom 8 5), .accept 1] t ∧
      (∃ skb ∈ t.entered, ¬ Expected t.answered skb) ∧ (∃ e ∈ t.accepted, e.2.recvAddr ≠ e.1.remote) ∧
      ¬ HandshakeOk t := by
  have hexec : ∃ t, exec (listenStep 0) ⟨serverTable, [], [], []⟩
      [.deliver anyRoute (synFrom 7), .deliver anyRoute (ackFrom 8 5), .accept 1] = some t ∧
        t.answered = [(⟨7, 1⟩, 1)] ∧ t.entered = [ackFrom 8 5] ∧
        ∃ new, t.accepted = [(ackFrom 8 5, new)] ∧ new.recvAddr = ⟨7, 1⟩ := ⟨_, rfl, rfl, rfl, _, rfl, rfl⟩
  obtain ⟨t, hrun, h1, h2, new, h3, h4⟩ := hexec
  have hforged : ¬ Expected t.answered (ackFrom 8 5) := by
    rintro ⟨-, y, hy, -⟩
    rw [h1, List.mem_singleton] at hy
    exact absurd (congrArg (fun e => e.1.port) hy) (by decide : (8 : BitVec 16) ≠ 7)
  have hwrong : new.recvAddr ≠ (ackFrom 8 5).remote := by
    rw [h4]
    decide
  refine ⟨t, run_of_exec hrun, ⟨_, by rw [h2]; exact List.mem_singleton_self _, hforged⟩,
    ⟨_, by rw [h3]; exact List.mem_singleton_self _, hwrong⟩, fun hok => hforged (hok.entered _ ?_)⟩
  rw [h2]
  exact List.mem_singleton_self _

end RetrOS.Net
