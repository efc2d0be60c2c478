import RetrOS.Net.Link

/-!
# The FIN of the peer

`inboundStep` : one socket and its peer. The peer is any sender that numbers the bytes of its stream from `S` on
and sends nothing new after its FIN; it repeats segments, and its FIN may carry the last bytes. The channel
delivers any segment that was ever sent, at any time. The socket itself reads, sends and closes.

`FinOk` is what a FIN may do to an established socket: end the stream when all of it was accepted, and nothing
when it is out of order. The code checks the order of data segments only.

* `machine_open` : what a segment does to an open connection;
* `inboundStep_inv` : in an orderly run the socket has accepted the stream up to its acknowledgement;
* `finOk_iff` : **after an orderly run, a FIN does what it may exactly when it is in order and carries no data**;
* `finOk_overtaken` : a FIN that overtakes a data segment.
-/

namespace RetrOS.Net

open RetrOS.Lib

/-- The states in which a socket still receives. -/
def TcpState.Open (q : TcpState) : Prop := q = .established ∨ q = .waitAck

/-- The states of a connection that was established once. -/
def TcpState.Live (q : TcpState) : Prop :=
  q.Open ∨ q = .closeWait ∨ q = .finWait ∨ q = .closeWait2 ∨ q = .closed

/-- The place of a segment in a stream whose first byte has the number `S`. -/
def TcpHeader.place (S : BitVec 32) (hdr : TcpHeader) : Nat := (htonl hdr.seq - S).toNat

/-- A socket with the segments passed to `net_sock_add_data`; the stream of its peer, whether the peer has sent its
FIN, and the segments the peer has sent. -/
structure Inbound where
  sk : Sock
  accepted : List SkBuff
  stream : List UInt8
  closed : Bool
  sent : List Packet

inductive InboundOp
  | peer (p : Packet) (t : List UInt8)
  | deliver (route : Route) (p : Packet)
  | read (length : Nat)
  | send (route : Route) (message : List UInt8)
  | close (route : Route)

/-- The peer may send `p`, the end `t` of whose payload is new: the payload stands at its place in the stream, a
FIN at its end, and after the FIN nothing is new. -/
structure Numbered (S : BitVec 32) (s : Inbound) (p : Packet) (t : List UInt8) : Prop where
  new : t <:+ p.payload
  payload : p.payload ≠ [] → SliceAt (s.stream ++ t) (p.tcp.place S) p.payload
  fin : p.tcp.fin = true → p.tcp.place S + p.payload.length = (s.stream ++ t).length
  closed : s.closed = true → t = []

/-- A segment arrives. -/
def Inbound.deliver (s : Inbound) (route : Route) (p : Packet) : Inbound :=
  let o := tcpStateMachine route s.sk p.skb
  { s with sk := o.sk, accepted := s.accepted ++ o.accepted.toList }

/-- One step of the peer, the channel or the socket. -/
def inboundStep (S : BitVec 32) (s : Inbound) : InboundOp → Inbound → Prop
  | .peer p t, s' => Numbered S s p t ∧
      s' = { s with stream := s.stream ++ t, closed := s.closed || p.tcp.fin, sent := s.sent ++ [p] }
  | .deliver route p, s' => p ∈ s.sent ∧ s' = s.deliver route p
  | .read length, s' => ∃ ret data sk, netSockRead s.sk length = some (ret, data, sk) ∧ s' = { s with sk := sk }
  | .send route message, s' => ∃ sk u p, kernelSend route s.sk message = some (sk, u, p) ∧ s' = { s with sk := sk }
  | .close route, s' => ∃ tcp, s.sk.tcp = some tcp ∧ tcp.state ≠ .closed ∧
      s' = { s with sk := (tcpCloseConnection route s.sk tcp).1 }

/-- A FIN that an established socket answers. -/
def Answered (hdr : TcpHeader) : Prop := hdr.fin = true ∧ hdr.ack = true ∧ hdr.rst = false

/-- A segment that ends the wait of `tcp_send_segment`. -/
def Ends (tcp : TcpConnection) (hdr : TcpHeader) : Prop :=
  hdr.rst = false ∧ hdr.syn = false ∧ hdr.ack = true ∧ htonl hdr.ackSeq = tcp.sequence

/-- The condition on a step: what the socket takes as a FIN, or as the acknowledgement it waits for, is in order, a
FIN carries no data, and the stream is shorter than the sequence numbers. -/
def Orderly (s : Inbound) : InboundOp → Prop
  | .peer _ t => (s.stream ++ t).length < 2 ^ 32
  | .deliver _ p => ∀ tcp, s.sk.tcp = some tcp →
      (tcp.state = .established → Answered p.tcp → tcp.acknowledgement = htonl p.tcp.seq ∧ p.payload = []) ∧
      (tcp.state = .waitAck → Ends tcp p.tcp → tcp.acknowledgement = htonl p.tcp.seq)
  | _ => True

/-- What a FIN that takes the socket from `s` to `s'` may do: end the stream when all of it was accepted, and
nothing when it is out of order. -/
structure FinOk (s s' : Inbound) (p : Packet) : Prop where
  complete : s'.sk.tcp.map TcpConnection.state ≠ some .established → bytes s.accepted = s.stream
  inOrder : s.sk.tcp.map TcpConnection.acknowledgement ≠ some (htonl p.tcp.seq) → s' = s

/-- A socket that is established with a peer that has sent nothing yet. -/
structure Established (S : BitVec 32) (s : Inbound) : Prop where
  sk : ∃ tcp, s.sk.tcp = some tcp ∧ tcp.state = .established ∧ tcp.acknowledgement = S
  accepted : s.accepted = []
  stream : s.stream = []
  sent : s.sent = []

/-- The invariant. What the peer has sent stands at its place in the stream; the socket has accepted the stream up
to its acknowledgement. -/
structure InboundInv (S : BitVec 32) (s : Inbound) : Prop where
  short : s.stream.length < 2 ^ 32
  payload : ∀ p ∈ s.sent, p.payload ≠ [] → SliceAt s.stream (p.tcp.place S) p.payload
  fin : ∀ p ∈ s.sent, p.tcp.fin = true → s.closed = true ∧ p.tcp.place S + p.payload.length = s.stream.length
  live : ∃ tcp, s.sk.tcp = some tcp ∧ tcp.state.Live ∧ (tcp.state.Open → ∃ k ≤ s.stream.length,
    tcp.acknowledgement = S + BitVec.ofNat 32 k ∧ bytes s.accepted = s.stream.take k)

/-! ## One segment -/

section Machine
variable (route : Route) {sk : Sock} {tcp : TcpConnection} (skb : SkBuff)

/-- What a segment may do to an open connection: nothing to its acknowledgement, or it is an acknowledgement that
ends a wait, or it is accepted. -/
inductive Receives (tcp tcp' : TcpConnection) (skb : SkBuff) (accepted : Option SkBuff) : Prop
  | same (h : tcp'.acknowledgement = tcp.acknowledgement) (hacc : accepted = none)
  | ends (hstate : tcp.state = .waitAck) (h : Ends tcp skb.tcp) (hack : tcp'.acknowledgement = htonl skb.tcp.seq)
      (hacc : accepted = none)
  | accepts (h : tcp.acknowledgement = htonl skb.tcp.seq)
      (hack : tcp'.acknowledgement = htonl skb.tcp.seq + BitVec.ofNat 32 skb.data.length) (hacc : accepted = some skb)

/-- What a segment does to a live connection. -/
structure Handles (tcp tcp' : TcpConnection) (skb : SkBuff) (accepted : Option SkBuff) : Prop where
  live : tcp'.state.Live
  receives : tcp'.state.Open → tcp.state.Open ∧ Receives tcp tcp' skb accepted

theorem Handles.shut {tcp' : TcpConnection} {accepted : Option SkBuff} (hlive : tcp'.state.Live)
    (h : ¬ tcp'.state.Open) : Handles tcp tcp' skb accepted :=
  ⟨hlive, fun hopen => absurd hopen h⟩

theorem Handles.refl (hlive : tcp.state.Live) : Handles tcp tcp skb none := ⟨hlive, fun hopen => ⟨hopen, .same rfl rfl⟩⟩

theorem live_closed : TcpState.closed.Live := .inr (.inr (.inr (.inr rfl)))

theorem not_open (q : TcpState) (he : q ≠ .established) (hw : q ≠ .waitAck) : ¬ q.Open := fun h => h.elim he hw

theorem recvWaitAck_handles (htcp : sk.tcp = some tcp) (hstate : tcp.state = .waitAck) :
    ∃ tcp', (recvWaitAck sk tcp skb).sk.tcp = some tcp' ∧
      Handles tcp tcp' skb (recvWaitAck sk tcp skb).accepted := by
  have hlive : tcp.state.Live := .inl (.inr hstate)
  unfold recvWaitAck
  split
  · exact ⟨_, rfl, .shut skb live_closed (not_open .closed (by decide) (by decide))⟩
  · next hrst =>
    split
    · next hplain =>
      split
      · exact ⟨tcp, htcp, .refl skb hlive⟩
      · dsimp only
        unfold tcpRecvAck
        split
        · next hseq =>
          have hends : Ends tcp skb.tcp :=
            ⟨eq_false_of_ne_true hrst, eq_false_of_ne_true hplain.1, hplain.2, hseq.symm⟩
          exact ⟨_, rfl, .inl (.inl rfl), fun _ => ⟨.inr hstate, .ends hstate hends rfl rfl⟩⟩
        · exact ⟨tcp, htcp, .refl skb hlive⟩
    · exact ⟨tcp, htcp, .refl skb hlive⟩

theorem recvEstablished_handles (htcp : sk.tcp = some tcp) (hstate : tcp.state = .established) :
    ∃ tcp', (recvEstablished route sk tcp skb).sk.tcp = some tcp' ∧
      Handles tcp tcp' skb (recvEstablished route sk tcp skb).accepted := by
  have hlive : tcp.state.Live := .inl (.inl hstate)
  unfold recvEstablished
  split
  · exact ⟨_, rfl, .shut skb live_closed (not_open .closed (by decide) (by decide))⟩
  · split
    · split
      · exact ⟨tcp, htcp, .refl skb hlive⟩
      · next hseq =>
        dsimp only
        rw [Sock.tcp_of_connection (netSockAddData_connection _ _)]
        exact ⟨_, rfl, hlive, fun _ => ⟨.inl hstate, .accepts (not_not.mp hseq) rfl rfl⟩⟩
    · split
      · exact ⟨_, rfl, .shut skb (.inr (.inr (.inr (.inl rfl)))) (not_open .closeWait2 (by decide) (by decide))⟩
      · exact ⟨tcp, htcp, .refl skb hlive⟩

/-- **What a segment does to an open connection.** -/
theorem machine_open (htcp : sk.tcp = some tcp) (hlive : tcp.state.Live) :
    ∃ tcp', (tcpStateMachine route sk skb).sk.tcp = some tcp' ∧
      Handles tcp tcp' skb (tcpStateMachine route sk skb).accepted := by
  have hmachine : tcpStateMachine route sk skb = match tcp.state with
    | .waitAck => recvWaitAck sk tcp skb
    | .established => recvEstablished route sk tcp skb
    | .finWait => recvFinWait route sk tcp skb
    | .closeWait => recvCloseWait sk tcp skb
    | .closeWait2 => recvCloseWait2 sk tcp skb
    | _ => drop sk := by
    rw [tcpStateMachine, htcp]
    rcases hlive with (h | h) | h | h | h | h <;> simp only [h]
  rw [hmachine]
  rcases hlive with (h | h) | h | h | h | h <;> simp only [h]
  · exact recvEstablished_handles route skb htcp h
  · exact recvWaitAck_handles skb htcp h
  · unfold recvCloseWait
    split
    · exact ⟨_, rfl, .shut skb (.inr (.inr (.inl rfl))) (not_open .finWait (by decide) (by decide))⟩
    · exact ⟨tcp, htcp, .refl skb (.inr (.inl h))⟩
  · unfold recvFinWait
    split
    · exact ⟨_, rfl, .shut skb live_closed (not_open .closed (by decide) (by decide))⟩
    · exact ⟨tcp, htcp, .refl skb (.inr (.inr (.inl h)))⟩
  · unfold recvCloseWait2
    split
    · refine ⟨{ tcp with state := .closed }, ?_, .shut skb live_closed (not_open .closed (by decide) (by decide))⟩
      dsimp only [drop]
      split <;> rfl
    · exact ⟨tcp, htcp, .refl skb (.inr (.inr (.inr (.inl h))))⟩
  · exact ⟨tcp, htcp, .refl skb (.inr (.inr (.inr (.inr h))))⟩

/-- An established socket takes every FIN that acknowledges. -/
theorem established_fin (htcp : sk.tcp = some tcp) (hstate : tcp.state = .established) (h : Answered skb.tcp) :
    (tcpStateMachine route sk skb).sk.tcp.map TcpConnection.state = some .closeWait2 := by
  rw [tcpStateMachine, htcp]
  dsimp only
  rw [hstate]
  simp [recvEstablished, h.1, h.2.1, h.2.2, tcpSendFin, Sock.withTcp]

/-- It drops every other FIN. -/
theorem established_fin_drop (htcp : sk.tcp = some tcp) (hstate : tcp.state = .established)
    (hfin : skb.tcp.fin = true) (hrst : skb.tcp.rst = false) (hack : skb.tcp.ack ≠ true) :
    tcpStateMachine route sk skb = drop sk := by
  rw [tcpStateMachine, htcp]
  dsimp only
  rw [hstate]
  simp [recvEstablished, hfin, hrst, hack]

end Machine

/-! ## One step -/

section Step
variable {S : BitVec 32} {s s' : Inbound} {op : InboundOp}

theorem Established.inv (h : Established S s) : InboundInv S s := by
  obtain ⟨tcp, htcp, hstate, hack⟩ := h.sk
  refine ⟨?_, ?_, ?_, tcp, htcp, .inl (.inl hstate), fun _ => ⟨0, Nat.zero_le _, ?_, ?_⟩⟩
  · rw [h.stream]
    decide
  · rw [h.sent]
    simp
  · rw [h.sent]
    simp
  · rw [hack]
    simp
  · rw [h.accepted]
    simp

/-- A segment that is accepted in order, and carries data, extends what was accepted. -/
theorem take_extend {stream acc data : List UInt8} {k : Nat} (hk : k ≤ stream.length) (hacc : acc = stream.take k)
    (hdata : data ≠ [] → SliceAt stream k data) :
    k + data.length ≤ stream.length ∧ acc ++ data = stream.take (k + data.length) := by
  rcases eq_or_ne data [] with rfl | hne
  · simpa [hacc] using hk
  · have hslice := hdata hne
    have hlen : acc.length = k := by rw [hacc, List.length_take, Nat.min_eq_left hk]
    have hpre : acc ++ data <+: stream :=
      SliceAt.extend (by rw [hacc]; exact List.take_prefix _ _) (by rw [hlen]; exact hslice)
    refine ⟨hslice.le, ?_⟩
    rw [List.prefix_iff_eq_take] at hpre
    rw [hpre, List.length_append, hlen]

theorem place_eq {hdr : TcpHeader} {k : Nat} (hk : k < 2 ^ 32) (h : S + BitVec.ofNat 32 k = htonl hdr.seq) :
    hdr.place S = k := by
  rw [TcpHeader.place, ← h, BitVec.add_comm, BitVec.add_sub_cancel, BitVec.toNat_ofNat, Nat.mod_eq_of_lt hk]

theorem InboundInv.peer {p : Packet} {t : List UInt8} (h : InboundInv S s) (hnum : Numbered S s p t)
    (hshort : (s.stream ++ t).length < 2 ^ 32) :
    InboundInv S { s with stream := s.stream ++ t, closed := s.closed || p.tcp.fin, sent := s.sent ++ [p] } := by
  refine ⟨hshort, fun q hq hne => ?_, fun q hq hfin => ?_, ?_⟩
  · rcases List.mem_append.mp hq with hq | hq
    · exact (h.payload q hq hne).append t
    · rw [List.mem_singleton] at hq
      subst hq
      exact hnum.payload hne
  · rcases List.mem_append.mp hq with hq | hq
    · obtain ⟨hclosed, hend⟩ := h.fin q hq hfin
      refine ⟨by simp [hclosed], ?_⟩
      dsimp only
      rw [hnum.closed hclosed, List.append_nil]
      exact hend
    · rw [List.mem_singleton] at hq
      subst hq
      exact ⟨by simp [hfin], hnum.fin hfin⟩
  · obtain ⟨tcp, htcp, hlive, hopen⟩ := h.live
    refine ⟨tcp, htcp, hlive, fun ho => ?_⟩
    obtain ⟨k, hk, hack, hacc⟩ := hopen ho
    refine ⟨k, ?_, hack, ?_⟩
    · dsimp only
      rw [List.length_append]
      omega
    · dsimp only
      rw [hacc, List.take_append_of_le_length hk]

theorem InboundInv.deliver {route : Route} {p : Packet} (h : InboundInv S s) (hp : p ∈ s.sent)
    (hok : Orderly s (.deliver route p)) : InboundInv S (s.deliver route p) := by
  obtain ⟨tcp, htcp, hlive, hopen⟩ := h.live
  obtain ⟨tcp', htcp', hhandles⟩ := machine_open route p.skb htcp hlive
  refine ⟨h.short, h.payload, h.fin, tcp', htcp', hhandles.live, fun ho => ?_⟩
  obtain ⟨ho', hreceives⟩ := hhandles.receives ho
  obtain ⟨k, hk, hack, hacc⟩ := hopen ho'
  have hshort := h.short
  unfold Inbound.deliver
  dsimp only
  cases hreceives with
  | same hsame hnone =>
    refine ⟨k, hk, hsame.trans hack, ?_⟩
    rw [hnone]
    simpa using hacc
  | ends hstate hends hseq hnone =>
    -- the acknowledgement that ends the wait is in order
    refine ⟨k, hk, ?_, ?_⟩
    · rw [hseq, ← hack, (hok tcp htcp).2 hstate hends]
      rfl
    · rw [hnone]
      simpa using hacc
  | accepts hseq hnext hsome =>
    have hplace : p.tcp.place S = k := place_eq (by omega) (hack.symm.trans hseq)
    obtain ⟨hle, htake⟩ := take_extend hk hacc fun hne => hplace ▸ h.payload p hp hne
    refine ⟨k + p.payload.length, hle, ?_, ?_⟩
    · rw [hnext, ← hseq, hack]
      exact seq_add S k p.payload.length
    · rw [hsome, Option.toList_some, bytes_append, ← htake]
      simp [Packet.skb]

theorem inboundStep_inv (h : InboundInv S s) (hok : Orderly s op) (hstep : inboundStep S s op s') :
    InboundInv S s' := by
  cases op with
  | peer p t =>
    obtain ⟨hnum, rfl⟩ := hstep
    exact h.peer hnum hok
  | deliver route p =>
    obtain ⟨hp, rfl⟩ := hstep
    exact h.deliver hp hok
  | read length =>
    obtain ⟨ret, data, sk, hread, rfl⟩ := hstep
    refine ⟨h.short, h.payload, h.fin, ?_⟩
    dsimp only
    rw [Sock.tcp_of_connection (netSockRead_connection hread)]
    exact h.live
  | send route message =>
    obtain ⟨sk, u, p, hsend, rfl⟩ := hstep
    obtain ⟨tcp, htcp, hlive, hopen⟩ := h.live
    rw [kernelSend, htcp] at hsend
    dsimp only at hsend
    split at hsend
    · next hready =>
      cases hsend
      exact ⟨h.short, h.payload, h.fin, _, rfl, .inl (.inr rfl), fun _ => hopen (.inl hready.2)⟩
    · cases hsend
  | close route =>
    obtain ⟨tcp, htcp, -, rfl⟩ := hstep
    have hclosing := not_open .closeWait (by decide) (by decide)
    exact ⟨h.short, h.payload, h.fin, _, rfl, .inr (.inl rfl), fun ho => absurd ho hclosing⟩

end Step

/-! ## The end of the stream -/

/-- **After an orderly run, a FIN does what it may exactly when it is in order and carries no data**, or is not
answered at all. -/
theorem finOk_iff {S : BitVec 32} {s₀ s : Inbound} {ops : List InboundOp} {tcp : TcpConnection} {p : Packet}
    (hstart : Established S s₀) (hrun : Run (inboundStep S) Orderly s₀ ops s) (htcp : s.sk.tcp = some tcp)
    (hstate : tcp.state = .established) (hp : p ∈ s.sent) (hfin : p.tcp.fin = true) (hrst : p.tcp.rst = false)
    (route : Route) : FinOk s (s.deliver route p) p ↔
      (p.tcp.ack = true → tcp.acknowledgement = htonl p.tcp.seq ∧ p.payload = []) := by
  have hinv := hrun.invariant (fun _ _ _ h hok hs => inboundStep_inv h hok hs) hstart.inv
  obtain ⟨tcp', htcp', -, hopen⟩ := hinv.live
  obtain rfl : tcp = tcp' := Option.some.inj (htcp.symm.trans htcp')
  obtain ⟨k, hk, hack, hacc⟩ := hopen (.inl hstate)
  obtain ⟨-, hend⟩ := hinv.fin p hp hfin
  have hshort := hinv.short
  constructor
  · intro h hpack
    have hshut : (s.deliver route p).sk.tcp.map TcpConnection.state = some .closeWait2 :=
      established_fin route p.skb htcp hstate ⟨hfin, hpack, hrst⟩
    -- the connection has changed, so the FIN is in order, and nothing of the stream is missing
    have hseq : tcp.acknowledgement = htonl p.tcp.seq := by
      by_contra hne
      have hsame := h.inOrder (by rw [htcp, Option.map_some]; exact fun he => hne (Option.some.inj he))
      rw [hsame, htcp, Option.map_some, hstate] at hshut
      cases hshut
    have hall := h.complete (by rw [hshut]; exact fun he => by cases he)
    have hplace : p.tcp.place S = k := place_eq (by omega) (hack.symm.trans hseq)
    have hlen := congrArg List.length (hacc.symm.trans hall)
    rw [List.length_take, Nat.min_eq_left hk] at hlen
    exact ⟨hseq, List.length_eq_zero_iff.mp (by omega)⟩
  · intro h
    by_cases hpack : p.tcp.ack = true
    · obtain ⟨hseq, hnil⟩ := h hpack
      refine ⟨fun _ => ?_, fun hne => absurd (by rw [htcp, Option.map_some, hseq]) hne⟩
      have hplace : p.tcp.place S = k := place_eq (by omega) (hack.symm.trans hseq)
      rw [hplace, hnil, List.length_nil, Nat.add_zero] at hend
      rw [hacc, hend, List.take_length]
    · have hsame : s.deliver route p = s := by
        rw [Inbound.deliver, established_fin_drop route p.skb htcp hstate hfin hrst hpack]
        simp [drop]
      refine ⟨fun hleft => ?_, fun _ => hsame⟩
      rw [hsame, htcp, Option.map_some, hstate] at hleft
      exact absurd rfl hleft

/-- The segments of `tcp_close_connection` end the stream of a sender that stands at its end. -/
theorem tcpSendFin_numbered {S : BitVec 32} {route : Route} {sk : Sock} {tcp : TcpConnection} {p : Packet}
    {s : Inbound} (hseq : tcp.sequence = S + BitVec.ofNat 32 s.stream.length) (hshort : s.stream.length < 2 ^ 32)
    (h : (tcpCloseConnection route sk tcp).2 = some p) :
    Numbered S s p [] ∧ Answered p.tcp := by
  obtain ⟨htcp, hnil, -⟩ := tcpSend_some h
  refine ⟨⟨List.nil_suffix, fun hne => absurd hnil hne, fun _ => ?_, fun _ => rfl⟩, ?_⟩
  · rw [hnil, List.append_nil, List.length_nil, Nat.add_zero]
    refine place_eq hshort ?_
    rw [htcp]
    exact hseq.symm.trans (htonl_htonl _).symm
  · rw [htcp]
    exact ⟨rfl, rfl, rfl⟩

/-- A socket that is established with a peer at sequence number `2`. -/
def inboundStart : Inbound where
  sk := { establishedSock with recvAddr := ⟨1, 1⟩ }
  accepted := []
  stream := []
  closed := false
  sent := []

/-- The FIN of a peer that has sent the first segment. -/
def finSegment : Packet where
  saddr := 1
  daddr := 1
  tcp := { source := 0, dest := 1, seq := htonl 4, ackSeq := htonl 2, ack := true, fin := true }
  payload := []

theorem established_inboundStart : Established 2 inboundStart := ⟨⟨_, rfl, rfl, rfl⟩, rfl, rfl, rfl⟩

/-- `kernel_send` and then `tcp_close_connection` send these two segments. -/
example : (kernelSend anyRoute inboundStart.sk [7, 8]).map (fun r => r.2.2) = some (some firstSegment) ∧
    (tcpCloseConnection anyRoute inboundStart.sk ⟨.waitAck, 4, 2⟩).2 = some finSegment := ⟨rfl, rfl⟩

theorem numbered_firstSegment : Numbered 2 inboundStart firstSegment [7, 8] :=
  ⟨List.suffix_refl _, fun _ => sliceAt_end [] [7, 8], fun h => (by cases h), fun h => (by cases h)⟩

/-- What the peer has sent when it has sent both segments. -/
def inboundSent : Inbound :=
  { inboundStart with stream := [7, 8], closed := true, sent := [firstSegment, finSegment] }

theorem run_inboundSent : Run (inboundStep 2) Orderly inboundStart [.peer firstSegment [7, 8], .peer finSegment []]
    inboundSent :=
  .cons (by unfold Orderly; decide) ⟨numbered_firstSegment, rfl⟩ (.single (by unfold Orderly; decide)
    ⟨⟨List.nil_suffix, fun h => absurd rfl h, fun _ => rfl, fun _ => rfl⟩, rfl⟩)

theorem finOk_iff_last : ∃ s, Run (inboundStep 2) Orderly inboundStart
    [.peer firstSegment [7, 8], .peer finSegment [], .deliver anyRoute firstSegment] s ∧
      FinOk s (s.deliver anyRoute finSegment) finSegment := by
  have hok : Orderly inboundSent (.deliver anyRoute firstSegment) := by
    rintro tcp ⟨⟩
    exact ⟨fun _ h => absurd h.1 (by decide), fun h => absurd h (by decide)⟩
  have hrun := run_inboundSent.snoc hok ⟨List.mem_cons_self, rfl⟩
  have htcp : (inboundSent.deliver anyRoute firstSegment).sk.tcp = some ⟨.established, 2, 4⟩ := rfl
  exact ⟨_, hrun, (finOk_iff established_inboundStart hrun htcp rfl (List.mem_cons_of_mem _ List.mem_cons_self) rfl rfl
    anyRoute).mpr fun _ => ⟨rfl, rfl⟩⟩

/-- The FIN overtakes the data segment: the stream is ended with nothing accepted. -/
theorem finOk_overtaken : ∃ s, AnyRun (inboundStep 2) inboundStart
    [.peer firstSegment [7, 8], .peer finSegment []] s ∧ finSegment ∈ s.sent ∧
      s.sk.tcp = some ⟨.established, 2, 2⟩ ∧ s.stream = [7, 8] ∧ (s.deliver anyRoute finSegment).accepted = [] ∧
      (s.deliver anyRoute finSegment).sk.tcp.map TcpConnection.state = some .closeWait2 ∧
      ¬ FinOk s (s.deliver anyRoute finSegment) finSegment := by
  refine ⟨inboundSent, run_inboundSent.mono fun _ _ _ => trivial, List.mem_cons_of_mem _ List.mem_cons_self, rfl, rfl,
    rfl, rfl, fun h => ?_⟩
  have hall : bytes inboundSent.accepted = [7, 8] := h.complete (fun he => by cases he)
  cases hall

end RetrOS.Net
