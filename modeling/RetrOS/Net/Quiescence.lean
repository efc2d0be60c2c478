import RetrOS.Net.Handshake
import RetrOS.Lib.Run
import Mathlib.Data.List.Perm.Basic

/-!
# Segments in flight

`flightStep` : two sockets on a reliable channel. Every segment that is sent is in flight until it is delivered,
and deliveries come in any order.

An established socket acknowledges every segment that is next in order, also one that only acknowledges, and the
other end takes this acknowledgement for the next segment again.

* `bare_sent_iff` : **a segment without payload, SYN, FIN or RST is met with silence unless it is next in order**;
* `Packet.weight`, `Sock.potential` : what a segment and a socket can still cause to be sent; every other delivery
  decreases their sum (`machine_weight`);
* `deliveries_end` : runs in which no such segment is next in order end with nothing in flight;
* `deliveries_endless` : two sockets that acknowledge each other's acknowledgements forever.
-/

namespace RetrOS.Net

open RetrOS.Lib

/-- A segment without payload, SYN, FIN or RST. -/
structure Bare (p : Packet) : Prop where
  payload : p.payload = []
  syn : p.tcp.syn = false
  fin : p.tcp.fin = false
  rst : p.tcp.rst = false

instance (p : Packet) : Decidable (Bare p) :=
  decidable_of_iff (p.payload = [] ∧ p.tcp.syn = false ∧ p.tcp.fin = false ∧ p.tcp.rst = false)
    ⟨fun ⟨h1, h2, h3, h4⟩ => ⟨h1, h2, h3, h4⟩, fun h => ⟨h.payload, h.syn, h.fin, h.rst⟩⟩

/-- A state in which a socket neither listens nor waits for an acknowledgement. -/
def TcpState.Settled (q : TcpState) : Prop := q ≠ .listen ∧ q ≠ .synRcvd ∧ q ≠ .waitAck

instance (q : TcpState) : Decidable q.Settled := inferInstanceAs (Decidable (_ ∧ _))

/-- A socket that neither listens nor waits for an acknowledgement. -/
def Settled (sk : Sock) : Prop := ∀ q ∈ sk.tcp.map TcpConnection.state, q.Settled

/-- An established socket takes the segment for the next one in order, and can send an acknowledgement. -/
def Next (route : Route) (sk : Sock) (p : Packet) : Prop := ∃ tcp, sk.tcp = some tcp ∧ tcp.state = .established ∧
  p.tcp.ack = true ∧ tcp.acknowledgement = htonl p.tcp.seq ∧ (route sk.recvAddr.addr).isSome

/-- A segment in flight, and the answer it may get. -/
def Packet.weight (p : Packet) : Nat := if Bare p then 1 else 2

/-- What a list of segments may still cause to be sent. -/
def weight (l : List Packet) : Nat := (l.map Packet.weight).sum

/-- What a socket in a state may send besides answers. -/
def TcpState.potential : TcpState → Nat
  | .established => 2
  | .synSent => 2
  | _ => 0

/-- What a socket may send besides answers. -/
def Sock.potential (sk : Sock) : Nat :=
  match sk.tcp.map TcpConnection.state with
  | none => 0
  | some q => q.potential

/-- A socket that becomes `sk'` and sends `l` when the segment `p` is delivered to it pays for what it sends. -/
structure Pays (p : Packet) (sk sk' : Sock) (l : List Packet) : Prop where
  settled : Settled sk'
  less : weight l + sk'.potential + 1 ≤ p.weight + sk.potential

@[simp] theorem weight_nil : weight [] = 0 := rfl

@[simp] theorem weight_append (l l' : List Packet) : weight (l ++ l') = weight l + weight l' := by
  rw [weight, List.map_append, List.sum_append]
  rfl

theorem weight_eraseIdx {l : List Packet} {i : Nat} {p : Packet} (h : l[i]? = some p) :
    weight (l.eraseIdx i) + p.weight = weight l := by
  obtain ⟨hi, rfl⟩ := List.getElem?_eq_some_iff.mp h
  have hperm := ((List.getElem_cons_eraseIdx_perm hi).map Packet.weight).sum_nat
  rw [List.map_cons, List.sum_cons] at hperm
  rw [weight, weight]
  omega

/-! ## One segment -/

section Segment
variable {route : Route} {sk : Sock} {tcp : TcpConnection} {p : Packet}

theorem Packet.weight_pos (p : Packet) : 0 < p.weight := by
  unfold Packet.weight
  split <;> decide

theorem Packet.weight_le (p : Packet) : p.weight ≤ 2 := by
  unfold Packet.weight
  split <;> decide

theorem weight_of_not_bare (h : ¬ Bare p) : p.weight = 2 := if_neg h

theorem potential_eq {q : TcpState} (h : sk.tcp.map TcpConnection.state = some q) : sk.potential = q.potential := by
  rw [Sock.potential, h]

theorem weight_sendAck (route : Route) (sk : Sock) (tcp : TcpConnection) (hdr : TcpHeader) (len : Nat) :
    weight (tcpSendAck route sk tcp hdr len).2.toList ≤ 1 := by
  cases h : (tcpSendAck route sk tcp hdr len).2 with
  | none => exact Nat.zero_le _
  | some q =>
    obtain ⟨hplain, hnil, -⟩ := tcpSendAck_some h
    have hbare : Bare q := ⟨hnil, hplain.syn, hplain.fin, hplain.rst⟩
    simp [weight, Packet.weight, hbare]

theorem weight_toList (o : Option Packet) : weight o.toList ≤ 2 := by
  cases o with
  | none => exact Nat.zero_le _
  | some q => simpa [weight] using q.weight_le

theorem sendAck_none (hroute : ¬ (route sk.recvAddr.addr).isSome) (hdr : TcpHeader) (len : Nat) :
    (tcpSendAck route sk tcp hdr len).2 = none := by
  rw [tcpSendAck]
  dsimp only
  rw [tcpSend, Option.not_isSome_iff_eq_none.mp hroute]
  rfl

/-- A socket in the state `q` that has sent no more than `n`. -/
theorem pays_of {sk' : Sock} {l : List Packet} (q : TcpState) (n : Nat)
    (htcp : sk'.tcp.map TcpConnection.state = some q) (hq : q.Settled) (hl : weight l ≤ n)
    (hle : n + q.potential + 1 ≤ p.weight + sk.potential) : Pays p sk sk' l := by
  refine ⟨fun q' hq' => ?_, ?_⟩
  · rw [htcp] at hq'
    cases hq'
    exact hq
  · rw [potential_eq htcp]
    omega

theorem pays_drop (hs : Settled sk) : Pays p sk (drop sk).sk (drop sk).sent :=
  ⟨hs, by have := p.weight_pos; simp only [drop, weight_nil]; omega⟩

theorem recvEstablished_pays (hs : Settled sk) (htcp : sk.tcp = some tcp) (hstate : tcp.state = .established)
    (hok : Bare p → ¬ Next route sk p) :
    Pays p sk (recvEstablished route sk tcp p.skb).sk (recvEstablished route sk tcp p.skb).sent := by
  have hpos := p.weight_pos
  have hpot : sk.potential = 2 := by rw [potential_eq (by rw [htcp]; rfl), hstate]; rfl
  unfold recvEstablished
  split
  · -- a reset
    exact pays_of .closed 0 rfl (by decide) (Nat.le_refl _) (by simp only [TcpState.potential]; omega)
  · next hrst =>
    split
    · next hplain =>
      split
      · exact pays_drop hs
      · next hseq =>
        -- a segment that is next in order: if it is bare, no acknowledgement can be sent
        have htcp' : (netSockAddData (tcpSendAck route sk tcp p.skb.tcp p.skb.data.length).1 p.skb).2.tcp.map
            TcpConnection.state = some .established := by
          rw [Sock.tcp_of_connection (netSockAddData_connection _ _), ← hstate]
          rfl
        by_cases hbare : Bare p
        · have hroute : ¬ (route sk.recvAddr.addr).isSome := fun hroute =>
            hok hbare ⟨tcp, htcp, hstate, hplain.2.1, not_not.mp hseq, hroute⟩
          refine pays_of .established 0 htcp' (by decide) ?_ (by rw [hpot]; simp only [TcpState.potential]; omega)
          dsimp only
          rw [sendAck_none hroute]
          exact Nat.le_refl _
        · have hweight := weight_of_not_bare hbare
          exact pays_of .established 1 htcp' (by decide) (weight_sendAck route sk tcp p.skb.tcp p.skb.data.length)
            (by rw [hpot, hweight]; simp only [TcpState.potential]; omega)
    · split
      · next hfin =>
        -- a FIN: the acknowledgement and a FIN are sent
        have hbare : ¬ Bare p := fun h => absurd (hfin.1.symm.trans h.fin) (by decide)
        refine pays_of .closeWait2 3 rfl (by decide) ?_ ?_
        · dsimp only
          rw [weight_append]
          exact Nat.add_le_add (weight_sendAck ..) (weight_toList _)
        · rw [hpot, weight_of_not_bare hbare]
          simp only [TcpState.potential]
          omega
      · exact pays_drop hs

/-- **One segment**, delivered to a settled socket: unless it is bare and next in order, the socket pays for what
it sends. -/
theorem machine_pays (hs : Settled sk) (hok : Bare p → ¬ Next route sk p) :
    Pays p sk (tcpStateMachine route sk p.skb).sk (tcpStateMachine route sk p.skb).sent := by
  have hpos := p.weight_pos
  unfold tcpStateMachine
  split
  · exact pays_drop hs
  · next tcp htcp =>
    have hmap : sk.tcp.map TcpConnection.state = some tcp.state := by rw [htcp]; rfl
    obtain ⟨hlisten, hrcvd, hwait⟩ := hs tcp.state hmap
    have hpot := potential_eq hmap
    split
    · next h => exact absurd h hlisten
    · next h => exact absurd h hrcvd
    · next h =>
      unfold recvSynSent
      split
      · next hsyn =>
        have hbare : ¬ Bare p := fun h => absurd (hsyn.1.symm.trans h.syn) (by decide)
        refine pays_of .established 1 rfl (by decide) (weight_sendAck ..) ?_
        rw [hpot, h, weight_of_not_bare hbare]
        simp only [TcpState.potential]
        omega
      · exact pays_drop hs
    · next h => exact absurd h hwait
    · next h => exact recvEstablished_pays hs htcp h hok
    · next h =>
      unfold recvFinWait
      split
      · next hfin =>
        have hbare : ¬ Bare p := fun h => absurd (hfin.1.symm.trans h.fin) (by decide)
        refine pays_of .closed 1 rfl (by decide) (weight_sendAck ..) ?_
        rw [weight_of_not_bare hbare]
        simp only [TcpState.potential]
        omega
      · exact pays_drop hs
    · next h =>
      unfold recvCloseWait
      split
      · exact pays_of .finWait 0 rfl (by decide) (Nat.le_refl _) (by simp only [TcpState.potential]; omega)
      · exact pays_drop hs
    · next h =>
      unfold recvCloseWait2
      split
      · refine pays_of .closed 0 ?_ (by decide) (Nat.le_refl _) (by simp only [TcpState.potential]; omega)
        dsimp only [drop]
        split <;> rfl
      · exact pays_drop hs
    · exact pays_drop hs

/-- **A bare segment is met with silence unless it is next in order.** -/
theorem bare_sent_iff (route : Route) (sk : Sock) (hbare : Bare p) :
    (tcpStateMachine route sk p.skb).sent = [] ↔ ¬ Next route sk p := by
  constructor
  · rintro hsent ⟨tcp, htcp, hstate, hack, hseq, hroute⟩
    obtain ⟨saddr, hroute⟩ := Option.isSome_iff_exists.mp hroute
    have hplain : Plain p.skb.tcp := ⟨hack, hbare.syn, hbare.fin, hbare.rst⟩
    rw [established_inOrder route htcp hstate hplain hseq] at hsent
    simp [tcpSendAck, tcpSend, hroute] at hsent
  · intro hnext
    have hsyn : p.skb.tcp.syn = false := hbare.syn
    have hfin : p.skb.tcp.fin = false := hbare.fin
    rcases sent_accepted route sk hsyn hfin with hsent | haccepted
    · exact hsent
    · obtain ⟨-, hplain, tcp, htcp, hstate, hseq⟩ := accepted_established haccepted
      have hroute : ¬ (route sk.recvAddr.addr).isSome := fun hroute =>
        hnext ⟨tcp, htcp, hstate, hplain.ack, hseq, hroute⟩
      rw [established_inOrder route htcp hstate hplain hseq]
      dsimp only
      rw [sendAck_none hroute]
      rfl

end Segment

/-! ## Runs -/

/-- Two sockets, the segments `tcp_send_segment` waits for, the segments in flight towards each side, and those
that were sent in answer to a bare segment. -/
structure Flight where
  sk : Side → Sock
  unacked : Side → Option Unacked
  toward : Side → List Packet
  replies : List Packet

inductive FlightOp
  | send (side : Side) (route : Route) (message : List UInt8)
  | timeout (side : Side) (route : Route)
  | deliver (side : Side) (i : Nat) (route : Route)

/-- Segments that `side` sends. -/
def Flight.emit (s : Flight) (side : Side) (l : List Packet) : Flight :=
  { s with toward := Function.update s.toward side.peer (s.toward side.peer ++ l) }

/-- The timer of `tcp_send_segment` runs out. -/
def Flight.timeout (s : Flight) (side : Side) (route : Route) : Flight :=
  match s.unacked side with
  | none => s
  | some u =>
    let r := retransmit route (s.sk side) u
    { s with unacked := Function.update s.unacked side r.1 }.emit side r.2.toList

/-- The segment `i` of those towards `side` arrives. -/
def Flight.deliver (s : Flight) (side : Side) (i : Nat) (route : Route) (p : Packet) : Flight :=
  let o := tcpStateMachine route (s.sk side) p.skb
  let toward := Function.update s.toward side ((s.toward side).eraseIdx i)
  let replies := if Bare p then s.replies ++ o.sent else s.replies
  { s with sk := Function.update s.sk side o.sk, toward := toward, replies := replies }.emit side o.sent

/-- One step. -/
def flightStep (s : Flight) : FlightOp → Option Flight
  | .send side route message => (kernelSend route (s.sk side) message).map fun (sk, u, p) =>
      { s with
        sk := Function.update s.sk side sk
        unacked := Function.update s.unacked side (some u) }.emit side p.toList
  | .timeout side route => some (s.timeout side route)
  | .deliver side i route => ((s.toward side)[i]?).map fun p => s.deliver side i route p

/-- The condition on a step: no `kernel_send`, and no bare segment that is next in order arrives. -/
def Quiet (s : Flight) : FlightOp → Prop
  | .send _ _ _ => False
  | .timeout _ _ => True
  | .deliver side i route => ∀ p ∈ (s.toward side)[i]?, Bare p → ¬ Next route (s.sk side) p

/-- What one side may still cause to be sent. -/
def Flight.load (s : Flight) (side : Side) : Nat := weight (s.toward side) + (s.sk side).potential

/-- What both sides may still cause to be sent. -/
def Flight.total (s : Flight) : Nat := s.load .a + s.load .b

/-- The deliveries of a run. -/
def deliveries (ops : List FlightOp) : Nat := ops.countP fun op => op matches .deliver _ _ _

/-- What a run of `n` deliveries from `s` to `t` keeps. -/
structure Drains (s t : Flight) (n : Nat) : Prop where
  settled : ∀ side, Settled (t.sk side)
  replies : t.replies = s.replies
  less : n + t.total ≤ s.total

theorem total_side (s : Flight) (side : Side) : s.total = s.load side + s.load side.peer := by
  cases side
  · rfl
  · exact Nat.add_comm _ _

theorem peer_ne (side : Side) : side.peer ≠ side := by cases side <;> decide

theorem timeout_settled {s : Flight} {side : Side} (hs : Settled (s.sk side)) (route : Route) :
    (s.timeout side route).sk = s.sk ∧ (s.timeout side route).toward = s.toward ∧
      (s.timeout side route).replies = s.replies := by
  rw [Flight.timeout]
  split
  · exact ⟨rfl, rfl, rfl⟩
  · next u _ =>
    have hnone : (retransmit route (s.sk side) u).2 = none := by
      rw [retransmit, if_neg fun h => (hs _ h.1).2.2 rfl]
    dsimp only
    rw [hnone, Flight.emit]
    exact ⟨rfl, by simp, rfl⟩

theorem timeout_drains {s : Flight} (hs : ∀ side, Settled (s.sk side)) (side : Side) (route : Route) :
    Drains s (s.timeout side route) 0 := by
  obtain ⟨hsk, htoward, hreplies⟩ := timeout_settled (hs side) route
  refine ⟨fun side' => by rw [hsk]; exact hs side', hreplies, ?_⟩
  simp only [Flight.total, Flight.load, hsk, htoward]
  omega

theorem deliver_drains {s : Flight} {side : Side} {i : Nat} {route : Route} {p : Packet}
    (hs : ∀ side, Settled (s.sk side)) (hp : (s.toward side)[i]? = some p)
    (hok : Bare p → ¬ Next route (s.sk side) p) : Drains s (s.deliver side i route p) 1 := by
  obtain ⟨hsettled, hless⟩ := machine_pays (hs side) hok
  have herase := weight_eraseIdx hp
  have hpeer := peer_ne side
  refine ⟨fun side' => ?_, ?_, ?_⟩
  · by_cases h : side' = side
    · subst h
      simpa [Flight.deliver, Flight.emit] using hsettled
    · simpa [Flight.deliver, Flight.emit, h] using hs side'
  · simp only [Flight.deliver, Flight.emit]
    split
    · next hbare => rw [(bare_sent_iff route (s.sk side) hbare).mpr (hok hbare), List.append_nil]
    · rfl
  · rw [total_side s side, total_side _ side]
    simp only [Flight.deliver, Flight.emit, Flight.load, Function.update_self, Function.update_of_ne hpeer,
      Function.update_of_ne hpeer.symm, weight_append]
    omega

theorem flightStep_drains {s t : Flight} {op : FlightOp} (hs : ∀ side, Settled (s.sk side)) (hok : Quiet s op)
    (hstep : flightStep s op = some t) : Drains s t (deliveries [op]) := by
  cases op with
  | send side route message => exact hok.elim
  | timeout side route =>
    cases hstep
    exact timeout_drains hs side route
  | deliver side i route =>
    rw [flightStep, Option.map_eq_some_iff] at hstep
    obtain ⟨p, hp, rfl⟩ := hstep
    exact deliver_drains hs hp (hok p hp)

theorem run_drains {s t : Flight} {ops : List FlightOp}
    (hrun : Run (fun s op t => flightStep s op = some t) Quiet s ops t) (hs : ∀ side, Settled (s.sk side)) :
    Drains s t (deliveries ops) := by
  induction hrun with
  | nil s => exact ⟨hs, rfl, Nat.le_of_eq (Nat.zero_add _)⟩
  | @cons s t u op ops hok hstep _ ih =>
    have hone := flightStep_drains hs hok hstep
    have hrest := ih hone.settled
    have hcount : deliveries (op :: ops) = deliveries [op] + deliveries ops := by
      rw [deliveries, ← List.singleton_append, List.countP_append]
      rfl
    have h1 := hone.less
    have h2 := hrest.less
    exact ⟨hrest.settled, hrest.replies.trans hone.replies, by omega⟩

/-- While a segment is in flight, it can be delivered. -/
theorem empty_of_stuck {s : Flight} (h : ∀ side i route, flightStep s (.deliver side i route) = none) (side : Side) :
    s.toward side = [] := by
  have hfirst := h side 0 anyRoute
  rw [flightStep, Option.map_eq_none_iff, List.getElem?_eq_none_iff] at hfirst
  exact List.eq_nil_of_length_eq_zero (by omega)

/-- **From two established sockets, runs in which no bare segment that is next in order arrives.** No bare segment
is answered, there is a bound on the number of deliveries, and when nothing can be delivered any more, nothing is in
flight. A bare segment is answered exactly if it is next in order. -/
theorem deliveries_end {s t : Flight} {ops : List FlightOp}
    (hest : ∀ side, (s.sk side).tcp.map TcpConnection.state = some .established)
    (hrun : Run (fun s op t => flightStep s op = some t) Quiet s ops t) :
    t.replies = s.replies ∧ deliveries ops ≤ s.total ∧
      ((∀ side i route, flightStep t (.deliver side i route) = none) → ∀ side, t.toward side = []) ∧
      ∀ side route p, Bare p →
        ((tcpStateMachine route (t.sk side) p.skb).sent = [] ↔ ¬ Next route (t.sk side) p) := by
  have hs : ∀ side, Settled (s.sk side) := by
    intro side q hq
    rw [hest side] at hq
    cases hq
    decide
  have hdrains := run_drains hrun hs
  have hless := hdrains.less
  exact ⟨hdrains.replies, by omega, empty_of_stuck, fun side route p hbare => bare_sent_iff route (t.sk side) hbare⟩

/-- Two sockets that have not sent anything yet. -/
def Flight.start (a b : Sock) : Flight where
  sk := fun side => match side with
    | .a => a
    | .b => b
  unacked := fun _ => none
  toward := fun _ => []
  replies := []

/-- A socket that has just connected to the host `1`. -/
def connectedSock : Sock := { connecting 1 with tcp := some ⟨.established, 2, 2⟩ }

/-- An acknowledgement with the sequence number `seq`. -/
def bareAck (seq : BitVec 32) : Packet where
  saddr := 1
  daddr := 1
  tcp := { source := 80, dest := 7, seq := htonl seq, ackSeq := htonl 2, ack := true }
  payload := []

/-- An old acknowledgement is in flight. -/
def staleFlight : Flight :=
  { Flight.start connectedSock connectedSock with toward := Function.update (fun _ => []) .a [bareAck 0] }

theorem deliveries_end_stale : ∃ t,
    Run (fun s op t => flightStep s op = some t) Quiet staleFlight [.deliver .a 0 anyRoute] t ∧
      t.replies = staleFlight.replies ∧ deliveries [.deliver .a 0 anyRoute] ≤ staleFlight.total := by
  have hrun : ∃ t, Run (fun s op t => flightStep s op = some t) Quiet staleFlight [.deliver .a 0 anyRoute] t := by
    refine ⟨_, .single (fun p hp hbare => ?_) rfl⟩
    rintro ⟨tcp, htcp, -, -, hseq, -⟩
    cases hp
    cases htcp
    exact absurd hseq (by decide)
  obtain ⟨t, hrun⟩ := hrun
  obtain ⟨h1, h2, -⟩ := deliveries_end (fun side => by cases side <;> rfl) hrun
  exact ⟨t, hrun, h1, h2⟩

/-! ## Acknowledgements without end -/

/-- Two established sockets, and one acknowledgement in flight that is next in order for the socket it goes to. -/
structure PingPong (s : Flight) : Prop where
  sk : ∀ side, (s.sk side).tcp = some ⟨.established, 2, 2⟩
  flying : ∃ side p, s.toward side = [p] ∧ s.toward side.peer = [] ∧ Plain p.tcp ∧ p.payload = [] ∧
    htonl p.tcp.seq = 2 ∧ htonl p.tcp.ackSeq = 2

/-- Deliveries over a network that sends everything, and timers that run out. -/
def Delivering (_ : Flight) : FlightOp → Prop
  | .send _ _ _ => False
  | .timeout _ _ => True
  | .deliver _ _ route => route = anyRoute

/-- The answer to such an acknowledgement is such an acknowledgement. -/
theorem answer_bare {sk : Sock} {p : Packet} (htcp : sk.tcp = some ⟨.established, 2, 2⟩) (hplain : Plain p.tcp)
    (hnil : p.payload = []) (hseq : htonl p.tcp.seq = 2) (hack : htonl p.tcp.ackSeq = 2) :
    ∃ q, (tcpStateMachine anyRoute sk p.skb).sent = [q] ∧ Plain q.tcp ∧ q.payload = [] ∧ htonl q.tcp.seq = 2 ∧
      htonl q.tcp.ackSeq = 2 ∧ (tcpStateMachine anyRoute sk p.skb).sk.tcp = some ⟨.established, 2, 2⟩ := by
  have hzero : htonl p.skb.tcp.seq + BitVec.ofNat 32 p.skb.data.length = 2 := by
    rw [Packet.skb, hseq, hnil]
    rfl
  obtain ⟨-, hsent, htcp'⟩ := inOrder_connection anyRoute htcp rfl (show Plain p.skb.tcp from hplain) hseq.symm
  obtain ⟨q, hq⟩ : ∃ q, (tcpSendAck anyRoute sk ⟨.established, 2, 2⟩ p.skb.tcp p.skb.data.length).2 = some q :=
    ⟨_, rfl⟩
  obtain ⟨h1, h2, h3, h4⟩ := tcpSendAck_some hq
  refine ⟨q, by rw [hsent, hq]; rfl, h1, h2, by rw [h3]; exact hack, by rw [h4, htonl_htonl, hzero], ?_⟩
  rw [htcp', hzero]
  exact congrArg (fun x => some (TcpConnection.mk .established x 2)) hack

theorem pingPong_step {s t : Flight} {op : FlightOp} (h : PingPong s) (hok : Delivering s op)
    (hstep : flightStep s op = some t) : PingPong t := by
  obtain ⟨side, p, hp, hpeer, hplain, hnil, hseq, hack⟩ := h.flying
  cases op with
  | send side route message => exact hok.elim
  | timeout side' route =>
    cases hstep
    have hs : Settled (s.sk side') := by
      intro q hq
      rw [h.sk side'] at hq
      cases hq
      decide
    obtain ⟨hsk, htoward, -⟩ := timeout_settled hs route
    exact ⟨by rw [hsk]; exact h.sk, by rw [htoward]; exact h.flying⟩
  | deliver side' i route =>
    obtain rfl : route = anyRoute := hok
    rw [flightStep, Option.map_eq_some_iff] at hstep
    obtain ⟨p', hp', rfl⟩ := hstep
    -- the only segment in flight arrives, and its answer takes its place on the other side
    have hside : side' = side := by
      cases side <;> cases side' <;> first | rfl | (simp only [Side.peer] at hpeer; simp [hpeer] at hp')
    subst hside
    rw [hp, List.getElem?_singleton] at hp'
    split at hp'
    · next hi =>
      cases hp'
      subst hi
      obtain ⟨q, hq, h1, h2, h3, h4, h5⟩ := answer_bare (h.sk side') hplain hnil hseq hack
      have hne := peer_ne side'
      refine ⟨fun side => ?_, side'.peer, q, ?_, ?_, h1, h2, h3, h4⟩
      · by_cases hs : side = side'
        · subst hs
          simpa [Flight.deliver, Flight.emit] using h5
        · simpa [Flight.deliver, Flight.emit, hs] using h.sk side
      · simp [Flight.deliver, Flight.emit, hne, hpeer, hq]
      · have hpp : side'.peer.peer = side' := by cases side' <;> rfl
        rw [hpp]
        simp [Flight.deliver, Flight.emit, hne.symm, hp]
    · cases hp'

/-- **Acknowledgements that never end.** After a handshake, the client sends an empty message, and its timer runs out
before the acknowledgement arrives; the message is acknowledged twice. The second acknowledgement finds both sides
established, is answered, and so is every answer. -/
theorem deliveries_endless : ∃ client new s,
    handshake anyRoute anyRoute (connecting 1) (listening 1) kernelSocketCreate = some (client, new) ∧
    AnyRun (fun s op t => flightStep s op = some t) (Flight.start client new)
      [.send .a anyRoute [], .timeout .a anyRoute, .deliver .b 0 anyRoute, .deliver .b 0 anyRoute,
        .deliver .a 0 anyRoute] s ∧
    (∀ side, (s.sk side).tcp.map TcpConnection.state = some .established) ∧
    (∃ p ∈ s.toward .a, Bare p ∧ (tcpStateMachine anyRoute (s.sk .a) p.skb).sent ≠ []) ∧
    ∀ ops t, Run (fun s op t => flightStep s op = some t) Delivering s ops t → ∃ side, t.toward side ≠ [] := by
  have hexec : ∃ client new s,
      handshake anyRoute anyRoute (connecting 1) (listening 1) kernelSocketCreate = some (client, new) ∧
      exec flightStep (Flight.start client new) [.send .a anyRoute [], .timeout .a anyRoute, .deliver .b 0 anyRoute,
        .deliver .b 0 anyRoute, .deliver .a 0 anyRoute] = some s ∧ s.toward .a = [bareAck 2] ∧ s.toward .b = [] ∧
      (s.sk .a).tcp = some ⟨.established, 2, 2⟩ ∧ (s.sk .b).tcp = some ⟨.established, 2, 2⟩ :=
    ⟨_, _, _, rfl, rfl, rfl, rfl, rfl, rfl⟩
  obtain ⟨client, new, s, hconn, hrun, h1, h2, h3, h4⟩ := hexec
  have hsk : ∀ side, (s.sk side).tcp = some ⟨.established, 2, 2⟩ := by
    intro side
    cases side
    · exact h3
    · exact h4
  have hplain : Plain (bareAck 2).tcp := ⟨rfl, rfl, rfl, rfl⟩
  have hpong : PingPong s := ⟨hsk, .a, bareAck 2, h1, h2, hplain, rfl, htonl_htonl 2, htonl_htonl 2⟩
  obtain ⟨q, hq, -⟩ := answer_bare (hsk .a) hplain rfl (htonl_htonl 2) (htonl_htonl 2)
  refine ⟨client, new, s, hconn, run_of_exec hrun, fun side => by rw [hsk side]; rfl,
    ⟨bareAck 2, by rw [h1]; exact List.mem_singleton_self _, ⟨rfl, rfl, rfl, rfl⟩, by rw [hq]; simp⟩,
    fun ops t hrun' => ?_⟩
  have ht := hrun'.invariant (fun _ _ _ h hok hs => pingPong_step h hok hs) hpong
  obtain ⟨side, p, hp, -⟩ := ht.flying
  exact ⟨side, by rw [hp]; simp⟩

end RetrOS.Net
