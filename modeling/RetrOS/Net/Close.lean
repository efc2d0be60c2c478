import RetrOS.Net.Quiescence
import RetrOS.Net.FinOrder

/-!
# Closing a connection

`closeStep` : two sockets on a reliable channel that reorders; either of them calls `tcp_close_connection`, and
segments arrive. The side that closes goes through `TCP_CLOSE_WAIT` and `TCP_FIN_WAIT`, the other one through
`TCP_CLOSE_WAIT2`. In `TCP_CLOSE_WAIT` a FIN is dropped, and nobody sends it again.

* `machine_plain`, `machine_fin` : what an acknowledgement and a FIN do in each state;
* `Ending` : what a socket that is not closed may still expect from the channel, kept by every step in which no
  FIN arrives in `TCP_CLOSE_WAIT` (`closeStep_inv`);
* `close_ends` : **then the handshake ends with both sockets closed**;
* `close_swapped` : a FIN overtakes the acknowledgement before it.
-/

namespace RetrOS.Net

open RetrOS.Lib

inductive CloseOp
  | close (side : Side)
  | deliver (side : Side) (i : Nat)
  deriving DecidableEq

/-- The state of the connection of a side. -/
def Flight.state (s : Flight) (side : Side) : Option TcpState := (s.sk side).tcp.map TcpConnection.state

/-- A call of `tcp_close_connection`. -/
def Flight.close (s : Flight) (side : Side) (route : Route) (tcp : TcpConnection) : Flight :=
  let r := tcpCloseConnection route (s.sk side) tcp
  { s with sk := Function.update s.sk side r.1 }.emit side r.2.toList

/-- One step; `kernel_sock_shutdown` leaves a closed connection alone. -/
def closeStep (route : Side → Route) (s : Flight) : CloseOp → Option Flight
  | .close side => match (s.sk side).tcp with
    | none => none
    | some tcp => if tcp.state = .closed then none else some (s.close side (route side) tcp)
  | .deliver side i => flightStep s (.deliver side i (route side))

/-- The condition on a step: an established socket closes, and no FIN arrives in `TCP_CLOSE_WAIT`. -/
def Undisturbed (s : Flight) : CloseOp → Prop
  | .close side => s.state side = some .established
  | .deliver side i => ∀ p ∈ (s.toward side)[i]?, Answered p.tcp → s.state side ≠ some .closeWait

/-- Two established sockets; only data and acknowledgements are in flight. -/
structure Opened (s : Flight) : Prop where
  state : ∀ side, s.state side = some .established
  plain : ∀ side, ∀ p ∈ s.toward side, Plain p.tcp

/-- A FIN is in flight towards a side. -/
def FinTo (s : Flight) (side : Side) : Prop := ∃ p ∈ s.toward side, Answered p.tcp

/-- An acknowledgement is in flight towards a side. -/
def AckTo (s : Flight) (side : Side) : Prop := ∃ p ∈ s.toward side, Plain p.tcp

/-- A side has closed and waits for the FIN of the other one. -/
def Closer (s : Flight) (side : Side) : Prop := s.state side = some .closeWait ∨ s.state side = some .finWait

/-- How far a side is, and what it may still expect. -/
inductive Ending (s : Flight) (side : Side) : Prop
  | receives (h : s.state side = some .established) (hfin : FinTo s side) (hpeer : Closer s side.peer)
      (hsent : ∀ p ∈ s.toward side.peer, Plain p.tcp)
  | closes (h : Closer s side) (hfin : FinTo s side ∨ FinTo s side.peer ∧ s.state side.peer = some .established)
  | answers (h : s.state side = some .closeWait2) (hack : AckTo s side ∨ FinTo s side.peer ∧ Closer s side.peer)
  | ended (h : s.state side = some .closed)

/-- The invariant from the first `tcp_close_connection` on. -/
structure CloseInv (s : Flight) : Prop where
  known : ∀ side, ∀ p ∈ s.toward side, Plain p.tcp ∨ Answered p.tcp
  ending : ∀ side, Ending s side

@[simp] theorem peer_peer (side : Side) : side.peer.peer = side := by cases side <;> rfl

theorem Side.both {P : Side → Prop} (side : Side) (h : P side) (hpeer : P side.peer) (x : Side) : P x := by
  cases side <;> cases x <;> assumption

theorem not_plain_answered {hdr : TcpHeader} (hp : Plain hdr) (hf : Answered hdr) : False := by
  have h := hp.fin.symm.trans hf.1
  cases h

/-! ## What a segment does -/

section Segment
variable (route : Route) {sk : Sock} {tcp : TcpConnection} (skb : SkBuff)

theorem sendAck_plain {route : Route} (hroute : ∀ a, (route a).isSome) (sk : Sock) (tcp : TcpConnection)
    (hdr : TcpHeader) (len : Nat) : ∃ p, (tcpSendAck route sk tcp hdr len).2 = some p ∧ Plain p.tcp := by
  obtain ⟨saddr, hsaddr⟩ := Option.isSome_iff_exists.mp (hroute sk.recvAddr.addr)
  cases h : (tcpSendAck route sk tcp hdr len).2 with
  | none => simp [tcpSendAck, tcpSend, hsaddr] at h
  | some p => exact ⟨p, rfl, (tcpSendAck_some h).1⟩

theorem sendFin_answered {route : Route} (hroute : ∀ a, (route a).isSome) (sk : Sock) (tcp : TcpConnection) :
    ∃ p, (tcpSendFin route sk tcp).2 = some p ∧ Answered p.tcp := by
  obtain ⟨saddr, hsaddr⟩ := Option.isSome_iff_exists.mp (hroute sk.recvAddr.addr)
  refine ⟨_, by rw [tcpSendFin, tcpSend, hsaddr]; rfl, rfl, rfl, rfl⟩

/-- The state a data segment or an acknowledgement leaves. -/
def TcpState.acknowledged : TcpState → TcpState
  | .closeWait => .finWait
  | .closeWait2 => .closed
  | q => q

/-- **An acknowledgement moves a closing socket on**; what is sent for it is an acknowledgement. -/
theorem machine_plain (htcp : sk.tcp = some tcp) (hlive : tcp.state.Live) (hwait : tcp.state ≠ .waitAck)
    (hp : Plain skb.tcp) :
    (tcpStateMachine route sk skb).sk.tcp.map TcpConnection.state = some tcp.state.acknowledged ∧
      ∀ q ∈ (tcpStateMachine route sk skb).sent, Plain q.tcp := by
  rcases hlive with (h | h) | h | h | h | h
  · by_cases hseq : tcp.acknowledgement = htonl skb.tcp.seq
    · obtain ⟨-, hsent, htcp'⟩ := inOrder_connection route htcp h hp hseq
      rw [hsent, htcp', h]
      exact ⟨rfl, fun q hq => (tcpSendAck_some (Option.mem_toList.mp hq)).1⟩
    · rw [established_outOfOrder route htcp h hp hseq]
      exact ⟨by rw [drop, htcp, h, Option.map_some, h]; rfl, fun q hq => by cases hq⟩
  · exact absurd h hwait
  all_goals
    rw [tcpStateMachine, htcp]
    dsimp only
    rw [h]
    dsimp only
  · rw [recvCloseWait, if_pos ⟨by simp [hp.fin], hp.ack⟩]
    exact ⟨rfl, fun q hq => by cases hq⟩
  · rw [recvFinWait, if_neg (by simp [hp.fin])]
    exact ⟨by rw [drop, htcp, Option.map_some, h]; rfl, fun q hq => by cases hq⟩
  · rw [recvCloseWait2, if_pos ⟨by simp [hp.fin], hp.ack⟩]
    refine ⟨?_, fun q hq => by cases hq⟩
    dsimp only [drop]
    split <;> rfl
  · exact ⟨by rw [drop, htcp, Option.map_some, h]; rfl, fun q hq => by cases hq⟩

/-- A FIN that reaches an established socket is answered with an acknowledgement and a FIN. -/
theorem machine_fin_established {route : Route} (hroute : ∀ a, (route a).isSome) (htcp : sk.tcp = some tcp)
    (hstate : tcp.state = .established) (hf : Answered skb.tcp) :
    ∃ p q, Plain p.tcp ∧ Answered q.tcp ∧ (tcpStateMachine route sk skb).sent = [p, q] := by
  rw [tcpStateMachine, htcp]
  dsimp only
  rw [hstate]
  dsimp only
  rw [recvEstablished, if_neg (by simp [hf.2.2]), if_neg (by simp [hf.1]), if_pos ⟨hf.1, hf.2.1⟩]
  dsimp only
  obtain ⟨p, hp, hplain⟩ := sendAck_plain hroute sk tcp skb.tcp 1
  obtain ⟨q, hq, hans⟩ := sendFin_answered hroute (tcpSendAck route sk tcp skb.tcp 1).1
    ⟨.closeWait2, htonl skb.tcp.ackSeq, htonl skb.tcp.seq + 1⟩
  exact ⟨p, q, hplain, hans, by rw [hp, hq]; rfl⟩

/-- A FIN that reaches a socket in `TCP_FIN_WAIT` is acknowledged and closes it. -/
theorem machine_fin_finWait {route : Route} (hroute : ∀ a, (route a).isSome) (htcp : sk.tcp = some tcp)
    (hstate : tcp.state = .finWait) (hf : Answered skb.tcp) :
    (tcpStateMachine route sk skb).sk.tcp.map TcpConnection.state = some .closed ∧
      ∃ p, Plain p.tcp ∧ (tcpStateMachine route sk skb).sent = [p] := by
  rw [tcpStateMachine, htcp]
  dsimp only
  rw [hstate]
  dsimp only
  rw [recvFinWait, if_pos ⟨hf.1, hf.2.1⟩]
  obtain ⟨p, hp, hplain⟩ := sendAck_plain hroute sk { tcp with state := .closed } skb.tcp 1
  exact ⟨rfl, p, hplain, by dsimp only; rw [hp]; rfl⟩

/-- In the other states a FIN is dropped. -/
theorem machine_fin_drop (htcp : sk.tcp = some tcp) (hstate : tcp.state = .closeWait2 ∨ tcp.state = .closed)
    (hf : Answered skb.tcp) : tcpStateMachine route sk skb = drop sk := by
  rw [tcpStateMachine, htcp]
  dsimp only
  rcases hstate with h | h
  · rw [h]
    dsimp only
    rw [recvCloseWait2, if_neg (by simp [hf.1])]
  · rw [h]

end Segment

/-! ## One step -/

section Step
variable {route : Side → Route} {s t : Flight} {side : Side} {i : Nat} {p : Packet}

/-- What a delivery to `side` does: `side` goes from the state `q` to `q'` and sends `l`; the rest stays. -/
structure Delivers (s t : Flight) (side : Side) (p : Packet) (q q' : TcpState) (l : List Packet) : Prop where
  before : s.state side = some q
  after : t.state side = some q'
  peer : t.state side.peer = s.state side.peer
  sent : t.toward side.peer = s.toward side.peer ++ l
  lost : ∀ r ∈ t.toward side, r ∈ s.toward side
  kept : ∀ r ∈ s.toward side, r ≠ p → r ∈ t.toward side

theorem deliver_delivers {tcp : TcpConnection} {q' : TcpState} (r : Route) (htcp : (s.sk side).tcp = some tcp)
    (hp : (s.toward side)[i]? = some p)
    (hq' : (tcpStateMachine r (s.sk side) p.skb).sk.tcp.map TcpConnection.state = some q') :
    Delivers s (s.deliver side i r p) side p tcp.state q' (tcpStateMachine r (s.sk side) p.skb).sent := by
  have hne := peer_ne side
  refine ⟨by rw [Flight.state, htcp]; rfl, ?_, ?_, ?_, fun x hx => ?_, fun x hx hxp => ?_⟩
  · simpa [Flight.deliver, Flight.emit, Flight.state] using hq'
  · simp [Flight.deliver, Flight.emit, Flight.state, hne]
  · simp [Flight.deliver, Flight.emit, hne]
  · simp only [Flight.deliver, Flight.emit, Function.update_of_ne hne.symm, Function.update_self] at hx
    exact List.mem_of_mem_eraseIdx hx
  · simp only [Flight.deliver, Flight.emit, Function.update_of_ne hne.symm, Function.update_self]
    rw [List.mem_eraseIdx_iff_getElem?]
    obtain ⟨j, hj⟩ := List.mem_iff_getElem?.mp hx
    refine ⟨j, fun hji => hxp ?_, hj⟩
    subst hji
    exact Option.some.inj (hj.symm.trans hp)

variable {q q' : TcpState} {l : List Packet}

theorem Delivers.known (h : Delivers s t side p q q' l)
    (hinv : ∀ x, ∀ r ∈ s.toward x, Plain r.tcp ∨ Answered r.tcp) (hl : ∀ r ∈ l, Plain r.tcp ∨ Answered r.tcp) :
    ∀ x, ∀ r ∈ t.toward x, Plain r.tcp ∨ Answered r.tcp := by
  refine Side.both side (fun r hr => hinv side r (h.lost r hr)) fun r hr => ?_
  rw [h.sent] at hr
  rcases List.mem_append.mp hr with hr | hr
  · exact hinv side.peer r hr
  · exact hl r hr

/-- What is in flight towards the other side stays. -/
theorem Delivers.peer_mem (h : Delivers s t side p q q' l) {r : Packet} (hr : r ∈ s.toward side.peer) :
    r ∈ t.toward side.peer := by
  rw [h.sent]
  exact List.mem_append_left _ hr

theorem Delivers.finTo_peer (h : Delivers s t side p q q' l) (hfin : FinTo s side.peer) : FinTo t side.peer :=
  hfin.imp fun _ hr => ⟨h.peer_mem hr.1, hr.2⟩

theorem Delivers.ackTo_peer (h : Delivers s t side p q q' l) (hack : AckTo s side.peer) : AckTo t side.peer :=
  hack.imp fun _ hr => ⟨h.peer_mem hr.1, hr.2⟩

theorem Delivers.closer_peer (h : Delivers s t side p q q' l) (hc : Closer s side.peer) : Closer t side.peer := by
  unfold Closer
  rw [h.peer]
  exact hc

/-- An acknowledgement is delivered. -/
theorem CloseInv.plain (h : CloseInv s) (hd : Delivers s t side p q q.acknowledged l) (hp : Plain p.tcp)
    (hl : ∀ r ∈ l, Plain r.tcp) : CloseInv t := by
  have hbefore := hd.before
  have hafter := hd.after
  -- the FIN of the other side is still in flight
  have hfin : FinTo s side → FinTo t side := fun ⟨r, hr, hans⟩ =>
    ⟨r, hd.kept r hr fun heq => not_plain_answered hp (heq ▸ hans), hans⟩
  have hcloser : Closer s side → Closer t side := by
    rintro (hc | hc)
    · obtain rfl := Option.some.inj (hbefore.symm.trans hc)
      exact .inr hafter
    · obtain rfl := Option.some.inj (hbefore.symm.trans hc)
      exact .inr hafter
  have hest : s.state side = some .established → t.state side = some .established := by
    intro he
    obtain rfl := Option.some.inj (hbefore.symm.trans he)
    exact hafter
  refine ⟨hd.known h.known fun r hr => .inl (hl r hr), Side.both side ?_ ?_⟩
  · cases h.ending side with
    | receives he hf hpeer hsent =>
      refine .receives (hest he) (hfin hf) (hd.closer_peer hpeer) fun r hr => ?_
      rw [hd.sent] at hr
      rcases List.mem_append.mp hr with hr | hr
      · exact hsent r hr
      · exact hl r hr
    | closes hc hf =>
      refine .closes (hcloser hc) (hf.imp hfin fun hf => ⟨hd.finTo_peer hf.1, ?_⟩)
      rw [hd.peer]
      exact hf.2
    | answers he _ =>
      obtain rfl := Option.some.inj (hbefore.symm.trans he)
      exact .ended hafter
    | ended he =>
      obtain rfl := Option.some.inj (hbefore.symm.trans he)
      exact .ended hafter
  · cases h.ending side.peer with
    | receives he hf hpeer hsent =>
      rw [peer_peer] at hpeer hsent
      refine .receives (hd.peer.trans he) (hd.finTo_peer hf) ?_ ?_
      · rw [peer_peer]
        exact hcloser hpeer
      · rw [peer_peer]
        exact fun r hr => hsent r (hd.lost r hr)
    | closes hc hf =>
      refine .closes (hd.closer_peer hc) (hf.imp hd.finTo_peer ?_)
      rw [peer_peer]
      exact fun hf => ⟨hfin hf.1, hest hf.2⟩
    | answers he hack =>
      refine .answers (hd.peer.trans he) (hack.imp hd.ackTo_peer ?_)
      rw [peer_peer]
      exact fun hf => ⟨hfin hf.1, hcloser hf.2⟩
    | ended he => exact .ended (hd.peer.trans he)

/-- A FIN is delivered to an established socket. -/
theorem CloseInv.fin_established (h : CloseInv s) (hd : Delivers s t side p .established .closeWait2 l)
    (hl : ∃ r r', Plain r.tcp ∧ Answered r'.tcp ∧ l = [r, r']) : CloseInv t := by
  obtain ⟨r, r', hr, hr', rfl⟩ := hl
  have hfin : FinTo t side.peer := ⟨r', by rw [hd.sent]; simp, hr'⟩
  have hpeer : Closer s side.peer := by
    cases h.ending side with
    | receives _ _ hpeer _ => exact hpeer
    | closes hc _ => rcases hc with hc | hc <;> exact nomatch hd.before.symm.trans hc
    | answers he _ => exact nomatch hd.before.symm.trans he
    | ended he => exact nomatch hd.before.symm.trans he
  have hpeer' : Closer t side.peer := hd.closer_peer hpeer
  refine ⟨hd.known h.known ?_, Side.both side (.answers hd.after (.inr ⟨hfin, hpeer'⟩)) (.closes hpeer' (.inl hfin))⟩
  simp [hr, hr']

/-- A FIN is delivered to a socket that waits for it. -/
theorem CloseInv.fin_finWait (h : CloseInv s) (hd : Delivers s t side p .finWait .closed l)
    (hp : Answered p.tcp) (hmem : p ∈ s.toward side) (hl : ∃ r, Plain r.tcp ∧ l = [r]) : CloseInv t := by
  obtain ⟨r, hr, rfl⟩ := hl
  have hack : AckTo t side.peer := ⟨r, by rw [hd.sent]; simp, hr⟩
  refine ⟨hd.known h.known (by simp [hr]), Side.both side (.ended hd.after) ?_⟩
  cases h.ending side.peer with
  | receives _ _ _ hsent =>
    -- the FIN was sent by a side that is not established
    rw [peer_peer] at hsent
    exact (not_plain_answered (hsent p hmem) hp).elim
  | closes hc hf =>
    refine .closes (hd.closer_peer hc) (.inl ?_)
    rcases hf with hf | ⟨-, hf⟩
    · exact hd.finTo_peer hf
    · rw [peer_peer] at hf
      exact nomatch hd.before.symm.trans hf
  | answers he _ => exact .answers (hd.peer.trans he) (.inl hack)
  | ended he => exact .ended (hd.peer.trans he)

/-- A FIN is dropped. -/
theorem CloseInv.fin_drop (h : CloseInv s) (hd : Delivers s t side p q q []) (hp : Answered p.tcp)
    (hq : q = .closeWait2 ∨ q = .closed) : CloseInv t := by
  have hopen : ¬ Closer s side ∧ s.state side ≠ some .established := by
    unfold Closer
    rw [hd.before]
    rcases hq with rfl | rfl <;> simp
  refine ⟨hd.known h.known (by simp), Side.both side ?_ ?_⟩
  · cases h.ending side with
    | receives he _ _ _ => exact (hopen.2 he).elim
    | closes hc _ => exact (hopen.1 hc).elim
    | answers he hack =>
      obtain rfl := Option.some.inj (hd.before.symm.trans he)
      refine .answers hd.after (hack.imp ?_ fun hf => ⟨hd.finTo_peer hf.1, hd.closer_peer hf.2⟩)
      exact fun ⟨r, hr, hplain⟩ => ⟨r, hd.kept r hr fun heq => not_plain_answered hplain (heq ▸ hp), hplain⟩
    | ended he =>
      obtain rfl := Option.some.inj (hd.before.symm.trans he)
      exact .ended hd.after
  · cases h.ending side.peer with
    | receives _ _ hpeer _ =>
      rw [peer_peer] at hpeer
      exact (hopen.1 hpeer).elim
    | closes hc hf =>
      rw [peer_peer] at hf
      exact .closes (hd.closer_peer hc) (.inl (hd.finTo_peer (hf.resolve_right fun hf => hopen.2 hf.2)))
    | answers he hack =>
      rw [peer_peer] at hack
      exact .answers (hd.peer.trans he) (.inl (hd.ackTo_peer (hack.resolve_right fun hf => hopen.1 hf.2)))
    | ended he => exact .ended (hd.peer.trans he)

end Step

/-! ## Runs -/

section Runs
variable {route : Side → Route} {s t : Flight} {op : CloseOp}

theorem Ending.live {side : Side} (h : Ending s side) :
    ∃ tcp, (s.sk side).tcp = some tcp ∧ tcp.state.Live ∧ tcp.state ≠ .waitAck := by
  have hstate : ∃ q, s.state side = some q ∧ q.Live ∧ q ≠ .waitAck := by
    cases h with
    | receives he _ _ _ => exact ⟨_, he, .inl (.inl rfl), by decide⟩
    | closes hc _ =>
      rcases hc with hc | hc
      · exact ⟨_, hc, .inr (.inl rfl), by decide⟩
      · exact ⟨_, hc, .inr (.inr (.inl rfl)), by decide⟩
    | answers he _ => exact ⟨_, he, .inr (.inr (.inr (.inl rfl))), by decide⟩
    | ended he => exact ⟨_, he, live_closed, by decide⟩
  obtain ⟨q, hq, hlive, hwait⟩ := hstate
  rw [Flight.state, Option.map_eq_some_iff] at hq
  obtain ⟨tcp, htcp, rfl⟩ := hq
  exact ⟨tcp, htcp, hlive, hwait⟩

theorem CloseInv.deliver {side : Side} {i : Nat} {p : Packet} (hroute : ∀ side a, (route side a).isSome)
    (h : CloseInv s) (hp : (s.toward side)[i]? = some p)
    (hok : Answered p.tcp → s.state side ≠ some .closeWait) : CloseInv (s.deliver side i (route side) p) := by
  obtain ⟨tcp, htcp, hlive, hwait⟩ := (h.ending side).live
  have hmem : p ∈ s.toward side := List.mem_of_getElem? hp
  have hstate : s.state side = some tcp.state := by rw [Flight.state, htcp]; rfl
  rcases h.known side p hmem with hplain | hans
  · obtain ⟨hq, hl⟩ := machine_plain (route side) p.skb htcp hlive hwait hplain
    exact h.plain (deliver_delivers _ htcp hp hq) hplain hl
  · rcases hlive with (hq | hq) | hq | hq | hq | hq
    · have hd := deliver_delivers (route side) htcp hp (established_fin (route side) p.skb htcp hq hans)
      rw [hq] at hd
      exact h.fin_established hd
        ((machine_fin_established p.skb (hroute side) htcp hq hans).imp fun _ => Exists.imp fun _ hr => hr)
    · exact (hwait hq).elim
    · rw [hq] at hstate
      exact (hok hans hstate).elim
    · obtain ⟨hclosed, hl⟩ := machine_fin_finWait p.skb (hroute side) htcp hq hans
      have hd := deliver_delivers (route side) htcp hp hclosed
      rw [hq] at hd
      exact h.fin_finWait hd hans hmem hl
    all_goals
      have hdrop := machine_fin_drop (route side) p.skb htcp (by simp [hq]) hans
      have hsame : (tcpStateMachine (route side) (s.sk side) p.skb).sk.tcp.map TcpConnection.state =
          some tcp.state := by rw [hdrop, drop, htcp]; rfl
      have hd := deliver_delivers (route side) htcp hp hsame
      rw [hdrop] at hd
      exact h.fin_drop hd hans (by simp [hq])

/-- While nobody has closed, an acknowledgement changes nothing. -/
theorem Opened.deliver {side : Side} {i : Nat} {p : Packet} (h : Opened s) (hp : (s.toward side)[i]? = some p) :
    Opened (s.deliver side i (route side) p) := by
  have hstate := h.state side
  rw [Flight.state, Option.map_eq_some_iff] at hstate
  obtain ⟨tcp, htcp, hq⟩ := hstate
  have hplain := h.plain side p (List.mem_of_getElem? hp)
  obtain ⟨hafter, hl⟩ := machine_plain (route side) p.skb htcp (.inl (.inl hq)) (by rw [hq]; decide) hplain
  rw [hq] at hafter
  have hd := deliver_delivers (route side) htcp hp hafter
  refine ⟨Side.both side hd.after (hd.peer.trans (h.state side.peer)), Side.both side ?_ fun r hr => ?_⟩
  · exact fun r hr => h.plain side r (hd.lost r hr)
  · rw [hd.sent] at hr
    rcases List.mem_append.mp hr with hr | hr
    · exact h.plain side.peer r hr
    · exact hl r hr

/-- What a call of `tcp_close_connection` does. -/
theorem close_effect (s : Flight) (side : Side) (tcp : TcpConnection) (hroute : ∀ side a, (route side a).isSome) :
    (s.close side (route side) tcp).state side = some .closeWait ∧
      (s.close side (route side) tcp).state side.peer = s.state side.peer ∧
      (s.close side (route side) tcp).toward side = s.toward side ∧
      ∃ p, Answered p.tcp ∧ (s.close side (route side) tcp).toward side.peer = s.toward side.peer ++ [p] := by
  have hne := peer_ne side
  obtain ⟨p, hp, hans⟩ := sendFin_answered (hroute side) (s.sk side) { tcp with state := .closeWait }
  have hp : (tcpCloseConnection (route side) (s.sk side) tcp).2 = some p := hp
  refine ⟨?_, ?_, ?_, p, hans, ?_⟩
  · simp [Flight.close, Flight.emit, Flight.state, tcpCloseConnection, tcpSendFin, Sock.withTcp]
  · simp [Flight.close, Flight.emit, Flight.state, hne]
  · simp [Flight.close, Flight.emit, hne.symm]
  · simp [Flight.close, Flight.emit, hp]

/-- After a call of `tcp_close_connection` by an established side, whatever the other one has done. -/
theorem closeInv_close {side : Side} {tcp : TcpConnection} (hroute : ∀ side a, (route side a).isSome)
    (hknown : ∀ side, ∀ p ∈ s.toward side, Plain p.tcp ∨ Answered p.tcp)
    (hpeer : s.state side.peer = some .established ∧ (∀ p ∈ s.toward side, Plain p.tcp) ∨
      Closer s side.peer ∧ FinTo s side) : CloseInv (s.close side (route side) tcp) := by
  obtain ⟨h1, h2, h3, p, hp, h4⟩ := close_effect s side tcp hroute
  have hfin : FinTo (s.close side (route side) tcp) side.peer := ⟨p, by rw [h4]; simp, hp⟩
  refine ⟨Side.both side ?_ fun r hr => ?_, ?_⟩
  · rw [h3]
    exact hknown side
  · rw [h4] at hr
    rcases List.mem_append.mp hr with hr | hr
    · exact hknown side.peer r hr
    · rw [List.mem_singleton.mp hr]
      exact .inr hp
  · rcases hpeer with ⟨he, hplain⟩ | ⟨hc, hf⟩
    · refine Side.both side (.closes (.inl h1) (.inr ⟨hfin, h2.trans he⟩))
        (.receives (h2.trans he) hfin ?_ ?_)
      · rw [peer_peer]
        exact .inl h1
      · rw [peer_peer, h3]
        exact hplain
    · have hf' : FinTo (s.close side (route side) tcp) side := by
        unfold FinTo
        rw [h3]
        exact hf
      refine Side.both side (.closes (.inl h1) (.inl hf')) (.closes ?_ (.inl hfin))
      unfold Closer
      rw [h2]
      exact hc

theorem closeStep_close {side : Side} (hstep : closeStep route s (.close side) = some t) :
    ∃ tcp, t = s.close side (route side) tcp := by
  rw [closeStep] at hstep
  split at hstep
  · cases hstep
  · split at hstep
    · cases hstep
    · exact ⟨_, (Option.some.inj hstep).symm⟩

theorem closeStep_deliver {side : Side} {i : Nat} (hstep : closeStep route s (.deliver side i) = some t) :
    ∃ p, (s.toward side)[i]? = some p ∧ t = s.deliver side i (route side) p := by
  rw [closeStep, flightStep, Option.map_eq_some_iff] at hstep
  exact hstep.imp fun _ hp => ⟨hp.1, hp.2.symm⟩

/-- **One step** of the handshake. -/
theorem closeStep_inv (hroute : ∀ side a, (route side a).isSome) (h : CloseInv s) (hok : Undisturbed s op)
    (hstep : closeStep route s op = some t) : CloseInv t := by
  cases op with
  | close side =>
    obtain ⟨tcp, rfl⟩ := closeStep_close hstep
    have hstate : s.state side = some .established := hok
    cases h.ending side with
    | receives _ hf hpeer _ => exact closeInv_close hroute h.known (.inr ⟨hpeer, hf⟩)
    | closes hc _ => rcases hc with hc | hc <;> exact nomatch hstate.symm.trans hc
    | answers he _ => exact nomatch hstate.symm.trans he
    | ended he => exact nomatch hstate.symm.trans he
  | deliver side i =>
    obtain ⟨p, hp, rfl⟩ := closeStep_deliver hstep
    exact h.deliver hroute hp (hok p hp)

/-- The first `tcp_close_connection` begins the handshake. -/
theorem Opened.step (hroute : ∀ side a, (route side a).isSome) (h : Opened s)
    (hstep : closeStep route s op = some t) : (Opened t ∧ ∀ side, op ≠ .close side) ∨ CloseInv t := by
  cases op with
  | close side =>
    obtain ⟨tcp, rfl⟩ := closeStep_close hstep
    exact .inr (closeInv_close hroute (fun side p hp => .inl (h.plain side p hp))
      (.inl ⟨h.state side.peer, h.plain side⟩))
  | deliver side i =>
    obtain ⟨p, hp, rfl⟩ := closeStep_deliver hstep
    exact .inl ⟨h.deliver hp, fun _ he => by cases he⟩

theorem Opened.run {ops : List CloseOp} (hroute : ∀ side a, (route side a).isSome) (h : Opened s)
    (hrun : Run (fun s op t => closeStep route s op = some t) Undisturbed s ops t) :
    (∀ side, .close side ∉ ops) ∨ CloseInv t := by
  induction hrun with
  | nil s => exact .inl fun _ he => by cases he
  | cons _ hstep hrest ih =>
    rcases h.step hroute hstep with ⟨hopen, hop⟩ | hinv
    · refine (ih hopen).imp_left fun hops side he => ?_
      rcases List.mem_cons.mp he with he | he
      · exact hop side he.symm
      · exact hops side he
    · exact .inr (hrest.invariant (fun _ _ _ h hok hs => closeStep_inv hroute h hok hs) hinv)

/-- When nothing is in flight, nobody waits any more. -/
theorem CloseInv.closed (h : CloseInv s) (hempty : ∀ side, s.toward side = []) (side : Side) :
    s.state side = some .closed := by
  have hfin : ∀ side, ¬ FinTo s side := by
    rintro side ⟨p, hp, _⟩
    rw [hempty side] at hp
    cases hp
  have hack : ∀ side, ¬ AckTo s side := by
    rintro side ⟨p, hp, _⟩
    rw [hempty side] at hp
    cases hp
  cases h.ending side with
  | receives _ hf _ _ => exact (hfin _ hf).elim
  | closes _ hf => exact (hf.elim (hfin _) fun hf => hfin _ hf.1).elim
  | answers _ hf => exact (hf.elim (hack _) fun hf => hfin _ hf.1).elim
  | ended he => exact he

end Runs

/-- **The handshake ends**: from two established sockets on a channel that loses nothing, in every run in which only
established sockets close and no FIN arrives in `TCP_CLOSE_WAIT`, both sockets are closed when a socket has closed
and nothing is in flight. -/
theorem close_ends {route : Side → Route} {s t : Flight} {ops : List CloseOp} {side : Side}
    (hroute : ∀ side a, (route side a).isSome) (hopen : Opened s)
    (hrun : Run (fun s op t => closeStep route s op = some t) Undisturbed s ops t) (hclose : .close side ∈ ops)
    (hempty : ∀ side, t.toward side = []) (x : Side) : t.state x = some .closed :=
  ((hopen.run hroute hrun).resolve_left fun hnone => hnone side hclose).closed hempty x

/-- Two sockets that are established with each other. -/
def openFlight : Flight := Flight.start connectedSock connectedSock

theorem opened_openFlight : Opened openFlight :=
  ⟨fun side => by cases side <;> rfl, fun side p hp => by cases side <;> cases hp⟩

/-- `a` closes; its FIN arrives, then the acknowledgement and the FIN of `b` in the order they were sent, and the
last acknowledgement. -/
theorem close_ends_orderly : ∃ t, Run (fun s op t => closeStep (fun _ => anyRoute) s op = some t) Undisturbed openFlight
    [.close .a, .deliver .b 0, .deliver .a 0, .deliver .a 0, .deliver .b 0] t ∧ ∀ side, t.state side = some .closed := by
  have hrun : ∃ t, Run (fun s op t => closeStep (fun _ => anyRoute) s op = some t) Undisturbed openFlight
      [.close .a, .deliver .b 0, .deliver .a 0, .deliver .a 0, .deliver .b 0] t ∧ ∀ side, t.toward side = [] := by
    refine ⟨_, .cons rfl rfl (.cons ?_ rfl (.cons ?_ rfl (.cons ?_ rfl (.single ?_ rfl)))), fun side => ?_⟩
    · exact fun _ _ _ h => nomatch h
    · rintro p ⟨⟩ h
      cases h.1
    · exact fun _ _ _ h => nomatch h
    · exact fun _ _ _ h => nomatch h
    · cases side <;> rfl
  obtain ⟨t, hrun, hempty⟩ := hrun
  exact ⟨t, hrun, close_ends (fun _ _ => rfl) opened_openFlight hrun List.mem_cons_self hempty⟩

/-- The FIN of `b` overtakes the acknowledgement before it: `a` waits for a FIN that nobody sends again, and `b` for
its acknowledgement. -/
theorem close_swapped : ∃ t, AnyRun (fun s op t => closeStep (fun _ => anyRoute) s op = some t) openFlight
    [.close .a, .deliver .b 0, .deliver .a 1, .deliver .a 0] t ∧ (∀ side, t.toward side = []) ∧
      t.state .a = some .finWait ∧ t.state .b = some .closeWait2 := by
  have hexec : ∃ t, exec (closeStep fun _ => anyRoute) openFlight
      [.close .a, .deliver .b 0, .deliver .a 1, .deliver .a 0] = some t ∧ t.toward .a = [] ∧ t.toward .b = [] ∧
        t.state .a = some .finWait ∧ t.state .b = some .closeWait2 := ⟨_, rfl, rfl, rfl, rfl, rfl⟩
  obtain ⟨t, hrun, ha, hb, hstates⟩ := hexec
  exact ⟨t, run_of_exec hrun, fun side => by cases side <;> assumption, hstates⟩

/-- Both sides close at once: each drops the FIN of the other one. -/
example : ∃ t, exec (closeStep fun _ => anyRoute) openFlight
    [.close .a, .close .b, .deliver .a 0, .deliver .b 0] = some t ∧ t.toward .a = [] ∧ t.toward .b = [] ∧
      t.state .a = some .closeWait ∧ t.state .b = some .closeWait := ⟨_, rfl, rfl, rfl, rfl, rfl⟩

end RetrOS.Net
