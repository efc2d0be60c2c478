import RetrOS.Net.Receive
import RetrOS.Lib.Run

/-!
# Who owns a buffer

`NetLayer.owners` : how often the buffer at an address has been freed, or is in the work queue, in the retry queue,
in the backlog of a listener or in the queue of a socket. A step of the network threads accounts for every buffer
when it adds one owner for the frame that it takes from the receive queue, and changes nothing otherwise.

* `addData_owns` : `net_sock_add_data` with its callers loses the segment when the ring buffer is full: the result
  is negative then, as it is for a segment in the queue;
* `machine_owns` : `tcp_state_machine`, state by state;
* `netStep_accounts_iff` : a step accounts for every buffer exactly when no work queue and no ring buffer is full;
* `netRun_owners` : **in every run of such steps each buffer has exactly one owner**;
* `netStep_lost` : a frame that finds the work queue full.
-/

namespace RetrOS.Net

open RetrOS.RBuffer RetrOS.Lib

/-- The number of buffers of a list that lie at the address `a`. -/
def copies (a : Nat) (l : List SkBuff) : Nat := (l.map SkBuff.addr).count a

/-- The buffers at `a` in the queues of a socket. -/
def Sock.owns (sk : Sock) (a : Nat) : Nat := copies a sk.backlog.queue + copies a sk.skbQueue

/-- The buffers at `a` in the queues of a slot of the socket table. -/
def slotOwns (a : Nat) (o : Option Sock) : Nat := o.elim 0 fun sk => sk.owns a

def NetLayer.owners (st : NetLayer) (a : Nat) : Nat :=
  copies a (st.works.map Frame.skb) + copies a st.retryQueue + copies a st.freed + (st.table.map (slotOwns a)).sum

/-- The buffer that a step takes from the receive queue. -/
def NetOp.arrives : NetOp → List SkBuff
  | .poll f => [f.skb]
  | _ => []

/-- A step accounts for every buffer. -/
def Accounts (st st' : NetLayer) (op : NetOp) : Prop := ∀ a, st'.owners a = st.owners a + copies a op.arrives

/-- A segment is put into the queue, or the ring buffer has room for it. -/
def Sock.room (sk : Sock) (skb : SkBuff) : Prop :=
  netSockDataReady sk netMaxBufferSize ∨
    (skb.data.length : Int) ≤ sk.recvBuffer.size - sk.recvBuffer.stop + sk.recvBuffer.start

/-- An established socket accepts the segment: it is plain and in order. -/
def Sock.takes (sk : Sock) (skb : SkBuff) : Prop :=
  (skb.tcp.rst = false ∧ skb.tcp.syn = false ∧ skb.tcp.ack = true ∧ skb.tcp.fin = false) ∧
    sk.tcp.map (fun tcp => (tcp.state, tcp.acknowledgement)) = some (.established, htonl skb.tcp.seq)

/-- The socket a segment goes to. -/
def tcpReceiver (table : List (Option Sock)) (skb : SkBuff) : Option Sock :=
  (netSockFindTcp table skb.tcp.source skb.tcp.dest (htonl skb.saddr)).bind fun i => table[i]?.join

/-- The socket a datagram goes to. -/
def udpReceiver (table : List (Option Sock)) (f : Frame) : Option Sock :=
  (netSocketFindUdp table (ntohl f.ip.daddr) (ntohs f.destport)).bind fun i => table[i]?.join

/-- If a socket accepts the segment, it has room for it. -/
def TcpRoom (table : List (Option Sock)) (skb : SkBuff) : Prop :=
  ∀ sk ∈ tcpReceiver table skb, sk.takes skb → sk.room skb

/-- The frame is an IP packet for this host. -/
def Frame.passes (iface : Interface) (f : Frame) : Prop :=
  netEthernetParse iface f = 0 ∧ ntohs f.ethertype = ethertypeIp ∧ netIpv4Parse iface f = 0

/-- The socket that is given the payload of the frame has room for it. -/
def FrameRoom (iface : Interface) (table : List (Option Sock)) (f : Frame) : Prop :=
  f.passes iface → (f.ip.proto = protoUdp → ∀ sk ∈ udpReceiver table f, sk.room f.skb) ∧
    (f.ip.proto = protoTcp → TcpRoom table f.skb)

/-- The condition on a step: a frame finds room in the work queue, and a payload in the ring buffer of its socket. -/
def Room (iface : Interface) (st : NetLayer) : NetOp → Prop
  | .poll _ => st.works.length < workPoolSize
  | .work => ∀ f ∈ st.works.head?, FrameRoom iface st.table f
  | .retry => ∀ skb ∈ st.retryQueue.head?, TcpRoom st.table skb

instance (sk : Sock) (skb : SkBuff) : Decidable (sk.room skb) := inferInstanceAs (Decidable (_ ∨ _))

instance (sk : Sock) (skb : SkBuff) : Decidable (sk.takes skb) := inferInstanceAs (Decidable (_ ∧ _))

@[simp] theorem copies_nil (a : Nat) : copies a [] = 0 := rfl

@[simp] theorem copies_append (a : Nat) (l l' : List SkBuff) : copies a (l ++ l') = copies a l + copies a l' := by
  simp [copies]

theorem copies_cons (a : Nat) (skb : SkBuff) (l : List SkBuff) : copies a (skb :: l) = copies a [skb] + copies a l :=
  copies_append a [skb] l

theorem copies_self (skb : SkBuff) : copies skb.addr [skb] = 1 := by
  simp [copies]

/-- What is kept of a buffer. -/
def keeps (a : Nat) (skb : SkBuff) (p : Prop) [Decidable p] : Nat := if p then copies a [skb] else 0

/-! ## One segment -/

section Segment
variable {route : Route} {sk : Sock} {tcp : TcpConnection} {skb : SkBuff}

theorem segment_queue (sk : Sock) (skb : SkBuff) :
    (netSockAddDataSegment sk skb).2.backlog = sk.backlog ∧ (netSockAddDataSegment sk skb).2.skbQueue = sk.skbQueue := by
  unfold netSockAddDataSegment
  dsimp only
  split <;> exact ⟨rfl, rfl⟩

theorem segment_zero_iff (sk : Sock) (skb : SkBuff) : (netSockAddDataSegment sk skb).1 = 0 ↔
    (skb.data.length : Int) ≤ sk.recvBuffer.size - sk.recvBuffer.stop + sk.recvBuffer.start := by
  unfold netSockAddDataSegment ringBufferAdd
  dsimp only
  split
  · simp only [errorRbufferFull]
    rw [if_pos (by decide)]
    dsimp only
    omega
  · split
    all_goals
      rw [if_neg (by dsimp only; omega)]
      dsimp only
      omega

/-- Every segment of the queue is freed or stays in the queue. -/
theorem drain_queue (l : List SkBuff) (sk : Sock) :
    drainFrees l sk ++ (drainQueue l sk).skbQueue = l ∧ (drainQueue l sk).backlog = sk.backlog := by
  induction l generalizing sk with
  | nil => exact ⟨rfl, rfl⟩
  | cons skb rest ih =>
    rw [drainFrees, drainQueue]
    split
    · exact ⟨rfl, rfl⟩
    · obtain ⟨h1, h2⟩ := ih (netSockAddDataSegment { sk with skbQueue := rest } skb).2
      refine ⟨by rw [List.cons_append, h1], ?_⟩
      rw [h2, (segment_queue _ skb).1]

/-- **`net_sock_add_data` and its callers**: the segment is freed or queued, unless the ring buffer is full. -/
theorem addData_owns (sk : Sock) (skb : SkBuff) (a : Nat) :
    copies a (addData sk skb).2 + (addData sk skb).1.owns a = sk.owns a + keeps a skb (sk.room skb) := by
  unfold addData netSockAddData addDataFrees keeps Sock.room
  by_cases hready : netSockDataReady sk netMaxBufferSize
  · simp only [hready, true_or, if_true, Sock.owns]
    rw [if_neg (by decide)]
    simp only [List.append_nil, copies_append, copies_nil]
    omega
  · obtain ⟨hbacklog, hqueue⟩ := segment_queue sk skb
    obtain ⟨hdrain, hkept⟩ := drain_queue sk.skbQueue (netSockAddDataSegment sk skb).2
    have hcount := congrArg (copies a) hdrain
    rw [copies_append] at hcount
    simp only [hready, if_false, false_or, Sock.owns]
    rw [hqueue, hkept, hbacklog, copies_append]
    by_cases hroom : (netSockAddDataSegment sk skb).1 = 0
    · rw [if_pos hroom, if_pos ((segment_zero_iff sk skb).mp hroom)]
      omega
    · rw [if_neg hroom, if_neg (mt (segment_zero_iff sk skb).mpr hroom), copies_nil]
      omega

theorem takes_iff (skb : SkBuff) (htcp : sk.tcp = some tcp) : sk.takes skb ↔
    (skb.tcp.rst = false ∧ skb.tcp.syn = false ∧ skb.tcp.ack = true ∧ skb.tcp.fin = false) ∧
      tcp.state = .established ∧ tcp.acknowledgement = htonl skb.tcp.seq := by
  rw [Sock.takes, htcp, Option.map_some, Option.some.injEq, Prod.mk.injEq]

/-- A state other than established keeps every segment, whatever room there is. -/
theorem keeps_of_not_takes (h : ¬ sk.takes skb) (a : Nat) :
    keeps a skb (sk.takes skb → sk.room skb) = copies a [skb] :=
  if_pos fun ht => absurd ht h

/-- The owners that a socket and the callers of `tcp_state_machine` make: the buffers that are freed, those in the
queues, those to be retried, and the segment itself if it is freed for its negative result. -/
def owned (a : Nat) (frees : List SkBuff) (o : Outcome) (skb : SkBuff) : Nat :=
  copies a frees + o.sk.owns a + copies a o.retry.toList + if o.ret < 0 then copies a [skb] else 0

theorem drop_accounted {sk' : Sock} {a : Nat} (h : sk'.owns a = sk.owns a) :
    owned a [] (drop sk') skb = sk.owns a + copies a [skb] := by
  simp [owned, drop, h]

theorem freed_accounted {o : Outcome} {a : Nat} (h : o.sk.owns a = sk.owns a) (hretry : o.retry = none)
    (hret : o.ret = 0) : owned a [skb] o skb = sk.owns a + copies a [skb] := by
  rw [owned, h, hretry, hret]
  simp
  omega

theorem recvEstablished_owns (htcp : sk.tcp = some tcp) (hstate : tcp.state = .established) (a : Nat) :
    owned a (machineFrees route sk skb) (recvEstablished route sk tcp skb) skb =
      sk.owns a + keeps a skb (sk.takes skb → sk.room skb) := by
  have htakes := takes_iff skb htcp
  unfold machineFrees recvEstablished
  rw [htcp]
  dsimp only
  rw [hstate]
  dsimp only
  by_cases hrst : skb.tcp.rst = true
  · have hnot : ¬ sk.takes skb := fun h => absurd (htakes.mp h).1.1 (by simp [hrst])
    rw [if_pos hrst, if_pos hrst, keeps_of_not_takes hnot]
    exact freed_accounted rfl rfl rfl
  · rw [if_neg hrst, if_neg hrst]
    by_cases hplain : ¬ skb.tcp.syn = true ∧ skb.tcp.ack = true ∧ ¬ skb.tcp.fin = true
    · rw [if_pos hplain, if_pos hplain]
      by_cases hseq : tcp.acknowledgement = htonl skb.tcp.seq
      · -- the segment is accepted
        rw [if_neg (not_not.mpr hseq), if_neg (not_not.mpr hseq)]
        have ht : sk.takes skb := htakes.mpr ⟨⟨eq_false_of_ne_true hrst, eq_false_of_ne_true hplain.1, hplain.2.1,
          eq_false_of_ne_true hplain.2.2⟩, hstate, hseq⟩
        have hadd := addData_owns (tcpSendAck route sk tcp skb.tcp skb.data.length).1 skb a
        have hroom : (tcpSendAck route sk tcp skb.tcp skb.data.length).1.room skb ↔ (sk.takes skb → sk.room skb) :=
          ⟨fun h _ => h, fun h => h ht⟩
        unfold keeps at hadd ⊢
        simp only [hroom] at hadd
        have hsame : (tcpSendAck route sk tcp skb.tcp skb.data.length).1.owns a = sk.owns a := rfl
        rw [hsame] at hadd
        simpa [owned, addData] using hadd
      · have hnot : ¬ sk.takes skb := fun h => hseq (htakes.mp h).2.2
        rw [if_pos hseq, if_pos hseq, keeps_of_not_takes hnot]
        exact drop_accounted rfl
    · have hnot : ¬ sk.takes skb := fun h => hplain (by simp [(htakes.mp h).1])
      rw [if_neg hplain, if_neg hplain, keeps_of_not_takes hnot]
      by_cases hfin : skb.tcp.fin = true ∧ skb.tcp.ack = true
      · rw [if_pos hfin, if_pos hfin]
        exact freed_accounted rfl rfl rfl
      · rw [if_neg hfin, if_neg hfin]
        exact drop_accounted rfl

theorem recvListen_accounted (route : Route) (sk : Sock) (tcp : TcpConnection) (skb : SkBuff) (a : Nat) :
    owned a (if skb.tcp.syn ∧ ¬ skb.tcp.ack ∧ sk.backlog.count ≠ sk.backlog.size then [skb] else [])
      (recvListen route sk tcp skb) skb = sk.owns a + copies a [skb] := by
  unfold recvListen
  by_cases hsyn : skb.tcp.syn = true ∧ ¬ skb.tcp.ack = true
  · rw [if_pos hsyn]
    by_cases hfull : sk.backlog.count = sk.backlog.size
    · rw [if_pos hfull, if_neg (by simp [hfull])]
      exact drop_accounted rfl
    · rw [if_neg hfull, if_pos ⟨hsyn.1, hsyn.2, hfull⟩]
      refine freed_accounted ?_ rfl rfl
      dsimp only
      unfold tcpRecvSyn
      split
      · rfl
      · dsimp only
        split <;> rfl
  · rw [if_neg hsyn, if_neg (fun h => hsyn ⟨h.1, h.2.1⟩)]
    split
    · simp [owned, copies]
    · exact drop_accounted rfl

theorem recvSynRcvd_accounted (sk : Sock) (tcp : TcpConnection) (skb : SkBuff) (a : Nat) :
    owned a (if skb.tcp.rst then [skb] else []) (recvSynRcvd sk tcp skb) skb = sk.owns a + copies a [skb] := by
  unfold recvSynRcvd
  split
  · exact freed_accounted rfl rfl rfl
  · split
    · split
      · simp [owned, Sock.owns, Sock.withTcp]
        omega
      · exact drop_accounted rfl
    · exact drop_accounted rfl

theorem recvWaitAck_accounted (sk : Sock) (tcp : TcpConnection) (skb : SkBuff) (a : Nat) :
    owned a (if skb.tcp.rst then [skb] else if ¬ skb.tcp.syn ∧ skb.tcp.ack then [skb] else []) (recvWaitAck sk tcp skb)
      skb = sk.owns a + copies a [skb] := by
  unfold recvWaitAck
  split
  · exact freed_accounted rfl rfl rfl
  · split
    · split
      · exact freed_accounted rfl rfl rfl
      · refine freed_accounted ?_ rfl rfl
        dsimp only
        unfold tcpRecvAck
        split <;> rfl
    · exact drop_accounted rfl

/-- The states that do not accept segments. -/
theorem machine_accounted (htcp : sk.tcp = some tcp) (hest : tcp.state ≠ .established) (a : Nat) :
    owned a (machineFrees route sk skb) (tcpStateMachine route sk skb) skb = sk.owns a + copies a [skb] := by
  unfold machineFrees tcpStateMachine
  rw [htcp]
  dsimp only
  cases hstate : tcp.state with
  | listen => exact recvListen_accounted route sk tcp skb a
  | synRcvd => exact recvSynRcvd_accounted sk tcp skb a
  | synSent =>
    dsimp only
    unfold recvSynSent
    split
    · exact freed_accounted rfl rfl rfl
    · exact drop_accounted rfl
  | waitAck => exact recvWaitAck_accounted sk tcp skb a
  | established => exact absurd hstate hest
  | finWait =>
    dsimp only
    unfold recvFinWait
    split
    · have howns : (tcpSendAck route sk { tcp with state := .closed } skb.tcp 1).1.owns a = sk.owns a := rfl
      exact drop_accounted howns
    · exact drop_accounted rfl
  | closeWait =>
    dsimp only
    unfold recvCloseWait
    split <;> exact drop_accounted rfl
  | closeWait2 =>
    dsimp only
    unfold recvCloseWait2
    split
    · refine drop_accounted ?_
      split <;> rfl
    · exact drop_accounted rfl
  | _ => exact drop_accounted rfl

/-- **`tcp_state_machine`**, with the caller that frees what has a negative result: the segment is freed or queued,
unless it is accepted and finds the ring buffer full. -/
theorem machine_owns (route : Route) (sk : Sock) (skb : SkBuff) (a : Nat) :
    owned a (machineFrees route sk skb) (tcpStateMachine route sk skb) skb =
      sk.owns a + keeps a skb (sk.takes skb → sk.room skb) := by
  cases htcp : sk.tcp with
  | none =>
    have hnot : ¬ sk.takes skb := fun h => by simp [Sock.takes, htcp] at h
    rw [keeps_of_not_takes hnot, machineFrees, tcpStateMachine, htcp]
    exact drop_accounted rfl
  | some tcp =>
    by_cases hest : tcp.state = .established
    · have hmachine : tcpStateMachine route sk skb = recvEstablished route sk tcp skb := by
        rw [tcpStateMachine, htcp]
        dsimp only
        rw [hest]
      rw [hmachine]
      exact recvEstablished_owns htcp hest a
    · have hnot : ¬ sk.takes skb := fun h => hest ((takes_iff skb htcp).mp h).2.1
      rw [keeps_of_not_takes hnot]
      exact machine_accounted htcp hest a

end Segment

/-! ## The threads -/

section Threads
variable {route : Route} {iface : Interface} {st st' : NetLayer} {skb : SkBuff} {f : Frame}

theorem sum_set {l : List Nat} {i x y : Nat} (h : l[i]? = some y) : (l.set i x).sum + y = l.sum + x := by
  induction l generalizing i with
  | nil => cases h
  | cons z l ih =>
    cases i with
    | zero =>
      cases h
      simp only [List.set_cons_zero, List.sum_cons]
      omega
    | succ i =>
      have hrest := ih h
      simp only [List.set_cons_succ, List.sum_cons]
      omega

/-- A socket of the table is replaced. -/
theorem table_owns {table : List (Option Sock)} {i : Nat} {sk : Sock} (h : table[i]? = some (some sk)) (sk' : Sock)
    (a : Nat) : ((table.set i (some sk')).map (slotOwns a)).sum + sk.owns a =
      (table.map (slotOwns a)).sum + sk'.owns a := by
  have hmap : (table.map (slotOwns a))[i]? = some (sk.owns a) := by rw [List.getElem?_map, h]; rfl
  rw [List.map_set]
  exact sum_set hmap

theorem skbFree_owners (st : NetLayer) (skb : SkBuff) (a : Nat) :
    (skbFree st skb).owners a = st.owners a + copies a [skb] := by
  simp only [NetLayer.owners, skbFree, copies_append]
  omega

open Classical in
/-- **`tcp_state_machine` with the search for the socket.** -/
theorem tcpMachine_owners (route : Route) (st : NetLayer) (skb : SkBuff) (a : Nat) :
    (tcpMachine route st skb).2.owners a + (if (tcpMachine route st skb).1 < 0 then copies a [skb] else 0) =
      st.owners a + if TcpRoom st.table skb then copies a [skb] else 0 := by
  unfold tcpMachine TcpRoom tcpReceiver
  cases hfind : netSockFindTcp st.table skb.tcp.source skb.tcp.dest (htonl skb.saddr) with
  | none => simp
  | some i =>
    cases hslot : st.table[i]? with
    | none => simp [hslot]
    | some o =>
      cases o with
      | none => simp [hslot]
      | some sk =>
        have howns := machine_owns route sk skb a
        have htable := table_owns hslot (tcpStateMachine route sk skb).sk a
        simp only [Option.bind_some, hslot, Option.join_some, Option.mem_some_iff, forall_eq']
        simp only [owned, keeps] at howns
        simp only [NetLayer.owners, copies_append]
        omega

open Classical in
theorem netUdpParse_owners (st : NetLayer) (f : Frame) (a : Nat) :
    (netUdpParse st f).2.owners a + (if (netUdpParse st f).1 < 0 then copies a [f.skb] else 0) =
      st.owners a + if ∀ sk ∈ udpReceiver st.table f, sk.room f.skb then copies a [f.skb] else 0 := by
  unfold netUdpParse udpReceiver
  cases hfind : netSocketFindUdp st.table (ntohl f.ip.daddr) (ntohs f.destport) with
  | none => simp
  | some i =>
    cases hslot : st.table[i]? with
    | none => simp [hslot]
    | some o =>
      cases o with
      | none => simp [hslot]
      | some sk =>
        have howns := addData_owns sk f.skb a
        have htable := table_owns hslot (addData sk f.skb).1 a
        simp only [Option.bind_some, hslot, Option.join_some, Option.mem_some_iff, forall_eq']
        simp only [keeps] at howns
        simp only [NetLayer.owners, copies_append]
        rw [if_neg (by decide)]
        omega

theorem drop_owners (st : NetLayer) (skb : SkBuff) (a : Nat) :
    (netDropPacket st skb).2.owners a = st.owners a + copies a [skb] := skbFree_owners st skb a

/-- The callers free a buffer when the result is negative. -/
theorem freed_owners {ret : Int} {st' : NetLayer} {skb : SkBuff} {a n : Nat}
    (h : st'.owners a + (if ret < 0 then copies a [skb] else 0) = n) :
    (if ret < 0 then skbFree st' skb else st').owners a = n := by
  split
  · next hret =>
    rw [if_pos hret] at h
    rw [skbFree_owners, h]
  · next hret =>
    rw [if_neg hret] at h
    exact h

theorem dropped_owners {ret : Int} {st' : NetLayer} {skb : SkBuff} {a n : Nat}
    (h : st'.owners a + (if ret < 0 then copies a [skb] else 0) = n) :
    (if ret < 0 then netDropPacket st' skb else (1, st')).2.owners a = n := by
  rw [apply_ite Prod.snd]
  exact freed_owners h

theorem passes_iff : f.passes iface ↔ ¬ netEthernetParse iface f < 0 ∧ ntohs f.ethertype = ethertypeIp ∧
    ¬ netIpv4Parse iface f < 0 := by
  have heth : netEthernetParse iface f = 0 ↔ ¬ netEthernetParse iface f < 0 := by
    unfold netEthernetParse
    split <;> decide
  have hip : netIpv4Parse iface f = 0 ↔ ¬ netIpv4Parse iface f < 0 := by
    unfold netIpv4Parse
    split
    · decide
    · split <;> decide
  rw [Frame.passes, heth, hip]

open Classical in
/-- **A frame that is handled** is freed or queued, unless a payload finds the ring buffer full. -/
theorem netHandleRecieve_owners (route : Route) (iface : Interface) (st : NetLayer) (f : Frame) (a : Nat) :
    (netHandleRecieve route iface st f).2.owners a =
      st.owners a + if FrameRoom iface st.table f then copies a [f.skb] else 0 := by
  by_cases hpass : f.passes iface
  · obtain ⟨heth, htype, hip⟩ := passes_iff.mp hpass
    have hroom : FrameRoom iface st.table f ↔
        (f.ip.proto = protoUdp → ∀ sk ∈ udpReceiver st.table f, sk.room f.skb) ∧
          (f.ip.proto = protoTcp → TcpRoom st.table f.skb) := ⟨fun h => h hpass, fun h _ => h⟩
    rw [netHandleRecieve, if_neg heth, if_pos htype, if_neg hip]
    by_cases hudp : f.ip.proto = protoUdp
    · have htcp : f.ip.proto ≠ protoTcp := by rw [hudp]; decide
      have hroom : FrameRoom iface st.table f ↔ ∀ sk ∈ udpReceiver st.table f, sk.room f.skb := by
        rw [hroom]
        simp [hudp]
      rw [if_pos hudp]
      simp only [hroom]
      exact dropped_owners (netUdpParse_owners st f a)
    · rw [if_neg hudp]
      by_cases htcp : f.ip.proto = protoTcp
      · have hroom : FrameRoom iface st.table f ↔ TcpRoom st.table f.skb := by
          rw [hroom]
          simp [htcp]
        rw [if_pos htcp]
        simp only [hroom]
        exact dropped_owners (tcpMachine_owners route st f.skb a)
      · rw [if_neg htcp, if_pos (hroom.mpr ⟨fun h => absurd h hudp, fun h => absurd h htcp⟩)]
        split
        · split
          · exact drop_owners st f.skb a
          · exact skbFree_owners st f.skb a
        · exact drop_owners st f.skb a
  · have hroom : FrameRoom iface st.table f := fun h => absurd h hpass
    rw [if_pos hroom]
    unfold netHandleRecieve
    split
    · exact drop_owners st f.skb a
    · next heth =>
      split
      · next htype =>
        split
        · exact drop_owners st f.skb a
        · next hip => exact absurd (passes_iff.mpr ⟨heth, htype, hip⟩) hpass
      · split
        · split
          · exact drop_owners st f.skb a
          · exact skbFree_owners st f.skb a
        · exact drop_owners st f.skb a

/-- What is kept of a buffer decides whether it is accounted for. -/
theorem accounts_iff {n m : Nat → Nat} (skb : SkBuff) (p : Prop) [Decidable p]
    (h : ∀ a, n a = m a + if p then copies a [skb] else 0) : (∀ a, n a = m a + copies a [skb]) ↔ p := by
  constructor
  · intro hall
    by_contra hp
    have h1 := h skb.addr
    have h2 := hall skb.addr
    rw [if_neg hp] at h1
    rw [copies_self] at h2
    omega
  · intro hp a
    rw [h a, if_pos hp]

open Classical in
/-- **A step of the network threads accounts for every buffer exactly when** a frame finds room in the work queue,
and the payload of a frame room in the ring buffer of its socket. -/
theorem netStep_accounts_iff {op : NetOp} (hstep : netStep route iface st op = some st') :
    Accounts st st' op ↔ Room iface st op := by
  cases op with
  | poll f =>
    cases hstep
    refine accounts_iff f.skb (st.works.length < workPoolSize) fun a => ?_
    unfold workQueueAdd
    split
    · simp only [NetLayer.owners, List.map_append, copies_append, List.map_cons, List.map_nil]
      omega
    · rfl
  | work =>
    unfold netStep at hstep
    dsimp only at hstep
    split at hstep
    · cases hstep
    · next f rest hworks =>
      cases hstep
      have hsplit : ∀ a, st.owners a = NetLayer.owners { st with works := rest } a + copies a [f.skb] := by
        intro a
        simp only [NetLayer.owners, hworks, List.map_cons]
        rw [copies_cons]
        omega
      have hroom : Room iface st .work ↔ FrameRoom iface st.table f := by
        simp [Room, hworks]
      rw [hroom, ← accounts_iff f.skb (FrameRoom iface st.table f)
        (netHandleRecieve_owners route iface { st with works := rest } f)]
      refine forall_congr' fun a => ?_
      rw [hsplit a]
      exact Iff.rfl
  | retry =>
    unfold netStep at hstep
    dsimp only at hstep
    split at hstep
    · cases hstep
    · next skb rest hqueue =>
      cases hstep
      have hsplit : ∀ a, st.owners a = NetLayer.owners { st with retryQueue := rest } a + copies a [skb] := by
        intro a
        simp only [NetLayer.owners, hqueue]
        rw [copies_cons]
        omega
      have hroom : Room iface st .retry ↔ TcpRoom st.table skb := by
        simp [Room, hqueue]
      rw [hroom, ← accounts_iff skb (TcpRoom st.table skb) (m := NetLayer.owners { st with retryQueue := rest })
        (n := _) fun a => ?_]
      · refine forall_congr' fun a => ?_
        rw [hsplit a]
        exact Iff.rfl
      · exact freed_owners (tcpMachine_owners route { st with retryQueue := rest } skb a)

/-- **In every run that finds room** each buffer that is taken from the receive queue has exactly one owner more,
**and the next step accounts for every buffer exactly when** a frame finds room in the work queue, and a payload in
the ring buffer of its socket. -/
theorem netRun_owners {st'' : NetLayer} {ops : List NetOp} {op : NetOp}
    (hrun : Run (fun st op st' => netStep route iface st op = some st') (Room iface) st ops st')
    (hstep : netStep route iface st' op = some st'') :
    (∀ a, st'.owners a = st.owners a + copies a (ops.flatMap NetOp.arrives)) ∧
      (Accounts st' st'' op ↔ Room iface st' op) := by
  refine ⟨fun a => ?_, netStep_accounts_iff hstep⟩
  clear hstep
  induction hrun with
  | nil => rfl
  | cons hok hstep _ ih =>
    rw [ih, (netStep_accounts_iff hstep).mpr hok a, List.flatMap_cons, copies_append]
    omega

end Threads

/-- The interface of the samples. -/
def sampleInterface : Interface := ⟨0x525400123456, 1⟩

/-- A TCP segment with the payload `[7, 8]`, in a buffer at the address `4096`. -/
def sampleFrame : Frame where
  dmac := 0x525400123456
  ethertype := ntohs ethertypeIp
  ip := ⟨1, 1, protoTcp, 0⟩
  destport := 0
  icmpChecksum := 0
  hwtype := 0
  protype := 0
  skb :=
    { saddr := ntohl 1
      tcp := { source := 80, dest := 7, seq := htonl 2, ackSeq := htonl 2, ack := true }
      data := [7, 8]
      addr := 4096 }

/-- A connected socket that has received `n` bytes, which nobody has read yet. -/
def filledSock (n : Nat) : Sock where
  boundPort := 7
  skbQueue := []
  backlog := ⟨[], 0, 0⟩
  recvBuffer := { rbufferNew netMaxBufferSize with stop := n }
  dataReady := 0
  recvd := n
  recvAddr := ⟨80, ntohl 1⟩
  tcp := some ⟨.established, 2, 2⟩
  waiting := none
  rx := n

/-- The segment is in the work queue. -/
def sampleLayer (n : Nat) : NetLayer := ⟨[some (filledSock n)], [sampleFrame], [], []⟩

theorem receiver_sample (n : Nat) : tcpReceiver (sampleLayer n).table sampleFrame.skb = some (filledSock n) := by
  simp [tcpReceiver, netSockFindTcp, findTcp, sampleLayer, sampleFrame, filledSock, Sock.connected, htonl]

theorem room_sample (n : Nat) (h : n + 2 ≤ netMaxBufferSize) : (filledSock n).room sampleFrame.skb := by
  refine .inr ?_
  simp only [filledSock, rbufferNew, sampleFrame, List.length_cons, List.length_nil]
  omega

/-- The segment is polled, handled and stored: it has been freed. -/
theorem netRun_owners_stored : ∃ st st', Run (fun st op st' => netStep anyRoute sampleInterface st op = some st')
    (Room sampleInterface) { sampleLayer 0 with works := [] } [.poll sampleFrame] st ∧
      netStep anyRoute sampleInterface st .work = some st' ∧ st.owners 4096 = 1 ∧ Accounts st st' .work := by
  have hrun : Run (fun st op st' => netStep anyRoute sampleInterface st op = some st') (Room sampleInterface)
      { sampleLayer 0 with works := [] } [.poll sampleFrame] (sampleLayer 0) := .single (Nat.zero_lt_succ 24) rfl
  have hstep : netStep anyRoute sampleInterface (sampleLayer 0) .work =
      some (netHandleRecieve anyRoute sampleInterface { sampleLayer 0 with works := [] } sampleFrame).2 := rfl
  obtain ⟨howners, haccounts⟩ := netRun_owners hrun hstep
  refine ⟨_, _, hrun, hstep, howners 4096, haccounts.mpr ?_⟩
  rintro f ⟨⟩ -
  refine ⟨fun h => absurd h (by decide), fun _ sk hsk _ => ?_⟩
  rw [receiver_sample] at hsk
  cases hsk
  exact room_sample 0 (by decide)

/-- Twenty-five frames with buffers at other addresses wait in the work queue. -/
def fullLayer : NetLayer :=
  ⟨[], List.replicate 25 { sampleFrame with skb := { sampleFrame.skb with addr := 0 } }, [], []⟩

/-- A frame that finds the work queue full has no owner, and neither has a segment that finds the ring buffer of its
socket full. -/
theorem netStep_lost :
    (∃ st', netStep anyRoute sampleInterface fullLayer (.poll sampleFrame) = some st' ∧ st'.owners 4096 = 0) ∧
    (∃ st', netStep anyRoute sampleInterface (sampleLayer 16383) .work = some st' ∧
      (sampleLayer 16383).owners 4096 = 1 ∧ st'.owners 4096 = 0) :=
  ⟨⟨_, rfl, rfl⟩, ⟨_, rfl, rfl, rfl⟩⟩

end RetrOS.Net
