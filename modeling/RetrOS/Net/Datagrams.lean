import RetrOS.Net.SocketStream
import RetrOS.Net.Wire

/-!
# Datagrams from one host to another (`kthreads/networking.c`, `net/socket.c`)

Frames of `net_udp_send` that another host handles, up to the process that reads its socket.

* `Sock.Idle` : a UDP socket with nothing to read; `idle_add_read` : a datagram comes in and is read;
* `netHandleRecieve_udp` : the layers below hand the frame to `net_udp_parse`;
* `udp_exchange` : datagrams that are read before the next one comes arrive in order, one for each read;
* `damaged_dropped` : a frame with a damaged byte in its IP header comes to no socket.
-/

namespace RetrOS.Net

open RetrOS.Lib RetrOS.Lib.OnesComplement RetrOS.RBuffer

/-! ## The socket -/

/-- A UDP socket with nothing to read. -/
structure Sock.Idle (sk : Sock) : Prop where
  start : sk.recvBuffer.start = 0
  stop : sk.recvBuffer.stop = 0
  size : sk.recvBuffer.size = netMaxBufferSize
  queue : sk.skbQueue = []
  recvd : sk.recvd = 0
  dataReady : sk.dataReady = 0
  tcp : sk.tcp = none

/-- The socket with the bytes of a datagram. -/
def Sock.filled (sk : Sock) (data : List UInt8) : Sock := { sk with
  recvBuffer := { sk.recvBuffer with buffer := Slice.write sk.recvBuffer.buffer 0 data, stop := data.length }
  recvd := data.length
  dataReady := 1
  waiting := none
  rx := sk.rx + data.length }

section
variable {sk : Sock} {skb : SkBuff} {length : Nat}

theorem Sock.Idle.add (h : sk.Idle) (hfits : skb.data.length ≤ netMaxBufferSize) :
    addData sk skb = (sk.filled skb.data, [skb]) := by
  obtain ⟨hstart, hstop, hsize, hqueue, hrecvd, hready, htcp⟩ := h
  have hadd : ringBufferAdd sk.recvBuffer skb.data = ((skb.data.length : Int),
      { sk.recvBuffer with buffer := Slice.write sk.recvBuffer.buffer 0 skb.data, stop := skb.data.length }) := by
    rw [ringBufferAdd, if_neg (by rw [hstart, hstop, hsize]; omega), if_pos (by rw [hstop, hsize]; omega), hstop,
      Nat.zero_add]
  have hsegment : netSockAddDataSegment sk skb = (0, sk.filled skb.data) := by
    rw [netSockAddDataSegment, hadd]
    dsimp only
    rw [if_neg (by omega), if_pos htcp, hrecvd, Nat.zero_add]
    rfl
  have hnot : ¬ netSockDataReady sk netMaxBufferSize := by
    rw [not_ready_iff, hready, hrecvd]
    decide
  have hempty : (sk.filled skb.data).skbQueue = [] := hqueue
  have hsock : netSockAddData sk skb = (0, sk.filled skb.data) := by
    rw [netSockAddData, if_neg hnot, hsegment]
    dsimp only
    rw [hempty, drainQueue, ← hempty]
  rw [addData, hsock, addDataFrees, if_neg hnot, hqueue]
  rfl

/-- All bytes at once. -/
theorem ringBufferRead_whole {r : RingBuffer} (hstart : r.start = 0) (hpos : 0 < r.stop) (hle : r.stop ≤ r.size) :
    ringBufferRead r r.stop = ((r.stop : Int), Slice.read r.buffer 0 r.stop, { r with start := 0, stop := 0 }) := by
  rw [ringBufferRead, hstart, if_neg (by omega), if_neg (by omega)]
  simp only [Nat.sub_zero, Nat.zero_add, if_pos hle, Nat.min_self, if_true]
  rw [List.take_of_length_le (by rw [Slice.length_read])]

/-- A datagram that has come in is read, and then there is nothing to read again. -/
theorem Sock.Idle.read (h : sk.Idle) {data : List UInt8} (hpos : 0 < data.length) (hlength : data.length ≤ length)
    (hfits : data.length ≤ netMaxBufferSize) :
    ∃ sk', netSockRead (sk.filled data) length = some ((data.length : Int), data, sk') ∧ sk'.Idle ∧
      sk'.boundPort = sk.boundPort ∧ sk'.boundIp = sk.boundIp := by
  obtain ⟨hstart, hstop, hsize, hqueue, hrecvd, hready, htcp⟩ := h
  have hread : ringBufferRead (sk.filled data).recvBuffer data.length = ((data.length : Int), data,
      { (sk.filled data).recvBuffer with start := 0, stop := 0 }) := by
    have hbytes : Slice.read (sk.filled data).recvBuffer.buffer 0 data.length = data :=
      Slice.read_write_self sk.recvBuffer.buffer 0 data
    have hwhole := ringBufferRead_whole (r := (sk.filled data).recvBuffer) hstart hpos (hfits.trans hsize.ge)
    rwa [show (sk.filled data).recvBuffer.stop = data.length from rfl, hbytes] at hwhole
  have hmin : min length (sk.filled data).recvd = data.length := Nat.min_eq_right hlength
  let sk' : Sock := { sk.filled data with
    recvBuffer := { (sk.filled data).recvBuffer with start := 0, stop := 0 }, recvd := 0, dataReady := 0 }
  refine ⟨sk', ?_, ⟨rfl, rfl, hsize, hqueue, rfl, rfl, htcp⟩, rfl, rfl⟩
  have hreceived : (sk.filled data).recvd = data.length := rfl
  have hready : (sk.filled data).dataReady = 1 := rfl
  rw [netSockRead, if_neg (not_not.mpr (.inl rfl)), hready, if_neg (by decide), hmin]
  dsimp only
  rw [hread]
  dsimp only
  rw [if_neg (not_not.mpr rfl), hreceived, Nat.sub_self, if_pos rfl]

end

/-! ## The layers below -/

section
variable {f : Frame} {dmac : BitVec 48} {saddr daddr : BitVec 32} {dport : BitVec 16} {data : List UInt8}
  {rt : Route} {iface : Interface} {st : NetLayer} {i : Nat} {sk : Sock}

/-- The frame gets to UDP. -/
theorem netHandleRecieve_udp (hf : f.Carries dmac saddr daddr dport data)
    (hmac : dmac = iface.mac ∨ dmac = BitVec.allOnes 48) (hip : htonl daddr = iface.ip ∨ daddr = broadcastIp) :
    netHandleRecieve rt iface st f =
      if (netUdpParse st f).1 < 0 then netDropPacket (netUdpParse st f).2 f.skb else (1, (netUdpParse st f).2) := by
  have heth : netEthernetParse iface f = 0 := if_pos (by rwa [hf.dmac])
  have hipv4 : netIpv4Parse iface f = 0 := by
    rw [netIpv4Parse, if_neg (not_not.mpr hf.checksum), if_neg]
    rw [hf.daddr]
    rintro ⟨hbroadcast, haddr⟩
    rcases hip with hip | rfl
    · exact haddr hip
    · exact hbroadcast (by decide)
  have htype : ntohs f.ethertype = ethertypeIp := by
    rw [hf.ethertype]
    exact ntohs_ntohs _
  rw [netHandleRecieve, heth, hipv4, if_neg (by decide), if_pos htype, if_neg (by decide), if_pos hf.proto]

/-- The datagram gets to the socket that is found for it. -/
theorem netHandleRecieve_found (hf : f.Carries dmac saddr daddr dport data)
    (hmac : dmac = iface.mac ∨ dmac = BitVec.allOnes 48) (hip : htonl daddr = iface.ip ∨ daddr = broadcastIp)
    (hfind : netSocketFindUdp st.table daddr dport = some i) (hsk : st.table[i]? = some (some sk)) :
    netHandleRecieve rt iface st f =
      (1, { st with table := st.table.set i (some (addData sk f.skb).1), freed := st.freed ++ (addData sk f.skb).2 }) := by
  have hparse : netUdpParse st f =
      (0, { st with table := st.table.set i (some (addData sk f.skb).1), freed := st.freed ++ (addData sk f.skb).2 }) := by
    have haddr : ntohl f.ip.daddr = daddr := by
      rw [hf.daddr]
      exact htonl_htonl daddr
    have hport : ntohs f.destport = dport := by
      rw [hf.destport]
      exact ntohs_ntohs dport
    rw [netUdpParse, haddr, hport, hfind]
    simp only [hsk]
  rw [netHandleRecieve_udp hf hmac hip, hparse]
  exact if_neg (lt_irrefl 0)

/-- The search does not see what the sockets hold. -/
theorem netSocketFindUdp_set {table : List (Option Sock)} {sk' : Sock} (hsk : table[i]? = some (some sk))
    (hport : sk'.boundPort = sk.boundPort) (hip : sk'.boundIp = sk.boundIp) (addr : BitVec 32) (port : BitVec 16) :
    netSocketFindUdp (table.set i (some sk')) addr port = netSocketFindUdp table addr port := by
  let key (o : Option Sock) : Option (BitVec 16 × BitVec 16) := o.map fun s => (s.boundPort, s.boundIp)
  let bound (o : Option (BitVec 16 × BitVec 16)) : Bool := match o with
    | none => false
    | some (p, a) => p = htons port ∧ (a.setWidth 32 = addr ∨ a = inaddrAny)
  have hkey (t : List (Option Sock)) : netSocketFindUdp t addr port = (t.map key).findIdx? bound := by
    rw [netSocketFindUdp, List.findIdx?_map]
    congr 1
    funext o
    cases o <;> rfl
  have hsame : key (some sk') = key (some sk) := by
    show some (sk'.boundPort, sk'.boundIp) = some (sk.boundPort, sk.boundIp)
    rw [hport, hip]
  rw [hkey, hkey, List.map_set, hsame]
  congr 1
  obtain ⟨hlt, hget⟩ := List.getElem?_eq_some_iff.mp hsk
  refine List.ext_getElem (by simp) fun k hk hk' => ?_
  rw [List.getElem_set]
  split
  · next heq =>
    subst heq
    rw [List.getElem_map, hget]
  · rfl

end

/-! ## Damage -/

theorem checksum_set_ne {l : List UInt8} {b : UInt8} {p : Nat} (hp : p < l.length) (hb : b ≠ l[p])
    (hshort : l.length < 131072) (h : checksum l 0 = 0) : checksum (l.set p b) 0 ≠ 0 := by
  rw [checksum_eq_zero_iff hshort] at h
  rw [ne_eq, checksum_eq_zero_iff (by rwa [List.length_set])]
  exact fun hset => not_dvd_sum_set hp hb h.2 hset.2

theorem skbData_set (frame : List UInt8) (q : Nat) (b : UInt8) (hq : q < frame.length) :
    skbData (frame.set q b) = (skbData frame).set q b := by
  rw [skbData, skbData, List.length_set, List.set_append_left _ _ hq]

/-- A changed byte behind the first 14 changes none of the others that are looked at. -/
theorem getD_skbData_set {frame : List UInt8} {q k : Nat} {b : UInt8} (hq : q < frame.length) (hne : k ≠ q) :
    (skbData (frame.set q b)).getD k 0 = (skbData frame).getD k 0 := by
  rw [skbData_set frame q b hq, List.getD_eq_getElem?_getD, List.getElem?_set_ne (Ne.symm hne),
    List.getD_eq_getElem?_getD]

section
variable {data : List UInt8} {dip : BitVec 32} {sport dport : BitVec 16} {out : Interface} {dmac : BitVec 48}
  {len : BitVec 16} {p : Nat} {b : UInt8}

theorem ipBytes_getElem (hlt : p < 20) : (udpFrame dmac out len dip sport dport data)[14 + p]? =
    (ipBytes (ipHeader len 0x11 out.ip dip))[p]? := by
  have hlen : (ipBytes (ipHeader len 0x11 out.ip dip)).length = 20 := length_ipBytes _
  have heth : (bytes48 dmac ++ bytes48 out.mac ++ bytes16 (htons ethertypeIp)).length = 14 := rfl
  rw [udpFrame, udpFront, List.append_assoc, List.append_assoc,
    List.getElem?_append_right (by rw [heth]; omega), heth, Nat.add_sub_cancel_left,
    List.getElem?_append_left (by rw [hlen]; exact hlt)]

theorem length_udpFrame : (udpFrame dmac out len dip sport dport data).length = 42 + data.length := by
  rw [udpFrame, List.length_append, List.length_append, length_udpFront]
  rfl

/-- The checksum of a damaged header. -/
theorem damaged_checksum (hpos : 1 ≤ p) (hlt : p < 20)
    (hb : (udpFrame dmac out len dip sport dport data)[14 + p]? ≠ some b) :
    (Frame.ofUdp ((udpFrame dmac out len dip sport dport data).set (14 + p) b)).ip.checksum ≠ 0 := by
  have hq : 14 + p < (udpFrame dmac out len dip sport dport data).length := by
    rw [length_udpFrame]
    omega
  have hbyte : (skbData ((udpFrame dmac out len dip sport dport data).set (14 + p) b)).getD 14 0 = 0x45 :=
    (getD_skbData_set hq (by omega)).trans rfl
  have hlen : (ipBytes (ipHeader len 0x11 out.ip dip)).length = 20 := length_ipBytes _
  have hheader : ((skbData ((udpFrame dmac out len dip sport dport data).set (14 + p) b)).drop 14).take 20 =
      (ipBytes (ipHeader len 0x11 out.ip dip)).set p b := by
    obtain ⟨rest, hdrop⟩ := @drop_skbData data dip sport dport out dmac len
    rw [skbData_set _ _ _ hq, List.drop_set, if_neg (by omega), Nat.add_sub_cancel_left, hdrop,
      List.set_append_left _ _ (by omega)]
    exact List.take_left' (by rw [List.length_set, hlen])
  have hold : b ≠ (ipBytes (ipHeader len 0x11 out.ip dip))[p] := fun heq => hb (by
    rw [ipBytes_getElem hlt, List.getElem?_eq_getElem (by omega)]
    exact congrArg some heq.symm)
  simp only [Frame.ofUdp, hbyte]
  rw [show (0x45 : UInt8).toNat % 16 * 4 = 20 from rfl, hheader]
  exact checksum_set_ne (by omega) hold (by omega) (checksum_ipBytes _)

end

/-- **A damaged frame**, with another byte in its IP header, comes to no socket: its buffer is freed, and that is all. -/
theorem damaged_dropped {h : Host} {ihl : BitVec 4} {data frame : List UInt8} {dip : BitVec 32}
    {sport dport : BitVec 16} {out : Interface} (hsend : netUdpSend h ihl data dip sport dport = some (out, frame))
    (rt : Route) (iface : Interface) (st : NetLayer) {p : Nat} {b : UInt8} (hpos : 1 ≤ p) (hlt : p < 20)
    (hb : frame[14 + p]? ≠ some b) :
    netHandleRecieve rt iface st (Frame.ofUdp (frame.set (14 + p) b)) =
      (0, skbFree st (Frame.ofUdp (frame.set (14 + p) b)).skb) := by
  obtain ⟨-, dmac, len, -, rfl⟩ := netUdpSend_eq hsend
  have hq : 14 + p < (udpFrame dmac out len dip sport dport data).length := by
    rw [length_udpFrame]
    omega
  have hsum := damaged_checksum hpos hlt hb
  have htype : ntohs (Frame.ofUdp ((udpFrame dmac out len dip sport dport data).set (14 + p) b)).ethertype =
      ethertypeIp := by
    simp only [Frame.ofUdp]
    rw [getD_skbData_set hq (by omega), getD_skbData_set hq (by omega)]
    exact (congrArg ntohs (word16_bytes (htons ethertypeIp))).trans (ntohs_ntohs _)
  generalize Frame.ofUdp ((udpFrame dmac out len dip sport dport data).set (14 + p) b) = f at hsum htype ⊢
  have hipv4 : netIpv4Parse iface f = -1 := if_pos hsum
  rw [netHandleRecieve, if_pos htype, hipv4]
  split <;> rfl

/-- A host with its loopback interface. -/
def loopbackHost : Host where
  ifs := [⟨0x690000000000, Arp.loopbackIp⟩]
  gateway := 0
  arp := (Arp.netArpAddEntry Arp.netInitArp ⟨0x690000000000, ntohl Arp.loopbackIp, 0, 0⟩).2

theorem damaged_dropped_ttl : ∃ frame : List UInt8, frame[22]? = some 64 ∧
    (netHandleRecieve anyRoute ⟨0x690000000000, Arp.loopbackIp⟩ ⟨[], [], [], []⟩
      (Frame.ofUdp (frame.set 22 63))).1 = 0 := by
  have hrun : (netUdpSend loopbackHost 5 [1, 2, 3] (htonl Arp.loopbackIp) 1024 53).map (fun r => r.2[22]?) =
    some (some 64) := by rfl
  obtain ⟨⟨out, frame⟩, hsend, hbyte⟩ := Option.map_eq_some_iff.mp hrun
  refine ⟨frame, hbyte, ?_⟩
  rw [damaged_dropped hsend _ _ _ (p := 8) (by decide) (by decide) (by rw [hbyte]; decide)]

/-! ## Hosts -/

/-- A frame is handled, and then the socket at `i` is read. -/
def receive (rt : Route) (iface : Interface) (i length : Nat) (st : NetLayer) (frame : List UInt8) :
    Option (List UInt8 × NetLayer) := do
  let st := (netHandleRecieve rt iface st (Frame.ofUdp frame)).2
  let sk ← st.table[i]?.join
  let (_, data, sk) ← netSockRead sk length
  some (data, { st with table := st.table.set i (some sk) })

/-- One after the other; what the reads return. -/
def receiveAll (rt : Route) (iface : Interface) (i length : Nat) :
    List (List UInt8) → NetLayer → Option (List (List UInt8) × NetLayer)
  | [], st => some ([], st)
  | frame :: rest, st => do
    let (data, st) ← receive rt iface i length st frame
    let (datas, st) ← receiveAll rt iface i length rest st
    some (data :: datas, st)

/-- The frame of a datagram to a port of an address. -/
def SendsTo (h : Host) (dip : BitVec 32) (dport : BitVec 16) (data frame : List UInt8) : Prop :=
  ∃ ihl sport out, netUdpSend h ihl data dip sport dport = some (out, frame)

/-- The socket at `i` is found for the address and the port, and has nothing to read. -/
structure Awaits (st : NetLayer) (i : Nat) (dip : BitVec 32) (dport : BitVec 16) : Prop where
  found : netSocketFindUdp st.table dip dport = some i
  idle : ∃ sk, st.table[i]? = some (some sk) ∧ sk.Idle

section
variable {h : Host} (rt : Route) (iface : Interface) {dip : BitVec 32} {dport : BitVec 16} {i length : Nat}
  (hmac : ∀ dmac, Arp.netArpFindEntry h.arp (ntohl (route h dip)) = some dmac →
    dmac = iface.mac ∨ dmac = BitVec.allOnes 48)
  (hip : htonl dip = iface.ip ∨ dip = broadcastIp)
include hmac hip

theorem receive_sent {st : NetLayer} {data frame : List UInt8} (hsend : SendsTo h dip dport data frame)
    (hst : Awaits st i dip dport) (hpos : 0 < data.length) (hshort : data.length ≤ 1494)
    (hlength : data.length ≤ length) :
    ∃ st', receive rt iface i length st frame = some (data, st') ∧ Awaits st' i dip dport := by
  obtain ⟨ihl, sport, out, hsend⟩ := hsend
  obtain ⟨-, dmac, len, harp, rfl⟩ := netUdpSend_eq hsend
  have hf := @carries_udpFrame data dip sport dport out dmac len hshort
  unfold receive
  generalize Frame.ofUdp (udpFrame dmac out len dip sport dport data) = f at hf ⊢
  obtain ⟨sk, hsk, hidle⟩ := hst.idle
  have hbuffer : data.length ≤ netMaxBufferSize := hshort.trans (by decide)
  have hadd : addData sk f.skb = (sk.filled data, [f.skb]) := by
    rw [hidle.add (by rw [hf.data]; exact hbuffer), hf.data]
  obtain ⟨sk', hread, hidle', hport, haddr⟩ := hidle.read hpos hlength hbuffer
  obtain ⟨hlt, -⟩ := List.getElem?_eq_some_iff.mp hsk
  rw [netHandleRecieve_found hf (hmac dmac harp) hip hst.found hsk, hadd]
  refine ⟨{ st with table := (st.table.set i (some (sk.filled data))).set i (some sk'), freed := st.freed ++ [f.skb] },
    ?_, ?_, sk', List.getElem?_set_self (by simpa using hlt), hidle'⟩
  · simp only [List.getElem?_set_self hlt, Option.join_some, Option.bind_eq_bind, Option.bind_some, hread]
  · show netSocketFindUdp ((st.table.set i _).set i _) dip dport = some i
    rw [List.set_set, netSocketFindUdp_set hsk hport haddr]
    exact hst.found

/-- **Datagrams** that are read before the next one comes arrive in order, one for each read. -/
theorem udp_exchange {datas frames : List (List UInt8)} (hsend : List.Forall₂ (SendsTo h dip dport) datas frames)
    (hdatas : ∀ data ∈ datas, 0 < data.length ∧ data.length ≤ 1494 ∧ data.length ≤ length) {st : NetLayer}
    (hst : Awaits st i dip dport) :
    ∃ st', receiveAll rt iface i length frames st = some (datas, st') ∧ Awaits st' i dip dport := by
  induction hsend generalizing st with
  | nil => exact ⟨st, rfl, hst⟩
  | cons hsend _ ih =>
    obtain ⟨hpos, hshort, hlength⟩ := hdatas _ List.mem_cons_self
    obtain ⟨st₁, hreceive, hst₁⟩ := receive_sent rt iface hmac hip hsend hst hpos hshort hlength
    obtain ⟨st₂, hrest, hst₂⟩ := ih (fun data hdata => hdatas data (List.mem_cons_of_mem _ hdata)) hst₁
    refine ⟨st₂, ?_, hst₂⟩
    rw [receiveAll, hreceive]
    simp only [Option.bind_eq_bind, Option.bind_some, hrest]

end

def dnsSocket : NetLayer := ⟨[some { kernelSocketCreate with boundPort := htons 53, boundIp := inaddrAny }], [], [], []⟩

theorem udp_exchange_loopback : ∃ frames st', receiveAll anyRoute ⟨0x690000000000, Arp.loopbackIp⟩ 0 100 frames
    dnsSocket = some ([[1, 2, 3], [4]], st') := by
  have hsent (data : List UInt8) : (netUdpSend loopbackHost 5 data (htonl Arp.loopbackIp) 1024 53).isSome := by rfl
  have hsends (data : List UInt8) : ∃ frame, SendsTo loopbackHost (htonl Arp.loopbackIp) 53 data frame := by
    obtain ⟨⟨out, frame⟩, hframe⟩ := Option.isSome_iff_exists.mp (hsent data)
    exact ⟨frame, 5, 1024, out, hframe⟩
  obtain ⟨frame, hframe⟩ := hsends [1, 2, 3]
  obtain ⟨frame', hframe'⟩ := hsends [4]
  have hfind : Arp.netArpFindEntry loopbackHost.arp (ntohl (route loopbackHost (htonl Arp.loopbackIp))) =
    some 0x690000000000 := by decide
  have hst : Awaits dnsSocket 0 (htonl Arp.loopbackIp) 53 := ⟨by decide, _, rfl, ⟨rfl, rfl, rfl, rfl, rfl, rfl, rfl⟩⟩
  have hdatas : ∀ data ∈ [[1, 2, 3], [4]], 0 < (data : List UInt8).length ∧ data.length ≤ 1494 ∧ data.length ≤ 100 := by
    decide
  obtain ⟨st', hst', -⟩ := udp_exchange anyRoute ⟨0x690000000000, Arp.loopbackIp⟩
    (fun dmac hdmac => .inl (Option.some.inj (hdmac.symm.trans hfind))) (.inl (by decide))
    (.cons hframe (.cons hframe' .nil)) hdatas hst
  exact ⟨_, st', hst'⟩

end RetrOS.Net
