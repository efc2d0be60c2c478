import RetrOS.Net.Arp
import RetrOS.Net.Receive
import RetrOS.Net.UdpChecksum
import Mathlib.Data.List.MinMax

/-!
# Datagrams on the wire (`net/udp.c`, `net/ipv4.c`, `net/ethernet.c`, `net/routing.c`)

The frame that `net_udp_send` builds, layer by layer, and what another host reads of it.

* `route`, `netGetIface`, `netIpv4AddHeader`, `netUdpSend` : the source;
* `Frame.ofUdp` : the fields of a received frame;
* `netGetIface_iff` : the interface is the first of those that share the longest prefix with the next hop;
* `carries_udpFrame` : the receiver reads what was sent.

The sender's buffer has room for 1494 bytes of a datagram, which `net_udp_send` does not check.
-/

namespace RetrOS.Net

open RetrOS.Lib RetrOS.Lib.OnesComplement

/-! ## The sender -/

/-- What the sender has: its interfaces, the gateway of `dhcp_get_gw`, and the ARP cache. -/
structure Host where
  ifs : List Interface
  gateway : BitVec 32
  arp : Arp.Table

def route (h : Host) (destination : BitVec 32) : BitVec 32 :=
  if destination = htonl Arp.loopbackIp then Arp.loopbackIp else htonl h.gateway

/-- The inner loop of `net_get_iface`: how many bits from `mask` on agree. -/
def prefixLoop (a b : BitVec 32) : Nat → BitVec 32 → Nat
  | 0, _ => 0
  | n + 1, mask => if mask ≠ 0 ∧ a &&& mask = b &&& mask then prefixLoop a b n (mask >>> 1) + 1 else 0

def prefixLength (a b : BitVec 32) : Nat := prefixLoop a b 33 0x80000000

/-- The outer loop of `net_get_iface`. -/
def ifaceLoop (ip : BitVec 32) : List Interface → Option Interface → Int → Option Interface
  | [], best, _ => best
  | i :: rest, best, longest =>
    if (prefixLength i.ip ip : Int) > longest then ifaceLoop ip rest (some i) (prefixLength i.ip ip)
    else ifaceLoop ip rest best longest

def netGetIface (ifs : List Interface) (ip : BitVec 32) : Option Interface := ifaceLoop ip ifs none (-1)

/-- The bytes of a MAC, in their order. -/
def bytes48 (v : BitVec 48) : List UInt8 := [byteOf v 5, byteOf v 4, byteOf v 3, byteOf v 2, byteOf v 1, byteOf v 0]

/-- `net_ethernet_add_header`, for a protocol in host order. -/
def netEthernetAddHeader (arp : Arp.Table) (iface : Interface) (proto : BitVec 16) (ip : BitVec 32) :
    Option (List UInt8) := do
  let dmac ← Arp.netArpFindEntry arp (ntohl ip)
  some (bytes48 dmac ++ bytes48 iface.mac ++ bytes16 (htons proto))

/-- `struct ip_header` with what `IP_HTONL` makes of it, around its checksum. The source address is not swapped. -/
def ipHeader (len : BitVec 16) (proto : UInt8) (saddr daddr : BitVec 32) : Fielded 10 where
  front := [0x45, 0] ++ bytes16 (htons len) ++ bytes16 0 ++ bytes16 (htons 0x4000) ++ [64, proto]
  back := bytes32 saddr ++ bytes32 (htonl daddr)
  front_length := rfl
  short := by
    change 20 ≤ 65535
    decide

/-- The bytes of an IP header, with its checksum. -/
def ipBytes (hdr : Fielded 10) : List UInt8 := hdr.bytes (checksum (hdr.bytes 0) 0)

/-- `net_ipv4_add_header`: the interface, and the headers in front of `length` bytes. `ihl` is what the initializer of
the header reads of the header itself. -/
def netIpv4AddHeader (h : Host) (ihl : BitVec 4) (ip : BitVec 32) (proto : UInt8) (length : Nat) :
    Option (Interface × List UInt8) := do
  let nextHop := route h ip
  let iface ← netGetIface h.ifs nextHop
  let hdr := ipHeader (BitVec.ofNat 16 (length + ihl.toNat * 4)) proto iface.ip ip
  let eth ← netEthernetAddHeader h.arp iface ethertypeIp nextHop
  some (iface, eth ++ ipBytes hdr)

/-- `struct udp_header` -/
def udpHeader (sport dport : BitVec 16) (length : Nat) : List UInt8 :=
  bytes16 (htons sport) ++ bytes16 (htons dport) ++ bytes16 (htons (BitVec.ofNat 16 (length + 8))) ++ bytes16 (htons 0)

/-- `net_udp_send`: the interface and the frame; `none` is the result `-1`. -/
def netUdpSend (h : Host) (ihl : BitVec 4) (data : List UInt8) (dip : BitVec 32) (sport dport : BitVec 16) :
    Option (Interface × List UInt8) := do
  let (iface, headers) ← netIpv4AddHeader h ihl dip 0x11 (data.length + 8)
  some (iface, headers ++ udpHeader sport dport data.length ++ data)

/-! ## The receiver -/

def word48 (a b c d e f : UInt8) : BitVec 48 :=
  a.toBitVec ++ (b.toBitVec ++ (c.toBitVec ++ (d.toBitVec ++ (e.toBitVec ++ f.toBitVec))))

/-- The buffer of a received frame: `skb_new` fills it with zeros. -/
def skbData (bytes : List UInt8) : List UInt8 := bytes ++ List.replicate (0x600 - bytes.length) 0

/-- The fields that the ethernet, the IP and the UDP layer read of a frame; those of other protocols are zero. -/
def Frame.ofUdp (bytes : List UInt8) : Frame :=
  let data := skbData bytes
  let byte (i : Nat) : UInt8 := data.getD i 0
  let hdrLen := (byte 14).toNat % 16 * 4
  let udp := 14 + hdrLen
  let saddr := word32 (byte 26) (byte 27) (byte 28) (byte 29)
  let length := ntohs (word16 (byte (udp + 4)) (byte (udp + 5)))
  { dmac := word48 (byte 0) (byte 1) (byte 2) (byte 3) (byte 4) (byte 5)
    ethertype := word16 (byte 12) (byte 13)
    ip := ⟨saddr, word32 (byte 30) (byte 31) (byte 32) (byte 33), (byte 23).toBitVec,
      checksum ((data.drop 14).take hdrLen) 0⟩
    destport := word16 (byte (udp + 2)) (byte (udp + 3))
    icmpChecksum := 0
    hwtype := 0
    protype := 0
    skb := { saddr := ntohl saddr, tcp := ⟨0, 0, 0, 0, false, false, false, false, false⟩
             data := (data.drop (udp + 8)).take (length - 8).toNat } }

@[simp] theorem word48_bytes (v : BitVec 48) :
    word48 (byteOf v 5) (byteOf v 4) (byteOf v 3) (byteOf v 2) (byteOf v 1) (byteOf v 0) = v := by
  have hlt := v.isLt
  rw [← BitVec.toNat_inj, word48]
  simp only [toNat_append_add, UInt8.toNat_toBitVec, toNat_byteOf]
  omega

/-! ## The interface -/

/-- Two addresses agree in their first `n` bits. -/
def Share (n : Nat) (a b : BitVec 32) : Prop := n ≤ 32 ∧ ∀ k < n, a.getLsbD (31 - k) = b.getLsbD (31 - k)

section
variable {a b ip : BitVec 32} {n f : Nat}

theorem twoPow_ne_zero (hf : f < 32) : BitVec.twoPow 32 f ≠ 0#32 := by
  intro h
  have hbit := congrArg (fun v => BitVec.getLsbD v f) h
  simp [hf] at hbit

theorem and_twoPow_eq_iff (hf : f < 32) :
    a &&& BitVec.twoPow 32 f = b &&& BitVec.twoPow 32 f ↔ a.getLsbD f = b.getLsbD f := by
  have hne := twoPow_ne_zero hf
  rw [BitVec.and_twoPow, BitVec.and_twoPow]
  cases a.getLsbD f <;> cases b.getLsbD f <;> simp [hne, Ne.symm hne]

theorem prefixLoop_twoPow (hf : f < 32) : prefixLoop a b (n + 1) (BitVec.twoPow 32 f) =
    if a.getLsbD f = b.getLsbD f then prefixLoop a b n (BitVec.twoPow 32 f >>> 1) + 1 else 0 := by
  rw [prefixLoop]
  simp only [and_twoPow_eq_iff hf]
  exact if_congr (and_iff_right (twoPow_ne_zero hf)) rfl rfl

theorem twoPow_shift (hf : f + 1 < 32) : BitVec.twoPow 32 (f + 1) >>> 1 = BitVec.twoPow 32 f := by
  apply BitVec.eq_of_getLsbD_eq
  intro i hi
  simp only [BitVec.getLsbD_ushiftRight, BitVec.getLsbD_twoPow]
  have hiff : f + 1 = 1 + i ↔ f = i := by omega
  simp [hiff, hf, show f < 32 by omega]

/-- The loop counts the bits from `f` down that agree. -/
theorem le_prefixLoop (hf : f < 32) : n ≤ prefixLoop a b (f + 2) (BitVec.twoPow 32 f) ↔
    n ≤ f + 1 ∧ ∀ k < n, a.getLsbD (f - k) = b.getLsbD (f - k) := by
  have hstop : prefixLoop a b 1 (BitVec.twoPow 32 0 >>> 1) = 0 := by
    rw [prefixLoop, if_neg]
    exact fun h => h.1 (by decide)
  induction f generalizing n with
  | zero =>
    rw [prefixLoop_twoPow hf, hstop]
    split
    · next hbit =>
      refine iff_of_eq (propext ⟨fun h => ⟨h, fun k hk => ?_⟩, fun h => h.1⟩)
      rw [Nat.zero_sub]
      exact hbit
    · next hbit =>
      constructor
      · intro h
        obtain rfl := Nat.le_zero.mp h
        exact ⟨Nat.zero_le _, fun k hk => absurd hk (Nat.not_lt_zero k)⟩
      · rintro ⟨-, h⟩
        by_contra hpos
        exact hbit (h 0 (by omega))
  | succ f ih =>
    rw [prefixLoop_twoPow hf, twoPow_shift hf]
    cases n with
    | zero => exact iff_of_true (Nat.zero_le _) ⟨Nat.zero_le _, fun k hk => absurd hk (Nat.not_lt_zero k)⟩
    | succ n =>
      have hall : (∀ k < n + 1, a.getLsbD (f + 1 - k) = b.getLsbD (f + 1 - k)) ↔
          a.getLsbD (f + 1) = b.getLsbD (f + 1) ∧ ∀ k < n, a.getLsbD (f - k) = b.getLsbD (f - k) := by
        rw [Nat.forall_lt_succ_left]
        simp only [Nat.sub_zero, Nat.add_sub_add_right]
      have hrest : n ≤ prefixLoop a b (f + 2) (BitVec.twoPow 32 f) ↔
          n ≤ f + 1 ∧ ∀ k < n, a.getLsbD (f - k) = b.getLsbD (f - k) := ih (by omega)
      rw [hall]
      split
      · next hbit => rw [Nat.succ_le_succ_iff, hrest, Nat.succ_le_succ_iff, and_iff_right hbit]
      · next hbit => exact iff_of_false (Nat.not_succ_le_zero n) fun h => hbit h.2.1

theorem le_prefixLength : n ≤ prefixLength a b ↔ Share n a b := le_prefixLoop (f := 31) (by decide)

/-- How many bits of the interface found so far agree. -/
def longestOf (ip : BitVec 32) (best : Option Interface) : Int := (best.map fun i => (prefixLength i.ip ip : Int)).getD (-1)

theorem ifaceLoop_eq_foldl (l : List Interface) (best : Option Interface) :
    ifaceLoop ip l best (longestOf ip best) =
      l.foldl (List.argAux fun i j => prefixLength j.ip ip < prefixLength i.ip ip) best := by
  induction l generalizing best with
  | nil => rfl
  | cons i rest ih =>
    rw [ifaceLoop, List.foldl_cons]
    cases best with
    | none =>
      have hpos : (prefixLength i.ip ip : Int) > longestOf ip none := by
        show _ > (-1 : Int)
        omega
      rw [if_pos hpos]
      exact ih (some i)
    | some j =>
      show (if (prefixLength i.ip ip : Int) > prefixLength j.ip ip then _ else _) =
        List.foldl _ (if prefixLength j.ip ip < prefixLength i.ip ip then some i else some j) rest
      simp only [gt_iff_lt, Nat.cast_lt]
      split
      · exact ih (some i)
      · exact ih (some j)

theorem netGetIface_eq (ifs : List Interface) (ip : BitVec 32) :
    netGetIface ifs ip = ifs.argmax fun i => prefixLength i.ip ip := ifaceLoop_eq_foldl ifs none

theorem prefixLength_le_iff {c : BitVec 32} :
    prefixLength a ip ≤ prefixLength c ip ↔ ∀ n, Share n a ip → Share n c ip := by
  simp only [← le_prefixLength]
  exact ⟨fun h n hn => hn.trans h, fun h => h _ le_rfl⟩

end

deriving instance DecidableEq for Interface

/-- **The interface** is the first one of those that share the longest prefix with the address. -/
theorem netGetIface_iff (ifs : List Interface) (ip : BitVec 32) (i : Interface) : netGetIface ifs ip = some i ↔
    i ∈ ifs ∧ (∀ j ∈ ifs, ∀ n, Share n j.ip ip → Share n i.ip ip) ∧
      ∀ j ∈ ifs, (∀ n, Share n i.ip ip → Share n j.ip ip) → ifs.idxOf i ≤ ifs.idxOf j := by
  simp only [← prefixLength_le_iff]
  rw [netGetIface_eq]
  exact List.mem_argmax_iff

/-! ## What the receiver reads -/

section
variable {h : Host} {ihl : BitVec 4} {data frame : List UInt8} {dip : BitVec 32} {sport dport : BitVec 16}
  {out : Interface}

/-- The headers in front of a datagram. -/
def udpFront (dmac : BitVec 48) (out : Interface) (len : BitVec 16) (dip : BitVec 32) : List UInt8 :=
  bytes48 dmac ++ bytes48 out.mac ++ bytes16 (htons ethertypeIp) ++ ipBytes (ipHeader len 0x11 out.ip dip)

/-- The frame of a datagram. -/
def udpFrame (dmac : BitVec 48) (out : Interface) (len : BitVec 16) (dip : BitVec 32) (sport dport : BitVec 16)
    (data : List UInt8) : List UInt8 :=
  udpFront dmac out len dip ++ udpHeader sport dport data.length ++ data

theorem netUdpSend_eq (hsend : netUdpSend h ihl data dip sport dport = some (out, frame)) :
    netGetIface h.ifs (route h dip) = some out ∧
      ∃ dmac len, Arp.netArpFindEntry h.arp (ntohl (route h dip)) = some dmac ∧
        frame = udpFrame dmac out len dip sport dport data := by
  obtain ⟨⟨iface, headers⟩, hheaders, hsend⟩ := Option.bind_eq_some_iff.mp hsend
  obtain ⟨rfl, rfl⟩ := Prod.mk.inj (Option.some.inj hsend)
  obtain ⟨iface', hiface, hheaders⟩ := Option.bind_eq_some_iff.mp hheaders
  obtain ⟨eth, heth, hheaders⟩ := Option.bind_eq_some_iff.mp hheaders
  obtain ⟨rfl, rfl⟩ := Prod.mk.inj (Option.some.inj hheaders)
  obtain ⟨dmac, hdmac, heth⟩ := Option.bind_eq_some_iff.mp heth
  obtain rfl := Option.some.inj heth
  exact ⟨hiface, dmac, _, hdmac, rfl⟩

theorem checksum_ipBytes (hdr : Fielded 10) : checksum (ipBytes hdr) 0 = 0 := by
  exact @checksum_fill 10 hdr rfl [] rfl (by decide)

variable (dmac : BitVec 48) (len : BitVec 16)

/-- The receiver reads what was sent. -/
structure Frame.Carries (f : Frame) (dmac : BitVec 48) (saddr daddr : BitVec 32) (dport : BitVec 16)
    (data : List UInt8) : Prop where
  dmac : f.dmac = dmac
  ethertype : f.ethertype = htons ethertypeIp
  saddr : f.ip.saddr = saddr
  daddr : f.ip.daddr = htonl daddr
  proto : f.ip.proto = protoUdp
  checksum : f.ip.checksum = 0
  destport : f.destport = htons dport
  data : f.skb.data = data

theorem length_ipBytes (hdr : Fielded 10) : (ipBytes hdr).length = 12 + hdr.back.length := hdr.length_bytes _

theorem length_udpFront : (udpFront dmac out len dip).length = 34 := by
  rw [udpFront, List.length_append, length_ipBytes]
  rfl

theorem skbData_udpFrame : ∃ rest, skbData (udpFrame dmac out len dip sport dport data) =
    udpFront dmac out len dip ++ (udpHeader sport dport data.length ++ (data ++ rest)) := by
  refine ⟨List.replicate (0x600 - (udpFrame dmac out len dip sport dport data).length) 0, ?_⟩
  rw [skbData]
  generalize List.replicate _ _ = rest
  rw [udpFrame, List.append_assoc, List.append_assoc]

/-- The frame behind the ethernet header. -/
theorem drop_skbData : ∃ rest, (skbData (udpFrame dmac out len dip sport dport data)).drop 14 =
    ipBytes (ipHeader len 0x11 out.ip dip) ++ rest := by
  obtain ⟨rest, hbytes⟩ := @skbData_udpFrame data dip sport dport out dmac len
  refine ⟨udpHeader sport dport data.length ++ (data ++ rest), ?_⟩
  rw [hbytes, udpFront, List.append_assoc]
  rfl

theorem getD_udpFront (l : List UInt8) (k : Nat) : (udpFront dmac out len dip ++ l).getD (34 + k) 0 = l.getD k 0 := by
  rw [List.getD_eq_getElem?_getD, List.getElem?_append_right (by rw [length_udpFront]; omega), length_udpFront,
    Nat.add_sub_cancel_left, List.getD_eq_getElem?_getD]

theorem carries_udpFrame (hshort : data.length ≤ 1494) :
    (Frame.ofUdp (udpFrame dmac out len dip sport dport data)).Carries dmac out.ip dip dport data := by
  obtain ⟨rest, hbytes⟩ := @skbData_udpFrame data dip sport dport out dmac len
  have hlen : ((skbData (udpFrame dmac out len dip sport dport data)).getD 14 0).toNat % 16 * 4 = 20 := by
    rw [show (skbData (udpFrame dmac out len dip sport dport data)).getD 14 0 = 0x45 from rfl]
    rfl
  have hudp (k : Nat) : (skbData (udpFrame dmac out len dip sport dport data)).getD (34 + k) 0 =
      (udpHeader sport dport data.length ++ (data ++ rest)).getD k 0 := by
    rw [hbytes, getD_udpFront]
  have hcount : (BitVec.ofNat 16 (data.length + 8) - 8).toNat = data.length := by
    rw [BitVec.toNat_sub, BitVec.toNat_ofNat]
    show (2 ^ 16 - 8 + (data.length + 8) % 2 ^ 16) % 2 ^ 16 = data.length
    omega
  have hdata : (skbData (udpFrame dmac out len dip sport dport data)).drop 42 = data ++ rest := by
    have hfront : (udpFront dmac out len dip ++ udpHeader sport dport data.length).length = 42 := by
      rw [List.length_append, length_udpFront]
      rfl
    rw [hbytes, ← List.append_assoc, ← hfront, List.drop_left]
  have hip : ((skbData (udpFrame dmac out len dip sport dport data)).drop 14).take 20 =
      ipBytes (ipHeader len 0x11 out.ip dip) := by
    obtain ⟨rest', hdrop⟩ := @drop_skbData data dip sport dport out dmac len
    rw [hdrop]
    exact List.take_left' (length_ipBytes _)
  refine ⟨word48_bytes dmac, word16_bytes _, word32_bytes _, word32_bytes _, rfl, ?_, ?_, ?_⟩
  · simp only [Frame.ofUdp, hlen, hip]
    exact checksum_ipBytes _
  · simp only [Frame.ofUdp, hlen]
    rw [show 14 + 20 + 2 = 34 + 2 from rfl, show 14 + 20 + 3 = 34 + 3 from rfl, hudp, hudp]
    simp [udpHeader, bytes16]
  · simp only [Frame.ofUdp, hlen]
    rw [show 14 + 20 + 4 = 34 + 4 from rfl, show 14 + 20 + 5 = 34 + 5 from rfl, hudp, hudp]
    have hlength : ntohs (word16 ((udpHeader sport dport data.length ++ (data ++ rest)).getD 4 0)
        ((udpHeader sport dport data.length ++ (data ++ rest)).getD 5 0)) = BitVec.ofNat 16 (data.length + 8) := by
      simp [udpHeader, bytes16, htons]
    rw [hlength, hcount, hdata]
    exact List.take_left

end

end RetrOS.Net
