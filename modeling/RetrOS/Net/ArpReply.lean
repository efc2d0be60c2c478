import RetrOS.Net.Arp

/-!
# ARP replies (`net/arp.c`, `net/ethernet.c`)

`__net_arp_send` goes on only if the result of `net_ethernet_add_header` is positive, but that is `0` when it
succeeds: no ARP frame is ever sent. The buffer it sends has no interface either.

* `arpParse` : the source, down to the queue of the network daemon;
* `Replies` : what a request should be answered with;
* `arp_never_replies` : it is not, whatever the request and the host.

The MAC that is read through the interface pointer of a buffer without interface is a parameter, `none` for a fault.
The length of a buffer is that of its bytes.
-/

namespace RetrOS.Arp

open RetrOS.Lib RetrOS.Net

/-! ## Frames -/

abbrev etherTypeArp : BitVec 16 := 0x0806

abbrev arpEthernet : BitVec 16 := 0x0001

abbrev arpIpv4 : BitVec 16 := 0x0800

abbrev arpRequest : BitVec 16 := 0x0001

abbrev arpReply : BitVec 16 := 0x0002

abbrev ipv4 : BitVec 16 := 0x04

/-- `struct arp_header`. -/
structure Header where
  hwtype : BitVec 16
  protype : BitVec 16
  hwsize : UInt8
  prosize : UInt8
  opcode : BitVec 16

/-- A MAC in memory. -/
def macBytes (mac : BitVec 48) : List UInt8 :=
  [byteOf mac 5, byteOf mac 4, byteOf mac 3, byteOf mac 2, byteOf mac 1, byteOf mac 0]

def Header.bytes (h : Header) : List UInt8 :=
  bytes16 h.hwtype ++ bytes16 h.protype ++ [h.hwsize, h.prosize] ++ bytes16 h.opcode

def Content.bytes (c : Content) : List UInt8 :=
  macBytes c.smac ++ bytes32 c.sip ++ macBytes c.dmac ++ bytes32 c.dip

/-- `ARP_HTONS` and `ARP_NTOHS`. -/
def Header.htons (h : Header) : Header :=
  { h with hwtype := Net.htons h.hwtype, opcode := Net.htons h.opcode, protype := Net.htons h.protype }

/-- `ARPC_HTONL` and `ARPC_NTOHL`. -/
def Content.htonl (c : Content) : Content := { c with sip := Net.htonl c.sip, dip := Net.htonl c.dip }

/-- `ARP_FILL_HEADER`. -/
def fillHeader (type : BitVec 16) : Header where
  opcode := type
  prosize := 4
  protype := Net.htons ipv4
  hwsize := 6
  hwtype := arpEthernet

/-! ## The source -/

/-- The fields of `struct sk_buff` that are read: the protocol, the MAC of the interface, and the bytes so far. -/
structure Skb where
  proto : BitVec 16
  interface : Option (BitVec 48)
  data : List UInt8

def skbNew : Skb := ⟨0, none, []⟩

/-- The host: the ARP cache, the address that DHCP got, the MAC of `current_netdev`, and the frames to send. -/
structure Host where
  table : Table
  address : Option (BitVec 32)
  mac : BitVec 48
  txQueue : List (List UInt8)

def dhcpGetIp (host : Host) : BitVec 32 := host.address.getD (-1)

variable (nul : Option (BitVec 48))

/-- `net_ethernet_add_header`: the result and the buffer, `none` if it faults. -/
def netEthernetAddHeader (t : Table) (skb : Skb) (ip : BitVec 32) : Option (Int × Skb) :=
  match netArpFindEntry t (ntohl ip) with
  | none => some (-1, skb)
  | some dmac => (skb.interface.or nul).map fun smac =>
    (0, { skb with data := skb.data ++ macBytes dmac ++ macBytes smac ++ bytes16 (htons skb.proto) })

/-- `net_send_skb`. -/
def netSendSkb (host : Host) (skb : Skb) : Host :=
  if skb.interface = none then host else { host with txQueue := host.txQueue ++ [skb.data] }

/-- `__net_arp_send`. -/
def netArpSend (host : Host) (content : Content) (hdr : Header) : Option Host :=
  (netEthernetAddHeader nul host.table { skbNew with proto := etherTypeArp } content.dip).map fun (ret, skb) =>
    if ret ≤ 0 then host
    else netSendSkb host { skb with data := skb.data ++ hdr.htons.bytes ++ content.htonl.bytes }

def netArpRespond (host : Host) (content : Content) : Option Host :=
  if dhcpGetIp host = -1 then some host
  else
    netArpSend nul host
      { dmac := content.smac, smac := host.mac, dip := content.sip, sip := dhcpGetIp host } (fillHeader arpReply)

/-- `arp_parse` of a header and a content in network order. -/
def arpParse (host : Host) (hdr : Header) (content : Content) : Option (Int × Host) :=
  let hdr := hdr.htons
  if hdr.hwtype ≠ arpEthernet ∨ hdr.protype ≠ arpIpv4 then some (-1, host)
  else
    let host := { host with table := (netArpAddEntry host.table content).2 }
    if hdr.opcode = arpRequest then (netArpRespond nul host content.htonl).map fun host => (0, host)
    else some (0, host)

/-! ## Replies -/

/-- A header that `arp_parse` takes for a reply. -/
def Header.IsReply (h : Header) : Prop :=
  h.htons.hwtype = arpEthernet ∧ h.htons.protype = arpIpv4 ∧ h.htons.opcode = arpReply

/-- One frame is queued: to the sender of the request, a header that `arp_parse` takes for a reply, and the own MAC
and IP and those of the sender in network order. -/
def Replies (host : Host) (hdr : Header) (content : Content) : Prop :=
  ∃ (ret : Int) (host' : Host) (reply : Header) (ip : BitVec 32),
    arpParse nul host hdr content = some (ret, host') ∧ host.address = some ip ∧ reply.IsReply ∧
    host'.txQueue = host.txQueue ++
      [macBytes content.smac ++ macBytes host.mac ++ bytes16 (htons etherTypeArp) ++ reply.bytes ++
        Content.bytes { smac := host.mac, sip := ip, dmac := content.smac, dip := content.sip }]

section
variable {nul} {host host' : Host} {hdr : Header} {content : Content} {ret : Int}

/-- The result is never positive. -/
theorem netEthernetAddHeader_ret {t : Table} {skb skb' : Skb} {ip : BitVec 32}
    (h : netEthernetAddHeader nul t skb ip = some (ret, skb')) : ret ≤ 0 := by
  unfold netEthernetAddHeader at h
  split at h
  · cases h
    decide
  · obtain ⟨smac, -, hsmac⟩ := Option.map_eq_some_iff.mp h
    cases hsmac
    exact le_rfl

theorem netArpSend_same (h : netArpSend nul host content hdr = some host') : host' = host := by
  obtain ⟨⟨ret, skb⟩, hadd, rfl⟩ := Option.map_eq_some_iff.mp h
  exact if_pos (netEthernetAddHeader_ret hadd)

theorem netArpRespond_same (h : netArpRespond nul host content = some host') : host' = host := by
  unfold netArpRespond at h
  split at h
  · exact (Option.some.inj h).symm
  · exact netArpSend_same h

/-- Nothing is queued. -/
theorem arpParse_txQueue (h : arpParse nul host hdr content = some (ret, host')) : host'.txQueue = host.txQueue := by
  unfold arpParse at h
  dsimp only at h
  split at h
  · cases h
    rfl
  · split at h
    · obtain ⟨host'', hrespond, hhost⟩ := Option.map_eq_some_iff.mp h
      cases hhost
      rw [netArpRespond_same hrespond]
    · cases h
      rfl

theorem not_replies (nul : Option (BitVec 48)) (host : Host) (hdr : Header) (content : Content) :
    ¬ Replies nul host hdr content := by
  rintro ⟨ret, host', reply, ip, hparse, -, -, hqueue⟩
  rw [arpParse_txQueue hparse] at hqueue
  simp at hqueue

end

/-- **No request** is answered. -/
theorem arp_never_replies (host : Host) (hdr : Header) (content : Content) : ¬ Replies nul host hdr content :=
  not_replies nul host hdr content

/-- A request of 10.0.0.2 to a host with the address 10.0.0.5, which knows its MAC. -/
theorem arp_noReply : ¬ Replies (some 0)
    { table := [⟨0x525400123456, htonl 0x0a000002⟩], address := some (htonl 0x0a000005), mac := 0x525400abcdef,
      txQueue := [] }
    ⟨htons arpEthernet, htons arpIpv4, 6, 4, htons arpRequest⟩
    ⟨0x525400123456, htonl 0x0a000002, 0, htonl 0x0a000005⟩ :=
  not_replies _ _ _ _

end RetrOS.Arp
