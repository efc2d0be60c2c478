import RetrOS.Net.Tcp

/-!
# The receive path (`kthreads/networking.c`)

A frame is taken from the receive queue by `networking_main`, waits in the work queue, and is then parsed by a
worker, layer by layer. Its `sk_buff` is passed along; return codes say who frees it.

* `Frame` : what is read of a frame;
* `netHandleRecieve` : the ethernet, IP, UDP, TCP, ICMP and ARP layers;
* `NetLayer` : the sockets, the work queue, the retry queue, and every buffer `skb_free` was called on;
* `netStep` : the steps of the network threads.

What `net_icmp_handle` and `arp_parse` send, and the ARP table, do not touch the buffer of the frame. The route is
that of the TCP segments that are sent.
-/

namespace RetrOS.Net

open RetrOS.RBuffer

/-- The fields of `struct ip_header` that are read, and the value of its checksum; the addresses are in network
order. -/
structure IpHeader where
  saddr : BitVec 32
  daddr : BitVec 32
  proto : BitVec 8
  checksum : BitVec 16

/-- A received frame. `skb` is its buffer as the transport layer sees it; the headers that lie over each other have
fields of their own. -/
structure Frame where
  dmac : BitVec 48
  ethertype : BitVec 16
  ip : IpHeader
  destport : BitVec 16
  icmpChecksum : BitVec 16
  hwtype : BitVec 16
  protype : BitVec 16
  skb : SkBuff

/-- The interface a frame arrives at. -/
structure Interface where
  mac : BitVec 48
  ip : BitVec 32

abbrev ethertypeIp : BitVec 16 := 0x0800

abbrev ethertypeArp : BitVec 16 := 0x0806

abbrev protoIcmp : BitVec 8 := 0x01

abbrev protoTcp : BitVec 8 := 0x06

abbrev protoUdp : BitVec 8 := 0x11

abbrev broadcastIp : BitVec 32 := 4294967295

abbrev inaddrAny : BitVec 16 := 1

abbrev arpEthernet : BitVec 16 := 0x0001

abbrev arpIpv4 : BitVec 16 := 0x0800

abbrev workPoolSize : Nat := 25

abbrev errorWorkQueueFull : Int := 4

/-- The state of the network threads; `freed` is every buffer `skb_free` was called on. -/
structure NetLayer where
  table : List (Option Sock)
  works : List Frame
  retryQueue : List SkBuff
  freed : List SkBuff

def skbFree (st : NetLayer) (skb : SkBuff) : NetLayer := { st with freed := st.freed ++ [skb] }

def netDropPacket (st : NetLayer) (skb : SkBuff) : Int × NetLayer := (0, skbFree st skb)

/-! ## The link and the internet layer -/

def netEthernetParse (iface : Interface) (f : Frame) : Int :=
  if f.dmac = iface.mac ∨ f.dmac = BitVec.allOnes 48 then 0 else -1

def netIpv4Parse (iface : Interface) (f : Frame) : Int :=
  if f.ip.checksum ≠ 0 then -1
  else if f.ip.daddr ≠ broadcastIp ∧ f.ip.daddr ≠ iface.ip then -1
  else 0

def netIcmpParse (f : Frame) : Int := if f.icmpChecksum ≠ 0 then -1 else 0

def arpParse (f : Frame) : Int := if ntohs f.hwtype ≠ arpEthernet ∨ ntohs f.protype ≠ arpIpv4 then -1 else 0

/-! ## Sockets -/

/-- The segments that `drainQueue` removes from the queue: each is freed. -/
def drainFrees : List SkBuff → Sock → List SkBuff
  | [], _ => []
  | skb :: rest, sk =>
    if netSockDataReady sk netMaxBufferSize then []
    else skb :: drainFrees rest (netSockAddDataSegment { sk with skbQueue := rest } skb).2

/-- The segments that `net_sock_add_data` frees. -/
def addDataFrees (sk : Sock) (skb : SkBuff) : List SkBuff :=
  if netSockDataReady sk netMaxBufferSize then []
  else drainFrees sk.skbQueue (netSockAddDataSegment sk skb).2

/-- `net_sock_add_data` and what its callers do: they free the buffer when the result is zero. -/
def addData (sk : Sock) (skb : SkBuff) : Sock × List SkBuff :=
  let (ret, sk') := netSockAddData sk skb
  (sk', addDataFrees sk skb ++ if ret = 0 then [skb] else [])

/-- `net_socket_find_udp`, for an address and a port in host order: an index of the socket table. -/
def netSocketFindUdp (table : List (Option Sock)) (ip : BitVec 32) (port : BitVec 16) : Option Nat :=
  table.findIdx? fun o => match o with
    | none => false
    | some sk => sk.boundPort = htons port ∧ (sk.boundIp.setWidth 32 = ip ∨ sk.boundIp = inaddrAny)

def netUdpParse (st : NetLayer) (f : Frame) : Int × NetLayer :=
  match netSocketFindUdp st.table (ntohl f.ip.daddr) (ntohs f.destport) with
  | none => (-1, st)
  | some i => match st.table[i]? with
    | some (some sk) =>
      let r := addData sk f.skb
      (0, { st with table := st.table.set i (some r.1), freed := st.freed ++ r.2 })
    | _ => (-1, st)

/-- The calls of `skb_free` in `tcp_state_machine`. -/
def machineFrees (route : Route) (sk : Sock) (skb : SkBuff) : List SkBuff :=
  match sk.tcp with
  | none => []
  | some tcp =>
    match tcp.state with
    | .listen => if skb.tcp.syn ∧ ¬ skb.tcp.ack ∧ sk.backlog.count ≠ sk.backlog.size then [skb] else []
    | .synRcvd => if skb.tcp.rst then [skb] else []
    | .synSent => if skb.tcp.syn ∧ skb.tcp.ack then [skb] else []
    | .waitAck => if skb.tcp.rst then [skb] else if ¬ skb.tcp.syn ∧ skb.tcp.ack then [skb] else []
    | .established =>
      if skb.tcp.rst then [skb]
      else if ¬ skb.tcp.syn ∧ skb.tcp.ack ∧ ¬ skb.tcp.fin then
        if tcp.acknowledgement ≠ htonl skb.tcp.seq then []
        else (addData (tcpSendAck route sk tcp skb.tcp skb.data.length).1 skb).2
      else if skb.tcp.fin ∧ skb.tcp.ack then [skb]
      else []
    | _ => []

/-- `tcp_state_machine`, with the search for the socket. -/
def tcpMachine (route : Route) (st : NetLayer) (skb : SkBuff) : Int × NetLayer :=
  match netSockFindTcp st.table skb.tcp.source skb.tcp.dest (htonl skb.saddr) with
  | none => (-1, st)
  | some i => match st.table[i]? with
    | some (some sk) =>
      let o := tcpStateMachine route sk skb
      (o.ret, { st with
        table := st.table.set i (some o.sk)
        retryQueue := st.retryQueue ++ o.retry.toList
        freed := st.freed ++ machineFrees route sk skb })
    | _ => (-1, st)

/-! ## The threads -/

def netHandleRecieve (route : Route) (iface : Interface) (st : NetLayer) (f : Frame) : Int × NetLayer :=
  if netEthernetParse iface f < 0 then netDropPacket st f.skb
  else if ntohs f.ethertype = ethertypeIp then
    if netIpv4Parse iface f < 0 then netDropPacket st f.skb
    else if f.ip.proto = protoUdp then
      let (ret, st) := netUdpParse st f
      if ret < 0 then netDropPacket st f.skb else (1, st)
    else if f.ip.proto = protoTcp then
      let (ret, st) := tcpMachine route st f.skb
      if ret < 0 then netDropPacket st f.skb else (1, st)
    else if f.ip.proto = protoIcmp then
      if netIcmpParse f < 0 then netDropPacket st f.skb else (1, skbFree st f.skb)
    else netDropPacket st f.skb
  else if ntohs f.ethertype = ethertypeArp then
    if arpParse f < 0 then netDropPacket st f.skb else (1, skbFree st f.skb)
  else netDropPacket st f.skb

def workQueueAdd (st : NetLayer) (f : Frame) : Int × NetLayer :=
  if st.works.length < workPoolSize then (0, { st with works := st.works ++ [f] }) else (-errorWorkQueueFull, st)

inductive NetOp
  | poll (f : Frame)
  | work
  | retry

/-- A step of the network threads: `networking_main` takes a frame from the receive queue, a worker handles the
next one, `tcp_retry_all` takes a segment from the retry queue. -/
def netStep (route : Route) (iface : Interface) (st : NetLayer) : NetOp → Option NetLayer
  | .poll f => some (workQueueAdd st f).2
  | .work => match st.works with
    | [] => none
    | f :: rest => some (netHandleRecieve route iface { st with works := rest } f).2
  | .retry => match st.retryQueue with
    | [] => none
    | skb :: rest =>
      let (ret, st) := tcpMachine route { st with retryQueue := rest } skb
      some (if ret < 0 then skbFree st skb else st)

end RetrOS.Net
