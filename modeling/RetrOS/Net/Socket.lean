import RetrOS.Kernel.RingBuffer
import RetrOS.Net.ByteOrder

/-!
# Sockets (`net/socket.c`)

* `TcpHeader`, `Packet`, `SkBuff` : segments on the wire and in the kernel; the sequence numbers of a header are
  in network order;
* `Sock`, `TcpConnection` : a socket and its connection;
* `netSockAddData`, `netSockRead` : the receive path, through the ring buffer and the queue of segments behind it.

The processes that block on a socket are not modelled further than the pointer `waiting`: a read that has to
wait has the result `none`. Sockets whose `tcp` is `none` are UDP sockets. Functions keep their names from the
source, in camel case.
-/

namespace RetrOS.Net

open RetrOS.RBuffer

/-! ## Segments -/

/-- The fields of `struct tcp_header` that are read; `seq` and `ackSeq` are in network order. -/
structure TcpHeader where
  source : BitVec 16
  dest : BitVec 16
  seq : BitVec 32
  ackSeq : BitVec 32
  fin : Bool := false
  syn : Bool := false
  rst : Bool := false
  psh : Bool := false
  ack : Bool := false
  deriving DecidableEq

/-- A segment on the wire, with the addresses of its IP header. -/
structure Packet where
  saddr : BitVec 32
  daddr : BitVec 32
  tcp : TcpHeader
  payload : List UInt8
  deriving DecidableEq

/-- `struct sk_buff` of a received segment, which lies at the address `addr`. -/
structure SkBuff where
  saddr : BitVec 32
  tcp : TcpHeader
  data : List UInt8
  retries : Nat := 0
  addr : Nat := 0
  deriving DecidableEq

/-- The buffer `tcp_parse` makes of a received segment. -/
def Packet.skb (p : Packet) : SkBuff := { saddr := p.saddr, tcp := p.tcp, data := p.payload }

/-! ## Sockets -/

/-- `tcp_state_t`. -/
inductive TcpState
  | created | closed | listen | waitAck | synRcvd | synSent | established | finWait | finWait2 | closing | timeWait
  | closeWait | lastAck | prepare | closeWait2
  deriving DecidableEq

/-- The fields of `struct tcp_connection` that are read. -/
structure TcpConnection where
  state : TcpState
  sequence : BitVec 32
  acknowledgement : BitVec 32
  deriving DecidableEq

/-- `struct sockaddr_in`. -/
structure SockaddrIn where
  port : BitVec 16
  addr : BitVec 32
  deriving DecidableEq

/-- `struct _backlog`. -/
structure Backlog where
  queue : List SkBuff
  count : Nat
  size : Nat

/-- The fields of `struct sock` that the receive path reads. -/
structure Sock where
  boundPort : BitVec 16
  boundIp : BitVec 16 := 0
  skbQueue : List SkBuff
  backlog : Backlog
  recvBuffer : RingBuffer
  dataReady : Int
  recvd : Nat
  recvAddr : SockaddrIn
  tcp : Option TcpConnection
  waiting : Option Nat
  rx : Nat

abbrev netMaxBufferSize : Nat := 4096 * 4

def kernelSocketCreate : Sock where
  boundPort := 0
  skbQueue := []
  backlog := ⟨[], 0, 0⟩
  recvBuffer := rbufferNew netMaxBufferSize
  dataReady := 0
  recvd := 0
  recvAddr := ⟨0, 0⟩
  tcp := none
  waiting := none
  rx := 0

def netSockDataReady (sk : Sock) (length : Nat) : Prop := sk.dataReady = 1 ∨ length ≤ sk.recvd ∨ sk.dataReady = -1

instance (sk : Sock) (length : Nat) : Decidable (netSockDataReady sk length) :=
  inferInstanceAs (Decidable (_ ∨ _))

def netSockAddDataSegment (sk : Sock) (skb : SkBuff) : Int × Sock :=
  let (ret, buffer) := ringBufferAdd sk.recvBuffer skb.data
  if ret < 0 then (ret, { sk with recvBuffer := buffer })
  else
    (0, { sk with
      recvBuffer := buffer
      recvd := sk.recvd + skb.data.length
      dataReady := if sk.tcp = none then 1 else if skb.tcp.psh then 1 else 0
      waiting := none
      rx := sk.rx + skb.data.length })

/-- The loop of `net_sock_add_data` over the queued segments; the results of the adds are ignored. -/
def drainQueue : List SkBuff → Sock → Sock
  | [], sk => { sk with skbQueue := [] }
  | skb :: rest, sk =>
    if netSockDataReady sk netMaxBufferSize then { sk with skbQueue := skb :: rest }
    else drainQueue rest (netSockAddDataSegment { sk with skbQueue := rest } skb).2

/-- `net_sock_add_data`; a segment that goes to the queue has the result `-1`. -/
def netSockAddData (sk : Sock) (skb : SkBuff) : Int × Sock :=
  if netSockDataReady sk netMaxBufferSize then (-1, { sk with skbQueue := sk.skbQueue ++ [skb] })
  else
    let (ret, sk) := netSockAddDataSegment sk skb
    (ret, drainQueue sk.skbQueue sk)

/-- `net_sock_read`: the result, the bytes copied to the caller, and the socket; `none` while it blocks. -/
def netSockRead (sk : Sock) (length : Nat) : Option (Int × List UInt8 × Sock) :=
  if ¬ netSockDataReady sk length then none
  else if sk.dataReady = -1 then some (-1, [], sk)
  else
    let toRead := min length sk.recvd
    let (ret, data, buffer) := ringBufferRead sk.recvBuffer toRead
    let sk := { sk with recvBuffer := buffer }
    if ret ≠ toRead then some (toRead, data, sk)
    else
      some (toRead, data, { sk with
        recvd := sk.recvd - toRead
        dataReady := if sk.recvd - toRead = 0 then 0 else sk.dataReady })

/-! ## The receive path leaves the connection alone -/

/-- The part of a socket that belongs to the connection. -/
def Sock.connection (sk : Sock) : Option TcpConnection × SockaddrIn × BitVec 16 × List SkBuff × Nat × Nat :=
  (sk.tcp, sk.recvAddr, sk.boundPort, sk.backlog.queue, sk.backlog.count, sk.backlog.size)

@[simp] theorem netSockAddDataSegment_connection (sk : Sock) (skb : SkBuff) :
    (netSockAddDataSegment sk skb).2.connection = sk.connection := by
  unfold netSockAddDataSegment
  dsimp only
  split <;> rfl

@[simp] theorem drainQueue_connection (l : List SkBuff) (sk : Sock) :
    (drainQueue l sk).connection = sk.connection := by
  induction l generalizing sk with
  | nil => rfl
  | cons skb rest ih =>
    rw [drainQueue]
    split
    · rfl
    · rw [ih, netSockAddDataSegment_connection]
      rfl

@[simp] theorem netSockAddData_connection (sk : Sock) (skb : SkBuff) :
    (netSockAddData sk skb).2.connection = sk.connection := by
  unfold netSockAddData
  split
  · rfl
  · dsimp only
    rw [drainQueue_connection, netSockAddDataSegment_connection]

theorem netSockRead_connection {sk sk' : Sock} {length : Nat} {ret : Int} {data : List UInt8}
    (h : netSockRead sk length = some (ret, data, sk')) : sk'.connection = sk.connection := by
  unfold netSockRead at h
  split at h
  · cases h
  · split at h
    · cases h
      rfl
    · dsimp only at h
      split at h <;> cases h <;> rfl

theorem Sock.tcp_of_connection {sk sk' : Sock} (h : sk'.connection = sk.connection) : sk'.tcp = sk.tcp :=
  congrArg Prod.fst h

end RetrOS.Net
