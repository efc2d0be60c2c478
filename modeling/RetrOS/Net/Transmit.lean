import RetrOS.Net.Tcp

/-!
# Below TCP (`skb_new`, `net_ipv4_add_header`, `net_send_skb`)

A segment needs a buffer, the headers of the layers below and a place in the transmit queue. A `Route` stands for all
three at once; here they are apart, as a function may return between them.

* `Below` : what the three calls meet;
* `Below.tcpSend` : `__tcp_send`;
* `Below.toRoute` : the `Route` that sends the same segments; `Below.Sends` : nothing fails.
-/

namespace RetrOS.Net

abbrev errorNullPointer : Int := 2

/-- `buffer` : `kalloc` has room for a buffer. `header` : `net_ipv4_add_header` finds an interface for the address
and its ARP entry, and the source address is the one of the interface. `txQueue` is `NULL` until the network thread
runs. -/
structure Below where
  buffer : Bool
  header : Route
  txQueue : Option (List Packet)

def netSendSkb (below : Below) (p : Packet) : Int × Below :=
  match below.txQueue with
  | none => (-errorNullPointer, below)
  | some queue => (0, { below with txQueue := some (queue ++ [p]) })

namespace Below

/-- `__tcp_send`, which is given the buffer. -/
def tcpSend (below : Below) (sk : Sock) (hdr : TcpHeader) (data : List UInt8) : Int × Below :=
  match Net.tcpSend below.header sk hdr data with
  | none => (-1, below)
  | some p =>
    let (ret, below) := netSendSkb below p
    if ret < 0 then (-1, below) else (0, below)

def toRoute (below : Below) : Route := fun addr =>
  if below.buffer ∧ below.txQueue.isSome then below.header addr else none

/-- None of the three calls fails for the address. -/
def Sends (below : Below) (addr : BitVec 32) : Prop :=
  below.buffer = true ∧ (below.header addr).isSome ∧ below.txQueue.isSome

section
variable {below : Below} {sk : Sock} {hdr : TcpHeader} {data : List UInt8} {addr saddr : BitVec 32}
  {queue : List Packet}

theorem sends_iff : below.Sends addr ↔ (below.toRoute addr).isSome := by
  unfold Sends toRoute
  split
  · next h => simp [h.1, h.2]
  · next h =>
    simp only [Option.isSome_none, Bool.false_eq_true, iff_false]
    intro hs
    exact h ⟨hs.1, hs.2.2⟩

theorem tcpSend_queued (hheader : below.header sk.recvAddr.addr = some saddr) (hqueue : below.txQueue = some queue) :
    below.tcpSend sk hdr data =
      (0, { below with
        txQueue := some (queue ++ [{
          saddr := saddr
          daddr := sk.recvAddr.addr
          tcp := { hdr with seq := htonl hdr.seq, ackSeq := htonl hdr.ackSeq }
          payload := data }]) }) := by
  unfold tcpSend Net.tcpSend
  rw [hheader]
  simp only [Option.map_some, netSendSkb, hqueue]
  rfl

/-- A segment that is not sent leaves the transmit queue alone. -/
theorem tcpSend_lost (h : below.header sk.recvAddr.addr = none ∨ below.txQueue = none) :
    below.tcpSend sk hdr data = (-1, below) := by
  unfold tcpSend Net.tcpSend
  cases hheader : below.header sk.recvAddr.addr with
  | none => rfl
  | some saddr =>
    have hqueue : below.txQueue = none := h.resolve_left (by simp [hheader])
    simp only [Option.map_some, netSendSkb, hqueue]
    rfl

end

end Below

end RetrOS.Net
