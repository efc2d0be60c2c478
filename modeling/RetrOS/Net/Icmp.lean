import RetrOS.Kernel.Kmem
import RetrOS.Lib.Slice
import RetrOS.Net.Checksum
import RetrOS.Net.Tcp

/-!
# ICMP (`net/icmp.c`)

`net_icmp_parse` sums up as many bytes as the frame has, from the ICMP header on: the message, and the bytes behind it.
`net_icmp_handle` copies the pointer to the message instead of the message, with what stands behind the pointer in the
`struct sk_buff`.

* `netIcmpParse`, `netIcmpHandle` : the source;
* `Skb.message` : the ICMP message of a frame, `Skb.beyondSum` : what is summed up beyond it;
* `Echoes` : what the two should do; `Harmless` : the frames with which they do it (`icmp_iff`).
-/

namespace RetrOS.Icmp

open RetrOS.Lib RetrOS.Lib.OnesComplement RetrOS.Net

/-! ## The source -/

abbrev icmpReply : UInt8 := 0x00

abbrev icmpV4Echo : UInt8 := 0x08

abbrev etherHdrLength : Nat := 14

abbrev maxPacketSize : Nat := 0x600

/-- `struct sk_buff` of a frame whose ethernet and IP header are parsed. `head` comes from `kalloc` (`kalloc_mod`); of
the IP header there are `ihl`, and `len` and `saddr` in host order; `icmp` is the memory from the ICMP header on. -/
structure Skb where
  head : Nat
  head_mod : head % 256 = 4
  ihl : BitVec 4
  ipLen : BitVec 16
  saddr : BitVec 32
  len : Nat
  len_le : len ≤ maxPacketSize
  dataLen : BitVec 16
  icmp : Nat → UInt8

/-- `skb->hdr.icmp`. -/
def Skb.icmpPointer (s : Skb) : BitVec 32 := BitVec.ofNat 32 (s.head + etherHdrLength + 4 * s.ihl.toNat)

/-- `ICMP_HTONS`. -/
def icmpHtons (m : Nat → UInt8) : Nat → UInt8 :=
  Slice.write m 2 (bytes16 (htons (load16 m 2)) ++ bytes16 (htons (load16 m 4)) ++ bytes16 (htons (load16 m 6)))

def netIcmpParse (s : Skb) : Int × Skb :=
  if checksum (Slice.read s.icmp 0 s.len) 0 ≠ 0 then (-1, s) else (0, { s with icmp := icmpHtons s.icmp })

/-- A frame in the transmit queue: the addresses and what follows the IP header. -/
structure Packet where
  saddr : BitVec 32
  daddr : BitVec 32
  icmp : List UInt8

/-- The eight bytes of the `struct sk_buff` from `hdr.icmp` on: the pointer, `len` and `data_len`. -/
def Skb.response (s : Skb) : List UInt8 := bytes32 s.icmpPointer ++ bytes16 (BitVec.ofNat 16 s.len) ++ bytes16 s.dataLen

variable (route : Route)

def netIcmpHandle (queue : List Packet) (s : Skb) : List Packet :=
  if s.icmp 0 ≠ icmpV4Echo then queue
  else
    let icmp := Slice.write (Function.update s.icmp 0 icmpReply) 2 (bytes16 0)
    let s := { s with icmp := Slice.write icmp 2 (bytes16 (checksum (Slice.read icmp 0 s.len) 0)) }
    match route s.saddr with
    | none => queue
    | some saddr => queue ++ [{ saddr := saddr, daddr := s.saddr, icmp := s.response }]

/-- What `net_handle_recieve` does with a frame of `ICMPV4`. -/
def netHandleRecieve (queue : List Packet) (s : Skb) : List Packet :=
  let (ret, s) := netIcmpParse s
  if ret < 0 then queue else netIcmpHandle route queue s

/-! ## Messages -/

/-- The ICMP message: what the datagram holds behind the IP header, as far as it arrived. -/
def Skb.message (s : Skb) : List UInt8 :=
  Slice.read s.icmp 0 (min (s.ipLen.toNat - 4 * s.ihl.toNat) (s.len - etherHdrLength - 4 * s.ihl.toNat))

/-- The other bytes that are summed up. -/
def Skb.beyond (s : Skb) : List UInt8 := Slice.read s.icmp s.message.length (s.len - s.message.length)

/-- The sum of the words of the message. -/
def Skb.messageSum (s : Skb) : Nat := (lowWords s.message).sum

/-- What the other bytes add to it. -/
def Skb.beyondSum (s : Skb) : Nat := (lowWords (List.replicate (s.message.length % 2) 0 ++ s.beyond)).sum

/-- A sum whose checksum is zero. -/
def Verifies (n : Nat) : Prop := n ≠ 0 ∧ 65535 ∣ n

instance (n : Nat) : Decidable (Verifies n) := inferInstanceAs (Decidable (n ≠ 0 ∧ 65535 ∣ n))

/-- One packet is queued: an echo reply with the code, the identifier and the sequence number of the request, whose
checksum is zero. -/
def Answers (s : Skb) (queue queue' : List Packet) : Prop :=
  ∃ (p : Packet) (csum : BitVec 16) (data : List UInt8), queue' = queue ++ [p] ∧
    p.icmp = icmpReply :: s.icmp 1 :: (bytes16 csum ++ Slice.read s.icmp 4 4 ++ data) ∧ checksum p.icmp 0 = 0

/-- What a frame should do: it is accepted exactly if the checksum of its message is zero, and then an echo request is
answered. -/
structure Echoes (queue : List Packet) (s : Skb) : Prop where
  accepts : (netIcmpParse s).1 = 0 ↔ checksum s.message 0 = 0
  answers : (netIcmpParse s).1 = 0 → s.icmp 0 = icmpV4Echo → Answers s queue (netHandleRecieve route queue s)

/-- The frames that do: no echo request that verifies with the bytes beyond it, and these bytes do not matter, as they
add a multiple of 65535 (but nothing to a sum of zero), or the message verifies neither with them nor without. -/
structure Harmless (s : Skb) : Prop where
  echo : s.icmp 0 = icmpV4Echo → ¬ Verifies (s.messageSum + s.beyondSum)
  zero : 65535 ∣ s.beyondSum → s.messageSum = 0 → s.beyondSum = 0
  other : ¬ 65535 ∣ s.beyondSum → ¬ Verifies s.messageSum ∧ ¬ Verifies (s.messageSum + s.beyondSum)

section
variable {route} {queue : List Packet} {s : Skb}

/-- What `kalloc` returns is four bytes behind the start of a block, the kernel region starts at 1 MiB. -/
theorem kalloc_mod {R : Kmem.Region} {k k' : Kmem.Heap} {size : BitVec 32} {head : Nat}
    (hstart : R.start = 1024 * 1024) (h : Kmem.kalloc R k size = .ok (some head, k')) : head % 256 = 4 := by
  obtain ⟨-, startBlock, -, -, rfl, -⟩ := Kmem.kalloc_some_iff.mp h
  have haddr : R.blockAddr startBlock = 1024 * 1024 + startBlock * 256 := by rw [Kmem.Region.blockAddr, hstart]
  omega

theorem length_message_le (s : Skb) : s.message.length ≤ s.len := by
  rw [Skb.message, Slice.length_read]
  omega

theorem verifies_iff {data : List UInt8} (h : data.length ≤ maxPacketSize) :
    checksum data 0 = 0 ↔ Verifies (lowWords data).sum :=
  checksum_eq_zero_iff (lt_of_le_of_lt h (by decide))

/-- All bytes that are summed up. -/
theorem sum_frame (s : Skb) : (lowWords (Slice.read s.icmp 0 s.len)).sum = s.messageSum + s.beyondSum := by
  have hle := length_message_le s
  have hsplit : Slice.read s.icmp 0 s.len = s.message ++ s.beyond := by
    have hmessage : s.message = Slice.read s.icmp 0 s.message.length := by simp [Skb.message]
    conv_rhs => rw [hmessage]
    rw [Skb.beyond]
    calc Slice.read s.icmp 0 s.len = Slice.read s.icmp 0 (s.message.length + (s.len - s.message.length)) := by
          rw [Nat.add_sub_cancel' hle]
      _ = _ := by rw [Slice.read_add, Nat.zero_add]
  rw [hsplit, sum_lowWords_append]
  rfl

theorem netIcmpParse_iff : (netIcmpParse s).1 = 0 ↔ Verifies (s.messageSum + s.beyondSum) := by
  rw [← sum_frame, ← verifies_iff (by simpa using s.len_le)]
  unfold netIcmpParse
  split
  · next h => exact iff_of_false (fun hret : (-1 : Int) = 0 => by cases hret) h
  · next h => exact iff_of_true rfl (not_not.mp h)

/-- The pointer never starts with the type of a reply. -/
theorem response_head (s : Skb) : s.response.head? ≠ some icmpReply := by
  have hihl := s.ihl.isLt
  have hhead := s.head_mod
  intro h
  have hbyte : (byteOf s.icmpPointer 0).toNat = 0 := congrArg UInt8.toNat (Option.some.inj h)
  have hlow : (byteOf s.icmpPointer 0).toNat = (s.head + 14 + 4 * s.ihl.toNat) % 256 := by
    rw [toNat_byteOf, Skb.icmpPointer, BitVec.toNat_ofNat, Nat.mul_zero, Nat.pow_zero, Nat.div_one,
      Nat.mod_mod_of_dvd _ (by decide)]
  omega

/-- What is queued is no answer. -/
theorem not_answers {s' : Skb} (hecho : s'.icmp 0 = icmpV4Echo) :
    ¬ Answers s queue (netIcmpHandle route queue s') := by
  rintro ⟨p, csum, data, hqueue, hicmp, -⟩
  rw [netIcmpHandle, if_neg (not_not.mpr hecho)] at hqueue
  dsimp only at hqueue
  split at hqueue
  · simp at hqueue
  · next saddr hroute =>
    obtain rfl := List.singleton_inj.mp (List.append_cancel_left hqueue)
    exact response_head s' (congrArg List.head? hicmp)

theorem netHandleRecieve_not_answers (haccept : (netIcmpParse s).1 = 0) (hecho : s.icmp 0 = icmpV4Echo) :
    ¬ Answers s queue (netHandleRecieve route queue s) := by
  have hok : ¬ checksum (Slice.read s.icmp 0 s.len) 0 ≠ 0 := fun hne => by
    rw [netIcmpParse, if_pos hne] at haccept
    cases haccept
  have hdata : icmpHtons s.icmp 0 = s.icmp 0 := Slice.write_of_lt s.icmp _ (show 0 < 2 by decide)
  rw [netHandleRecieve, netIcmpParse, if_neg hok]
  exact not_answers (hdata.trans hecho)

/-- Two sums that verify together, by what one has more than the other. -/
theorem verifies_add_iff {m r : Nat} : (Verifies (m + r) ↔ Verifies m) ↔
    (65535 ∣ r → m = 0 → r = 0) ∧ (¬ 65535 ∣ r → ¬ Verifies m ∧ ¬ Verifies (m + r)) := by
  unfold Verifies
  by_cases hr : 65535 ∣ r
  · have hdvd : 65535 ∣ m + r ↔ 65535 ∣ m := Nat.dvd_add_iff_left hr |>.symm
    simp only [hdvd]
    omega
  · omega

theorem not_echoes (haccept : (netIcmpParse s).1 = 0) (hecho : s.icmp 0 = icmpV4Echo) : ¬ Echoes route queue s :=
  fun h => netHandleRecieve_not_answers haccept hecho (h.answers haccept hecho)

end

/-- **Exactly** the harmless frames are handled as they should be, in every state of the host. -/
theorem icmp_iff (route : Route) (queue : List Packet) (s : Skb) : Echoes route queue s ↔ Harmless s := by
  have hmessage : checksum s.message 0 = 0 ↔ Verifies s.messageSum :=
    verifies_iff ((length_message_le s).trans s.len_le)
  have haccepts : ((netIcmpParse s).1 = 0 ↔ checksum s.message 0 = 0) ↔
      (65535 ∣ s.beyondSum → s.messageSum = 0 → s.beyondSum = 0) ∧
      (¬ 65535 ∣ s.beyondSum → ¬ Verifies s.messageSum ∧ ¬ Verifies (s.messageSum + s.beyondSum)) := by
    rw [netIcmpParse_iff, hmessage, verifies_add_iff]
  constructor
  · intro h
    obtain ⟨hzero, hother⟩ := haccepts.mp h.accepts
    exact ⟨fun hecho hverifies => not_echoes (netIcmpParse_iff.mpr hverifies) hecho h, hzero, hother⟩
  · intro h
    exact ⟨haccepts.mpr ⟨h.zero, h.other⟩, fun haccept hecho => absurd (netIcmpParse_iff.mp haccept) (h.echo hecho)⟩

/-- An echo request, 42 bytes with all headers, and nothing behind it. -/
def echoRequest : Skb where
  head := 0x100004
  head_mod := rfl
  ihl := 5
  ipLen := 28
  saddr := 0x0a000002
  len := 42
  len_le := by decide
  dataLen := 0
  icmp := fun i => [8, 0, 0xf7, 0xff, 0, 0, 0, 0].getD i 0

/-- It is not answered with an echo reply. -/
theorem icmp_noReply : ¬ Echoes anyRoute [] echoRequest :=
  not_echoes (netIcmpParse_iff.mpr (by
    rw [← sum_frame]
    decide)) rfl

end RetrOS.Icmp
