import RetrOS.Net.Checksum

/-!
# The UDP checksum (`net/utils.c`, `net/udp.c`)

`transport_checksum` adds the addresses, the protocol and the length to 32 bits before `checksum` adds the words of the
datagram: a carry out of the 32 bits is lost.

* `transportChecksum` : the source;
* `Datagram`, `rfc768` : a datagram on the wire, and the checksum it should have;
* `UdpVerifies`, `transportChecksum_iff` : the two agree exactly if the sum fits in 32 bits;
* `transportChecksum_lost` : addresses whose sum does not.

Addresses are in host order, as `net_udp_parse` has them, and the length is in network order.
-/

namespace RetrOS.Net

open RetrOS.Lib RetrOS.Lib.OnesComplement

def transportChecksum (saddr daddr : BitVec 32) (proto : BitVec 8) (data : List UInt8) (len : BitVec 16) : BitVec 16 :=
  let sum := htonl saddr + htonl daddr + (htons (proto.setWidth 16)).setWidth 32 + len.setWidth 32
  checksum (data.take (ntohs len).toNat) sum

/-! ## Datagrams -/

/-- A UDP datagram; the fields are in host order. -/
structure Datagram where
  srcport : BitVec 16
  destport : BitVec 16
  checksum : BitVec 16
  payload : List UInt8
  short : payload.length + 8 < 2 ^ 16

def Datagram.length (d : Datagram) : BitVec 16 := BitVec.ofNat 16 (d.payload.length + 8)

/-- The datagram on the wire. -/
def Datagram.bytes (d : Datagram) : List UInt8 :=
  bytes16 (htons d.srcport) ++ bytes16 (htons d.destport) ++ bytes16 (htons d.length) ++ bytes16 (htons d.checksum) ++
    d.payload

/-- The words of the pseudo header. -/
def pseudoWords (saddr daddr : BitVec 32) (proto : BitVec 8) (length : Nat) : List Nat :=
  [saddr.toNat / 65536, saddr.toNat % 65536, daddr.toNat / 65536, daddr.toNat % 65536, proto.toNat, length]

/-- The complement of the ones-complement sum of the pseudo header, the header and the payload. -/
def rfc768 (saddr daddr : BitVec 32) (proto : BitVec 8) (data : List UInt8) : BitVec 16 :=
  BitVec.ofNat 16 (65535 - sum 65535 (pseudoWords saddr daddr proto data.length ++ bigWords data))

/-- A datagram with the checksum that its sender computes, with its field zero; for zero all ones are sent. -/
def Datagram.Correct (saddr daddr : BitVec 32) (d : Datagram) : Prop :=
  d.checksum = if rfc768 saddr daddr 0x11 { d with checksum := 0 }.bytes = 0 then 0xffff
    else rfc768 saddr daddr 0x11 { d with checksum := 0 }.bytes

/-- `transport_checksum` is the checksum of a datagram, in network order, and zero if the datagram is correct. -/
structure UdpVerifies (saddr daddr : BitVec 32) (d : Datagram) : Prop where
  equals : transportChecksum saddr daddr 0x11 d.bytes (htons d.length) = htons (rfc768 saddr daddr 0x11 d.bytes)
  verifies : d.Correct saddr daddr → transportChecksum saddr daddr 0x11 d.bytes (htons d.length) = 0

/-- What `transport_checksum` and `checksum` add up. -/
def transportSum (saddr daddr : BitVec 32) (d : Datagram) : Nat :=
  (htonl saddr).toNat + (htonl daddr).toNat + (htons 0x11).toNat + (htons d.length).toNat + (lowWords d.bytes).sum

/-! ## The sums -/

section
variable (saddr daddr : BitVec 32) (d : Datagram)

@[simp] theorem Datagram.length_bytes : d.bytes.length = d.payload.length + 8 := by
  simp only [Datagram.bytes, List.length_append, length_bytes16]
  omega

theorem Datagram.toNat_length : d.length.toNat = d.payload.length + 8 := by
  rw [Datagram.length, BitVec.toNat_ofNat, Nat.mod_eq_of_lt d.short]

/-- The words of the pseudo header and of the datagram. -/
def rfcSum : Nat := (pseudoWords saddr daddr 0x11 d.bytes.length ++ bigWords d.bytes).sum

theorem toNat_rfc768 :
    (rfc768 saddr daddr 0x11 d.bytes).toNat = 65535 - residue 65535 (rfcSum saddr daddr d) := by
  have hwords : ∀ w ∈ pseudoWords saddr daddr 0x11 d.bytes.length ++ bigWords d.bytes, w ≤ 65535 := by
    have hs := saddr.isLt
    have hd := daddr.isLt
    have hlen := d.short
    intro w hw
    rcases List.mem_append.mp hw with hw | hw
    · simp only [pseudoWords, List.mem_cons, List.not_mem_nil, or_false, d.length_bytes] at hw
      rcases hw with rfl | rfl | rfl | rfl | rfl | rfl
      · omega
      · omega
      · omega
      · omega
      · decide
      · omega
    · exact bigWords_le _ w hw
  rw [rfc768, sum_eq_residue (by decide) hwords, BitVec.toNat_ofNat, Nat.mod_eq_of_lt (by omega)]
  rfl

theorem toNat_transportChecksum : (transportChecksum saddr daddr 0x11 d.bytes (htons d.length)).toNat =
    65535 - residue 65535 (transportSum saddr daddr d % 2 ^ 32) := by
  have htake : d.bytes.take (ntohs (htons d.length)).toNat = d.bytes := by
    refine List.take_of_length_le ?_
    rw [htons, ntohs_ntohs, d.toNat_length, d.length_bytes]
  have hproto : (BitVec.setWidth 16 (0x11 : BitVec 8)) = 0x11 := rfl
  rw [transportChecksum, htake, toNat_checksum, transportSum, hproto]
  simp only [BitVec.toNat_add, BitVec.toNat_setWidth]
  congr 2
  omega

/-- The two halves of an address and the whole of it, in the other byte order. -/
theorem htonl_modEq (x : BitVec 32) : 256 * (x.toNat / 65536 + x.toNat % 65536) ≡ (htonl x).toNat [MOD 65535] := by
  have hmul (n k : Nat) : n ≡ n + 65535 * k [MOD 65535] := by
    rw [Nat.ModEq, Nat.add_mul_mod_self_left]
  rw [toNat_htonl]
  calc 256 * (x.toNat / 65536 + x.toNat % 65536)
      ≡ 256 * (x.toNat / 65536 + x.toNat % 65536) + 65535 * (256 * (x.toNat % 256)) [MOD 65535] := hmul _ _
    _ = x.toNat % 256 * 16777216 + x.toNat / 256 % 256 * 65536 + x.toNat / 65536 % 256 * 256 +
          x.toNat / 16777216 + 65535 * (x.toNat / 16777216) := by omega
    _ ≡ _ [MOD 65535] := (hmul _ _).symm

theorem transportSum_modEq : 256 * rfcSum saddr daddr d ≡ transportSum saddr daddr d [MOD 65535] := by
  have hlength : 256 * (d.payload.length + 8) ≡ (htons d.length).toNat [MOD 65535] := by
    rw [toNat_htons, d.toNat_length]
    exact (swap_modEq (B := 256) (by decide)).symm
  have hproto : 256 * 0x11 = (htons 0x11).toNat := by decide
  calc 256 * rfcSum saddr daddr d
      = 256 * (saddr.toNat / 65536 + saddr.toNat % 65536) + 256 * (daddr.toNat / 65536 + daddr.toNat % 65536) +
          256 * 0x11 + 256 * (d.payload.length + 8) + 256 * (bigWords d.bytes).sum := by
        simp only [rfcSum, pseudoWords, List.sum_append, List.sum_cons, List.sum_nil, d.length_bytes]
        change 256 * (_ + (_ + (_ + (_ + (0x11 + _)))) + _) = _
        omega
    _ ≡ transportSum saddr daddr d [MOD 65535] :=
        ((((htonl_modEq saddr).add (htonl_modEq daddr)).add (hproto ▸ Nat.ModEq.refl _)).add hlength).add
          (bigWords_modEq d.bytes)

theorem swap_complement {r : Nat} (h : r ≤ 65535) : swap 256 (65535 - r) = 65535 - swap 256 r := by
  unfold swap
  omega

/-- The checksum the datagram should have is that of the sum before it is cut off. -/
theorem toNat_htons_rfc768 : (htons (rfc768 saddr daddr 0x11 d.bytes)).toNat =
    65535 - residue 65535 (transportSum saddr daddr d) := by
  have hproto : (htons 0x11).toNat = 4352 := by decide
  have hpos : transportSum saddr daddr d ≠ 0 := by
    rw [transportSum, hproto]
    omega
  have hpos' : rfcSum saddr daddr d ≠ 0 := by
    simp only [rfcSum, pseudoWords, List.sum_append, List.sum_cons]
    change _ + (_ + (_ + (_ + (17 + _)))) + _ ≠ 0
    omega
  have hswap : swap 256 (residue 65535 (rfcSum saddr daddr d)) = residue 65535 (transportSum saddr daddr d) :=
    swap_residue (B := 256) (by decide) (transportSum_modEq saddr daddr d) (iff_of_false hpos' hpos)
  rw [toNat_htons, toNat_rfc768, ← hswap, ← swap_complement (residue_le (by decide))]
  rfl

theorem transportSum_lt : transportSum saddr daddr d < 65535 * 2 ^ 32 := by
  have hs := (htonl saddr).isLt
  have hd := (htonl daddr).isLt
  have hlen := (htons d.length).isLt
  have hproto : (htons 0x11).toNat = 4352 := by decide
  have hwords := sum_lowWords_le d.bytes
  have hshort := d.short
  rw [d.length_bytes] at hwords
  rw [transportSum, hproto]
  omega

theorem bigWords_bytes16 (v : BitVec 16) : bigWords (bytes16 (htons v)) = [v.toNat] := by
  have hlt := v.isLt
  have hlow : (v.toNat % 256 * 256 + v.toNat / 256) % 256 = v.toNat / 256 := by omega
  have hhigh : (v.toNat % 256 * 256 + v.toNat / 256) / 256 = v.toNat % 256 := by omega
  simp only [bytes16, bigWords, toNat_byteOf, toNat_htons, Nat.reduceMul, Nat.reducePow, Nat.div_one, hlow, hhigh]
  congr 1
  omega

/-- The checksum of a datagram is one of its words. -/
theorem rfcSum_checksum : rfcSum saddr daddr d = rfcSum saddr daddr { d with checksum := 0 } + d.checksum.toNat := by
  have hfield (v : BitVec 16) : (bigWords { d with checksum := v }.bytes).sum =
      (bigWords (bytes16 (htons d.srcport) ++ bytes16 (htons d.destport) ++ bytes16 (htons d.length))).sum + v.toNat +
        (bigWords d.payload).sum := by
    rw [Datagram.bytes, bigWords_append (by simp), bigWords_append (by simp), bigWords_bytes16]
    simp [Datagram.length, Nat.add_assoc]
  have hd := hfield d.checksum
  have hzero := hfield 0
  simp only [rfcSum, List.sum_append, Datagram.length_bytes, hzero]
  rw [show { d with checksum := d.checksum } = d from rfl] at hd
  rw [hd]
  simp only [BitVec.ofNat_eq_ofNat, BitVec.toNat_ofNat, Nat.zero_mod]
  omega

/-- The words of a correct datagram sum up to all ones. -/
theorem Datagram.Correct.rfc768_eq_zero {saddr daddr : BitVec 32} {d : Datagram} (h : d.Correct saddr daddr) :
    rfc768 saddr daddr 0x11 d.bytes = 0 := by
  have hle := residue_le (n := rfcSum saddr daddr { d with checksum := 0 }) (show 0 < 65535 by decide)
  have hrfc := toNat_rfc768 saddr daddr { d with checksum := 0 }
  have hones : residue 65535 (rfcSum saddr daddr d) = 65535 := by
    rw [rfcSum_checksum, h]
    split
    · next hzero =>
      -- the sum without the checksum is all ones already
      rw [hzero] at hrfc
      have hsum : residue 65535 (rfcSum saddr daddr { d with checksum := 0 }) = 65535 := by
        have : (0 : BitVec 16).toNat = 0 := rfl
        omega
      have hne : rfcSum saddr daddr { d with checksum := 0 } ≠ 0 := fun h0 => by
        rw [h0, residue_zero] at hsum
        cases hsum
      refine Eq.trans (residue_eq_iff.mpr ⟨?_, ?_⟩) hsum
      · exact Nat.add_modEq_right
      · exact iff_of_false (by omega) hne
    · rw [hrfc]
      exact residue_add_complement (by decide)
  rw [← BitVec.toNat_inj, toNat_rfc768, hones]
  rfl

end

/-- **The checksum** is right, and correct datagrams verify, exactly if no carry out of 32 bits is lost. -/
theorem transportChecksum_iff (saddr daddr : BitVec 32) (d : Datagram) :
    UdpVerifies saddr daddr d ↔ transportSum saddr daddr d < 2 ^ 32 := by
  have hequals : transportChecksum saddr daddr 0x11 d.bytes (htons d.length) =
      htons (rfc768 saddr daddr 0x11 d.bytes) ↔ transportSum saddr daddr d < 2 ^ 32 := by
    have hcut := residue_le (n := transportSum saddr daddr d % 2 ^ 32) (show 0 < 65535 by decide)
    have hsum := residue_le (n := transportSum saddr daddr d) (show 0 < 65535 by decide)
    rw [← residue_mod_iff (show 2 ^ 32 ≡ 1 [MOD 65535] by decide) (transportSum_lt saddr daddr d),
      ← BitVec.toNat_inj, toNat_transportChecksum, toNat_htons_rfc768]
    omega
  constructor
  · intro h
    exact hequals.mp h.equals
  · intro h
    refine ⟨hequals.mpr h, fun hcorrect => ?_⟩
    rw [hequals.mpr h, hcorrect.rfc768_eq_zero]
    rfl

/-- A datagram without payload from 10.0.0.200 to 10.0.0.100. -/
def lanDatagram : Datagram := { srcport := 5, destport := 7, checksum := 0, payload := [], short := by decide }

theorem transportChecksum_lost : ¬ UdpVerifies 0x0a0000c8 0x0a000064 lanDatagram := by
  rw [transportChecksum_iff]
  decide

end RetrOS.Net
