import RetrOS.Lib.LittleEndian
import RetrOS.Lib.OnesComplement
import RetrOS.Net.ByteOrder

/-!
# Checksums (`net/utils.c`, `net/tcp.c`)

`checksum` adds the little-endian words of some bytes in 32 bits and folds the carries in; `tcp_calculate_checksum` does
the same in a loop of its own, for a segment and its pseudo header.

* `checksum`, `tcpCalculateChecksum` : the source; `foldSum` : their last loop;
* `toNat_checksum` : the complement of the ones-complement sum of the words, as far as they fit in 32 bits;
* `Fielded` : bytes with a checksum field; `checksum_fill` : with the checksum in it they sum up to zero;
* `tcpCalculateChecksum_eq` : the checksum of the pseudo header and the segment;
* `checksums_verify` : both together.
-/

namespace RetrOS.Net

open RetrOS.Lib RetrOS.Lib.OnesComplement

theorem toNat_and_ffff (v : BitVec 32) : (v &&& 0xffff#32).toNat = v.toNat % 65536 := by
  rw [BitVec.toNat_and]
  exact Nat.and_two_pow_sub_one_eq_mod v.toNat 16

theorem toNat_shift16 (v : BitVec 32) : (v >>> 16).toNat = v.toNat / 65536 := by
  rw [BitVec.toNat_ushiftRight, Nat.shiftRight_eq_div_pow]

/-! ## The source -/

/-- The inner loop of `checksum`, and the left-over byte. -/
def checksumLoop : List UInt8 → BitVec 32 → BitVec 32
  | a :: b :: rest, sum => checksumLoop rest (sum + (word16 a b).setWidth 32)
  | [a], sum => sum + a.toBitVec.setWidth 32
  | [], sum => sum

/-- Fold 32-bit sum to 16 bits. -/
def foldSum (sum : BitVec 32) : BitVec 32 :=
  if sum >>> 16 = 0 then sum else foldSum ((sum &&& 0xffff#32) + (sum >>> 16))
termination_by sum.toNat
decreasing_by
  rename_i h
  have hlt := sum.isLt
  have hpos : sum.toNat / 65536 ≠ 0 := fun hzero => h (BitVec.eq_of_toNat_eq ((toNat_shift16 sum).trans hzero))
  rw [BitVec.toNat_add, toNat_and_ffff, toNat_shift16, Nat.mod_eq_of_lt (by omega)]
  omega

/-- `checksum` of `count` bytes. -/
def checksum (data : List UInt8) (startSum : BitVec 32) : BitVec 16 :=
  (~~~foldSum (checksumLoop data startSum)).setWidth 16

/-- The loop of `tcp_calculate_checksum`; for a byte left over it reads a word with the byte behind the segment. -/
def tcpChecksumLoop (next : UInt8) : List UInt8 → BitVec 32 → BitVec 32
  | a :: b :: rest, sum => tcpChecksumLoop next rest (sum + (word16 a b).setWidth 32)
  | [a], sum => sum + (word16 a next &&& htons 0xff00).setWidth 32
  | [], sum => sum

/-- The value of `tcp_calculate_checksum` and the segment, whose `check` it sets to zero. -/
def tcpCalculateChecksum (srcIp destIp : BitVec 32) (data : List UInt8) (next : UInt8) : BitVec 16 × List UInt8 :=
  let tcpLen := BitVec.ofNat 16 data.length
  let sum := ((srcIp >>> 16) &&& 0xffff#32) + (srcIp &&& 0xffff#32) +
    ((destIp >>> 16) &&& 0xffff#32) + (destIp &&& 0xffff#32) + (htons 0x06).setWidth 32 + (htons tcpLen).setWidth 32
  let data := (data.set 16 0).set 17 0
  ((~~~foldSum (tcpChecksumLoop next (data.take tcpLen.toNat) sum)).setWidth 16, data)

/-! ## What it computes -/

theorem toNat_checksumLoop (data : List UInt8) (sum : BitVec 32) :
    (checksumLoop data sum).toNat = (sum.toNat + (lowWords data).sum) % 2 ^ 32 := by
  induction data, sum using checksumLoop.induct with
  | case1 a b rest sum ih =>
    rw [checksumLoop, ih, BitVec.toNat_add, BitVec.toNat_setWidth, toNat_word16, lowWords, List.sum_cons]
    omega
  | case2 a sum =>
    rw [checksumLoop, BitVec.toNat_add, BitVec.toNat_setWidth, lowWords, List.sum_singleton]
    change (sum.toNat + a.toNat % 2 ^ 32) % 2 ^ 32 = _
    omega
  | case3 sum =>
    have := sum.isLt
    simp only [checksumLoop, lowWords, List.sum_nil]
    omega

/-- Folding the carries in does not change what a sum stands for. -/
theorem toNat_foldSum (sum : BitVec 32) : (foldSum sum).toNat = residue 65535 sum.toNat := by
  induction sum using foldSum.induct with
  | case1 sum h =>
    rw [foldSum, if_pos h]
    rw [← BitVec.toNat_inj, toNat_shift16] at h
    have hzero : sum.toNat / 65536 = 0 := h
    exact (residue_of_le (by omega)).symm
  | case2 sum h ih =>
    have hlt := sum.isLt
    rw [foldSum, if_neg h, ih, BitVec.toNat_add, toNat_and_ffff, toNat_shift16, Nat.mod_eq_of_lt (by omega)]
    exact residue_fold

/-- **The checksum** is the complement of the sum of the words, cut off at 32 bits. -/
theorem toNat_checksum (data : List UInt8) (startSum : BitVec 32) : (checksum data startSum).toNat =
    65535 - residue 65535 ((startSum.toNat + (lowWords data).sum) % 2 ^ 32) := by
  have hle := residue_le (n := (startSum.toNat + (lowWords data).sum) % 2 ^ 32) (show 0 < 65535 by decide)
  rw [checksum, BitVec.toNat_setWidth, BitVec.toNat_not, toNat_foldSum, toNat_checksumLoop]
  omega

/-- Of less than 128 KiB nothing is cut off. -/
theorem toNat_checksum_short {data : List UInt8} (h : data.length < 131072) :
    (checksum data 0).toNat = 65535 - residue 65535 (lowWords data).sum := by
  have hle := sum_lowWords_le data
  rw [toNat_checksum, show (0 : BitVec 32).toNat = 0 from rfl, Nat.zero_add, Nat.mod_eq_of_lt (by omega)]

/-- Zero: the words sum up to a positive multiple of 65535. -/
theorem checksum_eq_zero_iff {data : List UInt8} (h : data.length < 131072) :
    checksum data 0 = 0 ↔ (lowWords data).sum ≠ 0 ∧ 65535 ∣ (lowWords data).sum := by
  have hle := residue_le (n := (lowWords data).sum) (show 0 < 65535 by decide)
  rw [← residue_eq_self (by decide), ← BitVec.toNat_inj, toNat_checksum_short h]
  change 65535 - residue 65535 (lowWords data).sum = 0 ↔ _
  omega

/-! ## The checksum field -/

/-- Bytes with a checksum field behind the first `offset` of them. -/
structure Fielded (offset : Nat) where
  front : List UInt8
  back : List UInt8
  front_length : front.length = offset
  short : offset + 2 + back.length ≤ 65535

/-- The bytes with this value in the field. -/
def Fielded.bytes {offset : Nat} (d : Fielded offset) (value : BitVec 16) : List UInt8 :=
  d.front ++ bytes16 value ++ d.back

section Field
variable {offset : Nat} (d : Fielded offset)

@[simp] theorem Fielded.length_bytes (value : BitVec 16) :
    (d.bytes value).length = offset + 2 + d.back.length := by
  rw [Fielded.bytes, List.length_append, List.length_append, d.front_length, length_bytes16]

theorem lowWords_bytes16 (v : BitVec 16) : lowWords (bytes16 v) = [v.toNat] := by
  have hlt := v.isLt
  simp only [bytes16, lowWords, toNat_byteOf]
  congr 1
  omega

/-- What the field holds is one of the words. -/
theorem Fielded.sum_bytes (heven : offset % 2 = 0) (value : BitVec 16) :
    (lowWords (d.bytes value)).sum = (lowWords (d.bytes 0)).sum + value.toNat := by
  have hfront : d.front.length % 2 = 0 := by rw [d.front_length, heven]
  have hfield (v : BitVec 16) : (lowWords (d.bytes v)).sum =
      (lowWords d.front).sum + v.toNat + (lowWords d.back).sum := by
    rw [Fielded.bytes, List.append_assoc, lowWords_append hfront, lowWords_append (by simp), lowWords_bytes16]
    simp [Nat.add_assoc]
  rw [hfield, hfield]
  simp only [BitVec.ofNat_eq_ofNat, BitVec.toNat_ofNat, Nat.zero_mod]
  omega

/-- **The checksum in its field** makes the checksum of the bytes zero. -/
theorem checksum_fill (heven : offset % 2 = 0) {lead : List UInt8} (hlead : lead.length % 2 = 0)
    (hshort : lead.length ≤ 12) : checksum (lead ++ d.bytes (checksum (lead ++ d.bytes 0) 0)) 0 = 0 := by
  have hlen (v : BitVec 16) : (lead ++ d.bytes v).length < 131072 := by
    have := d.short
    rw [List.length_append, d.length_bytes]
    omega
  have hsum (v : BitVec 16) : (lowWords (lead ++ d.bytes v)).sum =
      (lowWords (lead ++ d.bytes 0)).sum + v.toNat := by
    rw [lowWords_append hlead, lowWords_append hlead, List.sum_append, List.sum_append, d.sum_bytes heven]
    omega
  rw [← BitVec.toNat_inj, toNat_checksum_short (hlen _), hsum, toNat_checksum_short (hlen 0),
    residue_add_complement (by decide)]
  rfl

end Field

/-! ## The pseudo header -/

/-- The pseudo header of a segment; the addresses are in network order. -/
def pseudoHeader (srcIp destIp : BitVec 32) (length : Nat) : List UInt8 :=
  bytes32 srcIp ++ bytes32 destIp ++ [0, 0x06] ++ bytes16 (htons (BitVec.ofNat 16 length))

theorem tcpChecksumLoop_eq (next : UInt8) (data : List UInt8) (sum : BitVec 32) :
    tcpChecksumLoop next data sum = checksumLoop data sum := by
  induction data, sum using checksumLoop.induct with
  | case1 a b rest sum ih => rw [tcpChecksumLoop, ih, checksumLoop]
  | case2 a sum =>
    have hmask : (word16 a next &&& htons 0xff00).toNat = a.toNat := by
      have ha := a.toNat_lt
      rw [BitVec.toNat_and, toNat_word16]
      calc (a.toNat + 256 * next.toNat) &&& (2 ^ 8 - 1) = (a.toNat + 256 * next.toNat) % 2 ^ 8 :=
            Nat.and_two_pow_sub_one_eq_mod _ 8
        _ = a.toNat := by omega
    rw [tcpChecksumLoop, checksumLoop]
    congr 1
    rw [← BitVec.toNat_inj, BitVec.toNat_setWidth, BitVec.toNat_setWidth, hmask]
    rfl
  | case3 sum => rfl

theorem word16_low (v : BitVec 32) : (word16 (byteOf v 0) (byteOf v 1)).setWidth 32 = v &&& 0xffff#32 := by
  rw [← BitVec.toNat_inj, BitVec.toNat_setWidth, toNat_word16, toNat_byteOf, toNat_byteOf, toNat_and_ffff]
  omega

theorem word16_high (v : BitVec 32) :
    (word16 (byteOf v 2) (byteOf v 3)).setWidth 32 = (v >>> 16) &&& 0xffff#32 := by
  have hlt := v.isLt
  rw [← BitVec.toNat_inj, BitVec.toNat_setWidth, toNat_word16, toNat_byteOf, toNat_byteOf, toNat_and_ffff,
    toNat_shift16]
  omega

/-- The pseudo header is where `tcp_calculate_checksum` starts from. -/
theorem checksumLoop_pseudoHeader (srcIp destIp : BitVec 32) (length : Nat) (data : List UInt8) :
    checksumLoop (pseudoHeader srcIp destIp length ++ data) 0 = checksumLoop data
      (((srcIp >>> 16) &&& 0xffff#32) + (srcIp &&& 0xffff#32) +
        ((destIp >>> 16) &&& 0xffff#32) + (destIp &&& 0xffff#32) + (htons 0x06).setWidth 32 + (htons (BitVec.ofNat 16 length)).setWidth 32) := by
  have hbytes : pseudoHeader srcIp destIp length ++ data =
      byteOf srcIp 0 :: byteOf srcIp 1 :: byteOf srcIp 2 :: byteOf srcIp 3 ::
      byteOf destIp 0 :: byteOf destIp 1 :: byteOf destIp 2 :: byteOf destIp 3 :: 0 :: 0x06 ::
      byteOf (htons (BitVec.ofNat 16 length)) 0 :: byteOf (htons (BitVec.ofNat 16 length)) 1 :: data := rfl
  have hproto : word16 0 0x06 = htons 0x06 := by decide
  rw [hbytes]
  iterate 6 rw [checksumLoop]
  simp only [word16_low, word16_high, word16_bytes, hproto, BitVec.ofNat_eq_ofNat, BitVec.zero_add]
  generalize (htons _).setWidth 32 = proto
  congr 1
  ac_rfl

/-- A TCP segment whose `check` is behind its first 16 bytes: `tcp_calculate_checksum` is `checksum` of the pseudo
header and the segment. -/
theorem tcpCalculateChecksum_eq (srcIp destIp : BitVec 32) (seg : Fielded 16) (value : BitVec 16) (next : UInt8) :
    tcpCalculateChecksum srcIp destIp (seg.bytes value) next =
      (checksum (pseudoHeader srcIp destIp (seg.bytes 0).length ++ seg.bytes 0) 0, seg.bytes 0) := by
  have hshort := seg.short
  have hzero : ((seg.bytes value).set 16 0).set 17 0 = seg.bytes 0 := by
    rw [Fielded.bytes, Fielded.bytes, List.append_assoc, List.append_assoc,
      List.set_append_right _ _ seg.front_length.le, List.set_append_right _ _ (by rw [seg.front_length]; decide),
      seg.front_length]
    rfl
  have htake : (seg.bytes 0).take (BitVec.ofNat 16 (seg.bytes value).length).toNat = seg.bytes 0 := by
    refine List.take_of_length_le ?_
    rw [seg.length_bytes, seg.length_bytes, BitVec.toNat_ofNat, Nat.mod_eq_of_lt (by omega)]
  dsimp only [tcpCalculateChecksum]
  rw [hzero, htake, tcpChecksumLoop_eq, checksum, checksumLoop_pseudoHeader, seg.length_bytes, seg.length_bytes]

/-- **Checksums verify**: with its checksum in it an IP header sums up to zero, and so does a TCP segment with its
pseudo header; `tcp_calculate_checksum` is the checksum of that. -/
theorem checksums_verify :
    (∀ hdr : Fielded 10, checksum (hdr.bytes (checksum (hdr.bytes 0) 0)) 0 = 0) ∧
    (∀ srcIp destIp (seg : Fielded 16) next, checksum (pseudoHeader srcIp destIp (seg.bytes 0).length ++
      seg.bytes (tcpCalculateChecksum srcIp destIp (seg.bytes 0) next).1) 0 = 0) ∧
    ∀ srcIp destIp (seg : Fielded 16) value next, tcpCalculateChecksum srcIp destIp (seg.bytes value) next =
      (checksum (pseudoHeader srcIp destIp (seg.bytes 0).length ++ seg.bytes 0) 0, seg.bytes 0) := by
  refine ⟨fun hdr => ?_, fun srcIp destIp seg next => ?_, tcpCalculateChecksum_eq⟩
  · exact @checksum_fill 10 hdr rfl [] rfl (by decide)
  · rw [tcpCalculateChecksum_eq]
    exact checksum_fill seg rfl (by simp [pseudoHeader]) (by simp [pseudoHeader])

end RetrOS.Net
