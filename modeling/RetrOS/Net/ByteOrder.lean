import RetrOS.Lib.LittleEndian
import Mathlib.Tactic.IntervalCases

/-!
# Byte order (`net/utils.c`)

`htonl` and `ntohl` swap the four bytes of a word, `htons` and `ntohs` the two bytes of a halfword; swapping the
bytes twice is the identity (`htonl_htonl`, `ntohs_ntohs`). `toNat_htonl` and `toNat_htons` are the numbers.
-/

namespace RetrOS.Net

open RetrOS.Lib

def ntohl (data : BitVec 32) : BitVec 32 :=
  (data &&& 0x000000ff#32) <<< 24 ||| (data &&& 0x0000ff00#32) <<< 8 |||
    (data &&& 0x00ff0000#32) >>> 8 ||| (data &&& 0xff000000#32) >>> 24

def htonl (data : BitVec 32) : BitVec 32 := ntohl data

def ntohs (data : BitVec 16) : BitVec 16 := (data &&& 0x00ff#16) <<< 8 ||| (data &&& 0xff00#16) >>> 8

def htons (data : BitVec 16) : BitVec 16 := ntohs data

@[simp] theorem htonl_htonl (x : BitVec 32) : htonl (htonl x) = x := by
  unfold htonl ntohl
  refine BitVec.eq_of_getLsbD_eq fun i hi => ?_
  interval_cases i <;> simp

@[simp] theorem ntohs_ntohs (x : BitVec 16) : ntohs (ntohs x) = x := by
  unfold ntohs
  refine BitVec.eq_of_getLsbD_eq fun i hi => ?_
  interval_cases i <;> simp

theorem ntohs_injective {x y : BitVec 16} (h : ntohs x = ntohs y) : x = y := by
  rw [← ntohs_ntohs x, h, ntohs_ntohs]

theorem toNat_htons (x : BitVec 16) : (htons x).toNat = x.toNat % 256 * 256 + x.toNat / 256 := by
  have hbytes : htons x = x.extractLsb' 0 8 ++ x.extractLsb' 8 8 := by
    unfold htons ntohs
    refine BitVec.eq_of_getLsbD_eq fun i hi => ?_
    rw [BitVec.getLsbD_append]
    interval_cases i <;> simp
  have hlt := x.isLt
  rw [hbytes, toNat_append_add, BitVec.extractLsb'_toNat, BitVec.extractLsb'_toNat]
  simp only [Nat.shiftRight_eq_div_pow]
  omega

theorem toNat_htonl (x : BitVec 32) : (htonl x).toNat = x.toNat % 256 * 16777216 + x.toNat / 256 % 256 * 65536 +
    x.toNat / 65536 % 256 * 256 + x.toNat / 16777216 := by
  have hbytes : htonl x =
      x.extractLsb' 0 8 ++ (x.extractLsb' 8 8 ++ (x.extractLsb' 16 8 ++ x.extractLsb' 24 8)) := by
    unfold htonl ntohl
    refine BitVec.eq_of_getLsbD_eq fun i hi => ?_
    rw [BitVec.getLsbD_append, BitVec.getLsbD_append, BitVec.getLsbD_append]
    interval_cases i <;> simp
  have hlt := x.isLt
  rw [hbytes, toNat_append_add, toNat_append_add, toNat_append_add]
  simp only [BitVec.extractLsb'_toNat, Nat.shiftRight_eq_div_pow]
  omega

end RetrOS.Net
