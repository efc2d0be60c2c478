import RetrOS.Lib.Slice

/-!
# Keys and copies of the applications (`include/gfx/events.h`, `lib/libc.c`)

* the codes of the keys;
* `memcpy` : the copy of the library, four bytes at a time. It may move a block down over itself (`memcpy_eq`);
* `moveForward` : the loop with which both editors make room for a character (`moveForward_eq`).
-/

namespace RetrOS.Apps
open RetrOS.Lib

/-! ## Keys -/

def KEY_UP : UInt8 := 254
def KEY_DOWN : UInt8 := 253
def KEY_LEFT : UInt8 := 252
def KEY_RIGHT : UInt8 := 251
def KEY_F1 : UInt8 := 250
def KEY_F2 : UInt8 := 249
def KEY_F3 : UInt8 := 248
def KEY_F9 : UInt8 := 242

/-- '\n' -/
def newline : UInt8 := 10

/-- '\b' -/
def backspace : UInt8 := 8

/-! ## Memory -/

/-- The loop `dest[i] = src[i]` over `k` units of `size` bytes. -/
def copyUnits (size : Nat) : Nat → (Nat → UInt8) → Nat → Nat → Nat → UInt8
  | 0, memory, _, _ => memory
  | k + 1, memory, dest, src =>
    copyUnits size k (Slice.write memory dest (Slice.read memory src size)) (dest + size) (src + size)

def memcpy (memory : Nat → UInt8) (dest src n : Nat) : Nat → UInt8 :=
  let numDwords := n / 4
  let numBytes := n % 4
  copyUnits 1 numBytes (copyUnits 4 numDwords memory dest src) (dest + numDwords * 4) (src + numDwords * 4)

/-- The loop that moves `diff` characters one position up, from the one at `p` down. -/
def moveForward : Nat → (Nat → UInt8) → Nat → Nat → UInt8
  | 0, memory, _ => memory
  | diff + 1, memory, p => moveForward diff (Function.update memory p (memory (p - 1))) (p - 1)

/-! ## The copies -/

section Copies
variable {memory : Nat → UInt8} {dest src n k : Nat}

/-- A copy to a lower address is right, also where the blocks overlap: what it has written lies before what it reads
next. -/
theorem copyUnits_eq (size k : Nat) (memory : Nat → UInt8) (h : dest ≤ src) :
    copyUnits size k memory dest src = Slice.write memory dest (Slice.read memory src (size * k)) := by
  induction k generalizing memory dest src with
  | zero => rw [copyUnits, Nat.mul_zero, Slice.read_zero, Slice.write_nil]
  | succ k ih =>
    have hlen : dest + (Slice.read memory src size).length = dest + size := by rw [Slice.length_read]
    rw [copyUnits, ih _ (by omega), Slice.read_write_of_apart memory (.inr (by rw [hlen]; omega)), ← hlen,
      Slice.write_append, ← Slice.read_add, Nat.mul_succ, Nat.add_comm size]

theorem memcpy_eq (n : Nat) (memory : Nat → UInt8) (h : dest ≤ src) :
    memcpy memory dest src n = Slice.write memory dest (Slice.read memory src n) := by
  have hlen : dest + (Slice.read memory src (4 * (n / 4))).length = dest + n / 4 * 4 := by
    rw [Slice.length_read, Nat.mul_comm]
  unfold memcpy
  dsimp only
  rw [copyUnits_eq 1 _ _ (by omega), copyUnits_eq 4 _ _ h,
    Slice.read_write_of_apart memory (.inr (by rw [hlen]; omega)), ← hlen, Slice.write_append, Nat.mul_comm (n / 4),
    ← Slice.read_add, Nat.one_mul, Nat.div_add_mod]

/-- **A copy to a lower address**, by any distance: the block has the bytes that were at `src`, and no other byte has
changed. -/
theorem memcpy_down (memory : Nat → UInt8) (dest src n : Nat) (h : dest < src) :
    Slice.read (memcpy memory dest src n) dest n = Slice.read memory src n ∧
      ∀ i, i < dest ∨ dest + n ≤ i → memcpy memory dest src n i = memory i := by
  have hlen : (Slice.read memory src n).length = n := Slice.length_read ..
  rw [memcpy_eq n memory (Nat.le_of_lt h)]
  constructor
  · have hself := Slice.read_write_self memory dest (Slice.read memory src n)
    rwa [hlen] at hself
  · rintro i (hi | hi)
    · exact Slice.write_of_lt memory _ hi
    · exact Slice.write_of_ge memory (by rwa [hlen])

/-- Seven bytes, down by one. -/
theorem memcpy_down_one : Slice.read (memcpy UInt8.ofNat 0 1 7) 0 7 = Slice.read UInt8.ofNat 1 7 ∧
    ∀ i, i < 0 ∨ 0 + 7 ≤ i → memcpy UInt8.ofNat 0 1 7 i = UInt8.ofNat i :=
  memcpy_down UInt8.ofNat 0 1 7 (by decide)

/-- The `k` characters from `src` on, one position up. -/
theorem moveForward_eq (k : Nat) (memory : Nat → UInt8) (src : Nat) :
    moveForward k memory (src + k) = Slice.write memory (src + 1) (Slice.read memory src k) := by
  induction k generalizing memory with
  | zero => rw [moveForward, Slice.read_zero, Slice.write_nil]
  | succ k ih =>
    have hread : Slice.read (Function.update memory (src + k + 1) (memory (src + k))) src k =
        Slice.read memory src k := Slice.read_congr fun i _ hi => Function.update_of_ne (by omega) ..
    have hblock : Slice.read memory src (k + 1) = Slice.read memory src k ++ [memory (src + k)] :=
      Slice.read_add ..
    have hlen : src + 1 + (Slice.read memory src k).length = src + k + 1 := by
      rw [Slice.length_read, Nat.add_right_comm]
    rw [moveForward, ← Nat.add_assoc, Nat.add_sub_cancel, ih, hread, hblock, ← Slice.write_append, hlen,
      Slice.write_singleton, Slice.write_update_of_apart memory _ (.inr (Nat.le_of_eq hlen))]

end Copies

end RetrOS.Apps
