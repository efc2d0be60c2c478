import RetrOS.Lib.Bits
import RetrOS.Lib.Span

/-!
# The kernel heap (`kernel/kmem.c`)

`kalloc` hands out runs of 256-byte blocks of the kernel region: a first-fit search over a bitmap,
the number of blocks stored in the `int` in front of the returned pointer. `kfree` reads that `int`
back.

* `Region` : the kernel region of the memory map, `Heap` : bitmap, counter and memory;
* `kmemoryFindBlocks`, `kmemoryMarkBlocks`, `kmemoryWriteMetadata`, `kalloc`, `kfree` : the source, under its
  names in camel case;
* `kmemoryFindBlocks_some/none`, `kmemoryMarkBlocks_eq`, `kfree_blockAddr` : what they do to the bits;
* `numBlocks_pos`, `le_numBlocks` : the rounding of a size to blocks;
* `kfree_kalloc` : freeing what was just allocated.
-/

namespace RetrOS.Kmem

open RetrOS.Lib

/-! ## The source -/

/-- `KMEM_BLOCK_SIZE`. -/
abbrev blockSize : Nat := 256

/-- `KMEM_BLOCKS_PER_BYTE`. -/
abbrev blocksPerByte : Nat := 8

/-- `KERNEL_MEMORY_START` and `KERNEL_MEMORY_END`. `memory_map_init` makes the region a whole number
of megabytes, so the bitmap of `total / 256 / 8` bytes has a bit for every block. -/
structure Region where
  start : Nat
  stop : Nat
  start_le : start ≤ stop
  stop_lt : stop < 2 ^ 32
  aligned : 2048 ∣ stop - start

/-- `__kmemory_bitmap`, `__kmemory_used` and the `int` at every address of the region. -/
structure Heap where
  bitmap : Nat → BitVec 8
  used : BitVec 32
  mem : Nat → Int

/-- `total_blocks` of `kalloc`. -/
def Region.totalBlocks (R : Region) : Nat := (R.stop - R.start) / blockSize

/-- The address of a block. -/
def Region.blockAddr (R : Region) (i : Nat) : Nat := R.start + i * blockSize

/-- `KMEM_BITMAP_INDEX`. -/
def bitmapIndex (R : Region) (addr : Nat) : Nat := (addr - R.start) / blockSize / blocksPerByte

/-- `KMEM_BITMAP_OFFSET`. -/
def bitmapOffset (R : Region) (addr : Nat) : Nat := (addr - R.start) / blockSize % blocksPerByte

/-- The test `!(__kmemory_bitmap[index] & (1 << offset))` of the search. -/
def blockFree (R : Region) (bitmap : Nat → BitVec 8) (i : Nat) : Bool :=
  bitmap (bitmapIndex R (R.blockAddr i)) &&& 1#8 <<< bitmapOffset R (R.blockAddr i) == 0#8

/-- `__kmemory_find_blocks`: the loop of `Bits.firstFit` over the blocks. -/
def kmemoryFindBlocks (R : Region) (bitmap : Nat → BitVec 8) (numBlocks totalBlocks : Nat) : Option Nat :=
  Bits.firstFit (blockFree R bitmap) numBlocks totalBlocks 0 0

def kmemoryMarkBlocks (R : Region) (bitmap : Nat → BitVec 8) (startBlock : Nat) : Nat → Nat → BitVec 8
  | 0 => bitmap
  | n + 1 =>
    let b := kmemoryMarkBlocks R bitmap startBlock n
    let index := bitmapIndex R (R.blockAddr (startBlock + n))
    Function.update b index (b index ||| 1#8 <<< bitmapOffset R (R.blockAddr (startBlock + n)))

/-- The loop of `kfree` that clears the blocks. -/
def kmemoryUnmarkBlocks (R : Region) (bitmap : Nat → BitVec 8) (startBlock : Nat) : Nat → Nat → BitVec 8
  | 0 => bitmap
  | n + 1 =>
    let b := kmemoryUnmarkBlocks R bitmap startBlock n
    let index := bitmapIndex R (R.blockAddr (startBlock + n))
    Function.update b index (b index &&& ~~~(1#8 <<< bitmapOffset R (R.blockAddr (startBlock + n))))

def kmemoryWriteMetadata (R : Region) (mem : Nat → Int) (startBlock numBlocks : Nat) : Nat → Int :=
  Function.update mem (R.blockAddr startBlock) numBlocks

/-- `ALIGN(size, PTR_SIZE)`, in unsigned arithmetic since `PTR_SIZE` is a `size_t`. -/
def alignPtr (size : BitVec 32) : BitVec 32 := (size + 3#32) &&& ~~~3#32

/-- `num_blocks` of `kalloc`. -/
def numBlocks (size : BitVec 32) : Nat := (alignPtr size + 4#32 + 256#32 - 1#32).toNat / blockSize

/-- `kalloc`. `.error` is `kernel_panic`, which does not return; `none` is `NULL`. -/
def kalloc (R : Region) (k : Heap) (size : BitVec 32) : Except String (Option Nat × Heap) :=
  if size.toInt ≤ 0 then .ok (none, k)
  else
    let num := numBlocks size
    match kmemoryFindBlocks R k.bitmap num R.totalBlocks with
    | none => .error "Out of memory!"
    | some startBlock =>
      let k' : Heap :=
        { bitmap := kmemoryMarkBlocks R k.bitmap startBlock num
          used := k.used + BitVec.ofNat 32 (num * blockSize)
          mem := kmemoryWriteMetadata R k.mem startBlock num }
      -- the sanity check after the fact
      if k'.used.toNat > R.stop - R.start then .error "Out of memory!"
      else .ok (some (R.blockAddr startBlock + 4), k')

def kfree (R : Region) (k : Heap) (ptr : Nat) : Heap :=
  if ptr = 0 then k
  else
    let blockIndex := (ptr + 2 ^ 32 - R.start) % 2 ^ 32 / blockSize
    let num := k.mem (R.blockAddr blockIndex)
    { k with
      bitmap := kmemoryUnmarkBlocks R k.bitmap blockIndex num.toNat
      used := k.used - BitVec.ofInt 32 (num * blockSize) }

/-- `kmem_init`: an empty bitmap over whatever the memory holds. -/
def kmemInit (mem : Nat → Int) : Heap := { bitmap := fun _ => 0#8, used := 0#32, mem := mem }

/-! ## The bits of the blocks -/

theorem bitmapIndex_blockAddr (R : Region) (i : Nat) : bitmapIndex R (R.blockAddr i) = i / 8 := by
  simp only [bitmapIndex, Region.blockAddr, blockSize, blocksPerByte]
  omega

theorem bitmapOffset_blockAddr (R : Region) (i : Nat) : bitmapOffset R (R.blockAddr i) = i % 8 := by
  simp only [bitmapOffset, Region.blockAddr, blockSize, blocksPerByte]
  omega

theorem blockFree_eq (R : Region) (b : Nat → BitVec 8) (i : Nat) : blockFree R b i = !Bits.test b i := by
  unfold blockFree Bits.test
  rw [bitmapIndex_blockAddr, bitmapOffset_blockAddr]
  have hk : i % 8 < 8 := Nat.mod_lt _ (by decide)
  generalize b (i / 8) = byte at *
  generalize i % 8 = k at *
  rw [Bool.eq_iff_iff, beq_iff_eq, Bool.not_eq_true']
  constructor
  · intro h
    have := congrArg (fun x : BitVec 8 => x.getLsbD k) h
    simpa [BitVec.getLsbD_and, Bits.getLsbD_one_shl k k hk hk] using this
  · intro h
    apply BitVec.eq_of_getLsbD_eq
    intro j hj
    rw [BitVec.getLsbD_and, Bits.getLsbD_one_shl k j hk hj]
    by_cases hjk : j = k
    · simp [hjk, h]
    · simp [hjk]

theorem kmemoryMarkBlocks_eq (R : Region) (b : Nat → BitVec 8) (s n : Nat) :
    kmemoryMarkBlocks R b s n = Bits.setRange b s n := by
  induction n with
  | zero => rfl
  | succ n ih =>
    simp only [kmemoryMarkBlocks, ih, bitmapIndex_blockAddr, bitmapOffset_blockAddr]
    rfl

theorem kmemoryUnmarkBlocks_eq (R : Region) (b : Nat → BitVec 8) (s n : Nat) :
    kmemoryUnmarkBlocks R b s n = Bits.clearRange b s n := by
  induction n with
  | zero => rfl
  | succ n ih =>
    simp only [kmemoryUnmarkBlocks, ih, bitmapIndex_blockAddr, bitmapOffset_blockAddr]
    rfl

theorem kmemoryFindBlocks_some {R : Region} {b : Nat → BitVec 8} {num total s : Nat}
    (h : kmemoryFindBlocks R b num total = some s) :
    s + num ≤ total ∧ ∀ i, s ≤ i → i < s + num → Bits.test b i = false := by
  obtain ⟨h1, h2⟩ := Bits.firstFit_some (Nat.zero_le _) (fun j _ hj => absurd hj (Nat.not_lt_zero j)) h
  refine ⟨by omega, fun i hi1 hi2 => ?_⟩
  simpa [blockFree_eq] using h2 i hi1 hi2

/-- The search fails only when every run of `num` blocks has a used block. -/
theorem kmemoryFindBlocks_none {R : Region} {b : Nat → BitVec 8} {num total : Nat} (hn : 0 < num)
    (h : kmemoryFindBlocks R b num total = none) (s : Nat) (hs : s + num ≤ total) :
    ∃ i, s ≤ i ∧ i < s + num ∧ Bits.test b i = true := by
  obtain ⟨i, h1, h2, h3⟩ := Bits.firstFit_none (Nat.le_refl 0) hn (fun h => absurd h (Nat.lt_irrefl 0))
    (fun s hs => by omega) h s (by omega)
  exact ⟨i, h1, h2, by simpa [blockFree_eq] using h3⟩

/-! ## Rounding a size to blocks -/

theorem and_not_three (y : BitVec 32) : y &&& ~~~3#32 = (y >>> 2) <<< 2 := by
  apply BitVec.eq_of_getLsbD_eq
  intro i hi
  simp only [BitVec.getLsbD_and, BitVec.getLsbD_not, BitVec.getLsbD_shiftLeft, BitVec.getLsbD_ushiftRight,
    hi, decide_true, Bool.true_and]
  by_cases h : i < 2
  · have : i = 0 ∨ i = 1 := by omega
    rcases this with rfl | rfl <;> simp
  · have h3 : (3#32).getLsbD i = false := by
      rw [BitVec.getLsbD_ofNat, Nat.testBit_lt_two_pow
        (Nat.lt_of_lt_of_le (by decide : 3 < 2 ^ 2) (Nat.pow_le_pow_right (by decide) (by omega)))]
      simp
    rw [h3]
    simp [h, show 2 + (i - 2) = i by omega]

theorem toNat_lt_of_toInt_pos {size : BitVec 32} (h : 0 < size.toInt) : 0 < size.toNat ∧ size.toNat < 2 ^ 31 := by
  rw [BitVec.toInt_eq_toNat_cond] at h
  split at h <;> omega

theorem alignPtr_toNat {size : BitVec 32} (h : 0 < size.toInt) :
    (alignPtr size).toNat = (size.toNat + 3) / 4 * 4 := by
  obtain ⟨_, hlt⟩ := toNat_lt_of_toInt_pos h
  rw [alignPtr, and_not_three, BitVec.toNat_shiftLeft, BitVec.toNat_ushiftRight, BitVec.toNat_add,
    Nat.shiftLeft_eq, Nat.shiftRight_eq_div_pow]
  simp only [BitVec.toNat_ofNat]
  omega

theorem numBlocks_eq {size : BitVec 32} (h : 0 < size.toInt) :
    numBlocks size = ((size.toNat + 3) / 4 * 4 + 259) / 256 := by
  obtain ⟨_, hlt⟩ := toNat_lt_of_toInt_pos h
  rw [numBlocks, BitVec.toNat_sub, BitVec.toNat_add, BitVec.toNat_add, alignPtr_toNat h]
  simp only [BitVec.toNat_ofNat, blockSize]
  omega

theorem numBlocks_pos {size : BitVec 32} (h : 0 < size.toInt) : 0 < numBlocks size := by
  rw [numBlocks_eq h]
  omega

theorem le_numBlocks {size : BitVec 32} (h : 0 < size.toInt) : size.toNat + 4 ≤ numBlocks size * blockSize := by
  rw [numBlocks_eq h]
  simp only [blockSize]
  omega

/-! ## The block of a pointer -/

theorem blockIndex_ptr (R : Region) {i : Nat} (h : i < R.totalBlocks) :
    (R.blockAddr i + 4 + 2 ^ 32 - R.start) % 2 ^ 32 / blockSize = i := by
  have h1 := R.stop_lt
  have h2 := R.start_le
  unfold Region.blockAddr
  unfold Region.totalBlocks at h
  simp only [blockSize] at *
  omega

theorem kfree_blockAddr (R : Region) (k : Heap) {i n : Nat} (hi : i < R.totalBlocks)
    (hn : k.mem (R.blockAddr i) = n) :
    kfree R k (R.blockAddr i + 4) =
      { k with
        bitmap := Bits.clearRange k.bitmap i n
        used := k.used - BitVec.ofNat 32 (n * blockSize) } := by
  have hofInt : BitVec.ofInt 32 ((n : Int) * (blockSize : Nat)) = BitVec.ofNat 32 (n * blockSize) := by
    rw [← Int.natCast_mul, BitVec.ofInt_natCast]
  rw [kfree, if_neg (by omega)]
  rw [blockIndex_ptr R hi]
  dsimp only
  rw [hn, Int.toNat_natCast, kmemoryUnmarkBlocks_eq, hofInt]

/-! ## Allocating and freeing -/

/-- The same blocks are in use. -/
structure SameBlocks (k k' : Heap) : Prop where
  bitmap : k'.bitmap = k.bitmap
  used : k'.used = k.used

theorem SameBlocks.refl (k : Heap) : SameBlocks k k := ⟨rfl, rfl⟩

theorem SameBlocks.trans {k k' k'' : Heap} (h : SameBlocks k k') (h' : SameBlocks k' k'') : SameBlocks k k'' :=
  ⟨h'.bitmap.trans h.bitmap, h'.used.trans h.used⟩

/-- An allocation that succeeds. -/
theorem kalloc_some_iff {R : Region} {k k' : Heap} {size : BitVec 32} {ptr : Nat} :
    kalloc R k size = .ok (some ptr, k') ↔ 0 < size.toInt ∧ ∃ startBlock,
      kmemoryFindBlocks R k.bitmap (numBlocks size) R.totalBlocks = some startBlock ∧
      (k.used + BitVec.ofNat 32 (numBlocks size * blockSize)).toNat ≤ R.stop - R.start ∧
      ptr = R.blockAddr startBlock + 4 ∧
      k' = ⟨kmemoryMarkBlocks R k.bitmap startBlock (numBlocks size),
        k.used + BitVec.ofNat 32 (numBlocks size * blockSize),
        kmemoryWriteMetadata R k.mem startBlock (numBlocks size)⟩ := by
  unfold kalloc
  by_cases hsize : size.toInt ≤ 0
  · rw [if_pos hsize]
    exact iff_of_false (fun h => by cases h) fun h => absurd h.1 (Int.not_lt.mpr hsize)
  rw [if_neg hsize]
  dsimp only
  cases hfind : kmemoryFindBlocks R k.bitmap (numBlocks size) R.totalBlocks with
  | none => exact iff_of_false (fun h => by cases h) fun ⟨_, _, h, _⟩ => by cases h
  | some startBlock =>
    dsimp only
    split
    · next hused =>
      exact iff_of_false (fun h => by cases h) fun ⟨_, _, _, h, _⟩ => absurd h (Nat.not_le.mpr hused)
    · next hused =>
      constructor
      · intro h
        cases h
        exact ⟨Int.not_le.mp hsize, startBlock, rfl, Nat.not_lt.mp hused, rfl, rfl⟩
      · rintro ⟨-, b, hb, -, rfl, rfl⟩
        cases hb
        rfl

/-- The blocks in use decide what an allocation returns. -/
theorem SameBlocks.kalloc {R : Region} {k k' k1 : Heap} {size : BitVec 32} {ptr : Nat} (h : SameBlocks k k')
    (halloc : kalloc R k size = .ok (some ptr, k1)) : ∃ k1', Kmem.kalloc R k' size = .ok (some ptr, k1') := by
  obtain ⟨hsize, b, hfind, hused, rfl, rfl⟩ := kalloc_some_iff.mp halloc
  rw [← h.bitmap] at hfind
  rw [← h.used] at hused
  exact ⟨_, kalloc_some_iff.mpr ⟨hsize, b, hfind, hused, rfl, rfl⟩⟩

/-- Freeing what was just allocated. -/
theorem kfree_kalloc {R : Region} {k k' : Heap} {size : BitVec 32} {ptr : Nat}
    (h : kalloc R k size = .ok (some ptr, k')) : SameBlocks k (kfree R k' ptr) := by
  obtain ⟨hsize, b, hfind, -, rfl, rfl⟩ := kalloc_some_iff.mp h
  obtain ⟨hle, hfree⟩ := kmemoryFindBlocks_some hfind
  have hpos := numBlocks_pos hsize
  rw [kfree_blockAddr R _ (by omega) (Function.update_self ..)]
  refine ⟨?_, BitVec.add_sub_cancel ..⟩
  dsimp only
  rw [kmemoryMarkBlocks_eq]
  exact Bits.clearRange_setRange hfree

end RetrOS.Kmem
