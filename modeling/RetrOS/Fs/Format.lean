import RetrOS.Fs.Entry
import RetrOS.Fs.Chains

/-!
# FAT16: formatting, and the clusters the allocator hands out (`fat16_format`)

* `diskSize`, `formatBootTable` : the layout, from the number of sectors of the disk and the reserved blocks;
* `format` : the driver after `fat16_format` on a disk that was not loaded before;
* `Usable` : the entry of a cluster lies in the table, its number is no end mark, its block lies on the disk and
  is the same for the reader and the writer;
* `getFreeCluster_usable_iff` : when the search returns such a cluster.

The sectors of the disk are a `uint32_t`; their bytes, and the number of blocks, are signed 32-bit integers.
-/

namespace RetrOS.Fs
open RetrOS.Lib

/-- `disk_size`, an `int`. -/
def diskSize (size : BitVec 32) : Int := (size * 512).toInt

def formatBootTable (size : BitVec 32) (reserved : Int) : BootTable :=
  let totalBlocks := (diskSize size).tdiv 512 - 1
  { reservedBlocks := BitVec.ofInt 16 reserved
    rootDirEntries := 16
    totalBlocks := BitVec.ofInt 16 totalBlocks
    fatBlocks := (BitVec.ofInt 32 totalBlocks * 2 / 512).setWidth 16 }

namespace Fat16

/-- `fat16_load` on a disk with the boot table `bootTable`: the table is read from the disk, behind it lies the
memory `behind`. -/
def load (disk : Nat → Nat → UInt8) (bootTable : BootTable) (behind : Nat → BitVec 16) : Fat16 :=
  let fs : Fat16 := { bootTable := bootTable, fatTableMemory := behind, currentDirBlock := 0, disk := disk }
  { fs with
    fatTableMemory := fun e =>
      if e < 256 * bootTable.fatBlocks.toNat then
        load16 (fs.readBlock (fs.getFatStartBlock.toNat + e / 256)) (2 * (e % 256))
      else behind e
    currentDirBlock := fs.getRootDirectoryStartBlock }

/-- The disk after the table and the root directory were cleared. -/
def clearBlocks (disk : Nat → Nat → UInt8) (bootTable : BootTable) : Nat → Nat → UInt8 := fun b =>
  let start := bootTable.reservedBlocks.toNat
  if start ≤ b ∧ b < start + bootTable.fatBlocks.toNat ∨ b = (bootTable.reservedBlocks + bootTable.fatBlocks).toNat
  then fun _ => 0 else disk b

theorem length_label : (ascii "RetrOS-3").length = 8 := rfl

/-- `fat16_format`. The table or the root directory may be cleared over the boot block; loading then fails. What
is written to the boot block itself is left out. -/
def format (disk : Nat → Nat → UInt8) (behind : Nat → BitVec 16) (size : BitVec 32) (reserved : Int) :
    Option Fat16 :=
  let bootTable := formatBootTable size reserved
  if bootTable.reservedBlocks = 0 ∨ bootTable.reservedBlocks + bootTable.fatBlocks = 0 then none
  else
    let fs := load (clearBlocks disk bootTable) bootTable behind
    let fs := fs.setFatEntry 0 0xFFF8
    let fs := fs.allocateCluster 1
    let fs := (fs.addEntry fs.getRootDirectoryStartBlock ⟨ascii "RetrOS-3", by decide⟩ blankExtension
      flagVolumeLabel 0 0).2
    some fs.syncFatTable

/-! ## The clusters that can be used -/

/-- What a cluster handed out must meet on a disk of `size` sectors. -/
structure Usable (fs : Fat16) (size : BitVec 32) (cluster : Nat) : Prop where
  entry : 2 * cluster + 2 ≤ 512 * fs.bootTable.fatBlocks.toNat
  notEnd : cluster < 0xFFF8
  block : fs.directoryBlock cluster < size.toNat
  same : fs.readBlockNum cluster = fs.directoryBlock cluster

/-- The first cluster that is not usable on a formatted disk. -/
def usableBound (size : BitVec 32) (reserved : Int) : Nat :=
  let bootTable := formatBootTable size reserved
  let dataStart := (bootTable.reservedBlocks + bootTable.fatBlocks - 1).toNat
  min (min (256 * bootTable.fatBlocks.toNat) 0xFFF8) (min (size.toNat - dataStart) (65536 - dataStart))

theorem getDataStartBlock_eq (fs : Fat16) :
    fs.getDataStartBlock = fs.bootTable.reservedBlocks + fs.bootTable.fatBlocks - 1 := by
  show 0#16 + fs.bootTable.reservedBlocks + fs.bootTable.fatBlocks - 1 = _
  rw [BitVec.zero_add]

theorem usable_iff {fs : Fat16} {size : BitVec 32} {reserved : Int} {c : Nat}
    (hfmt : fs.bootTable = formatBootTable size reserved) (h0 : 0 < c) (hc : c < 65536) :
    Usable fs size c ↔ c < usableBound size reserved := by
  have hblock := directoryBlock_of_pos fs h0 hc
  have hsame : fs.readBlockNum c = fs.directoryBlock c ↔ fs.getDataStartBlock.toNat + c < 65536 := by
    rw [readBlockNum, hblock]
    constructor
    · intro h
      have := Nat.mod_lt (fs.getDataStartBlock.toNat + c) (show 0 < 2 ^ 16 by decide)
      omega
    · exact Nat.mod_eq_of_lt
  have hbound : usableBound size reserved = min (min (256 * fs.bootTable.fatBlocks.toNat) 0xFFF8)
      (min (size.toNat - fs.getDataStartBlock.toNat) (65536 - fs.getDataStartBlock.toNat)) := by
    rw [getDataStartBlock_eq, hfmt]
    rfl
  rw [hbound]
  constructor
  · rintro ⟨hentry, hend, hdisk, hs⟩
    have := hsame.mp hs
    omega
  · intro h
    exact ⟨by omega, by omega, by omega, hsame.mpr (by omega)⟩

/-- On a formatted disk the search returns a usable cluster, if it returns one at all, exactly when some usable
cluster is free or no cluster is. -/
theorem getFreeCluster_usable_iff (fs : Fat16) (size : BitVec 32) (reserved : Int)
    (hfmt : fs.bootTable = formatBootTable size reserved) :
    (∀ c, fs.getFreeCluster.1 = c → c ≠ 4294967295 → Usable fs size c) ↔
      (∃ i, 5 ≤ i ∧ i < usableBound size reserved ∧ fs.getFatEntry i = 0) ∨
        ∀ i, 5 ≤ i → i < 65536 → fs.getFatEntry i ≠ 0 := by
  by_cases hfull : ∀ i, 5 ≤ i → i < 65536 → fs.getFatEntry i ≠ 0
  · rw [getFreeCluster_of_full hfull]
    exact iff_of_true (fun c hc hne => absurd hc.symm hne) (.inr hfull)
  · have hsome : ∃ i, 5 ≤ i ∧ i < 65536 ∧ fs.getFatEntry i = 0 := by
      by_contra hno
      exact hfull fun i h5 hi h0 => hno ⟨i, h5, hi, h0⟩
    obtain ⟨i, h5, hi, hfree, hmin⟩ := exists_first_free fs hsome
    rw [getFreeCluster_of_free h5 hi hfree hmin]
    constructor
    · intro h
      exact .inl ⟨i, h5, (usable_iff hfmt (by omega) hi).mp (h i rfl (by omega)), hfree⟩
    · rintro (⟨j, hj5, hj, hjfree⟩ | hall) c rfl -
      · -- the first free cluster is not beyond the usable one
        have hij : i ≤ j := Nat.le_of_not_lt fun hlt => hmin j hj5 hlt hjfree
        exact (usable_iff hfmt (by omega) hi).mpr (by omega)
      · exact absurd hfree (hall i h5 hi)

/-- A disk of 257 sectors, five of them reserved, whose clusters up to 251 are taken. -/
def nearlyFull : Fat16 where
  bootTable := formatBootTable 257 5
  fatTableMemory := fun i => if i < 252 then 0xFFFF else 0
  currentDirBlock := 6
  disk := fun _ _ => 0

theorem nearlyFull_free (i : Nat) (h5 : 5 ≤ i) (hi : i < 252) : nearlyFull.getFatEntry i ≠ 0 := by
  show (if i % 2 ^ 31 < 252 then (0xFFFF : BitVec 16) else 0) ≠ 0
  rw [if_pos (by omega)]
  decide

theorem getFreeCluster_nearlyFull : nearlyFull.getFreeCluster.1 = 252 ∧ ¬ Usable nearlyFull 257 252 := by
  refine ⟨?_, fun h => ?_⟩
  · rw [getFreeCluster_of_free (show 5 ≤ 252 by decide) (by decide) (by decide) nearlyFull_free]
  · have hfmt : nearlyFull.bootTable = formatBootTable 257 5 := rfl
    exact absurd ((usable_iff hfmt (by decide) (by decide)).mp h) (by decide)

theorem getFreeCluster_usable_nearlyFull :
    (∀ c, nearlyFull.getFreeCluster.1 = c → c ≠ 4294967295 → Usable nearlyFull 257 c) ↔
      (∃ i, 5 ≤ i ∧ i < usableBound 257 5 ∧ nearlyFull.getFatEntry i = 0) ∨
        ∀ i, 5 ≤ i → i < 65536 → nearlyFull.getFatEntry i ≠ 0 :=
  getFreeCluster_usable_iff nearlyFull 257 5 rfl

end Fat16
end RetrOS.Fs
