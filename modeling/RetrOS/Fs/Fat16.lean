import RetrOS.Lib.Slice
import RetrOS.Lib.LittleEndian
import Mathlib.Algebra.Group.Nat.Defs
import Mathlib.Logic.Function.Basic
import Mathlib.Data.List.Range
import Mathlib.Data.Nat.Find

/-!
# FAT16: the table and the blocks (`fs/fat16.c`, `kernel/diskdev.c`)

The state of the driver after `fat16_load`: the boot table, the table in memory, the current directory and
the disk. The disk answers every request.

* `getFatStartBlock`, `getRootDirectoryStartBlock`, `getDataStartBlock` : the layout, in 16-bit integers;
* `directoryBlock` : `GET_DIRECTORY_BLOCK`, the block of a cluster;
* `getFatEntry`, `setFatEntry`, `getFreeCluster`, `syncFatTable` : the table. Entry `i` lies at `2 * i`; the
  table occupies the first `256 * fat_blocks` entries of `fatTableMemory`, what follows is other memory.

Clusters, blocks and offsets are numbers; a conversion to a narrower type is a remainder.
-/

namespace RetrOS.Fs
open RetrOS.Lib

/-- The fields of `struct fat_boot_table` that the driver reads. -/
structure BootTable where
  reservedBlocks : BitVec 16
  rootDirEntries : BitVec 16
  totalBlocks : BitVec 16
  fatBlocks : BitVec 16

structure Fat16 where
  bootTable : BootTable
  /-- `fat_table_memory`, an entry at each even address -/
  fatTableMemory : Nat → BitVec 16
  currentDirBlock : BitVec 16
  /-- the bytes of every block -/
  disk : Nat → Nat → UInt8

namespace Fat16

/-! ## Layout -/

def getFatStartBlock (fs : Fat16) : BitVec 16 := 0 + fs.bootTable.reservedBlocks

def getRootDirectoryStartBlock (fs : Fat16) : BitVec 16 := fs.getFatStartBlock + fs.bootTable.fatBlocks

def getDataStartBlock (fs : Fat16) : BitVec 16 := fs.getRootDirectoryStartBlock - 1

/-- `GET_DIRECTORY_BLOCK`, a `uint32_t`. -/
def directoryBlock (fs : Fat16) (cluster : Nat) : Nat :=
  if cluster = 0 then fs.getRootDirectoryStartBlock.toNat
  else (fs.getDataStartBlock.toNat + cluster) % 2 ^ 32

/-! ## Blocks -/

def readBlock (fs : Fat16) (block : Nat) : Nat → UInt8 := fs.disk block

def writeBlock (fs : Fat16) (buf : Nat → UInt8) (block : Nat) : Fat16 :=
  { fs with disk := Function.update fs.disk block buf }

def writeBlockOffset (fs : Fat16) (data : List UInt8) (offset block : Nat) : Fat16 :=
  fs.writeBlock (Slice.write (fs.readBlock block) offset data) block

def readBlockOffset (fs : Fat16) (size offset block : Nat) : List UInt8 :=
  Slice.read (fs.readBlock block) offset size

/-! ## The table -/

/-- The address of an entry is `cluster * 2` in 32 bits. -/
def getFatEntry (fs : Fat16) (cluster : Nat) : BitVec 16 := fs.fatTableMemory (cluster % 2 ^ 31)

def setFatEntry (fs : Fat16) (cluster : Nat) (value : BitVec 16) : Fat16 :=
  { fs with fatTableMemory := Function.update fs.fatTableMemory (cluster % 2 ^ 31) value }

/-- Block `i` of the table in memory. -/
def tableBlock (fs : Fat16) (i : Nat) : Nat → UInt8 :=
  fun o => byteOf (fs.fatTableMemory (256 * i + o / 2)) (o % 2)

def syncFatTable (fs : Fat16) : Fat16 :=
  let start := fs.getFatStartBlock.toNat
  { fs with
    disk := fun b =>
      if start ≤ b ∧ b < start + fs.bootTable.fatBlocks.toNat then fs.tableBlock (b - start) else fs.disk b }

def allocateCluster (fs : Fat16) (cluster : Nat) : Fat16 := fs.setFatEntry cluster 0xFFFF

def freeCluster (fs : Fat16) (cluster : Nat) : Fat16 := fs.setFatEntry cluster 0x0000

/-- `fat16_get_free_cluster`; the `-1` of a full table is a `uint32_t`. -/
def getFreeCluster (fs : Fat16) : Nat × Fat16 :=
  match (List.range' 5 65531).find? fun i => fs.getFatEntry i == 0x0000 with
  | some i => (i, fs.allocateCluster i)
  | none => (4294967295, fs)

/-! ## What the operations change -/

section
variable (fs : Fat16) (buf : Nat → UInt8) (data : List UInt8) (b c d offset : Nat) (v : BitVec 16)

@[simp] theorem bootTable_writeBlock : (fs.writeBlock buf b).bootTable = fs.bootTable := rfl

@[simp] theorem bootTable_writeBlockOffset : (fs.writeBlockOffset data offset b).bootTable = fs.bootTable := rfl

@[simp] theorem bootTable_setFatEntry : (fs.setFatEntry c v).bootTable = fs.bootTable := rfl

@[simp] theorem bootTable_syncFatTable : fs.syncFatTable.bootTable = fs.bootTable := rfl

@[simp] theorem bootTable_getFreeCluster : fs.getFreeCluster.2.bootTable = fs.bootTable := by
  unfold getFreeCluster
  split <;> rfl

@[simp] theorem currentDirBlock_writeBlock : (fs.writeBlock buf b).currentDirBlock = fs.currentDirBlock := rfl

@[simp] theorem currentDirBlock_setFatEntry : (fs.setFatEntry c v).currentDirBlock = fs.currentDirBlock := rfl

@[simp] theorem currentDirBlock_syncFatTable : fs.syncFatTable.currentDirBlock = fs.currentDirBlock := rfl

@[simp] theorem currentDirBlock_getFreeCluster : fs.getFreeCluster.2.currentDirBlock = fs.currentDirBlock := by
  unfold getFreeCluster
  split <;> rfl

@[simp] theorem getFatEntry_writeBlock : (fs.writeBlock buf b).getFatEntry d = fs.getFatEntry d := rfl

@[simp] theorem getFatEntry_writeBlockOffset :
    (fs.writeBlockOffset data offset b).getFatEntry d = fs.getFatEntry d := rfl

@[simp] theorem getFatEntry_syncFatTable : fs.syncFatTable.getFatEntry d = fs.getFatEntry d := rfl

@[simp] theorem disk_setFatEntry : (fs.setFatEntry c v).disk = fs.disk := rfl

@[simp] theorem disk_getFreeCluster : fs.getFreeCluster.2.disk = fs.disk := by
  unfold getFreeCluster
  split <;> rfl

theorem disk_writeBlock_of_ne {b b' : Nat} (h : b' ≠ b) : (fs.writeBlock buf b).disk b' = fs.disk b' :=
  Function.update_of_ne h ..

@[simp] theorem disk_writeBlock_self : (fs.writeBlock buf b).disk b = buf := Function.update_self ..

/-- Writing back the table changes blocks of the table only. -/
theorem disk_syncFatTable {b : Nat}
    (h : b < fs.getFatStartBlock.toNat ∨ fs.getFatStartBlock.toNat + fs.bootTable.fatBlocks.toNat ≤ b) :
    fs.syncFatTable.disk b = fs.disk b :=
  if_neg (by omega)

@[simp] theorem getFatEntry_setFatEntry_self : (fs.setFatEntry c v).getFatEntry c = v :=
  Function.update_self ..

theorem getFatEntry_setFatEntry_of_ne {c d : Nat} (hc : c < 2 ^ 31) (hd : d < 2 ^ 31) (h : d ≠ c) :
    (fs.setFatEntry c v).getFatEntry d = fs.getFatEntry d := by
  unfold getFatEntry setFatEntry
  rw [Nat.mod_eq_of_lt hc, Nat.mod_eq_of_lt hd]
  exact Function.update_of_ne h ..

end

/-! ## The search for a free cluster -/

/-- The search finds the first free entry from 5 on and marks it. -/
theorem getFreeCluster_of_free {fs : Fat16} {i : Nat} (h5 : 5 ≤ i) (hi : i < 65536) (hfree : fs.getFatEntry i = 0)
    (hmin : ∀ j, 5 ≤ j → j < i → fs.getFatEntry j ≠ 0) : fs.getFreeCluster = (i, fs.allocateCluster i) := by
  have hfind : ((List.range' 5 65531).find? fun i => fs.getFatEntry i == 0x0000) = some i := by
    rw [List.find?_range'_eq_some]
    refine ⟨by simpa using hfree, by rw [List.mem_range'_1]; omega, fun j hj hji => ?_⟩
    simpa using hmin j hj hji
  rw [getFreeCluster, hfind]

theorem getFreeCluster_of_full {fs : Fat16} (hfull : ∀ j, 5 ≤ j → j < 65536 → fs.getFatEntry j ≠ 0) :
    fs.getFreeCluster = (4294967295, fs) := by
  have hfind : ((List.range' 5 65531).find? fun i => fs.getFatEntry i == 0x0000) = none := by
    rw [List.find?_eq_none]
    intro j hj
    rw [List.mem_range'_1] at hj
    simpa using hfull j hj.1 (by omega)
  rw [getFreeCluster, hfind]

/-- The first free entry below a bound below which there is one. -/
theorem exists_first_free (fs : Fat16) {B : Nat} (h : ∃ i, 5 ≤ i ∧ i < B ∧ fs.getFatEntry i = 0) :
    ∃ i, 5 ≤ i ∧ i < B ∧ fs.getFatEntry i = 0 ∧ ∀ j, 5 ≤ j → j < i → fs.getFatEntry j ≠ 0 := by
  obtain ⟨h5, hB, hfree⟩ := Nat.find_spec h
  refine ⟨Nat.find h, h5, hB, hfree, fun j hj hji hjfree => ?_⟩
  exact Nat.find_min h hji ⟨hj, by omega, hjfree⟩

end Fat16

end RetrOS.Fs
