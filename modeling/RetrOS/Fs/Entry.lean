import RetrOS.Fs.Fat16

/-!
# FAT16: directory entries (`fs/fat16.c`)

* `DirectoryEntry` : `struct fat16_directory_entry`, a name of 8 and an extension of 3 bytes and no terminator;
  `encode`, `load` : the entry in its 32 bytes (`load_write_encode`);
* `readEntry`, `syncDirectoryEntry`, `addEntry` : a slot of a directory block, read, overwritten, filled;
* `isFree` : the slot of an entry may be taken.

Slot 0 of the root directory is not read from the disk: it is the constant `rootDirectory`.
-/

namespace RetrOS.Fs
open RetrOS.Lib

/-- An array of `n` bytes. -/
abbrev Bytes (n : Nat) := { l : List UInt8 // l.length = n }

def Bytes.load (m : Nat → UInt8) (s n : Nat) : Bytes n := ⟨Slice.read m s n, Slice.length_read m s n⟩

def Bytes.replicate (n : Nat) (b : UInt8) : Bytes n := ⟨List.replicate n b, List.length_replicate⟩

structure DirectoryEntry where
  filename : Bytes 8
  extension : Bytes 3
  attributes : UInt8
  reserved : Bytes 10
  createdTime : BitVec 16
  createdDate : BitVec 16
  firstCluster : BitVec 16
  fileSize : BitVec 32
  deriving DecidableEq

/-! ## Attributes -/

def flagVolumeLabel : UInt8 := 0x08
def flagSubdirectory : UInt8 := 0x10
def flagArchive : UInt8 := 0x20

namespace DirectoryEntry

def isDirectory (e : DirectoryEntry) : Bool := e.attributes &&& flagSubdirectory != 0

/-- `full_name`, the union of name and extension. -/
def fullName (e : DirectoryEntry) : List UInt8 := e.filename.1 ++ e.extension.1

/-- An empty or a deleted entry. -/
def isFree (e : DirectoryEntry) : Bool := e.filename.1.head? == some 0x00 || e.filename.1.head? == some 0xE5

/-- The entry of a `memset` to zero. -/
def zero : DirectoryEntry :=
  { filename := .replicate 8 0
    extension := .replicate 3 0
    attributes := 0
    reserved := .replicate 10 0
    createdTime := 0
    createdDate := 0
    firstCluster := 0
    fileSize := 0 }

/-! ## The 32 bytes of an entry -/

def encode (e : DirectoryEntry) : List UInt8 :=
  e.filename.1 ++ e.extension.1 ++ [e.attributes] ++ e.reserved.1 ++ bytes16 e.createdTime ++
    bytes16 e.createdDate ++ bytes16 e.firstCluster ++ bytes32 e.fileSize

/-- The entry at the address `s` of a buffer. -/
def load (m : Nat → UInt8) (s : Nat) : DirectoryEntry :=
  { filename := .load m s 8
    extension := .load m (s + 8) 3
    attributes := m (s + 11)
    reserved := .load m (s + 12) 10
    createdTime := load16 m (s + 22)
    createdDate := load16 m (s + 24)
    firstCluster := load16 m (s + 26)
    fileSize := load32 m (s + 28) }

@[simp] theorem length_encode (e : DirectoryEntry) : e.encode.length = 32 := by
  simp [encode, e.filename.2, e.extension.2, e.reserved.2]

@[simp] theorem length_fullName (e : DirectoryEntry) : e.fullName.length = 11 := by
  simp [fullName, e.filename.2, e.extension.2]

/-- A stored entry reads back. -/
theorem load_write_encode (m : Nat → UInt8) (s : Nat) (e : DirectoryEntry) :
    load (Slice.write m s e.encode) s = e := by
  obtain ⟨⟨name, hname⟩, ⟨ext, hext⟩, attr, ⟨res, hres⟩, time, date, cluster, size⟩ := e
  have hfield := fun (xs ys zs : List UInt8) (k n : Nat) => @Slice.read_write_field _ m s
    (name ++ ext ++ [attr] ++ res ++ bytes16 time ++ bytes16 date ++ bytes16 cluster ++ bytes32 size)
    k n xs ys zs
  simp only [load, encode, DirectoryEntry.mk.injEq, Bytes.load, Subtype.mk.injEq]
  refine ⟨?_, ?_, ?_, ?_, ?_, ?_, ?_, ?_⟩
  · exact hfield [] name _ 0 8 (by simp; rfl) rfl hname
  · exact hfield name ext _ 8 3 (by simp; rfl) hname hext
  · have := hfield (name ++ ext) [attr] _ 11 1 (by simp; rfl) (by simp [hname, hext]) rfl
    simpa [Slice.read, List.range'] using this
  · exact hfield (name ++ ext ++ [attr]) res _ 12 10 (by simp; rfl) (by simp [hname, hext]) hres
  · apply load16_of_read
    exact hfield (name ++ ext ++ [attr] ++ res) _ _ 22 2 (by simp; rfl) (by simp [hname, hext, hres]) rfl
  · apply load16_of_read
    exact hfield (name ++ ext ++ [attr] ++ res ++ bytes16 time) _ _ 24 2 (by simp; rfl)
      (by simp [hname, hext, hres]) rfl
  · apply load16_of_read
    exact hfield (name ++ ext ++ [attr] ++ res ++ bytes16 time ++ bytes16 date) _ _ 26 2 (by simp; rfl)
      (by simp [hname, hext, hres]) rfl
  · apply load32_of_read
    exact hfield (name ++ ext ++ [attr] ++ res ++ bytes16 time ++ bytes16 date ++ bytes16 cluster) _ [] 28 4
      (by simp) (by simp [hname, hext, hres]) rfl

theorem load_congr {m m' : Nat → UInt8} {s : Nat} (h : ∀ i, s ≤ i → i < s + 32 → m i = m' i) :
    load m s = load m' s := by
  have hread : ∀ k n, k + n ≤ 32 → Slice.read m (s + k) n = Slice.read m' (s + k) n := by
    intro k n hk
    exact Slice.read_congr fun i h1 h2 => h i (by omega) (by omega)
  have hcell : ∀ k, k < 32 → m (s + k) = m' (s + k) := fun k hk => h _ (by omega) (by omega)
  simp only [load, Bytes.load, load16, load32, DirectoryEntry.mk.injEq, Subtype.mk.injEq]
  refine ⟨hread 0 8 (by omega), hread 8 3 (by omega), hcell 11 (by omega), hread 12 10 (by omega), ?_, ?_, ?_, ?_⟩
  · rw [hcell 22 (by omega), show s + 22 + 1 = s + 23 from rfl, hcell 23 (by omega)]
  · rw [hcell 24 (by omega), show s + 24 + 1 = s + 25 from rfl, hcell 25 (by omega)]
  · rw [hcell 26 (by omega), show s + 26 + 1 = s + 27 from rfl, hcell 27 (by omega)]
  · rw [hcell 28 (by omega), show s + 28 + 1 = s + 29 from rfl, hcell 29 (by omega),
      show s + 28 + 2 = s + 30 from rfl, hcell 30 (by omega), show s + 28 + 3 = s + 31 from rfl, hcell 31 (by omega)]

end DirectoryEntry

/-! ## Slots of a directory block -/

/-- The bytes of a string, without the terminator. -/
def ascii (s : String) : List UInt8 := s.toList.map fun c => c.toNat.toUInt8

def blankExtension : Bytes 3 := ⟨ascii "   ", by decide⟩

/-- `root_directory`. -/
def rootDirectory : DirectoryEntry :=
  { DirectoryEntry.zero with
    filename := ⟨ascii "ROOT    ", by decide⟩
    extension := blankExtension
    attributes := flagSubdirectory
    firstCluster := 0
    fileSize := 512 }

def setTime (time : BitVec 16) (hours minutes seconds : BitVec 16) : BitVec 16 :=
  time &&& 0xFC00 ||| (hours &&& 0x1F) <<< 11 ||| (minutes &&& 0x3F) <<< 5 ||| (seconds / 2 &&& 0x1F)

def setDate (date : BitVec 16) (year month day : BitVec 16) : BitVec 16 :=
  date &&& 0xFE00 ||| (year - 1980 &&& 0x7F) <<< 9 ||| (month &&& 0x0F) <<< 5 ||| (day &&& 0x1F)

/-- The entry that `fat16_add_entry` fills in. -/
def newEntry (filename : Bytes 8) (extension : Bytes 3) (attributes : UInt8) (startCluster : BitVec 16)
    (fileSize : BitVec 32) : DirectoryEntry :=
  { DirectoryEntry.zero with
    filename := filename
    extension := extension
    attributes := attributes
    firstCluster := startCluster
    fileSize := fileSize
    createdDate := setDate 0 2023 5 31
    createdTime := setTime 0 12 0 0 }

/-- The first slot of a block that is empty or deleted. -/
def freeSlot (buffer : Nat → UInt8) : Option Nat :=
  (List.range 16).find? fun entry => (DirectoryEntry.load buffer (entry * 32)).isFree

namespace Fat16

/-- Slot `i` of a block as it is on the disk. -/
def slot (fs : Fat16) (block i : Nat) : DirectoryEntry := .load (fs.readBlock block) (i * 32)

/-- `fat16_read_entry`; an index out of range has no entry. -/
def readEntry (fs : Fat16) (block index : Nat) : Option DirectoryEntry :=
  if 16 ≤ index then none
  else if block = fs.getRootDirectoryStartBlock.toNat ∧ index = 0 then some rootDirectory
  else some (fs.slot block index)

def syncDirectoryEntry (fs : Fat16) (block : BitVec 16) (index : Nat) (entry : DirectoryEntry) : Int × Fat16 :=
  if fs.bootTable.rootDirEntries.toNat ≤ index then (-1, fs)
  else (0, fs.writeBlockOffset entry.encode (index % 16 * 32) block.toNat)

def addEntry (fs : Fat16) (block : BitVec 16) (filename : Bytes 8) (extension : Bytes 3) (attributes : UInt8)
    (startCluster : BitVec 16) (fileSize : BitVec 32) : Int × Fat16 :=
  let buffer := fs.readBlock block.toNat
  match freeSlot buffer with
  | some entry =>
    let dirEntry := newEntry filename extension attributes startCluster fileSize
    (0, fs.writeBlock (Slice.write buffer (entry * 32) dirEntry.encode) block.toNat)
  | none => (-1, fs)

/-! ## What the operations do to the slots -/

/-- The state after an entry was stored in a slot. -/
def putEntry (fs : Fat16) (block i : Nat) (entry : DirectoryEntry) : Fat16 :=
  fs.writeBlockOffset entry.encode (i * 32) block

section
variable (fs : Fat16) (e : DirectoryEntry) (b i c : Nat)

@[simp] theorem bootTable_putEntry : (fs.putEntry b i e).bootTable = fs.bootTable := rfl

@[simp] theorem currentDirBlock_putEntry : (fs.putEntry b i e).currentDirBlock = fs.currentDirBlock := rfl

@[simp] theorem getFatEntry_putEntry : (fs.putEntry b i e).getFatEntry c = fs.getFatEntry c := rfl

theorem disk_putEntry_of_ne {b b' : Nat} (h : b' ≠ b) : (fs.putEntry b i e).disk b' = fs.disk b' :=
  fs.disk_writeBlock_of_ne _ h

@[simp] theorem slot_putEntry_self : (fs.putEntry b i e).slot b i = e := by
  unfold slot putEntry writeBlockOffset readBlock
  rw [disk_writeBlock_self]
  exact DirectoryEntry.load_write_encode _ _ e

theorem slot_putEntry_of_ne {b b' i j : Nat} (h : b' ≠ b ∨ j ≠ i) : (fs.putEntry b i e).slot b' j = fs.slot b' j := by
  by_cases hb : b' = b
  · subst hb
    have hj : j ≠ i := by simpa using h
    unfold slot putEntry writeBlockOffset readBlock
    rw [disk_writeBlock_self]
    refine DirectoryEntry.load_congr fun k h1 h2 => ?_
    rcases Nat.lt_or_gt_of_ne hj with hlt | hlt
    · exact Slice.write_of_lt _ _ (by omega)
    · exact Slice.write_of_ge _ (by rw [DirectoryEntry.length_encode]; omega)
  · unfold slot readBlock
    rw [disk_putEntry_of_ne _ _ _ hb]

end

theorem slot_congr {fs fs' : Fat16} {b : Nat} (h : fs'.disk b = fs.disk b) (i : Nat) : fs'.slot b i = fs.slot b i := by
  unfold slot readBlock
  rw [h]

theorem freeSlot_eq_some {fs : Fat16} {b i : Nat} : freeSlot (fs.readBlock b) = some i ↔
    i < 16 ∧ (fs.slot b i).isFree ∧ ∀ j < i, ¬ (fs.slot b j).isFree := by
  rw [freeSlot, List.find?_range_eq_some, List.mem_range]
  simp only [Bool.not_eq_true', Bool.not_eq_true]
  exact ⟨fun ⟨h1, h2, h3⟩ => ⟨h2, h1, h3⟩, fun ⟨h1, h2, h3⟩ => ⟨h2, h1, h3⟩⟩

theorem freeSlot_eq_none {fs : Fat16} {b : Nat} :
    freeSlot (fs.readBlock b) = none ↔ ∀ j < 16, ¬ (fs.slot b j).isFree := by
  rw [freeSlot, List.find?_eq_none]
  simp only [List.mem_range]
  rfl

section AddEntry
variable {fs : Fat16} {block : BitVec 16} (filename : Bytes 8) (extension : Bytes 3) (attributes : UInt8)
  (startCluster : BitVec 16) (fileSize : BitVec 32)

/-- A directory entry is added to the first free slot of the block. -/
theorem addEntry_some {i : Nat} (h : freeSlot (fs.readBlock block.toNat) = some i) :
    fs.addEntry block filename extension attributes startCluster fileSize =
      (0, fs.putEntry block.toNat i (newEntry filename extension attributes startCluster fileSize)) := by
  simp only [addEntry, h]
  rfl

theorem addEntry_none (h : freeSlot (fs.readBlock block.toNat) = none) :
    fs.addEntry block filename extension attributes startCluster fileSize = (-1, fs) := by
  simp only [addEntry, h]

@[simp] theorem bootTable_addEntry :
    (fs.addEntry block filename extension attributes startCluster fileSize).2.bootTable = fs.bootTable := by
  cases h : freeSlot (fs.readBlock block.toNat) with
  | none => rw [addEntry_none _ _ _ _ _ h]
  | some i => rw [addEntry_some _ _ _ _ _ h]; rfl

@[simp] theorem currentDirBlock_addEntry :
    (fs.addEntry block filename extension attributes startCluster fileSize).2.currentDirBlock =
      fs.currentDirBlock := by
  cases h : freeSlot (fs.readBlock block.toNat) with
  | none => rw [addEntry_none _ _ _ _ _ h]
  | some i => rw [addEntry_some _ _ _ _ _ h]; rfl

@[simp] theorem getFatEntry_addEntry (c : Nat) :
    (fs.addEntry block filename extension attributes startCluster fileSize).2.getFatEntry c = fs.getFatEntry c := by
  cases h : freeSlot (fs.readBlock block.toNat) with
  | none => rw [addEntry_none _ _ _ _ _ h]
  | some i => rw [addEntry_some _ _ _ _ _ h]; rfl

theorem disk_addEntry_of_ne {b : Nat} (hb : b ≠ block.toNat) :
    (fs.addEntry block filename extension attributes startCluster fileSize).2.disk b = fs.disk b := by
  cases h : freeSlot (fs.readBlock block.toNat) with
  | none => rw [addEntry_none _ _ _ _ _ h]
  | some i => rw [addEntry_some _ _ _ _ _ h]; exact disk_putEntry_of_ne _ _ _ hb

end AddEntry

end Fat16
end RetrOS.Fs
