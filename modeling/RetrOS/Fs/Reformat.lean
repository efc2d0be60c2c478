import RetrOS.Fs.Formatted

/-!
# FAT16: formatting and loading with a table in memory (`fat16_format`, `fat16_load`, `fat16_mbr_*`)

* `Driver` : the variables of the driver, with or without a table in memory, and the disk;
* `fat16Load` : a table that is in memory already is kept;
* `fat16Format` : the whole of formatting, the boot block and the partition table in it included;
* `Reset` : the table in memory is the one on the disk, its clusters are free, the root directory has the label only;
* `fat16Format_reset_iff` : when formatting leaves the driver so. An old table stays in memory and is written to the
  disk. With none in memory, the boot block must outlast the clearing of the table and the root directory.
-/

namespace RetrOS.Fs
open RetrOS.Lib

/-- The driver. There may be no table in memory. -/
structure Driver where
  bootTable : BootTable
  fatTableMemory : Option (Nat → BitVec 16)
  currentDirBlock : BitVec 16
  disk : Nat → Nat → UInt8

/-! ## The boot block -/

/-- The boot block as `fat16_format` writes it; the boot code and the fields it does not set stay. -/
def BootTable.store (bootTable : BootTable) (block : Nat → UInt8) : Nat → UInt8 :=
  let block := Slice.write block 3 (ascii "RetrOS32" ++ bytes16 512 ++ [1] ++ bytes16 bootTable.reservedBlocks ++ [1] ++
    bytes16 bootTable.rootDirEntries ++ bytes16 bootTable.totalBlocks ++ [0xF8] ++ bytes16 bootTable.fatBlocks)
  let block := Slice.write block 38 ([0x29] ++ bytes32 0x12345678 ++ ascii "RetrOS32-V" ++ [0] ++ ascii "FAT16   ")
  Slice.write block 510 (bytes16 0xAA55)

def BootTable.load (block : Nat → UInt8) : BootTable where
  reservedBlocks := load16 block 14
  rootDirEntries := load16 block 17
  totalBlocks := load16 block 19
  fatBlocks := load16 block 22

/-- `manufacturer`, by which a formatted disk is known. -/
def manufacturer (block : Nat → UInt8) : List UInt8 := Slice.read block 3 8

def mbrClear (block : Nat → UInt8) : Nat → UInt8 := Slice.write block 446 (List.replicate 64 0)

/-- The entry goes to the first partition whose type is empty. -/
def mbrAddEntry (block : Nat → UInt8) (bootable type : UInt8) (start size : BitVec 32) : Nat → UInt8 :=
  match (List.range 4).find? fun i => block (446 + 16 * i + 4) == 0 with
  | some i =>
    let block := Slice.write block (446 + 16 * i) [bootable]
    let block := Slice.write block (446 + 16 * i + 4) [type]
    Slice.write block (446 + 16 * i + 8) (bytes32 start ++ bytes32 size)
  | none => block

namespace Driver

/-- The driver with a table in memory. -/
def ofFat16 (fs : Fat16) : Driver := ⟨fs.bootTable, some fs.fatTableMemory, fs.currentDirBlock, fs.disk⟩

/-- The driver with its table. Without one, `fat16_get_fat_entry` returns `-1`. -/
def view (d : Driver) : Fat16 where
  bootTable := d.bootTable
  fatTableMemory := d.fatTableMemory.getD fun _ => 0xFFFF
  currentDirBlock := d.currentDirBlock
  disk := d.disk

def setFatEntry (d : Driver) (cluster : Nat) (value : BitVec 16) : Driver :=
  { d with fatTableMemory := d.fatTableMemory.map fun _ => (d.view.setFatEntry cluster value).fatTableMemory }

def syncFatTable (d : Driver) : Driver :=
  if d.fatTableMemory.isSome then { d with disk := d.view.syncFatTable.disk } else d

def addEntry (d : Driver) (block : BitVec 16) (filename : Bytes 8) (extension : Bytes 3) (attributes : UInt8)
    (startCluster : BitVec 16) (fileSize : BitVec 32) : Driver :=
  { d with disk := (d.view.addEntry block filename extension attributes startCluster fileSize).2.disk }

/-- `fat16_load`; `kalloc` is the memory the table gets. -/
def fat16Load (d : Driver) (kalloc : Option (Nat → BitVec 16)) : Int × Driver :=
  if d.fatTableMemory.isSome then (0, d)
  else
    let d := { d with bootTable := .load (d.disk 0) }
    if manufacturer (d.disk 0) ≠ ascii "RetrOS32" then (-2, d)
    else
      match kalloc with
      | none => (-3, d)
      | some behind =>
        let fs := Fat16.load d.disk d.bootTable behind
        (0, { d with fatTableMemory := some fs.fatTableMemory, currentDirBlock := fs.currentDirBlock })

/-- The disk when formatting comes to `fat16_load`. -/
def clearedDisk (disk : Nat → Nat → UInt8) (size : BitVec 32) (reserved : Int) : Nat → Nat → UInt8 :=
  let bootTable := formatBootTable size reserved
  let disk := Function.update disk 0 (bootTable.store (disk 0))
  let disk := Fat16.clearBlocks disk bootTable
  Function.update disk 0 <| mbrAddEntry (mbrClear (disk 0)) 0x80 0x0E 0 (BitVec.ofInt 32 ((diskSize size).tdiv 512 - 1))

def fat16Format (d : Driver) (size : BitVec 32) (reserved : Int) (kalloc : Option (Nat → BitVec 16)) : Int × Driver :=
  let d := { d with bootTable := formatBootTable size reserved, disk := clearedDisk d.disk size reserved }
  let d := (d.fat16Load kalloc).2
  let d := d.setFatEntry 0 0xFFF8
  let d := d.setFatEntry 1 0xFFFF
  let d := d.addEntry d.view.getRootDirectoryStartBlock ⟨ascii "RetrOS-3", Fat16.length_label⟩ blankExtension
    flagVolumeLabel 0 0
  (0, d.syncFatTable)

/-- What formatting should leave. -/
structure Reset (d : Driver) : Prop where
  /-- the table in memory is the one on the disk, and its clusters are free -/
  table : ∃ m, d.fatTableMemory = some m ∧ ∀ c < 256 * d.bootTable.fatBlocks.toNat,
    m c = load16 (d.disk (d.bootTable.reservedBlocks.toNat + c / 256)) (2 * (c % 256)) ∧ (2 ≤ c → m c = 0)
  label : d.view.rootSlot 0 = Fat16.volumeLabel
  empty : ∀ i < 16, i ≠ 0 → (d.view.rootSlot i).isFree

end Driver

/-! ## What the boot block holds -/

section Boot
variable {block : Nat → UInt8} {bt : BootTable} {a : Nat}

theorem mbrClear_of_lt (h : a < 446) : mbrClear block a = block a := Slice.write_of_lt _ _ h

theorem mbrAddEntry_of_lt {bootable type : UInt8} {start size : BitVec 32} (h : a < 446) :
    mbrAddEntry block bootable type start size a = block a := by
  unfold mbrAddEntry
  cases (List.range 4).find? fun i => block (446 + 16 * i + 4) == 0 with
  | none => rfl
  | some i =>
    dsimp only
    rw [Slice.write_of_lt _ _ (by omega), Slice.write_of_lt _ _ (by omega), Slice.write_of_lt _ _ (by omega)]

/-- Up to the partition table the boot block is as it was stored. -/
theorem read_mbr {bootable type : UInt8} {start size : BitVec 32} {s n : Nat} (h : s + n ≤ 446) :
    Slice.read (mbrAddEntry (mbrClear block) bootable type start size) s n = Slice.read block s n :=
  Slice.read_congr fun i _ hi => (mbrAddEntry_of_lt (by omega)).trans (mbrClear_of_lt (by omega))

/-- A field of the first part of the boot block. -/
theorem read_store {k n : Nat} (xs ys zs : List UInt8) (h : ascii "RetrOS32" ++ bytes16 512 ++ [1] ++
    bytes16 bt.reservedBlocks ++ [1] ++ bytes16 bt.rootDirEntries ++ bytes16 bt.totalBlocks ++ [0xF8] ++
    bytes16 bt.fatBlocks = xs ++ ys ++ zs) (hk : xs.length = k) (hn : ys.length = n) (hle : 3 + k + n ≤ 24) :
    Slice.read (bt.store block) (3 + k) n = ys := by
  unfold BootTable.store
  rw [Slice.read_write_of_apart _ (.inl (by omega)), Slice.read_write_of_apart _ (.inl (by omega))]
  exact Slice.read_write_field _ _ xs ys zs h hk hn

theorem manufacturer_store : manufacturer (bt.store block) = ascii "RetrOS32" :=
  read_store [] (ascii "RetrOS32") _ (by simp only [List.nil_append, List.append_assoc]; rfl) rfl (by decide)
    (by decide)

/-- The boot table reads back. -/
theorem load_store (bt : BootTable) (block : Nat → UInt8) : BootTable.load (bt.store block) = bt := by
  have hfield := fun (xs ys zs : List UInt8) (k : Nat) => @read_store block bt k 2 xs ys zs
  obtain ⟨r, e, t, f⟩ := bt
  simp only [BootTable.load, BootTable.mk.injEq]
  refine ⟨load16_of_read ?_, load16_of_read ?_, load16_of_read ?_, load16_of_read ?_⟩
  · exact hfield (ascii "RetrOS32" ++ bytes16 512 ++ [1]) (bytes16 r) _ 11
      (by simp only [List.append_assoc]; rfl) (by decide) rfl (by decide)
  · exact hfield (ascii "RetrOS32" ++ bytes16 512 ++ [1] ++ bytes16 r ++ [1]) (bytes16 e) _ 14
      (by simp only [List.append_assoc]; rfl) rfl rfl (by decide)
  · exact hfield (ascii "RetrOS32" ++ bytes16 512 ++ [1] ++ bytes16 r ++ [1] ++ bytes16 e) (bytes16 t) _ 16
      (by simp only [List.append_assoc]; rfl) rfl rfl (by decide)
  · exact hfield (ascii "RetrOS32" ++ bytes16 512 ++ [1] ++ bytes16 r ++ [1] ++ bytes16 e ++ bytes16 t ++ [0xF8])
      (bytes16 f) [] 19 (by rw [List.append_nil]) rfl rfl (by decide)

/-- Adding the partition to an empty block leaves the first byte of every slot empty. -/
theorem mbr_zero {i : Nat} (hi : i < 16) (size : BitVec 32) :
    mbrAddEntry (mbrClear fun _ => 0) 0x80 0x0E 0 size (i * 32) = 0 := by
  have hclear : mbrClear (fun _ => 0) = fun _ => 0 := by
    funext a
    unfold mbrClear Slice.write
    split
    · rw [List.getElem?_replicate]
      split <;> rfl
    · rfl
  have hfind : ((List.range 4).find? fun i => (fun _ => (0 : UInt8)) (446 + 16 * i + 4) == 0) = some 0 := by decide
  rw [hclear, mbrAddEntry, hfind]
  dsimp only
  rcases Nat.lt_or_ge i 14 with hlt | hge
  · rw [Slice.write_of_lt _ _ (by omega), Slice.write_of_lt _ _ (by omega), Slice.write_of_lt _ _ (by omega)]
  · obtain rfl | rfl : i = 14 ∨ i = 15 := by omega
    · rw [Slice.write_of_lt _ _ (by decide), Slice.write_of_lt _ _ (by decide), Slice.write_of_ge _ (by decide)]
    · rw [Slice.write_of_ge _ (by rw [List.length_append, length_bytes32, length_bytes32]; decide),
        Slice.write_of_ge _ (by decide), Slice.write_of_ge _ (by decide)]

end Boot

namespace Fat16

variable {fs : Fat16} {b i : Nat}

/-! ## The table on the disk -/

/-- The table is written behind or in front of the root directory, wherever that is. -/
theorem root_notMem_table (fs : Fat16) : fs.getRootDirectoryStartBlock.toNat < fs.getFatStartBlock.toNat ∨
    fs.getFatStartBlock.toNat + fs.bootTable.fatBlocks.toNat ≤ fs.getRootDirectoryStartBlock.toNat := by
  have hs := fs.getFatStartBlock.isLt
  have hf := fs.bootTable.fatBlocks.isLt
  rw [getRootDirectoryStartBlock, BitVec.toNat_add]
  omega

/-- What is written back is the table in memory. -/
theorem load16_syncFatTable (fs : Fat16) {c : Nat} (hc : c < 256 * fs.bootTable.fatBlocks.toNat) :
    load16 (fs.syncFatTable.disk (fs.bootTable.reservedBlocks.toNat + c / 256)) (2 * (c % 256)) =
      fs.fatTableMemory c := by
  have hblock : fs.syncFatTable.disk (fs.bootTable.reservedBlocks.toNat + c / 256) = fs.tableBlock (c / 256) := by
    rw [← start_toNat]
    refine (if_pos ⟨by omega, by omega⟩).trans ?_
    rw [Nat.add_sub_cancel_left]
  rw [hblock]
  unfold load16 tableBlock
  rw [show 256 * (c / 256) + 2 * (c % 256) / 2 = c by omega,
    show 256 * (c / 256) + (2 * (c % 256) + 1) / 2 = c by omega, show 2 * (c % 256) % 2 = 0 by omega,
    show (2 * (c % 256) + 1) % 2 = 1 by omega, word16_bytes]

/-- A slot that begins with a zero is free. -/
theorem slot_isFree_of_zero (h : fs.disk b (i * 32) = 0) : (fs.slot b i).isFree := by
  show (some (fs.disk b (i * 32)) == some 0x00 || some (fs.disk b (i * 32)) == some 0xE5) = true
  rw [h]
  rfl

end Fat16

namespace Driver

variable {d : Driver} {m : Nat → BitVec 16}

/-! ## After loading -/

/-- What formatting does after `fat16_load`. -/
def finish (d : Driver) : Driver :=
  let d := (d.setFatEntry 0 0xFFF8).setFatEntry 1 0xFFFF
  (d.addEntry d.view.getRootDirectoryStartBlock ⟨ascii "RetrOS-3", Fat16.length_label⟩ blankExtension flagVolumeLabel 0
    0).syncFatTable

/-- Without a table there is none afterwards. -/
theorem not_reset_finish (h : d.fatTableMemory = none) : ¬ d.finish.Reset := by
  rintro ⟨⟨m, hm, -⟩, -, -⟩
  obtain ⟨bt, mem, cur, disk⟩ := d
  obtain rfl : mem = none := h
  cases hm

/-- With a table the operations are those of the loaded driver. -/
theorem finish_ofFat16 {fs fs' : Fat16} (h : fs' = (fs.setFatEntry 0 0xFFF8).allocateCluster 1) :
    (ofFat16 fs).finish = ofFat16 (fs'.addEntry fs'.getRootDirectoryStartBlock ⟨ascii "RetrOS-3", Fat16.length_label⟩
      blankExtension flagVolumeLabel 0 0).2.syncFatTable := by
  have hset : ((ofFat16 fs).setFatEntry 0 0xFFF8).setFatEntry 1 0xFFFF = ofFat16 fs' := by
    rw [h]
    rfl
  unfold finish addEntry
  rw [hset]
  dsimp only
  rw [show (ofFat16 fs').view = fs' from rfl]
  cases hslot : freeSlot (fs'.readBlock fs'.getRootDirectoryStartBlock.toNat) with
  | none =>
    rw [Fat16.addEntry_none _ _ _ _ _ hslot]
    rfl
  | some i =>
    rw [Fat16.addEntry_some _ _ _ _ _ hslot]
    rfl

/-- A table in memory is written back; it is free if it was so before. -/
theorem reset_finish_iff (h : d.fatTableMemory = some m)
    (hroot : ∀ i < 16, d.disk d.view.getRootDirectoryStartBlock.toNat (i * 32) = 0) :
    d.finish.Reset ↔ ∀ c, 2 ≤ c → c < 256 * d.bootTable.fatBlocks.toNat → m c = 0 := by
  obtain ⟨fs, rfl⟩ : ∃ fs, d = ofFat16 fs := by
    obtain ⟨bt, mem, cur, disk⟩ := d
    obtain rfl : mem = some m := h
    exact ⟨⟨bt, m, cur, disk⟩, rfl⟩
  obtain rfl : fs.fatTableMemory = m := Option.some.inj h
  obtain ⟨fs', hfs'⟩ : ∃ fs', fs' = (fs.setFatEntry 0 0xFFF8).allocateCluster 1 := ⟨_, rfl⟩
  obtain ⟨b, hb⟩ : ∃ b, b = fs'.getRootDirectoryStartBlock.toNat := ⟨_, rfl⟩
  have hfree : ∀ i < 16, (fs'.slot b i).isFree := by
    intro i hi
    refine Fat16.slot_isFree_of_zero ?_
    rw [hb, hfs']
    exact hroot i hi
  have hslot : freeSlot (fs'.readBlock b) = some 0 :=
    Fat16.freeSlot_eq_some.mpr ⟨by decide, hfree 0 (by decide), fun j hj => absurd hj (Nat.not_lt_zero j)⟩
  obtain ⟨fs2, hfs2⟩ : ∃ fs2, fs2 = fs'.putEntry b 0 Fat16.volumeLabel := ⟨_, rfl⟩
  have hslots : ∀ i, fs2.syncFatTable.rootSlot i = fs2.slot b i := by
    intro i
    have hsame := Fat16.slot_congr (Fat16.disk_syncFatTable fs2 (Fat16.root_notMem_table fs2)) i
    have hroot2 : fs2.getRootDirectoryStartBlock.toNat = b := by
      rw [hfs2, hb]
      rfl
    rw [← hroot2, ← hsame]
    rfl
  have hmem : ∀ c, 2 ≤ c → fs2.fatTableMemory c = fs.fatTableMemory c := by
    intro c h2
    rw [hfs2, hfs']
    show Function.update (Function.update fs.fatTableMemory (0 % 2 ^ 31) _) (1 % 2 ^ 31) _ c = _
    rw [Function.update_of_ne (by omega), Function.update_of_ne (by omega)]
  have hboot : fs2.bootTable = fs.bootTable := by
    rw [hfs2, hfs']
    rfl
  have hadd : (fs'.addEntry fs'.getRootDirectoryStartBlock ⟨ascii "RetrOS-3", Fat16.length_label⟩ blankExtension
      flagVolumeLabel 0 0).2 = fs2 := by
    rw [Fat16.addEntry_some _ _ _ _ _ (hb ▸ hslot), hfs2, hb]
    rfl
  rw [finish_ofFat16 hfs', hadd]
  constructor
  · rintro ⟨⟨m, hm, htable⟩, -, -⟩ c h2 hc
    obtain rfl : fs2.fatTableMemory = m := Option.some.inj hm
    rw [← hmem c h2]
    refine (htable c ?_).2 h2
    show c < 256 * fs2.bootTable.fatBlocks.toNat
    rw [hboot]
    exact hc
  · intro hzero
    refine ⟨⟨fs2.fatTableMemory, rfl, fun c hc => ⟨(Fat16.load16_syncFatTable fs2 hc).symm, fun h2 => ?_⟩⟩, ?_,
      fun i hi hi0 => ?_⟩
    · replace hc : c < 256 * fs.bootTable.fatBlocks.toNat := hboot ▸ hc
      rw [hmem c h2]
      exact hzero c h2 hc
    · show fs2.syncFatTable.rootSlot 0 = _
      rw [hslots, hfs2, Fat16.slot_putEntry_self]
    · show (fs2.syncFatTable.rootSlot i).isFree
      rw [hslots, hfs2, Fat16.slot_putEntry_of_ne _ _ (.inr hi0)]
      exact hfree i hi

/-! ## The disk that is loaded -/

section Cleared
variable (disk : Nat → Nat → UInt8) (size : BitVec 32) (reserved : Int)

/-- Clearing the table or the root directory clears the boot block. -/
def BootBlockLost (bt : BootTable) : Prop := bt.reservedBlocks = 0 ∨ bt.reservedBlocks + bt.fatBlocks = 0

variable {disk size reserved} {bt : BootTable}

theorem clearBlocks_lost (h : BootBlockLost bt) : Fat16.clearBlocks disk bt 0 = fun _ => 0 := by
  refine if_pos ?_
  by_cases hroot : bt.reservedBlocks + bt.fatBlocks = 0
  · exact .inr (by rw [hroot]; rfl)
  · have hres := h.resolve_right hroot
    rw [hres, show (0 : BitVec 16) + bt.fatBlocks = bt.fatBlocks from BitVec.zero_add _, ← BitVec.toNat_inj] at hroot
    have hpos : 0 < bt.fatBlocks.toNat := Nat.pos_of_ne_zero hroot
    refine .inl ?_
    rw [hres]
    exact ⟨Nat.le_refl 0, by simpa using hpos⟩

theorem clearBlocks_kept (h : ¬ BootBlockLost bt) : Fat16.clearBlocks disk bt 0 = disk 0 := by
  obtain ⟨hres, hroot⟩ := not_or.mp h
  rw [← BitVec.toNat_inj] at hres hroot
  refine if_neg ?_
  rintro (⟨hle, -⟩ | heq)
  · exact hres (Nat.le_zero.mp hle)
  · exact hroot heq.symm

/-- The root directory is cleared. -/
theorem clearedDisk_root {b i : Nat} (hi : i < 16) (hb : b = ((formatBootTable size reserved).reservedBlocks +
    (formatBootTable size reserved).fatBlocks).toNat) : clearedDisk disk size reserved b (i * 32) = 0 := by
  have hclear : ∀ disk, Fat16.clearBlocks disk (formatBootTable size reserved) b = fun _ => 0 := fun _ =>
    if_pos (.inr hb)
  unfold clearedDisk
  by_cases h0 : b = 0
  · subst h0
    rw [Function.update_self, hclear]
    exact mbr_zero hi _
  · rw [Function.update_of_ne h0, hclear]

/-- A boot block that was cleared is not accepted. -/
theorem manufacturer_lost (h : BootBlockLost (formatBootTable size reserved)) :
    manufacturer (clearedDisk disk size reserved 0) ≠ ascii "RetrOS32" := by
  unfold clearedDisk manufacturer
  rw [Function.update_self, read_mbr (by decide), clearBlocks_lost h]
  decide

/-- One that was not is read back. -/
theorem boot_kept (disk : Nat → Nat → UInt8) (h : ¬ BootBlockLost (formatBootTable size reserved)) :
    manufacturer (clearedDisk disk size reserved 0) = ascii "RetrOS32" ∧
      BootTable.load (clearedDisk disk size reserved 0) = formatBootTable size reserved := by
  obtain ⟨block, hblock⟩ : ∃ block, block = (formatBootTable size reserved).store (disk 0) := ⟨_, rfl⟩
  have hmbr : clearedDisk disk size reserved 0 =
      mbrAddEntry (mbrClear block) 0x80 0x0E 0 (BitVec.ofInt 32 ((diskSize size).tdiv 512 - 1)) := by
    unfold clearedDisk
    rw [Function.update_self, clearBlocks_kept h, Function.update_self, hblock]
  have hcell : ∀ a < 446, clearedDisk disk size reserved 0 a = block a := fun a ha => by
    rw [hmbr, mbrAddEntry_of_lt ha, mbrClear_of_lt ha]
  constructor
  · rw [manufacturer, hmbr, read_mbr (by decide), hblock]
    exact manufacturer_store
  · rw [← load_store (formatBootTable size reserved) (disk 0), ← hblock]
    simp only [BootTable.load, load16]
    rw [hcell _ (by decide), hcell _ (by decide), hcell _ (by decide), hcell _ (by decide), hcell _ (by decide),
      hcell _ (by decide), hcell _ (by decide), hcell _ (by decide)]

/-- The boot block can be written first. -/
theorem clearedDisk_eq (disk : Nat → Nat → UInt8) (h : ¬ BootBlockLost (formatBootTable size reserved)) :
    ∃ boot, clearedDisk disk size reserved =
      Fat16.clearBlocks (Function.update disk 0 boot) (formatBootTable size reserved) := by
  refine ⟨clearedDisk disk size reserved 0, ?_⟩
  funext b
  by_cases hb : b = 0
  · rw [hb, clearBlocks_kept h, Function.update_self]
  · unfold clearedDisk Fat16.clearBlocks
    rw [Function.update_of_ne hb, Function.update_of_ne hb, Function.update_of_ne hb]

/-- The table is read as it was cleared. -/
theorem load_cleared {behind : Nat → BitVec 16} {c : Nat} (h : ¬ BootBlockLost (formatBootTable size reserved))
    (hc : c < 256 * (formatBootTable size reserved).fatBlocks.toNat) :
    (Fat16.load (clearedDisk disk size reserved) (formatBootTable size reserved) behind).fatTableMemory c = 0 := by
  obtain ⟨bt, hbt⟩ : ∃ bt, bt = formatBootTable size reserved := ⟨_, rfl⟩
  have hres : bt.reservedBlocks.toNat ≠ 0 := fun h0 => h (.inl (by rw [← hbt, ← BitVec.toNat_inj]; exact h0))
  rw [← hbt] at hc ⊢
  have hblock : clearedDisk disk size reserved ((0#16 + bt.reservedBlocks).toNat + c / 256) = fun _ => 0 := by
    rw [BitVec.zero_add]
    unfold clearedDisk
    rw [Function.update_of_ne (by omega), ← hbt]
    exact if_pos (.inl ⟨by omega, by omega⟩)
  show (if c < 256 * bt.fatBlocks.toNat then
    load16 (clearedDisk disk size reserved ((0#16 + bt.reservedBlocks).toNat + c / 256)) (2 * (c % 256)) else _) = 0
  rw [if_pos hc, hblock]
  show word16 0 0 = 0
  decide

end Cleared

/-! ## Formatting -/

/-- No table was in memory, the boot block is kept and there is memory for the table; or the table in memory was
free, as far as the new one reaches. -/
def FormatOk (d : Driver) (size : BitVec 32) (reserved : Int) (kalloc : Option (Nat → BitVec 16)) : Prop :=
  match d.fatTableMemory with
  | none => ¬ BootBlockLost (formatBootTable size reserved) ∧ kalloc ≠ none
  | some m => ∀ c, 2 ≤ c → c < 256 * (formatBootTable size reserved).fatBlocks.toNat → m c = 0

theorem fat16Load_none {d : Driver} (h : d.fatTableMemory = none) (kalloc : Option (Nat → BitVec 16)) :
    (d.fat16Load kalloc).2 =
      if manufacturer (d.disk 0) ≠ ascii "RetrOS32" then { d with bootTable := .load (d.disk 0) }
      else
        match kalloc with
        | none => { d with bootTable := .load (d.disk 0) }
        | some behind =>
          let fs := Fat16.load d.disk (.load (d.disk 0)) behind
          ⟨.load (d.disk 0), some fs.fatTableMemory, fs.currentDirBlock, d.disk⟩ := by
  rw [fat16Load, if_neg (by rw [h]; exact Bool.false_ne_true)]
  dsimp only
  split
  · rfl
  · cases kalloc <;> rfl

/-- Formatting resets the driver exactly under this condition. -/
theorem fat16Format_reset_iff (d : Driver) (size : BitVec 32) (reserved : Int)
    (kalloc : Option (Nat → BitVec 16)) :
    (d.fat16Format size reserved kalloc).1 = 0 ∧
      ((d.fat16Format size reserved kalloc).2.Reset ↔ d.FormatOk size reserved kalloc) := by
  obtain ⟨d1, hd1⟩ : ∃ d1 : Driver, d1 = { d with
    bootTable := formatBootTable size reserved, disk := clearedDisk d.disk size reserved } := ⟨_, rfl⟩
  have hfmt : d.fat16Format size reserved kalloc = (0, (d1.fat16Load kalloc).2.finish) := by
    rw [hd1]
    rfl
  have hroot : ∀ d2 : Driver, d2.bootTable = formatBootTable size reserved →
      d2.disk = clearedDisk d.disk size reserved → ∀ i < 16,
        d2.disk d2.view.getRootDirectoryStartBlock.toNat (i * 32) = 0 := by
    intro d2 hbt hdisk i hi
    rw [hdisk]
    refine clearedDisk_root hi ?_
    show (0#16 + d2.bootTable.reservedBlocks + d2.bootTable.fatBlocks).toNat = _
    rw [BitVec.zero_add, hbt]
  rw [hfmt]
  refine ⟨rfl, ?_⟩
  unfold FormatOk
  cases hmem : d.fatTableMemory with
  | some m =>
    have hmem1 : d1.fatTableMemory = some m := by rw [hd1, hmem]
    have hload : (d1.fat16Load kalloc).2 = d1 := by
      rw [fat16Load, if_pos (by rw [hmem1]; rfl)]
    rw [hload, reset_finish_iff hmem1 (hroot d1 (by rw [hd1]) (by rw [hd1])), hd1]
  | none =>
    have hmem1 : d1.fatTableMemory = none := by rw [hd1, hmem]
    have hdisk1 : d1.disk = clearedDisk d.disk size reserved := by rw [hd1]
    by_cases hlost : BootBlockLost (formatBootTable size reserved)
    · -- the boot block is not accepted, and there is no table
      refine iff_of_false (not_reset_finish ?_) fun h => h.1 hlost
      rw [fat16Load_none hmem1, hdisk1, if_pos (manufacturer_lost hlost)]
      exact hmem1
    · obtain ⟨hman, hboot⟩ := boot_kept d.disk hlost
      cases kalloc with
      | none =>
        refine iff_of_false (not_reset_finish ?_) fun h => h.2 rfl
        rw [fat16Load_none hmem1, hdisk1, if_neg (not_not.mpr hman)]
        exact hmem1
      | some behind =>
        obtain ⟨d2, hd2⟩ : ∃ d2, d2 = (d1.fat16Load (some behind)).2 := ⟨_, rfl⟩
        have hload := hd2
        rw [fat16Load_none hmem1, hdisk1, if_neg (not_not.mpr hman), hboot] at hload
        have hbt2 : d2.bootTable = formatBootTable size reserved := by rw [hload]
        rw [← hd2, reset_finish_iff (by rw [hload]) (hroot d2 hbt2 (by rw [hload])), hbt2]
        exact iff_of_true (fun c _ hc => load_cleared hlost hc) ⟨hlost, Option.some_ne_none behind⟩

/-- On a driver that was not loaded this is the formatting of a disk with the new boot block. -/
theorem fat16Format_ofFat16 (d : Driver) (size : BitVec 32) (reserved : Int) (behind : Nat → BitVec 16)
    (h : d.fatTableMemory = none) (hkept : ¬ BootBlockLost (formatBootTable size reserved)) :
    ∃ boot fs, Fat16.format (Function.update d.disk 0 boot) behind size reserved = some fs ∧
      d.fat16Format size reserved (some behind) = (0, ofFat16 fs) := by
  obtain ⟨boot, hclear⟩ := clearedDisk_eq d.disk hkept
  obtain ⟨hman, hboot⟩ := boot_kept d.disk hkept
  obtain ⟨d1, hd1⟩ : ∃ d1 : Driver, d1 = { d with
    bootTable := formatBootTable size reserved, disk := clearedDisk d.disk size reserved } := ⟨_, rfl⟩
  have hload := fat16Load_none (show d1.fatTableMemory = none by rw [hd1, h]) (some behind)
  rw [show d1.disk = clearedDisk d.disk size reserved by rw [hd1], if_neg (not_not.mpr hman), hboot, hclear] at hload
  have hfmt : d.fat16Format size reserved (some behind) = (0, (d1.fat16Load (some behind)).2.finish) := by
    rw [hd1]
    rfl
  refine ⟨boot, _, if_neg hkept, ?_⟩
  rw [hfmt, hload]
  exact congrArg (Prod.mk 0) (finish_ofFat16 rfl)

/-- A disk of 513 sectors that was loaded with the clusters 5 and 6 in use. -/
def loadedDriver : Driver := ofFat16
  { bootTable := formatBootTable 513 1
    fatTableMemory := fun c => if c = 5 ∨ c = 6 then 0xFFFF else 0
    currentDirBlock := 3
    disk := fun _ _ => 0 }

/-- The old table is kept, in memory and on the disk: cluster 5 is in use after formatting. -/
theorem fat16Format_keeps_table : (loadedDriver.fat16Format 513 1 (some fun _ => 0)).1 = 0 ∧
    ¬ (loadedDriver.fat16Format 513 1 (some fun _ => 0)).2.Reset ∧
    load16 ((loadedDriver.fat16Format 513 1 (some fun _ => 0)).2.disk 1) (2 * 5) = 0xFFFF := by
  have hmem : (loadedDriver.fat16Format 513 1 (some fun _ => 0)).2.fatTableMemory.map (· 5) = some 0xFFFF := by
    decide +kernel
  refine ⟨rfl, fun hreset => ?_, by decide +kernel⟩
  obtain ⟨m, hm, htable⟩ := hreset.table
  rw [hm, Option.map_some, Option.some.injEq] at hmem
  have hzero := (htable 5 (by decide +kernel)).2 (by decide)
  rw [hmem] at hzero
  exact absurd hzero (by decide)

end Driver

end RetrOS.Fs
