import RetrOS.Fs.NewFile
import RetrOS.Fs.Format

/-!
# FAT16: a formatted disk

* `rootSlot` : the slots of the root directory;
* `format_spec` : after formatting no cluster of the table is allocated and the root directory holds the label only.
-/

namespace RetrOS.Fs
open RetrOS.Lib

namespace Fat16

/-- Slot `i` of the root directory. -/
def rootSlot (fs : Fat16) (i : Nat) : DirectoryEntry := fs.slot fs.getRootDirectoryStartBlock.toNat i

/-- The entry that formatting puts into slot 0. -/
def volumeLabel : DirectoryEntry :=
  newEntry ⟨ascii "RetrOS-3", rfl⟩ blankExtension flagVolumeLabel 0 0

section
variable {fs : Fat16} {c : Nat} {disk : Nat → Nat → UInt8} {behind : Nat → BitVec 16} {size : BitVec 32}
  {reserved : Int}

theorem load_zero (s : Nat) : DirectoryEntry.load (fun _ => 0) s = .zero := by
  have h16 : ∀ k, load16 (fun _ => 0) k = 0 := by
    intro _
    show word16 0 0 = 0
    decide
  have h32 : load32 (fun _ => 0) (s + 28) = 0 := by
    show word32 0 0 0 0 = 0
    decide
  simp only [DirectoryEntry.load, h16, h32]
  rfl

/-- The table that is read back after it was cleared. -/
theorem getFatEntry_load {bt : BootTable} (hc : c < 256 * bt.fatBlocks.toNat) :
    (load (clearBlocks disk bt) bt behind).getFatEntry c = 0 := by
  have hfat := bt.fatBlocks.isLt
  have hstart : (0#16 + bt.reservedBlocks).toNat = bt.reservedBlocks.toNat := by rw [BitVec.zero_add]
  have hcleared : clearBlocks disk bt ((0#16 + bt.reservedBlocks).toNat + c / 256) = fun _ => 0 := by
    rw [hstart]
    exact if_pos (.inl ⟨by omega, by omega⟩)
  rw [getFatEntry, Nat.mod_eq_of_lt (by omega)]
  show (if c < 256 * bt.fatBlocks.toNat then
    load16 (clearBlocks disk bt ((0#16 + bt.reservedBlocks).toNat + c / 256)) (2 * (c % 256)) else behind c) = 0
  rw [if_pos hc, hcleared]
  show word16 0 0 = 0
  decide

theorem bootTable_format (hfmt : format disk behind size reserved = some fs) :
    fs.bootTable = formatBootTable size reserved := by
  rw [format] at hfmt
  dsimp only at hfmt
  split at hfmt
  · exact absurd hfmt (by simp)
  · rw [← Option.some.inj hfmt, bootTable_syncFatTable, bootTable_addEntry]
    rfl

/-- A formatted disk: the table is empty, the label is the only entry. -/
theorem format_spec (hfmt : format disk behind size reserved = some fs) (hlay : Layout fs) :
    fs.currentDirBlock = fs.getRootDirectoryStartBlock ∧ fs.getFatEntry 0 = 0xFFF8 ∧
      (∀ c, 2 ≤ c → c < 256 * fs.bootTable.fatBlocks.toNat → fs.getFatEntry c = 0) ∧
      fs.rootSlot 0 = volumeLabel ∧ ∀ i, i ≠ 0 → fs.rootSlot i = .zero := by
  obtain ⟨bt, hbt⟩ : ∃ bt, bt = formatBootTable size reserved := ⟨_, rfl⟩
  rw [format, ← hbt] at hfmt
  dsimp only at hfmt
  split at hfmt
  · exact absurd hfmt (by simp)
  obtain ⟨fs1, hfs1⟩ : ∃ fs1, fs1 = ((load (clearBlocks disk bt) bt behind).setFatEntry 0 0xFFF8).allocateCluster 1 :=
    ⟨_, rfl⟩
  rw [← hfs1] at hfmt
  have hroot : fs1.getRootDirectoryStartBlock.toNat = (bt.reservedBlocks + bt.fatBlocks).toNat := by
    rw [hfs1]
    show (0#16 + bt.reservedBlocks + bt.fatBlocks).toNat = _
    rw [BitVec.zero_add]
  have hdisk : fs1.disk fs1.getRootDirectoryStartBlock.toNat = fun _ => 0 := by
    rw [hroot, hfs1]
    exact if_pos (.inr rfl)
  have hslots : ∀ i, fs1.slot fs1.getRootDirectoryStartBlock.toNat i = .zero := by
    intro i
    rw [slot, readBlock, hdisk]
    exact load_zero _
  have hslot0 : freeSlot (fs1.readBlock fs1.getRootDirectoryStartBlock.toNat) = some 0 :=
    freeSlot_eq_some.mpr ⟨by decide, by rw [hslots]; rfl, fun j hj => absurd hj (Nat.not_lt_zero j)⟩
  rw [addEntry_some _ _ _ _ _ hslot0] at hfmt
  obtain rfl : (fs1.putEntry fs1.getRootDirectoryStartBlock.toNat 0 volumeLabel).syncFatTable = fs :=
    Option.some.inj hfmt
  have hlay1 : Layout (fs1.putEntry fs1.getRootDirectoryStartBlock.toNat 0 volumeLabel) := hlay.congr rfl
  have hsync : ∀ i, (fs1.putEntry fs1.getRootDirectoryStartBlock.toNat 0 volumeLabel).syncFatTable.rootSlot i =
      (fs1.putEntry fs1.getRootDirectoryStartBlock.toNat 0 volumeLabel).slot fs1.getRootDirectoryStartBlock.toNat i :=
    fun i => hlay1.slot_syncFatTable (Nat.le_refl _)
  have hboot : fs1.bootTable = bt := hfs1 ▸ rfl
  have hfat := bt.fatBlocks.isLt
  refine ⟨?_, ?_, fun c h2 hc => ?_, ?_, fun i hi => ?_⟩
  · rw [hfs1]
    rfl
  · show fs1.getFatEntry 0 = _
    rw [hfs1, allocateCluster, getFatEntry_setFatEntry_of_ne _ _ (by decide) (by decide) (by decide),
      getFatEntry_setFatEntry_self]
  · replace hc : c < 256 * bt.fatBlocks.toNat := hboot ▸ hc
    show fs1.getFatEntry c = _
    rw [hfs1, allocateCluster, getFatEntry_setFatEntry_of_ne _ _ (by decide) (by omega) (by omega),
      getFatEntry_setFatEntry_of_ne _ _ (by decide) (by omega) (by omega), getFatEntry_load hc]
  · rw [hsync, slot_putEntry_self]
  · rw [hsync, slot_putEntry_of_ne _ _ (.inr hi)]
    exact hslots i

end

/-- Formatting a disk of 513 sectors. -/
theorem format_small : ∃ fs, format (fun _ _ => 0) (fun _ => 0) 513 1 = some fs := by
  rw [format]
  exact ⟨_, if_neg (by decide)⟩

end Fat16
end RetrOS.Fs
