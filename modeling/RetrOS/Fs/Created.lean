import RetrOS.Fs.Descriptors
import RetrOS.Fs.Lookup

/-!
# A file that an open has created

* `created_entry` : a name that found nothing and was created finds the new entry, one of no bytes
  (`created_empty`);
* `fsRead_empty` : a read of such a file fails;
* `SameFiles` : two tables with the same disk and the same slots in use. An open and a close leave the table so
  (`Opened.close`), and so does a read between them (`Opened.fsRead`).
-/

namespace RetrOS.Fs
open RetrOS.Lib

namespace Fat16

variable {fs fs' : Fat16} {n : ShortName} {j : Nat} {path : List UInt8}

/-- A path of one component is looked up in the current directory. -/
theorem getDirectoryEntry_one (htok : tokens [] path = [path]) (hslash : path.head? ≠ some slash) :
    fs.getDirectoryEntry path =
      match fs.findInDirectory fs.currentDirBlock.toNat path with
      | none => (⟨-1, -1⟩, none)
      | some index => (⟨fs.currentDirBlock, BitVec.ofNat 16 index⟩,
          some ((fs.readEntry fs.currentDirBlock.toNat index).getD .zero)) := by
  have hroot : path ≠ [slash] := fun h => hslash (by rw [h]; rfl)
  rw [getDirectoryEntry, if_neg hroot, if_neg hslash]
  dsimp only
  rw [htok, walk, List.foldlM_cons, lookup]
  cases fs.findInDirectory fs.currentDirBlock.toNat path with
  | none => rfl
  | some index =>
    dsimp only [Option.map_some, Option.bind_eq_bind, Option.bind_some, List.foldlM_nil, Option.pure_def]
    split
    · next hdir => rw [Cursor.result, if_pos hdir]
    · next hdir => rw [Cursor.result, if_neg hdir]

theorem currentDirBlock_createEmptyFile {r : Int} (hrun : fs.createEmptyFile n.str = some (r, fs')) :
    fs'.currentDirBlock = fs.currentDirBlock := by
  rw [createEmptyFile_str, createFile_nil] at hrun
  split at hrun
  · obtain rfl : fs.getFreeCluster.2 = fs' := by simpa using congrArg (Option.map Prod.snd) hrun
    exact currentDirBlock_getFreeCluster ..
  · have hfs := (congrArg (Option.map fun p => p.2.currentDirBlock) hrun).symm
    simpa using hfs

/-- Where no entry is added, no name is. -/
theorem sameFor_createEmptyFile (hlay : Layout fs)
    (hcur : fs.getRootDirectoryStartBlock.toNat ≤ fs.currentDirBlock.toNat) {r : Int}
    (hrun : fs.createEmptyFile n.str = some (r, fs'))
    (hslot : r ≠ 0 ∨ freeSlot (fs.readBlock fs.currentDirBlock.toNat) = none) :
    SameFor n fs fs' fs.currentDirBlock.toNat := by
  have hboot := fs.bootTable_getFreeCluster
  have hdisk := fs.disk_getFreeCluster
  have hsame : SameFor n fs fs.getFreeCluster.2 fs.currentDirBlock.toNat := .of_disk hboot (congrFun hdisk _)
  rw [createEmptyFile_str, createFile_nil] at hrun
  split at hrun
  · obtain rfl : fs.getFreeCluster.2 = fs' := by simpa using congrArg (Option.map Prod.snd) hrun
    exact hsame
  · have hr : r = 0 := by simpa using (congrArg (Option.map Prod.fst) hrun).symm
    rw [addEntry_none _ _ _ _ _ (by rw [readBlock, hdisk]; exact hslot.resolve_left fun h => h hr)] at hrun
    obtain rfl : fs.getFreeCluster.2.syncFatTable = fs' := by simpa using congrArg (Option.map Prod.snd) hrun
    exact hsame.trans (.syncFatTable hlay hcur hboot)

theorem readEntry_putEntry_of_ne {b i : Nat} {e : DirectoryEntry}
    (h : j ≠ i ∨ b = fs.getRootDirectoryStartBlock.toNat ∧ j = 0) :
    (fs.putEntry b i e).readEntry b j = fs.readEntry b j := by
  unfold readEntry
  split
  · rfl
  · by_cases hroot : b = fs.getRootDirectoryStartBlock.toNat ∧ j = 0
    · rw [if_pos hroot]
      exact if_pos hroot
    · rw [if_neg hroot, slot_putEntry_of_ne fs e (.inr (h.resolve_right hroot))]
      exact if_neg hroot

/-- A name that found nothing finds the entry that was created. -/
theorem created_entry (hlay : Layout fs) (hcur : fs.getRootDirectoryStartBlock.toNat ≤ fs.currentDirBlock.toNat)
    (hnone : fs.findInDirectory fs.currentDirBlock.toNat n.str = none) {r : Int}
    (hrun : fs.createEmptyFile n.str = some (r, fs'))
    (hfind : fs'.findInDirectory fs.currentDirBlock.toNat n.str = some j) :
    fs'.readEntry fs.currentDirBlock.toNat j = some (fs.createdEntry .file n fun _ => 0) := by
  by_cases hslot : r ≠ 0 ∨ freeSlot (fs.readBlock fs.currentDirBlock.toNat) = none
  · rw [(sameFor_createEmptyFile hlay hcur hrun hslot).findInDirectory, hnone] at hfind
    cases hfind
  · rw [not_or, not_not] at hslot
    obtain ⟨rfl, hslot⟩ := hslot
    obtain ⟨i, hslot⟩ := Option.ne_none_iff_exists'.mp hslot
    have hcreate : fs.create .file n (fun _ => 0) = some (0, fs') := hrun
    have hsame := create_sameFor hlay hcur hslot hcreate n
    rw [hsame.findInDirectory] at hfind
    obtain ⟨hj, hm, -⟩ := findInDirectory_eq_some.mp hfind
    rw [hsame.readEntry hj hm]
    obtain ⟨e, hread, hname⟩ := entryMatches_iff.mp hm
    by_cases hold : j ≠ i ∨ fs.currentDirBlock.toNat = fs.getRootDirectoryStartBlock.toNat ∧ j = 0
    · rw [readEntry_putEntry_of_ne hold] at hread
      exact absurd (entryMatches_iff.mpr ⟨e, hread, hname⟩) (findInDirectory_eq_none.mp hnone j hj)
    · rw [not_or, not_not] at hold
      obtain ⟨rfl, hroot⟩ := hold
      rw [readEntry_of_slot hj, slot_putEntry_self]
      exact hroot

theorem created_empty (hlay : Layout fs) (hcur : fs.getRootDirectoryStartBlock.toNat ≤ fs.currentDirBlock.toNat)
    (hnone : fs.findInDirectory fs.currentDirBlock.toNat n.str = none) {r : Int}
    (hrun : fs.createEmptyFile n.str = some (r, fs'))
    (hfind : fs'.findInDirectory fs.currentDirBlock.toNat n.str = some j) :
    ∃ e, fs'.readEntry fs.currentDirBlock.toNat j = some e ∧ e.fileSize = 0 ∧ ¬e.isDirectory :=
  ⟨_, created_entry hlay hcur hnone hrun hfind, rfl,
    show ¬(flagArchive &&& flagSubdirectory != 0) = true from by decide⟩

end Fat16

namespace FileTable

variable {s t : FileTable} {i : FileSlot} {path : List UInt8} {flags : BitVec 32} {fd : Int}

/-! ## Tables that the calls do not tell apart -/

/-- The disk is the same, and the same slots are in use. -/
structure SameFiles (s t : FileTable) : Prop where
  fat16 : t.fat16 = s.fat16
  used : ∀ i, (t.fsFileTable i).flags = (s.fsFileTable i).flags

theorem SameFiles.refl (s : FileTable) : SameFiles s s := ⟨rfl, fun _ => rfl⟩

theorem SameFiles.fsAllocFile (h : SameFiles s t) : t.fsAllocFile = s.fsAllocFile := by
  have : (fun i => (t.fsFileTable i).flags == 0) = fun i => (s.fsFileTable i).flags == 0 :=
    funext fun i => by rw [h.used]
  unfold FileTable.fsAllocFile
  rw [this]

theorem SameFiles.missing (h : SameFiles s t) : t.Missing path ↔ s.Missing path := by
  rw [Missing, Missing, h.fat16]

/-- A file is open in the slot `i`, and nothing else has changed. -/
structure Opened (s t : FileTable) (i : FileSlot) (flags : BitVec 32) : Prop where
  fat16 : t.fat16 = s.fat16
  alloc : s.fsAllocFile = some i
  others : ∀ j ≠ i, t.fsFileTable j = s.fsFileTable j
  flags : (t.fsFileTable i).flags = flags.setWidth 8
  links : (t.fsFileTable i).nlinks = 1

theorem openFound_some (h : s.openFound path flags = (some i, t)) : Opened s t i flags := by
  unfold openFound at h
  cases halloc : s.fsAllocFile with
  | none =>
    rw [halloc] at h
    cases (Prod.mk.inj h).1
  | some j =>
    rw [halloc] at h
    obtain ⟨hj, rfl⟩ := Prod.mk.inj h
    obtain rfl := Option.some.inj hj
    exact ⟨rfl, halloc, fun k hk => setFile_of_ne _ hk, by rw [setFile_self], by rw [setFile_self]⟩

/-- Closing the file leaves the table as it was before the open. -/
theorem Opened.close (h : Opened s t i flags) (hflags : flags.setWidth 8 ≠ (0 : BitVec 8)) :
    SameFiles s (t.fsClose (fsFile2fd i)).2 := by
  have hfree := (fsAllocFile_eq_some.mp h.alloc).1
  have hclose : t.fat16Close i = (0, t.setFile i { t.fsFileTable i with nlinks := 0 }) := by
    rw [fat16Close, h.links, if_neg (by decide)]
  have hret : t.fsClose (fsFile2fd i) = (0, (t.setFile i { t.fsFileTable i with nlinks := 0 }).fsFreeFile i) := by
    unfold fsClose
    rw [slotOf_fsFile2fd]
    dsimp only
    rw [if_neg (by rw [h.flags]; exact hflags), hclose]
    rfl
  rw [hret]
  refine ⟨h.fat16, fun j => ?_⟩
  by_cases hj : j = i
  · rw [hj, fsFreeFile, setFile_self, hfree]
  · rw [fsFreeFile, setFile_of_ne _ hj, setFile_of_ne _ hj, h.others j hj]

theorem missing_one (htok : tokens [] path = [path]) (hslash : path.head? ≠ some slash) :
    s.Missing path ↔ s.fat16.findInDirectory s.fat16.currentDirBlock.toNat path = none ∨
      s.fat16.currentDirBlock.slt 0 = true := by
  rw [Missing, s.fat16.getDirectoryEntry_one htok hslash]
  cases s.fat16.findInDirectory s.fat16.currentDirBlock.toNat path with
  | none => exact iff_of_true (show (-1 : BitVec 16).slt 0 = true by decide) (.inl rfl)
  | some index => exact ⟨.inr, fun h => h.resolve_left (Option.some_ne_none _)⟩

/-! ## Reading -/

/-- What an open fills the slot with. -/
def openedFile (fs : Fat16) (path : List UInt8) (flags : BitVec 32) : File where
  flags := flags.setWidth 8
  offset := 0
  directory := (fs.getDirectoryEntry path).1.directory.signExtend 32
  identifier := (fs.getDirectoryEntry path).1.index.signExtend 32
  nlinks := 1
  size := (fs.getDirectoryEntry path).2.elim 0 DirectoryEntry.fileSize

theorem openFound_eq : s.openFound path flags =
    match s.fsAllocFile with
    | none => (none, s)
    | some i => (some i, s.setFile i (openedFile s.fat16 path flags)) := by
  unfold openFound
  generalize s.fsAllocFile = slot
  cases slot <;> rfl

/-- An open that creates nothing. -/
theorem fsOpen_eq (hflags : flags &&& fsFileFlagCreate = 0) : s.fsOpen path flags =
    if 255 < path.length then some (-1, s)
    else if ¬TokenFits path then none
    else if s.Missing path then some (-1, s)
    else
      match s.fsAllocFile with
      | none => some (-1, s)
      | some i => some (fsFile2fd i, s.setFile i (openedFile s.fat16 path flags)) := by
  unfold fsOpen fat16Open
  split
  · rfl
  split
  · rfl
  split
  · rw [hflags]
    rfl
  · rw [openFound_eq]
    cases s.fsAllocFile <;> rfl

theorem setFile_opened (halloc : s.fsAllocFile = some i) :
    Opened s (s.setFile i (openedFile s.fat16 path flags)) i flags :=
  ⟨rfl, halloc, fun _ hj => setFile_of_ne _ hj, by rw [setFile_self]; rfl, by rw [setFile_self]; rfl⟩

theorem Opened.fsRead (h : Opened s t i flags) (size : Nat) : Opened s (t.fsRead (fsFile2fd i) size).2 i flags := by
  unfold FileTable.fsRead
  rw [slotOf_fsFile2fd]
  dsimp only
  split
  · exact h
  split
  · exact h
  · exact ⟨h.fat16, h.alloc, fun j hj => (setFile_of_ne _ hj).trans (h.others j hj), by rw [setFile_self]; exact h.flags,
      by rw [setFile_self]; exact h.links⟩

/-- What a read returns is decided by the disk and the file. -/
theorem fsRead_setFile_congr {file : File} (h : t.fat16 = s.fat16) (size : Nat) :
    ((t.setFile i file).fsRead (fsFile2fd i) size).1 = ((s.setFile i file).fsRead (fsFile2fd i) size).1 := by
  have hread : (t.setFile i file).fat16Read i size = (s.setFile i file).fat16Read i size := by
    unfold fat16Read
    rw [setFile_self, setFile_self, show (t.setFile i file).fat16 = (s.setFile i file).fat16 from h]
  unfold FileTable.fsRead
  rw [slotOf_fsFile2fd]
  dsimp only
  rw [setFile_self, setFile_self, hread]
  split
  · rfl
  split <;> rfl

theorem toNat_signExtend_of_nonneg {x : BitVec 16} (h : x.slt 0 = false) : (x.signExtend 32).toNat = x.toNat := by
  have hmsb : x.msb = false := by rw [← BitVec.slt_zero_eq_msb]; exact h
  rw [BitVec.signExtend_eq_setWidth_of_msb_false hmsb, BitVec.toNat_setWidth, Nat.mod_eq_of_lt (by omega)]

theorem readData_nothing (fs : Fat16) (first : Nat) {size : Nat} (h32 : size < 2 ^ 32) :
    fs.readData first 0 size 0 = (0, []) := by
  have hleft : (if (0 + size) % 2 ^ 32 > 0 then 0 - 0 else size) = 0 := by
    rw [Nat.zero_add, Nat.mod_eq_of_lt h32]
    split <;> omega
  unfold Fat16.readData
  rw [if_neg (Nat.lt_irrefl 0)]
  dsimp only
  rw [hleft]
  rfl

/-- A read of a file of no bytes. -/
theorem fsRead_empty {e : DirectoryEntry} {index : Nat} (htok : tokens [] path = [path])
    (hslash : path.head? ≠ some slash)
    (hfind : s.fat16.findInDirectory s.fat16.currentDirBlock.toNat path = some index)
    (hentry : s.fat16.readEntry s.fat16.currentDirBlock.toNat index = some e) (hsize : e.fileSize = 0)
    (hdir : ¬e.isDirectory) (hmissing : ¬s.Missing path) {size : Nat} (h32 : size < 2 ^ 32) :
    ((s.setFile i (openedFile s.fat16 path flags)).fsRead (fsFile2fd i) size).1.1 ≤ 0 := by
  have hget := s.fat16.getDirectoryEntry_one htok hslash
  rw [hfind] at hget
  rw [Missing, hget, Bool.not_eq_true] at hmissing
  have hindex : index < 16 := (Fat16.findInDirectory_eq_some.mp hfind).1
  have hidentifier : ((BitVec.ofNat 16 index).signExtend 32).toNat = index := by
    have hnonneg : ∀ k < 16, (BitVec.ofNat 16 k).slt 0 = false := by decide
    rw [toNat_signExtend_of_nonneg (hnonneg index hindex), BitVec.toNat_ofNat, Nat.mod_eq_of_lt (by omega)]
  have hplace : s.fat16.readEntry (openedFile s.fat16 path flags).directory.toNat
      (openedFile s.fat16 path flags).identifier.toNat = some e := by
    unfold openedFile
    rw [hget]
    dsimp only
    rw [hidentifier, toNat_signExtend_of_nonneg hmissing, hentry]
  have hread : ((s.setFile i (openedFile s.fat16 path flags)).fat16Read i size).1 ≤ 0 := by
    unfold fat16Read
    rw [setFile_self]
    dsimp only
    split
    · decide
    split
    · decide
    · rw [show (s.setFile i (openedFile s.fat16 path flags)).fat16 = s.fat16 from rfl, hplace]
      dsimp only
      have hzero : s.fat16.readData e.firstCluster.toNat (openedFile s.fat16 path flags).offset.toNat size
          (0 : BitVec 32).toNat = (0, []) := readData_nothing _ _ h32
      rw [if_neg hdir, hsize, hzero]
      decide
  unfold FileTable.fsRead
  rw [slotOf_fsFile2fd]
  dsimp only
  generalize (s.setFile i (openedFile s.fat16 path flags)).fat16Read i size = r at hread
  split
  · exact show (-2 : Int) ≤ 0 by decide
  · exact show (-3 : Int) ≤ 0 by decide

end FileTable

end RetrOS.Fs
