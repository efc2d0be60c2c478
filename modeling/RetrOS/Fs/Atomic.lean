import RetrOS.Fs.NewFile

/-!
# FAT16: are the create operations atomic?

* `CreateOp` : the two create operations with their arguments; `entry` is the directory entry they add;
* `liveEntries` : the entries of a directory block that are neither empty nor deleted;
* `Atomic` : failure is reported with the table and the disk as they were, success with the entry in its place;
* `AtomicWhen`, `atomic_iff` : exactly when this is so. The results of `fat16_add_entry`, of the writer and in
  `fat16_create_directory` of the search for a cluster are not looked at, and the block of a recycled cluster is
  not cleared.

The numbers from 0xFFF8 on are end marks. The search hands them out like any other; for a create operation they
do not count as clusters.
-/

namespace RetrOS.Fs
open RetrOS.Lib

inductive CreateOp
  | file (filename : Bytes 8) (ext : Bytes 3) (data : List UInt8)
  | directory (name : List UInt8) (behind : Nat → UInt8)

namespace Fat16

variable {fs fs' : Fat16} {b i : Nat}

/-! ## The entries of a directory -/

/-- The entries in the slots `is` that are in use. -/
def liveIn (fs : Fat16) (b : Nat) (is : List Nat) : List DirectoryEntry :=
  (is.map (fs.slot b)).filter fun e => !e.isFree

def liveEntries (fs : Fat16) (b : Nat) : List DirectoryEntry := fs.liveIn b (List.range 16)

theorem liveIn_append (is js : List Nat) : fs.liveIn b (is ++ js) = fs.liveIn b is ++ fs.liveIn b js := by
  rw [liveIn, List.map_append, List.filter_append, liveIn, liveIn]

theorem liveIn_cons_of_free {is : List Nat} (h : (fs.slot b i).isFree) : fs.liveIn b (i :: is) = fs.liveIn b is := by
  rw [liveIn, List.map_cons, List.filter_cons_of_neg (by simp [h]), liveIn]

theorem liveIn_cons_of_live {is : List Nat} (h : ¬ (fs.slot b i).isFree) :
    fs.liveIn b (i :: is) = fs.slot b i :: fs.liveIn b is := by
  rw [liveIn, List.map_cons, List.filter_cons_of_pos (by simpa using h), liveIn]

theorem liveIn_congr {is : List Nat} (h : ∀ j ∈ is, fs'.slot b j = fs.slot b j) : fs'.liveIn b is = fs.liveIn b is := by
  rw [liveIn, liveIn, List.map_congr_left h]

theorem liveIn_eq_nil {is : List Nat} : fs.liveIn b is = [] ↔ ∀ j ∈ is, (fs.slot b j).isFree := by
  rw [liveIn, List.filter_eq_nil_iff]
  simp

theorem liveEntries_congr (h : fs'.disk b = fs.disk b) : fs'.liveEntries b = fs.liveEntries b :=
  liveIn_congr fun j _ => slot_congr h j

/-- The slots around the slot `i`. -/
theorem range_split (hi : i < 16) : List.range 16 = List.range i ++ i :: List.range' (i + 1) (15 - i) := by
  obtain ⟨k, hk⟩ := Nat.exists_eq_add_of_lt hi
  rw [List.range_eq_range', List.range_eq_range', show 16 = i + (k + 1) by omega, ← List.range'_append_1,
    List.range'_succ, Nat.zero_add, show 15 - i = k by omega]

/-- Storing an entry in a free slot puts it between the entries before and behind. -/
theorem liveEntries_putEntry {e : DirectoryEntry} (hi : i < 16) (hfree : (fs.slot b i).isFree) (he : ¬ e.isFree) :
    fs.liveEntries b = fs.liveIn b (List.range i) ++ fs.liveIn b (List.range' (i + 1) (15 - i)) ∧
      (fs.putEntry b i e).liveEntries b =
        fs.liveIn b (List.range i) ++ e :: fs.liveIn b (List.range' (i + 1) (15 - i)) := by
  have hsame : ∀ is : List Nat, i ∉ is → (fs.putEntry b i e).liveIn b is = fs.liveIn b is := fun is his =>
    liveIn_congr fun j hj => slot_putEntry_of_ne fs e (.inr (ne_of_mem_of_not_mem hj his))
  have hnew : ¬ ((fs.putEntry b i e).slot b i).isFree := by rwa [slot_putEntry_self]
  rw [liveEntries, liveEntries, range_split hi, liveIn_append, liveIn_append, liveIn_cons_of_free hfree,
    liveIn_cons_of_live hnew, slot_putEntry_self, hsame _ (by simp), hsame _ (by simp [List.mem_range'_1])]
  exact ⟨rfl, rfl⟩

theorem length_liveEntries_of_full (h : freeSlot (fs.readBlock b) = none) : (fs.liveEntries b).length = 16 := by
  rw [liveEntries, liveIn, List.filter_eq_self.mpr, List.length_map, List.length_range]
  intro e he
  obtain ⟨j, hj, rfl⟩ := List.mem_map.mp he
  simpa using freeSlot_eq_none.mp h j (List.mem_range.mp hj)

theorem length_liveEntries_le (fs : Fat16) (b : Nat) : (fs.liveEntries b).length ≤ 16 :=
  (List.length_filter_le ..).trans (by simp)

/-- Adding an entry, in numbers. -/
theorem length_liveEntries_addEntry {block : BitVec 16} (name : Bytes 8) (ext : Bytes 3) (attr : UInt8)
    (cluster : BitVec 16) (size : BitVec 32) (he : ¬ (newEntry name ext attr cluster size).isFree) :
    ((fs.addEntry block name ext attr cluster size).2.liveEntries block.toNat).length =
      min 16 ((fs.liveEntries block.toNat).length + 1) := by
  cases hslot : freeSlot (fs.readBlock block.toNat) with
  | none =>
    rw [addEntry_none _ _ _ _ _ hslot, length_liveEntries_of_full hslot]
    rfl
  | some i =>
    rw [addEntry_some _ _ _ _ _ hslot]
    obtain ⟨hi, hfree, -⟩ := freeSlot_eq_some.mp hslot
    obtain ⟨hbefore, hafter⟩ := liveEntries_putEntry hi hfree he
    have hle := length_liveEntries_le (fs.putEntry block.toNat i (newEntry name ext attr cluster size)) block.toNat
    rw [hafter, List.length_append, List.length_cons] at hle
    rw [hafter, hbefore, List.length_append, List.length_append, List.length_cons]
    omega

/-- Two entries added to a block are all its entries exactly if it had none. -/
theorem liveEntries_addEntry_two {block : BitVec 16} (name name2 : Bytes 8) (ext : Bytes 3) (attr : UInt8)
    (cluster cluster2 : BitVec 16) (size : BitVec 32) (he : ¬ (newEntry name ext attr cluster size).isFree)
    (he2 : ¬ (newEntry name2 ext attr cluster2 size).isFree) :
    ((fs.addEntry block name ext attr cluster size).2.addEntry block name2 ext attr cluster2 size).2.liveEntries
        block.toNat = [newEntry name ext attr cluster size, newEntry name2 ext attr cluster2 size] ↔
      fs.liveEntries block.toNat = [] := by
  constructor
  · intro h
    have hlen := congrArg List.length h
    rw [length_liveEntries_addEntry _ _ _ _ _ he2, length_liveEntries_addEntry _ _ _ _ _ he] at hlen
    rw [← List.length_eq_zero_iff]
    simp only [List.length_cons, List.length_nil] at hlen
    omega
  · intro h
    have hfree : ∀ j < 16, (fs.slot block.toNat j).isFree := fun j hj =>
      liveIn_eq_nil.mp h j (List.mem_range.mpr hj)
    have hslot : freeSlot (fs.readBlock block.toNat) = some 0 :=
      freeSlot_eq_some.mpr ⟨by decide, hfree 0 (by decide), fun j hj => absurd hj (Nat.not_lt_zero j)⟩
    rw [addEntry_some _ _ _ _ _ hslot]
    obtain ⟨fs1, hfs1⟩ : ∃ fs1, fs1 = fs.putEntry block.toNat 0 (newEntry name ext attr cluster size) := ⟨_, rfl⟩
    have h0 : fs1.slot block.toNat 0 = newEntry name ext attr cluster size := hfs1 ▸ slot_putEntry_self ..
    have hrest : ∀ j < 16, j ≠ 0 → (fs1.slot block.toNat j).isFree := by
      intro j hj hj0
      rw [hfs1, slot_putEntry_of_ne fs _ (.inr hj0)]
      exact hfree j hj
    have hslot1 : freeSlot (fs1.readBlock block.toNat) = some 1 := by
      refine freeSlot_eq_some.mpr ⟨by decide, hrest 1 (by decide) (by decide), fun j hj => ?_⟩
      rw [show j = 0 by omega, h0]
      exact he
    have hlast : fs1.liveIn block.toNat (List.range' 2 14) = [] := by
      refine liveIn_eq_nil.mpr fun j hj => ?_
      rw [List.mem_range'_1] at hj
      exact hrest j (by omega) (by omega)
    rw [← hfs1, addEntry_some _ _ _ _ _ hslot1,
      (liveEntries_putEntry (by decide) (hrest 1 (by decide) (by decide)) he2).2, hlast,
      show List.range 1 = [0] from rfl, liveIn_cons_of_live (by rw [h0]; exact he), h0]
    rfl

/-! ## The operations -/

/-- The first cluster of the parent in the entry `..`, 0 for the root directory. -/
def parentCluster (fs : Fat16) : BitVec 16 :=
  if fs.currentDirBlock = fs.getRootDirectoryStartBlock then 0 else fs.currentDirBlock - fs.getDataStartBlock

/-- The dot entries of a directory created in the current one. -/
def dots (fs : Fat16) (c : Nat) : List DirectoryEntry :=
  [newEntry dotName blankExtension flagSubdirectory (BitVec.ofNat 16 c) 0,
    newEntry dotdotName blankExtension flagSubdirectory fs.parentCluster 0]

end Fat16

namespace CreateOp

/-- The directory entry that the operation adds. -/
def entry (op : CreateOp) (c : Nat) : DirectoryEntry :=
  match op with
  | file filename ext data => newEntry filename ext flagArchive (BitVec.ofNat 16 c) (BitVec.ofNat 32 data.length)
  | directory name behind => newEntry (nameMemory name behind) blankExtension flagSubdirectory (BitVec.ofNat 16 c) 0

/-- The number of clusters that the operation needs. -/
def clusters : CreateOp → Nat
  | file _ _ data => max 1 ((data.length + 511) / 512)
  | directory .. => 1

def run (fs : Fat16) : CreateOp → Option (Int × Fat16)
  | file filename ext data => fs.createFile filename ext data
  | directory name behind => some (fs.createDirectory name behind)

/-- Whether an entry counts as empty depends on its name only. -/
theorem isFree_entry (op : CreateOp) (c d : Nat) : (op.entry c).isFree = (op.entry d).isFree := by
  cases op <;> rfl

end CreateOp

namespace Fat16

/-- The new entry is in a slot that was free, its first cluster was free and is allocated, and the block of a new
directory holds the dot entries and nothing else. -/
def Created (fs fs' : Fat16) (op : CreateOp) : Prop :=
  ∃ i < 16, ∃ c ∈ fs.freeBelow 0xFFF8, (fs.slot fs.currentDirBlock.toNat i).isFree ∧
    fs'.slot fs.currentDirBlock.toNat i = op.entry c ∧ ¬ (op.entry c).isFree ∧ fs'.getFatEntry c ≠ 0 ∧
    match op with
    | .file .. => True
    | .directory .. => fs'.liveEntries (fs.directoryBlock c) = fs.dots c

/-- The operation returns. Without a free slot or enough free clusters it reports a failure and changes nothing,
and when it reports success the entry was created. -/
def Atomic (fs : Fat16) (op : CreateOp) : Prop :=
  ∃ r fs', op.run fs = some (r, fs') ∧
    ((∀ i < 16, ¬ (fs.slot fs.currentDirBlock.toNat i).isFree) ∨ (fs.freeBelow 0xFFF8).card < op.clusters →
      r ≠ 0 ∧ fs'.fatTableMemory = fs.fatTableMemory ∧ fs'.disk = fs.disk) ∧
    (r = 0 → Created fs fs' op)

/-- There are a free slot and enough free clusters, and the name is not one of an empty or deleted entry. -/
structure Fits (fs : Fat16) (op : CreateOp) : Prop where
  slot : ∃ i < 16, (fs.slot fs.currentDirBlock.toNat i).isFree
  clusters : op.clusters ≤ (fs.freeBelow 0xFFF8).card
  name : ¬ (op.entry 0).isFree

/-- When a create operation is atomic. The block of a new directory must have no entries; if its number does not
fit in 16 bits the dot entries go elsewhere, and it must hold them already. -/
def AtomicWhen (fs : Fat16) (op : CreateOp) : Prop :=
  match op with
  | .file .. => fs.freeBelow 65536 = ∅ ∨ Fits fs op
  | .directory name _ => 8 < name.length ∨ Fits fs op ∧ ∀ c, IsLeast (fs.freeBelow 0xFFF8 : Set Nat) c →
      fs.liveEntries (fs.getDataStartBlock.toNat + c) =
        if fs.getDataStartBlock.toNat + c < 65536 then [] else fs.dots c

variable {fs fs' : Fat16} {op : CreateOp} {b c i B : Nat}

theorem Fits.exists_isLeast (h : Fits fs op) : ∃ c, IsLeast (fs.freeBelow 0xFFF8 : Set Nat) c := by
  have hpos : 0 < op.clusters := by
    cases op with
    | file => exact Nat.lt_of_lt_of_le Nat.zero_lt_one (Nat.le_max_left ..)
    | directory => exact Nat.zero_lt_one
  exact ⟨_, (fs.freeBelow 0xFFF8).isLeast_min' (Finset.card_pos.mp (hpos.trans_le h.clusters))⟩

/-! ## Success -/

theorem Fits.atomic_of_created (h : Fits fs op) (hrun : op.run fs = some (0, fs')) (hc : Created fs fs' op) :
    Atomic fs op := by
  refine ⟨0, fs', hrun, fun hno => ?_, fun _ => hc⟩
  rcases hno with hno | hno
  · obtain ⟨i, hi, hfree⟩ := h.slot
    exact absurd hfree (hno i hi)
  · exact absurd h.clusters (Nat.not_le.mpr hno)

/-- Where the operation reports success, it may be atomic only if everything fits. -/
theorem Atomic.fits {r : Int} (h : Atomic fs op) (hrun : op.run fs = some (r, fs')) (hr : r = 0) :
    Fits fs op ∧ Created fs fs' op := by
  obtain ⟨r', fs2, hrun', hfail, hok⟩ := h
  obtain ⟨rfl, rfl⟩ : r = r' ∧ fs' = fs2 := by simpa [hrun] using hrun'
  obtain ⟨i, hi, c, hc, hfree, hslot, hlive, hrest⟩ := hok hr
  refine ⟨⟨⟨i, hi, hfree⟩, Nat.not_lt.mp fun hlt => (hfail (.inr hlt)).1 hr, ?_⟩,
    i, hi, c, hc, hfree, hslot, hlive, hrest⟩
  rwa [CreateOp.isFree_entry _ _ c]

/-! ## Creating a file -/

section File
variable {filename : Bytes 8} {ext : Bytes 3} {data : List UInt8}

theorem atomic_file_of_fits (hlay : Layout fs) (hdir : InDirectory fs) (h : Fits fs (.file filename ext data)) :
    Atomic fs (.file filename ext data) := by
  obtain ⟨c, i, l, fs', hrun, hnew⟩ := createFile_eq filename ext hlay hdir (Nat.le_refl _) h.slot h.clusters
  refine h.atomic_of_created hrun ⟨i, hnew.slot_lt, c, hnew.fresh c hnew.head_mem, hnew.slot_free, hnew.slot, ?_,
    hnew.chain.entry_ne_zero hnew.head_mem, trivial⟩
  rw [CreateOp.isFree_entry _ _ 0]
  exact h.name

/-- A file was only created where everything fits, unless the table was full. -/
theorem Atomic.when_file (h : Atomic fs (.file filename ext data)) : AtomicWhen fs (.file filename ext data) := by
  rcases getFreeCluster_cases fs with ⟨hempty, -⟩ | ⟨c, hleast, hget⟩
  · exact .inl hempty
  have ⟨r, fs', hrun, _, _⟩ := h
  have hr := hrun
  rw [CreateOp.run, createFile_of_free hget (mem_freeBelow.mp hleast.1).2.1, Option.map_eq_some_iff] at hr
  obtain ⟨fs2, -, hr⟩ := hr
  exact .inr (h.fits hrun (congrArg Prod.fst hr).symm).1

end File

/-! ## Creating a directory -/

section Directory
variable {name : List UInt8} {behind : Nat → UInt8}

/-- The state in which the table is written back: the three entries were added, the dot entries to the block of
16 bits. -/
def withDirectory (fs : Fat16) (name : List UInt8) (behind : Nat → UInt8) (c : Nat) : Fat16 :=
  let block := fs.getDataStartBlock + BitVec.ofNat 16 c
  let fs1 := ((fs.allocateCluster c).addEntry fs.currentDirBlock (nameMemory name behind) blankExtension
    flagSubdirectory (BitVec.ofNat 16 c) 0).2
  let fs2 := (fs1.addEntry block dotName blankExtension flagSubdirectory (BitVec.ofNat 16 c) 0).2
  (fs2.addEntry block dotdotName blankExtension flagSubdirectory fs.parentCluster 0).2

theorem createDirectory_eq (behind : Nat → UInt8) (hname : ¬ 8 < name.length)
    (h : fs.getFreeCluster = (c, fs.allocateCluster c)) :
    fs.createDirectory name behind = (0, (fs.withDirectory name behind c).syncFatTable) := by
  have hstart : ∀ {block : BitVec 16} {cluster : BitVec 16}, ((fs.allocateCluster c).addEntry block
      (nameMemory name behind) blankExtension flagSubdirectory cluster 0).2.getDataStartBlock = fs.getDataStartBlock :=
    getDataStartBlock_congr (bootTable_addEntry ..)
  rw [createDirectory, if_neg hname, h]
  dsimp only
  rw [hstart]
  rfl

theorem bootTable_withDirectory : (fs.withDirectory name behind c).bootTable = fs.bootTable := by
  simp only [withDirectory, bootTable_addEntry]
  rfl

theorem getFatEntry_withDirectory {d : Nat} :
    (fs.withDirectory name behind c).getFatEntry d = (fs.allocateCluster c).getFatEntry d := by
  simp only [withDirectory, getFatEntry_addEntry]

/-- The entry of the directory itself stays in its slot. -/
theorem exists_slot_withDirectory (h : Fits fs (.directory name behind)) :
    ∃ i < 16, (fs.slot fs.currentDirBlock.toNat i).isFree ∧
      (fs.withDirectory name behind c).slot fs.currentDirBlock.toNat i = (CreateOp.directory name behind).entry c := by
  have hslot : ∃ i < 16, ((fs.allocateCluster c).slot fs.currentDirBlock.toNat i).isFree := h.slot
  obtain ⟨i, hi, hfree, -, hadd⟩ := exists_addEntry (nameMemory name behind) blankExtension flagSubdirectory
    (BitVec.ofNat 16 c) 0 hslot
  have hnew : ((fs.allocateCluster c).addEntry fs.currentDirBlock (nameMemory name behind) blankExtension
      flagSubdirectory (BitVec.ofNat 16 c) 0).2.slot fs.currentDirBlock.toNat i =
        newEntry (nameMemory name behind) blankExtension flagSubdirectory (BitVec.ofNat 16 c) 0 := by
    rw [hadd]
    exact slot_putEntry_self ..
  have hlive : ¬ (newEntry (nameMemory name behind) blankExtension flagSubdirectory (BitVec.ofNat 16 c) 0).isFree :=
    h.name
  refine ⟨i, hi, hfree, ?_⟩
  rw [← hnew] at hlive
  dsimp only [withDirectory]
  have hdot := slot_addEntry_of_live (fs.getDataStartBlock + BitVec.ofNat 16 c) dotName blankExtension
    flagSubdirectory (BitVec.ofNat 16 c) 0 hlive
  rw [slot_addEntry_of_live _ _ _ _ _ _ (by rw [hdot]; exact hlive), hdot, hnew]
  rfl

/-- The block of the directory holds exactly the dot entries if it had no entries. Where its number does not fit
in 16 bits it is left as it was. -/
theorem liveEntries_withDirectory (hlay : Layout fs) (hdir : InDirectory fs) (hc : c ∈ fs.freeBelow 0xFFF8) :
    (fs.withDirectory name behind c).syncFatTable.liveEntries (fs.directoryBlock c) = fs.dots c ↔
      fs.liveEntries (fs.getDataStartBlock.toNat + c) =
        if fs.getDataStartBlock.toNat + c < 65536 then [] else fs.dots c := by
  obtain ⟨h5, hlt, -⟩ := mem_freeBelow.mp hc
  have hblock := directoryBlock_of_pos fs (show 0 < c by omega) (by omega)
  have hroot := hlay.root_lt_directoryBlock (c := c) ⟨by omega, hlt⟩
  have hcur := hdir.ne_of_free hlay (Nat.le_refl _) hc
  have hsync : (fs.withDirectory name behind c).syncFatTable.liveEntries (fs.directoryBlock c) =
      (fs.withDirectory name behind c).liveEntries (fs.directoryBlock c) := by
    refine liveEntries_congr ((hlay.congr bootTable_withDirectory).disk_syncFatTable ?_)
    rw [getRootDirectoryStartBlock_congr bootTable_withDirectory]
    exact hroot.le
  have hnat : (fs.getDataStartBlock + BitVec.ofNat 16 c).toNat = (fs.getDataStartBlock.toNat + c) % 65536 := by
    rw [BitVec.toNat_add, BitVec.toNat_ofNat, Nat.add_mod_mod]
  rw [hsync]
  dsimp only [withDirectory]
  split
  · -- the dot entries go to the block of the directory
    rename_i hfit
    rw [Nat.mod_eq_of_lt hfit, ← hblock] at hnat
    have hsame : ((fs.allocateCluster c).addEntry fs.currentDirBlock (nameMemory name behind) blankExtension
        flagSubdirectory (BitVec.ofNat 16 c) 0).2.liveEntries (fs.directoryBlock c) =
          fs.liveEntries (fs.directoryBlock c) :=
      liveEntries_congr (disk_addEntry_of_ne _ _ _ _ _ hcur.symm)
    rw [← hblock, ← hsame, ← hnat, dots]
    exact liveEntries_addEntry_two _ _ _ _ _ _ _ Bool.false_ne_true Bool.false_ne_true
  · rename_i hfit
    have hne : ∀ block : BitVec 16, fs.directoryBlock c ≠ block.toNat := by
      intro block
      have := block.isLt
      omega
    have hsame : (fs.withDirectory name behind c).liveEntries (fs.directoryBlock c) =
        fs.liveEntries (fs.directoryBlock c) := by
      refine liveEntries_congr ?_
      dsimp only [withDirectory]
      rw [disk_addEntry_of_ne _ _ _ _ _ (hne _), disk_addEntry_of_ne _ _ _ _ _ (hne _),
        disk_addEntry_of_ne _ _ _ _ _ (hne _)]
      rfl
    rw [← hblock]
    exact Eq.congr_left hsame

/-- The only cluster that was allocated. -/
theorem Created.eq_of_directory (h : Created fs (fs.withDirectory name behind c).syncFatTable (.directory name behind))
    (hc : c < 0xFFF8) : (fs.withDirectory name behind c).syncFatTable.liveEntries (fs.directoryBlock c) = fs.dots c := by
  obtain ⟨i, -, d, hd, -, -, -, hfat, hlive⟩ := h
  obtain ⟨-, hdlt, h0⟩ := mem_freeBelow.mp hd
  have hdc : d = c := by
    by_contra hne
    rw [getFatEntry_syncFatTable, getFatEntry_withDirectory, allocateCluster,
      getFatEntry_setFatEntry_of_ne _ _ (by omega) (by omega) hne] at hfat
    exact hfat h0
  subst hdc
  exact hlive

theorem atomic_directory_iff (hlay : Layout fs) (hdir : InDirectory fs) :
    Atomic fs (.directory name behind) ↔ AtomicWhen fs (.directory name behind) := by
  by_cases hname : 8 < name.length
  · refine iff_of_true ⟨-1, fs, ?_, fun _ => ⟨by decide, rfl, rfl⟩, fun h => absurd h (by decide)⟩ (.inl hname)
    rw [CreateOp.run, createDirectory, if_pos hname]
  constructor
  · intro h
    refine .inr ?_
    have hfits : Fits fs (.directory name behind) := by
      have hrun : (CreateOp.directory name behind).run fs = some (0, (fs.createDirectory name behind).2) := by
        rw [CreateOp.run, createDirectory, if_neg hname]
      exact (h.fits hrun rfl).1
    refine ⟨hfits, fun c hleast => ?_⟩
    have hrun := createDirectory_eq behind hname (getFreeCluster_of_isLeast hleast (by decide))
    have hcreated := (h.fits (congrArg some hrun) rfl).2
    exact (liveEntries_withDirectory hlay hdir hleast.1).mp
      (hcreated.eq_of_directory (mem_freeBelow.mp hleast.1).2.1)
  · rintro (h | ⟨h, hblock⟩)
    · exact absurd h hname
    obtain ⟨c, hleast⟩ := h.exists_isLeast
    have hrun := createDirectory_eq behind hname (getFreeCluster_of_isLeast hleast (by decide))
    obtain ⟨i, hi, hfree, hslot⟩ := exists_slot_withDirectory (c := c) h
    refine h.atomic_of_created (congrArg some hrun) ⟨i, hi, c, hleast.1, hfree, ?_, ?_, ?_, ?_⟩
    · rw [(hlay.congr bootTable_withDirectory).slot_syncFatTable (by
        rw [getRootDirectoryStartBlock_congr bootTable_withDirectory]
        exact hdir.root_le hlay), hslot]
    · rw [CreateOp.isFree_entry _ _ 0]
      exact h.name
    · rw [getFatEntry_syncFatTable, getFatEntry_withDirectory, allocateCluster, getFatEntry_setFatEntry_self]
      decide
    · exact (liveEntries_withDirectory hlay hdir hleast.1).mpr (hblock c hleast)

end Directory

/-! ## When the operations are atomic -/

theorem atomic_iff (fs : Fat16) (op : CreateOp) (hlay : Layout fs) (hdir : InDirectory fs) :
    Atomic fs op ↔ AtomicWhen fs op := by
  cases op with
  | file filename ext data =>
    constructor
    · exact Atomic.when_file
    rintro (hempty | h)
    · rcases getFreeCluster_cases fs with ⟨-, hget⟩ | ⟨c, hleast, -⟩
      · refine ⟨-1, fs, createFile_of_full hget, fun _ => ⟨by decide, rfl, rfl⟩, fun h => absurd h (by decide)⟩
      · rw [hempty] at hleast
        exact absurd hleast.1 (Finset.notMem_empty c)
    · exact atomic_file_of_fits hlay hdir h
  | directory name behind => exact atomic_directory_iff hlay hdir

/-- A disk of 200 blocks with the label and `n` empty files in the root directory. -/
def withFiles (n : Nat) : Fat16 where
  bootTable := { reservedBlocks := 1, rootDirEntries := 16, totalBlocks := 199, fatBlocks := 1 }
  fatTableMemory := fun i => if i = 0 then 0xFFF8 else if i = 1 ∨ 5 ≤ i ∧ i < 5 + n then 0xFFFF else 0
  currentDirBlock := 2
  disk := fun b o =>
    if b ≠ 2 ∨ 32 * (n + 1) ≤ o then 0
    else if o % 32 = 0 then (0x41 + o / 32).toUInt8
    else if o % 32 < 11 then 0x20
    else if o % 32 = 11 then (if o < 32 then flagVolumeLabel else flagArchive)
    else if o % 32 = 26 ∧ 32 ≤ o then (4 + o / 32).toUInt8
    else 0

/-- An empty file `NEW.TXT`. -/
def newTxt : CreateOp := .file ⟨ascii "NEW     ", by decide⟩ ⟨ascii "TXT", by decide⟩ []

theorem atomic_withFiles : Atomic (withFiles 0) newTxt ↔ AtomicWhen (withFiles 0) newTxt :=
  atomic_iff (withFiles 0) newTxt ⟨by decide, by decide⟩ (.inl (by decide))

/-- In a full root directory the file is reported to be created. -/
theorem not_atomic_full : ¬ Atomic (withFiles 15) newTxt := by
  intro h
  rcases h.when_file with hempty | hfits
  · have hfree : 20 ∈ (withFiles 15).freeBelow 65536 := mem_freeBelow.mpr (by decide)
    rw [hempty] at hfree
    exact Finset.notMem_empty 20 hfree
  · obtain ⟨i, hi, hfree⟩ := hfits.slot
    have hlive : ∀ j < 16, ¬ ((withFiles 15).slot 2 j).isFree := by decide
    exact hlive i hi hfree

end Fat16
end RetrOS.Fs
