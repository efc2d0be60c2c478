import RetrOS.Fs.Formatted
import RetrOS.Lib.Partition
import RetrOS.Lib.Run

/-!
# FAT16: runs of file operations (`fs/fat16.c`, `fs/fat16_iface.c`)

* `write`, `freeClusters`, `deleteEntry` : writing to an open file and deleting one. `fat16_free_clusters` frees a
  cluster before it reads where the chain goes on;
* `Consistent` : the chains of the files are acyclic, end in 0xFFFF and share out the allocated clusters, and no
  entry points to a free cluster;
* `Shared fs l` : the invariant, `l i` the clusters of the file in slot `i`. `Shared.extend` is what one operation
  may do to it;
* `fileRun_consistent` : every run from a formatted disk whose steps meet `FileOk`: no write is shorter, in
  clusters, than the file, and nothing is deleted. A shorter write loses clusters (`not_consistent_of_shorter`), and
  deleting a file does not return (`deleteEntry_eq_none`).

Such runs do not leave the root directory.
-/

namespace RetrOS.Fs
open RetrOS.Lib

inductive FileOp
  | create (filename : Bytes 8) (ext : Bytes 3) (data : List UInt8)
  | write (identifier : Nat) (buf : List UInt8)
  | delete (identifier : Nat)

namespace Fat16

/-- `fat16_write` to an open file; it always writes from the start. -/
def write (fs : Fat16) (directory : BitVec 16) (identifier : Nat) (buf : List UInt8) : Option (Int × Fat16) :=
  match fs.readEntry directory.toNat identifier with
  | none => some (-3, fs)
  | some entry =>
    (fs.writeData entry.firstCluster.toNat 0 buf).map fun (written, fs) =>
      if written < 0 then (-4, fs)
      else
        let entry := { entry with fileSize := BitVec.ofInt 32 (0 + written) }
        (buf.length, (fs.syncDirectoryEntry directory identifier entry).2)

/-- The loop makes at most `fuel` rounds. -/
def freeClusters : Nat → Fat16 → Nat → Option (Nat × Fat16)
  | 0, _, _ => none
  | fuel + 1, fs, currentCluster =>
    if currentCluster ≠ 0xFFFF then
      let fs := fs.freeCluster currentCluster
      (freeClusters fuel fs (fs.getFatEntry currentCluster).toNat).map fun (count, fs) => (count + 1, fs)
    else some (0, fs)

def deleteEntry (fuel : Nat) (fs : Fat16) (block : BitVec 16) (index : Nat) : Option (Int × Fat16) :=
  let entry := (fs.readEntry block.toNat index).getD .zero
  (freeClusters fuel fs entry.firstCluster.toNat).map fun (_, fs) =>
    (0, (fs.syncDirectoryEntry block index .zero).2)

/-! ## Files and clusters -/

def firstCluster (fs : Fat16) (i : Nat) : Nat := (fs.rootSlot i).firstCluster.toNat

/-- The slot holds a file, not the label. -/
structure IsFile (fs : Fat16) (i : Nat) : Prop where
  lt : i < 16
  live : ¬ (fs.rootSlot i).isFree
  notLabel : (fs.rootSlot i).attributes &&& flagVolumeLabel = 0

/-- A cluster of the table that is marked allocated. -/
structure Allocated (fs : Fat16) (c : Nat) : Prop where
  notReserved : 2 ≤ c
  inTable : c < 256 * fs.bootTable.fatBlocks.toNat
  marked : fs.getFatEntry c ≠ 0

structure Consistent (fs : Fat16) : Prop where
  chain : ∀ i, fs.IsFile i → ∃ l, fs.IsChain (fs.firstCluster i) l ∧ l.Nodup ∧ l ≠ []
  owner : ∀ c, fs.Allocated c → ∃! i, fs.IsFile i ∧ ∃ l, fs.IsChain (fs.firstCluster i) l ∧ c ∈ l
  entry : ∀ i < 16, ¬ (fs.rootSlot i).isFree → fs.getFatEntry (fs.firstCluster i) ≠ 0

/-- The clusters below it are in the table and no end marks. -/
def tableBound (fs : Fat16) : Nat := min (256 * fs.bootTable.fatBlocks.toNat) 0xFFF8

/-! ## Runs -/

/-- One operation. Writes and deletions are of existing files of the root directory. -/
inductive FileStep : Fat16 → FileOp → Fat16 → Prop
  | create {fs fs' : Fat16} {filename : Bytes 8} {ext : Bytes 3} {data : List UInt8} {r : Int} :
      fs.createFile filename ext data = some (r, fs') → FileStep fs (.create filename ext data) fs'
  | write {fs fs' : Fat16} {i : Nat} {buf : List UInt8} {r : Int} :
      fs.IsFile i → fs.write fs.getRootDirectoryStartBlock i buf = some (r, fs') → FileStep fs (.write i buf) fs'
  | delete {fs fs' : Fat16} {i fuel : Nat} {r : Int} :
      fs.IsFile i → fs.deleteEntry fuel fs.getRootDirectoryStartBlock i = some (r, fs') →
        FileStep fs (.delete i) fs'

/-- There is room for what is created, under a name that is not the one of an empty or deleted entry, and for what
is written; a write reaches the last cluster of the file; nothing is deleted. -/
def FileOk (fs : Fat16) (op : FileOp) : Prop :=
  match op with
  | .create filename ext data => (∃ i < 16, (fs.rootSlot i).isFree) ∧
      max 1 ((data.length + 511) / 512) ≤ (fs.freeBelow fs.tableBound).card ∧
      ¬ (newEntry filename ext flagArchive 0 0).isFree
  | .write i buf => buf = [] ∨ ∀ l, fs.IsChain (fs.firstCluster i) l →
      l.length ≤ (buf.length + 511) / 512 ∧
      (buf.length + 511) / 512 ≤ l.length + (fs.freeBelow fs.tableBound).card
  | .delete _ => False

/-! ## The invariant -/

/-- `l i` are the clusters of the file in slot `i`. -/
structure Shared (fs : Fat16) (l : Nat → List Nat) : Prop where
  layout : Layout fs
  current : fs.currentDirBlock = fs.getRootDirectoryStartBlock
  reserved : fs.getFatEntry 0 ≠ 0
  label : fs.rootSlot 0 = volumeLabel
  file : ∀ i < 16, ¬ (fs.rootSlot i).isFree → i = 0 ∨ fs.IsFile i
  chain : ∀ i, fs.IsFile i → fs.IsChain (fs.firstCluster i) (l i) ∧ l i ≠ []
  clusters : Partition fs.Allocated fs.IsFile l

variable {fs fs' : Fat16} {l : Nat → List Nat} {m : List Nat} {i c : Nat}

theorem tableBound_le (fs : Fat16) : fs.tableBound ≤ 0xFFF8 := Nat.min_le_right ..

/-- A free cluster is not allocated. -/
theorem not_allocated_of_free {B : Nat} (hc : c ∈ fs.freeBelow B) : ¬ fs.Allocated c := fun h =>
  h.marked (mem_freeBelow.mp hc).2.2

theorem Shared.ne_zero (h : Shared fs l) (hi : fs.IsFile i) : i ≠ 0 := by
  rintro rfl
  have hlabel := hi.notLabel
  rw [h.label] at hlabel
  exact absurd hlabel (by decide)

/-- Following the links from the first cluster one meets the clusters of the file. -/
theorem Shared.mem_iff (h : Shared fs l) (hi : fs.IsFile i) :
    (∃ p, fs.IsChain (fs.firstCluster i) p ∧ c ∈ p) ↔ c ∈ l i := by
  constructor
  · rintro ⟨p, hp, hc⟩
    rwa [(h.chain i hi).1.unique hp]
  · exact fun hc => ⟨l i, (h.chain i hi).1, hc⟩

theorem Shared.consistent (h : Shared fs l) : Consistent fs := by
  refine ⟨fun i hi => ?_, fun c hc => ?_, fun i hi hlive => ?_⟩
  · obtain ⟨hchain, hne⟩ := h.chain i hi
    exact ⟨l i, hchain, hchain.nodup, hne⟩
  · obtain ⟨i, ⟨hi, hci⟩, honly⟩ := h.clusters.existsUnique hc
    refine ⟨i, ⟨hi, (h.mem_iff hi).mpr hci⟩, fun j ⟨hj, hcj⟩ => honly j ⟨hj, (h.mem_iff hj).mp hcj⟩⟩
  · rcases h.file i hi hlive with rfl | hfile
    · rw [firstCluster, h.label]
      exact h.reserved
    · obtain ⟨hchain, hne⟩ := h.chain i hfile
      exact hchain.entry_ne_zero (hchain.path.head hne)

/-! ## What an operation may do -/

/-- An operation on the file in slot `i`, a new one or one that exists, that gives it the chain `m` : the clusters
it had and clusters that were free. -/
structure Extends (fs fs' : Fat16) (l : Nat → List Nat) (i : Nat) (m : List Nat) : Prop where
  bootTable : fs'.bootTable = fs.bootTable
  currentDirBlock : fs'.currentDirBlock = fs.currentDirBlock
  isFile : fs'.IsFile i
  slots : ∀ j, j ≠ i → fs'.rootSlot j = fs.rootSlot j
  chain : fs'.IsChain (fs'.firstCluster i) m
  ne_nil : m ≠ []
  table : ∀ d < 2 ^ 31, d ∉ m → fs'.getFatEntry d = fs.getFatEntry d
  fresh : ∀ d ∈ m, d ∈ fs.freeBelow fs.tableBound ∨ fs.IsFile i ∧ d ∈ l i

theorem IsFile.congr {fs fs' : Fat16} {j : Nat} (h : fs'.rootSlot j = fs.rootSlot j) : fs'.IsFile j ↔ fs.IsFile j := by
  constructor
  · rintro ⟨hlt, hlive, hlabel⟩
    rw [h] at hlive hlabel
    exact ⟨hlt, hlive, hlabel⟩
  · rintro ⟨hlt, hlive, hlabel⟩
    rw [← h] at hlive hlabel
    exact ⟨hlt, hlive, hlabel⟩

theorem Extends.isFile_iff (he : Extends fs fs' l i m) {j : Nat} : fs'.IsFile j ↔ fs.IsFile j ∨ j = i := by
  by_cases hj : j = i
  · subst hj
    exact iff_of_true he.isFile (.inr rfl)
  · rw [IsFile.congr (he.slots j hj)]
    exact ⟨.inl, fun h => h.resolve_right hj⟩

/-- The clusters of the new chain are among those of the table. -/
theorem Extends.mem_range (he : Extends fs fs' l i m) (h : Shared fs l) {d : Nat} (hd : d ∈ m) :
    2 ≤ d ∧ d < 256 * fs.bootTable.fatBlocks.toNat ∧ d < 0xFFF8 := by
  have hend := (he.chain.range d hd).2
  rcases he.fresh d hd with hfree | ⟨hi, hdi⟩
  · obtain ⟨h5, hlt, -⟩ := mem_freeBelow.mp hfree
    have := lt_of_lt_of_le hlt (Nat.min_le_left ..)
    omega
  · have hall := h.clusters.used_of_mem i hi d hdi
    exact ⟨hall.notReserved, hall.inTable, hend⟩

theorem Extends.allocated_iff (he : Extends fs fs' l i m) (h : Shared fs l) :
    fs'.Allocated c ↔ fs.Allocated c ∨ c ∈ m := by
  have hfat := fs.bootTable.fatBlocks.isLt
  by_cases hc : c ∈ m
  · obtain ⟨h2, hlt, -⟩ := he.mem_range h hc
    refine iff_of_true ⟨h2, ?_, he.chain.entry_ne_zero hc⟩ (.inr hc)
    rwa [he.bootTable]
  · constructor
    · rintro ⟨h2, hlt, hne⟩
      rw [he.bootTable] at hlt
      rw [he.table c (by omega) hc] at hne
      exact .inl ⟨h2, hlt, hne⟩
    · rintro (⟨h2, hlt, hne⟩ | hm)
      · rw [← he.table c (by omega) hc] at hne
        rw [← he.bootTable] at hlt
        exact ⟨h2, hlt, hne⟩
      · exact absurd hm hc

/-- The chains of the other files stay. -/
theorem Extends.other (he : Extends fs fs' l i m) (h : Shared fs l) {j : Nat} (hj : fs.IsFile j) (hji : j ≠ i) :
    fs'.IsChain (fs'.firstCluster j) (l j) := by
  have hfirst : fs'.firstCluster j = fs.firstCluster j := by rw [firstCluster, he.slots j hji, firstCluster]
  rw [hfirst]
  refine (h.chain j hj).1.congr fun d hd => he.table d ?_ fun hdm => ?_
  · have := ((h.chain j hj).1.range d hd).2
    omega
  · rcases he.fresh d hdm with hfree | ⟨hi, hdi⟩
    · exact not_allocated_of_free hfree (h.clusters.used_of_mem j hj d hd)
    · exact h.clusters.disjoint j i hj hi hji hd hdi

/-- The operation keeps the invariant if the file keeps its clusters. -/
theorem Shared.extend (h : Shared fs l) (he : Extends fs fs' l i m) (hi0 : i ≠ 0) (hkeep : fs.IsFile i → l i ⊆ m) :
    Shared fs' (Function.update l i m) := by
  have hroot := getRootDirectoryStartBlock_congr he.bootTable
  have h0 : 0 ∉ m := by
    intro hm
    have := (he.chain.range 0 hm).1
    omega
  refine ⟨h.layout.congr he.bootTable, ?_, ?_, ?_, fun j hj hlive => ?_, fun j hj => ?_, ?_⟩
  · rw [he.currentDirBlock, h.current, hroot]
  · rw [he.table 0 (by decide) h0]
    exact h.reserved
  · rw [he.slots 0 hi0.symm, h.label]
  · rw [he.isFile_iff]
    by_cases hji : j = i
    · exact .inr (.inr hji)
    · rw [he.slots j hji] at hlive
      exact (h.file j hj hlive).imp_right .inl
  · by_cases hji : j = i
    · subst hji
      rw [Function.update_self]
      exact ⟨he.chain, he.ne_nil⟩
    · rw [Function.update_of_ne hji]
      have hfile := (he.isFile_iff.mp hj).resolve_right hji
      exact ⟨he.other h hfile hji, (h.chain j hfile).2⟩
  · have hgrow := h.clusters.grow hkeep fun d hd => (he.fresh d hd).imp_left not_allocated_of_free
    exact hgrow.congr (fun c => he.allocated_iff h) (fun j => he.isFile_iff) fun _ _ => rfl

/-! ## The operations -/

section Operations
variable {filename : Bytes 8} {ext : Bytes 3} {data buf : List UInt8}

theorem Shared.create (h : Shared fs l) (hok : FileOk fs (.create filename ext data)) :
    ∃ i m fs', fs.createFile filename ext data = some (0, fs') ∧ Shared fs' (Function.update l i m) ∧
      fs'.IsFile i ∧ (∀ j < i, ¬ (fs.rootSlot j).isFree) ∧ m.length = max 1 ((data.length + 511) / 512) := by
  obtain ⟨hslot, hcard, hname⟩ := hok
  have hdir : InDirectory fs := .inl h.current
  have hcur : fs.currentDirBlock.toNat = fs.getRootDirectoryStartBlock.toNat := congrArg BitVec.toNat h.current
  obtain ⟨c, i, m, fs', hrun, hnew⟩ := createFile_eq filename ext h.layout hdir fs.tableBound_le
    (by rw [hcur]; exact hslot) hcard
  have hroot : fs'.getRootDirectoryStartBlock = fs.getRootDirectoryStartBlock :=
    getRootDirectoryStartBlock_congr hnew.bootTable
  obtain ⟨e, he⟩ : ∃ e, e = newEntry filename ext flagArchive (BitVec.ofNat 16 c) (BitVec.ofNat 32 data.length) :=
    ⟨_, rfl⟩
  have hentry : fs'.rootSlot i = e := by
    rw [rootSlot, hroot, ← hcur, hnew.slot, he]
  have hclt := (hnew.chain.range c hnew.head_mem).2
  have hfirst : fs'.firstCluster i = c := by
    rw [firstCluster, hentry, he]
    show (BitVec.ofNat 16 c).toNat = c
    rw [BitVec.toNat_ofNat, Nat.mod_eq_of_lt (by omega)]
  have hfree : (fs.rootSlot i).isFree := by
    have := hnew.slot_free
    rwa [hcur] at this
  have hi0 : i ≠ 0 := by
    rintro rfl
    rw [h.label] at hfree
    exact absurd hfree (by decide)
  have hfile : fs'.IsFile i := by
    refine ⟨hnew.slot_lt, ?_, ?_⟩
    · rw [hentry, he]
      exact hname
    · rw [hentry, he]
      show flagArchive &&& flagVolumeLabel = 0
      decide
  have hext : Extends fs fs' l i m := by
    refine ⟨hnew.bootTable, hnew.currentDirBlock, hfile, fun j hj => ?_, ?_, List.ne_nil_of_mem hnew.head_mem,
      hnew.table, fun d hd => .inl (hnew.fresh d hd)⟩
    · rw [rootSlot, rootSlot, hroot, ← hcur, hnew.others j hj]
    · rw [hfirst]
      exact hnew.chain
  refine ⟨i, m, fs', hrun, h.extend hext hi0 fun hi => absurd hfree hi.live, hfile, fun j hj => ?_, hnew.length⟩
  have := hnew.slot_first j hj
  rwa [hcur] at this

/-- Storing the entry `e` in slot `i`, or, where the boot table allows fewer entries, nothing. -/
structure Rewritten (fs fs' : Fat16) (i : Nat) (e : DirectoryEntry) : Prop where
  bootTable : fs'.bootTable = fs.bootTable
  currentDirBlock : fs'.currentDirBlock = fs.currentDirBlock
  table : ∀ d, fs'.getFatEntry d = fs.getFatEntry d
  slots : ∀ j, j ≠ i → fs'.rootSlot j = fs.rootSlot j
  slot : fs'.rootSlot i = fs.rootSlot i ∨ fs'.rootSlot i = e

theorem rewritten_syncDirectoryEntry (fs : Fat16) (e : DirectoryEntry) (hi : i < 16) :
    Rewritten fs (fs.syncDirectoryEntry fs.getRootDirectoryStartBlock i e).2 i e := by
  rw [syncDirectoryEntry]
  split
  · exact ⟨rfl, rfl, fun _ => rfl, fun _ _ => rfl, .inl rfl⟩
  · rw [Nat.mod_eq_of_lt hi]
    show Rewritten fs (fs.putEntry fs.getRootDirectoryStartBlock.toNat i e) i e
    exact ⟨rfl, rfl, fun _ => rfl, fun j hj => slot_putEntry_of_ne fs e (.inr hj), .inr (slot_putEntry_self ..)⟩

/-- The file whose entry gets another size. -/
theorem Rewritten.isFile {size : BitVec 32} (h : Rewritten fs fs' i { fs.rootSlot i with fileSize := size })
    (hi : fs.IsFile i) : fs'.IsFile i ∧ fs'.firstCluster i = fs.firstCluster i := by
  rcases h.slot with hs | hs
  · exact ⟨(IsFile.congr hs).mpr hi, congrArg (·.firstCluster.toNat) hs⟩
  · refine ⟨⟨hi.lt, ?_, ?_⟩, ?_⟩
    · rw [hs]
      exact hi.live
    · rw [hs]
      exact hi.notLabel
    · rw [firstCluster, hs, firstCluster]

/-- What writing to a file does, whatever the length: the file keeps its slot, and its chain is `m`. -/
theorem Shared.write_eq (h : Shared fs l) (hi : fs.IsFile i) (hbuf : buf ≠ [])
    (hfree : (buf.length + 511) / 512 ≤ (l i).length + (fs.freeBelow fs.tableBound).card) :
    ∃ m fs', fs.write fs.getRootDirectoryStartBlock i buf = some ((buf.length : Int), fs') ∧ Extends fs fs' l i m ∧
      m.length = (buf.length + 511) / 512 ∧ (l i <+: m ∨ m <+: l i) := by
  obtain ⟨hchain, hne⟩ := h.chain i hi
  have hlen := List.length_pos_of_ne_nil hbuf
  have hi0 := h.ne_zero hi
  obtain ⟨m, fs2, hrun, hw⟩ := writeData_eq h.layout hchain hne fs.tableBound_le (Nat.zero_le _) hbuf
    (by omega : (0 + buf.length + 511) / 512 ≤ _)
  have hroot : fs2.getRootDirectoryStartBlock = fs.getRootDirectoryStartBlock :=
    getRootDirectoryStartBlock_congr hw.bootTable
  have hslots : ∀ j, fs2.rootSlot j = fs.rootSlot j := by
    intro j
    rw [rootSlot, rootSlot, hroot]
    refine slot_congr (hw.disk _ (Nat.le_refl _) fun d hd => ?_) j
    exact (h.layout.root_lt_directoryBlock (hw.chain.range d hd)).ne
  have hi2 : fs2.IsFile i := (IsFile.congr (hslots i)).mpr hi
  have hfirst2 : fs2.firstCluster i = fs.firstCluster i := by rw [firstCluster, hslots, firstCluster]
  have hre := rewritten_syncDirectoryEntry fs2
    { fs2.rootSlot i with fileSize := BitVec.ofInt 32 (0 + (buf.length : Int)) } hi.lt
  obtain ⟨hi3, hfirst3⟩ := hre.isFile hi2
  have hlength := hw.length
  rw [Nat.zero_add] at hlength
  refine ⟨m, _, ?_, ⟨hre.bootTable.trans hw.bootTable, hre.currentDirBlock.trans hw.currentDirBlock, hi3,
    fun j hj => (hre.slots j hj).trans (hslots j), ?_, ?_, ?_, ?_⟩, hlength, hw.grows⟩
  · rw [write, readEntry, if_neg (Nat.not_le.mpr hi.lt), if_neg fun hroot0 => hi0 hroot0.2]
    show ((fs.writeData (fs.firstCluster i) 0 buf).map _) = _
    rw [hrun, Option.map_some, hslots, hroot]
    dsimp only
    rw [if_neg (by omega)]
    rfl
  · rw [hfirst3, hfirst2]
    exact hw.chain.congr fun d _ => hre.table d
  · refine List.ne_nil_of_length_pos ?_
    omega
  · exact fun d hd hdm => (hre.table d).trans (hw.table d hd hdm)
  · exact fun d hd => (hw.fresh d hd).symm.imp_right fun hdi => ⟨hi, hdi⟩

/-- A write that reaches the last cluster of the file. -/
theorem Shared.write (h : Shared fs l) (hi : fs.IsFile i) (hbuf : buf ≠ [])
    (hreach : (l i).length ≤ (buf.length + 511) / 512)
    (hfree : (buf.length + 511) / 512 ≤ (l i).length + (fs.freeBelow fs.tableBound).card) :
    ∃ m fs', fs.write fs.getRootDirectoryStartBlock i buf = some ((buf.length : Int), fs') ∧
      Shared fs' (Function.update l i m) := by
  obtain ⟨m, fs', hrun, hext, hlen, hgrows⟩ := h.write_eq hi hbuf hfree
  refine ⟨m, fs', hrun, h.extend hext (h.ne_zero hi) fun _ => ?_⟩
  rcases hgrows with hpre | hpre
  · exact hpre.subset
  · rw [hpre.eq_of_length (by have := hpre.length_le; omega)]
    exact List.Subset.refl _

/-- A write shorter, in clusters, than the file: the clusters behind those written stay allocated and are no
longer linked to the file. -/
theorem not_consistent_of_shorter (h : Shared fs l) (hext : Extends fs fs' l i m) (hi : fs.IsFile i)
    (hpre : m <+: l i) (hshort : m.length < (l i).length) : ¬ Consistent fs' := by
  intro hcon
  obtain ⟨q, hq⟩ := hpre
  have hnodup := (h.chain i hi).1.nodup
  rw [← hq] at hnodup hshort
  have hqne : q ≠ [] := by
    intro hnil
    rw [hnil, List.append_nil] at hshort
    omega
  obtain ⟨c, hcq⟩ := List.exists_mem_of_ne_nil q hqne
  have hcm : c ∉ m := fun hm => List.disjoint_of_nodup_append hnodup hm hcq
  have hci : c ∈ l i := hq ▸ List.mem_append_right _ hcq
  have hall : fs'.Allocated c := (hext.allocated_iff h).mpr (.inl (h.clusters.used_of_mem i hi c hci))
  obtain ⟨j, ⟨hj, p, hp, hcp⟩, -⟩ := hcon.owner c hall
  by_cases hji : j = i
  · subst hji
    rw [hp.unique hext.chain] at hcp
    exact hcm hcp
  · have hjfile := (hext.isFile_iff.mp hj).resolve_right hji
    rw [hp.unique (hext.other h hjfile hji)] at hcp
    exact h.clusters.disjoint j i hjfile hi hji hcp hci

/-- A freed cluster links to cluster 0, which then links to itself. -/
theorem freeClusters_eq_none (fuel : Nat) (hc : c ≠ 0xFFFF) : freeClusters fuel fs c = none := by
  induction fuel generalizing fs c with
  | zero => rfl
  | succ fuel ih =>
    rw [freeClusters, if_pos hc]
    dsimp only
    rw [freeCluster, getFatEntry_setFatEntry_self, ih (by decide), Option.map_none]

/-- Deleting a file does not return. -/
theorem Shared.deleteEntry_eq_none (h : Shared fs l) (hi : fs.IsFile i) (fuel : Nat) :
    fs.deleteEntry fuel fs.getRootDirectoryStartBlock i = none := by
  have hi0 := h.ne_zero hi
  obtain ⟨hchain, hne⟩ := h.chain i hi
  have hhead := (hchain.range _ (hchain.path.head hne)).2
  rw [deleteEntry, readEntry, if_neg (Nat.not_le.mpr hi.lt), if_neg fun hroot0 => hi0 hroot0.2]
  show (freeClusters fuel fs (fs.firstCluster i)).map _ = none
  rw [freeClusters_eq_none fuel (by omega), Option.map_none]

end Operations

/-! ## Runs -/

theorem Shared.step {op : FileOp} (h : Shared fs l) (hok : FileOk fs op) (hstep : FileStep fs op fs') :
    ∃ l', Shared fs' l' := by
  cases hstep with
  | @create _ filename ext data r hrun =>
    obtain ⟨i, m, fs2, hrun2, hshared, -⟩ := h.create hok
    obtain ⟨-, rfl⟩ : r = 0 ∧ fs' = fs2 := by simpa [hrun2, eq_comm] using hrun
    exact ⟨_, hshared⟩
  | @write _ i buf r hi hrun =>
    by_cases hbuf : buf = []
    · -- nothing is written
      have hnone : fs.write fs.getRootDirectoryStartBlock i buf = some (-4, fs) := by
        rw [Fat16.write, readEntry, if_neg (Nat.not_le.mpr hi.lt), if_neg fun hroot0 => h.ne_zero hi hroot0.2, hbuf]
        rfl
      obtain ⟨-, rfl⟩ : r = -4 ∧ fs' = fs := by simpa [hnone, eq_comm] using hrun
      exact ⟨l, h⟩
    · obtain ⟨hreach, hfree⟩ := hok.resolve_left hbuf (l i) (h.chain i hi).1
      obtain ⟨m, fs2, hrun2, hshared⟩ := h.write hi hbuf hreach hfree
      obtain ⟨-, rfl⟩ : r = (buf.length : Int) ∧ fs' = fs2 := by simpa [hrun2, eq_comm] using hrun
      exact ⟨_, hshared⟩
  | delete => exact hok.elim

section Format
variable {disk : Nat → Nat → UInt8} {behind : Nat → BitVec 16} {size : BitVec 32} {reserved : Int}

theorem format_shared (hfmt : format disk behind size reserved = some fs) (hlay : Layout fs) :
    Shared fs fun _ => [] := by
  obtain ⟨hcur, h0, hzero, hlabel, hslots⟩ := format_spec hfmt hlay
  have hfree : ∀ i, i ≠ 0 → (fs.rootSlot i).isFree := by
    intro i hi
    rw [hslots i hi]
    rfl
  have hno : ∀ i, ¬ fs.IsFile i := by
    intro i hi
    by_cases hi0 : i = 0
    · subst hi0
      have := hi.notLabel
      rw [hlabel] at this
      exact absurd this (by decide)
    · exact hi.live (hfree i hi0)
  refine ⟨hlay, hcur, ?_, hlabel, fun i _ hlive => .inl (by_contra fun hi => hlive (hfree i hi)),
    fun i hi => absurd hi (hno i), .empty (fun c hc => hc.marked (hzero c hc.notReserved hc.inTable)) hno⟩
  rw [h0]
  decide

end Format

/-- Every state of a run from a formatted disk, as long as no write is shorter than the file and nothing is deleted.
There, deleting a file would not return. -/
theorem fileRun_consistent (disk : Nat → Nat → UInt8) (behind : Nat → BitVec 16) (size : BitVec 32) (reserved : Int)
    (fs fs' : Fat16) (ops : List FileOp) (hfmt : format disk behind size reserved = some fs) (hlay : Layout fs)
    (hrun : Run FileStep FileOk fs ops fs') :
    Consistent fs' ∧
      ∀ i, fs'.IsFile i → ∀ fuel, fs'.deleteEntry fuel fs'.getRootDirectoryStartBlock i = none := by
  have hinv := hrun.invariant (P := fun s => ∃ l, Shared s l) (fun s op t ⟨l, hs⟩ hok hstep => hs.step hok hstep)
    ⟨_, format_shared hfmt hlay⟩
  obtain ⟨l, h⟩ := hinv
  exact ⟨h.consistent, fun i hi fuel => h.deleteEntry_eq_none hi fuel⟩

/-! ## A run on a small disk -/

def longTxt : Bytes 8 := ⟨ascii "LONG    ", by decide⟩

def txt : Bytes 3 := ⟨ascii "TXT", rfl⟩

/-- More than the bytes of a cluster. -/
def longData : List UInt8 := List.replicate 513 0x2A

theorem length_longData : (longData.length + 511) / 512 = 2 := by
  rw [longData, List.length_replicate]

/-- On a formatted disk of 513 sectors there is room for a file of two clusters. -/
theorem createOk_small (hfmt : format (fun _ _ => 0) (fun _ => 0) 513 1 = some fs) :
    Layout fs ∧ FileOk fs (.create longTxt txt longData) := by
  have hboot := bootTable_format hfmt
  have hlay : Layout fs := ⟨by rw [hboot]; decide, by rw [hboot]; decide⟩
  obtain ⟨-, -, hzero, -, hslots⟩ := format_spec hfmt hlay
  have hbound : 256 * fs.bootTable.fatBlocks.toNat = 512 := by
    rw [hboot]
    decide
  have hfree : ∀ c, 5 ≤ c → c < 512 → c ∈ fs.freeBelow fs.tableBound := fun c h5 hc =>
    mem_freeBelow.mpr ⟨h5, by rw [tableBound, hbound]; omega, hzero c (by omega) (by omega)⟩
  refine ⟨hlay, ⟨1, by decide, by rw [hslots 1 (by decide)]; rfl⟩, ?_, by decide⟩
  rw [length_longData]
  exact Finset.one_lt_card.mpr ⟨5, hfree 5 (by decide) (by decide), 6, hfree 6 (by decide) (by decide), by decide⟩

theorem fileRun_consistent_small : ∃ fs fs', format (fun _ _ => 0) (fun _ => 0) 513 1 = some fs ∧
    Run FileStep FileOk fs [.create longTxt txt longData] fs' ∧ Consistent fs' ∧
    ∀ i, fs'.IsFile i → ∀ fuel, fs'.deleteEntry fuel fs'.getRootDirectoryStartBlock i = none := by
  obtain ⟨fs, hfmt⟩ := format_small
  obtain ⟨hlay, hok⟩ := createOk_small hfmt
  obtain ⟨i, m, fs', hcreate, -⟩ := (format_shared hfmt hlay).create hok
  have hrun : Run FileStep FileOk fs [.create longTxt txt longData] fs' := .single hok (.create hcreate)
  exact ⟨fs, fs', hfmt, hrun, fileRun_consistent _ _ _ _ fs fs' _ hfmt hlay hrun⟩

/-- A file of two clusters is rewritten with one byte. -/
theorem shorter_write_leaks : ∃ fs fs', format (fun _ _ => 0) (fun _ => 0) 513 1 = some fs ∧
    AnyRun FileStep fs [.create longTxt txt longData, .write 1 [0x2A]] fs' ∧ ¬ Consistent fs' := by
  obtain ⟨fs, hfmt⟩ := format_small
  obtain ⟨hlay, hok⟩ := createOk_small hfmt
  obtain ⟨-, -, -, -, hslots⟩ := format_spec hfmt hlay
  obtain ⟨i, m, fs1, hcreate, hshared, hi, hfirst, hlen⟩ := (format_shared hfmt hlay).create hok
  obtain rfl : i = 1 := by
    have h0 := hshared.ne_zero hi
    by_contra h1
    exact hfirst 1 (by omega) (by rw [hslots 1 (by decide)]; rfl)
  have hm : (Function.update (fun _ => []) 1 m 1).length = 2 := by
    rw [Function.update_self, hlen, length_longData]
    rfl
  obtain ⟨m', fs2, hwrite, hext, hlen', hgrows⟩ := hshared.write_eq hi (List.cons_ne_nil 0x2A []) (by
    rw [hm]
    exact Nat.le_add_right_of_le (by decide))
  have hshort : m'.length = 1 := hlen'
  refine ⟨fs, fs2, hfmt, .cons trivial (.create hcreate) (.single trivial (.write hi hwrite)), ?_⟩
  refine not_consistent_of_shorter hshared hext hi (hgrows.resolve_left fun hpre => ?_) (by omega)
  have := hpre.length_le
  omega

end Fat16
end RetrOS.Fs
