import RetrOS.Fs.Remove
import RetrOS.Fs.StreamLaw

/-!
# A new file with content

* `Accepts` : new files can be created in the current directory, as far as the volume goes;
* `newEmpty` : the volume after an empty file was created, `createEmptyFile_eq`;
* `Stored` : a file that a write to new clusters, or to the current directory, does not touch;
* `Added` : a file with content was created, and nothing else has changed. `exists_added` : this is what creating it
  and one write do.
-/

namespace RetrOS.Fs
open RetrOS.Lib

namespace Fat16

/-- The current directory takes files: where it is the root directory, its first slot, which the driver does not read,
is in use. -/
structure Accepts (fs : Fat16) : Prop where
  layout : Layout fs
  directory : InDirectory fs
  nonneg : fs.currentDirBlock.slt 0 = false
  slots : 16 ≤ fs.bootTable.rootDirEntries.toNat
  label : fs.currentDirBlock = fs.getRootDirectoryStartBlock → ¬ (fs.slot fs.currentDirBlock.toNat 0).isFree

/-- The file holds these bytes, and the current directory is in none of its clusters. -/
def Stored (fs : Fat16) (directory : BitVec 16) (identifier : Nat) (data : List UInt8) : Prop :=
  ∃ entry l, FileAt fs directory identifier entry l ∧ ¬ entry.isFree ∧
    (∀ c ∈ l, fs.currentDirBlock.toNat ≠ fs.directoryBlock c) ∧
    (fs.contents l).take entry.fileSize.toNat = data

/-- The entry of an empty file. -/
def emptyEntry (n : ShortName) (c : Nat) : DirectoryEntry :=
  newEntry n.name8 n.extension3 flagArchive (BitVec.ofNat 16 c) 0

/-- The volume after an empty file was created in slot `i`, with the cluster `c`. -/
def newEmpty (fs : Fat16) (n : ShortName) (c i : Nat) : Fat16 :=
  ((fs.allocateCluster c).putEntry fs.currentDirBlock.toNat i (emptyEntry n c)).syncFatTable

/-- The free slots of the current directory. -/
def freeSlots (fs : Fat16) : Finset Nat :=
  (Finset.range 16).filter fun j => (fs.slot fs.currentDirBlock.toNat j).isFree

/-- The file `n` with these bytes is in slot `i`, which was free. No other slot has changed, no other file, and no more
clusters were taken than the bytes need. -/
structure Added (fs fs' : Fat16) (n : ShortName) (i : Nat) (buf : List UInt8) : Prop where
  bootTable : fs'.bootTable = fs.bootTable
  currentDirBlock : fs'.currentDirBlock = fs.currentDirBlock
  free : i ∈ fs.freeSlots
  used : ¬ (fs'.slot fs.currentDirBlock.toNat i).isFree
  others : ∀ j ≠ i, fs'.slot fs.currentDirBlock.toNat j = fs.slot fs.currentDirBlock.toNat j
  found : fs'.findInDirectory fs.currentDirBlock.toNat n.str = some i
  names : ∀ m : ShortName, toUpper m.str ≠ toUpper n.str →
    fs'.findInDirectory fs.currentDirBlock.toNat m.str = fs.findInDirectory fs.currentDirBlock.toNat m.str
  stored : fs'.Stored fs.currentDirBlock i buf
  kept : ∀ directory identifier data, fs.Stored directory identifier data → fs'.Stored directory identifier data
  links : ∀ c < 65536, fs.getFatEntry c ≠ 0 → fs'.getFatEntry c ≠ 0
  room : (fs.freeBelow fs.clusterBound).card ≤ (fs'.freeBelow fs.clusterBound).card + (buf.length + 511) / 512

section
variable {fs fs' : Fat16} {n : ShortName} {c i j : Nat} {buf data : List UInt8} {directory : BitVec 16}
  {identifier : Nat}

theorem Stored.holds (h : Stored fs directory identifier data) : Holds fs directory identifier data := by
  obtain ⟨entry, l, hfile, -, -, hdata⟩ := h
  exact ⟨entry, l, hfile, hdata⟩

theorem mem_freeSlots : i ∈ fs.freeSlots ↔ i < 16 ∧ (fs.slot fs.currentDirBlock.toNat i).isFree := by
  rw [freeSlots, Finset.mem_filter, Finset.mem_range]

theorem isFree_emptyEntry (n : ShortName) (c : Nat) : ¬ (emptyEntry n c).isFree := fun h =>
  n.field_ne_of_isFree h rfl

/-! ## Creating the empty file -/

/-- The search takes the least free cluster and the first free slot. -/
theorem createEmptyFile_eq (hleast : IsLeast (fs.freeBelow fs.clusterBound : Set Nat) c)
    (hslot : freeSlot (fs.readBlock fs.currentDirBlock.toNat) = some i) :
    fs.createEmptyFile n.str = some (0, fs.newEmpty n c i) := by
  have hbound := fs.clusterBound_le
  have hlt := (mem_freeBelow.mp hleast.1).2.1
  have hget := getFreeCluster_of_isLeast hleast (by omega)
  have hslot' : freeSlot ((fs.allocateCluster c).readBlock fs.currentDirBlock.toNat) = some i := hslot
  rw [createEmptyFile_str, createFile_nil, hget]
  dsimp only
  rw [if_neg (by omega), addEntry_some _ _ _ _ _ hslot']
  rfl

@[simp] theorem bootTable_newEmpty : (fs.newEmpty n c i).bootTable = fs.bootTable := rfl

@[simp] theorem currentDirBlock_newEmpty : (fs.newEmpty n c i).currentDirBlock = fs.currentDirBlock := rfl

theorem getFatEntry_newEmpty_self : (fs.newEmpty n c i).getFatEntry c = 0xFFFF :=
  getFatEntry_setFatEntry_self ..

theorem getFatEntry_newEmpty_of_ne {d : Nat} (hc : c < 2 ^ 31) (hd : d < 2 ^ 31) (h : d ≠ c) :
    (fs.newEmpty n c i).getFatEntry d = fs.getFatEntry d :=
  getFatEntry_setFatEntry_of_ne _ _ hc hd h

theorem freeBelow_newEmpty {B : Nat} (hB : B ≤ 65536) (hc : c < 65536) :
    (fs.newEmpty n c i).freeBelow B = (fs.freeBelow B).erase c :=
  freeBelow_setFatEntry hB hc (by decide)

theorem disk_newEmpty_of_ne {b : Nat} (hlay : Layout fs) (hb : fs.getRootDirectoryStartBlock.toNat ≤ b)
    (hne : b ≠ fs.currentDirBlock.toNat) : (fs.newEmpty n c i).disk b = fs.disk b := by
  have hlay' : Layout ((fs.allocateCluster c).putEntry fs.currentDirBlock.toNat i (emptyEntry n c)) := hlay.congr rfl
  rw [newEmpty, hlay'.disk_syncFatTable hb, disk_putEntry_of_ne _ _ _ hne]
  rfl

theorem slot_newEmpty (hlay : Layout fs) {b : Nat} (hb : fs.getRootDirectoryStartBlock.toNat ≤ b) :
    (fs.newEmpty n c i).slot b j = (fs.putEntry fs.currentDirBlock.toNat i (emptyEntry n c)).slot b j := by
  have hlay' : Layout ((fs.allocateCluster c).putEntry fs.currentDirBlock.toNat i (emptyEntry n c)) := hlay.congr rfl
  rw [newEmpty, hlay'.slot_syncFatTable hb]
  exact slot_congr (congrFun (disk_putEntry_congr rfl) _) j

theorem Accepts.root_le (h : Accepts fs) : fs.getRootDirectoryStartBlock.toNat ≤ fs.currentDirBlock.toNat :=
  h.directory.root_le h.layout

/-- A free slot is one that the driver reads. -/
theorem Accepts.ne_root (h : Accepts fs) (hi : i ∈ fs.freeSlots) :
    ¬ (fs.currentDirBlock.toNat = fs.getRootDirectoryStartBlock.toNat ∧ i = 0) := by
  rintro ⟨hroot, rfl⟩
  exact h.label (BitVec.eq_of_toNat_eq hroot) (mem_freeSlots.mp hi).2

theorem Accepts.readEntry_newEmpty (h : Accepts fs) (hi : i ∈ fs.freeSlots) :
    (fs.newEmpty n c i).readEntry fs.currentDirBlock.toNat i = some (emptyEntry n c) := by
  have hslot : (fs.newEmpty n c i).slot fs.currentDirBlock.toNat i = emptyEntry n c := by
    rw [slot_newEmpty h.layout h.root_le, slot_putEntry_self]
  rw [← hslot]
  exact readEntry_of_slot (mem_freeSlots.mp hi).1 (h.ne_root hi)

/-- The empty file has one cluster. -/
theorem Accepts.fileAt_newEmpty (h : Accepts fs) (hc : c ∈ fs.freeBelow fs.clusterBound) (hi : i ∈ fs.freeSlots) :
    FileAt (fs.newEmpty n c i) fs.currentDirBlock i (emptyEntry n c) [c] := by
  have hbound := fs.clusterBound_le
  obtain ⟨h5, hlt, h0⟩ := mem_freeBelow.mp hc
  have hfirst : (emptyEntry n c).firstCluster.toNat = c := by
    show (BitVec.ofNat 16 c).toNat = c
    rw [BitVec.toNat_ofNat, Nat.mod_eq_of_lt (by omega)]
  have hfile : ¬(emptyEntry n c).isDirectory := show ¬(flagArchive &&& flagSubdirectory != 0) = true from by decide
  refine ⟨h.layout.congr rfl, h.readEntry_newEmpty hi, ?_, hfile, ?_, List.cons_ne_nil _ _, fun d hd => ?_,
    Nat.zero_le _, ?_⟩
  · exact (mem_freeSlots.mp hi).1.trans_le h.slots
  · rw [hfirst]
    refine ⟨⟨rfl, congrArg BitVec.toNat getFatEntry_newEmpty_self⟩, fun d hd => ?_⟩
    rw [List.mem_singleton.mp hd]
    omega
  · rw [List.mem_singleton.mp hd]
    have : fs.clusterBound ≤ 65536 - fs.getDataStartBlock.toNat := Nat.min_le_right ..
    show fs.getDataStartBlock.toNat + c < 65536
    omega
  · rcases h.directory with hroot | ⟨d, hd0, hd, hne, hcur⟩
    · exact .inl hroot
    · have hdc : d ≠ c := by
        rintro rfl
        exact hne h0
      refine .inr ⟨d, hd0, hd, ?_, fun hm => hdc (List.mem_singleton.mp hm), hcur⟩
      rw [getFatEntry_newEmpty_of_ne (by omega) (by omega) hdc]
      exact hne

/-! ## Writing to it -/

theorem Accepts.notMem_of_stored {entry : DirectoryEntry} {l : List Nat}
    (hfile : FileAt fs directory identifier entry l) (hc : c ∈ fs.freeBelow fs.clusterBound) : c ∉ l := fun hm =>
  hfile.chain.entry_ne_zero hm (mem_freeBelow.mp hc).2.2

/-- The empty file does not touch a stored one. -/
theorem Accepts.fileAt_other (h : Accepts fs) (hc : c ∈ fs.freeBelow fs.clusterBound) (hi : i ∈ fs.freeSlots)
    {entry : DirectoryEntry} {l : List Nat} (hfile : FileAt fs directory identifier entry l) (hlive : ¬ entry.isFree)
    (hcur : ∀ d ∈ l, fs.currentDirBlock.toNat ≠ fs.directoryBlock d) :
    FileAt (fs.newEmpty n c i) directory identifier entry l ∧ (fs.newEmpty n c i).contents l = fs.contents l ∧
      ¬ (directory = fs.currentDirBlock ∧ identifier = i) := by
  have hbound := fs.clusterBound_le
  obtain ⟨h5, hlt, h0⟩ := mem_freeBelow.mp hc
  have hplace : ¬ (directory = fs.currentDirBlock ∧ identifier = i) := by
    rintro ⟨rfl, rfl⟩
    have hread := readEntry_of_slot hfile.index_lt hfile.ne_root
    rw [hfile.read] at hread
    exact hlive (Option.some.inj hread ▸ (mem_freeSlots.mp hi).2)
  have hslot : directory.toNat ≠ fs.currentDirBlock.toNat ∨ identifier ≠ i := by
    by_contra hno
    rw [not_or, not_not, not_not] at hno
    exact hplace ⟨BitVec.eq_of_toNat_eq hno.1, hno.2⟩
  refine ⟨hfile.congr rfl ?_ (fun d hd => ?_) fun d hd hused => ?_, ?_, hplace⟩
  · rw [slot_newEmpty h.layout hfile.root_le, slot_putEntry_of_ne _ _ hslot]
  · have hrange := hfile.chain.range d hd
    have hdc : d ≠ c := fun heq => Accepts.notMem_of_stored hfile hc (heq ▸ hd)
    exact getFatEntry_newEmpty_of_ne (by omega) (by omega) hdc
  · have hdc : d ≠ c := by
      rintro rfl
      exact hused h0
    rw [getFatEntry_newEmpty_of_ne (by omega) (by omega) hdc]
    exact hused
  · refine contents_congr rfl fun d hd => disk_newEmpty_of_ne h.layout ?_ (hcur d hd).symm
    exact (h.layout.root_lt_directoryBlock (hfile.chain.range d hd)).le

/-- Names are looked up in the slots. -/
theorem sameFor_of_slots {b : Nat} {e : DirectoryEntry} (hboot : fs'.bootTable = fs.bootTable)
    (hslot : fs'.slot b i = e) (hothers : ∀ j ≠ i, fs'.slot b j = fs.slot b j) (m : ShortName) :
    SameFor m (fs.putEntry b i e) fs' b := by
  refine ⟨hboot, fun j _ => .inl ?_⟩
  by_cases hj : j = i
  · rw [hj, slot_putEntry_self, hslot]
  · rw [slot_putEntry_of_ne _ _ (.inr hj), hothers j hj]

/-- With the entry of a new name in a free slot this name is found there, and the other names are found where they
were. -/
theorem Accepts.names_eq (h : Accepts fs) (hi : i ∈ fs.freeSlots) {e : DirectoryEntry} (he : e.fullName = n.field)
    (hroot : e ≠ rootDirectory) (hnone : fs.findInDirectory fs.currentDirBlock.toNat n.str = none)
    (hboot : fs'.bootTable = fs.bootTable) (hslot : fs'.slot fs.currentDirBlock.toNat i = e)
    (hothers : ∀ j ≠ i, fs'.slot fs.currentDirBlock.toNat j = fs.slot fs.currentDirBlock.toNat j) :
    fs'.findInDirectory fs.currentDirBlock.toNat n.str = some i ∧
      ∀ m : ShortName, toUpper m.str ≠ toUpper n.str →
        fs'.findInDirectory fs.currentDirBlock.toNat m.str = fs.findInDirectory fs.currentDirBlock.toNat m.str := by
  obtain ⟨hi16, hfree⟩ := mem_freeSlots.mp hi
  have hsame := sameFor_of_slots hboot hslot hothers
  constructor
  · rw [(hsame n).findInDirectory]
    refine ((found_putEntry_iff hi16 hroot).mpr ⟨he, fun j hj => ?_, h.ne_root hi⟩).1
    exact findInDirectory_eq_none.mp hnone j (by omega)
  · intro m hm
    have hne : e.fullName ≠ m.field := fun heq => hm (ShortName.field_eq_iff.mp (heq.symm.trans he))
    exact ((SameFor.putEntry (m.field_ne_of_isFree hfree) hne).trans (hsame m)).findInDirectory

theorem ne_rootDirectory {e : DirectoryEntry} (h : e.attributes = flagArchive) : e ≠ rootDirectory := by
  rintro rfl
  exact absurd h (show flagSubdirectory ≠ flagArchive by decide)

/-- The name finds the empty file. -/
theorem Accepts.found_newEmpty (h : Accepts fs) (hi : i ∈ fs.freeSlots)
    (hnone : fs.findInDirectory fs.currentDirBlock.toNat n.str = none) :
    (fs.newEmpty n c i).findInDirectory fs.currentDirBlock.toNat n.str = some i := by
  have hslot : (fs.newEmpty n c i).slot fs.currentDirBlock.toNat i = emptyEntry n c := by
    rw [slot_newEmpty h.layout h.root_le, slot_putEntry_self]
  refine (h.names_eq hi rfl (ne_rootDirectory rfl) hnone bootTable_newEmpty hslot fun j hj => ?_).1
  rw [slot_newEmpty h.layout h.root_le, slot_putEntry_of_ne _ _ (.inr hj)]

/-- The clusters of the file were free. -/
theorem mem_of_wrote {m : List Nat} {first d : Nat} (hc : c ∈ fs.freeBelow fs.clusterBound)
    (hw : Wrote (fs.newEmpty n c i) fs' first 0 buf [c] m fs.clusterBound) (hd : d ∈ m) :
    d ∈ fs.freeBelow fs.clusterBound := by
  have hbound := fs.clusterBound_le
  have hlt := (mem_freeBelow.mp hc).2.1
  rcases hw.fresh d hd with hm | hm
  · rwa [List.mem_singleton.mp hm]
  · rw [freeBelow_newEmpty (by omega) (by omega)] at hm
    exact Finset.mem_of_mem_erase hm

/-- A write to the empty file takes no more clusters than the bytes need. -/
theorem card_le_of_wrote {m : List Nat} {first : Nat} (hc : c ∈ fs.freeBelow fs.clusterBound)
    (hw : Wrote (fs.newEmpty n c i) fs' first 0 buf [c] m fs.clusterBound) (hpos : 0 < buf.length) :
    (fs.freeBelow fs.clusterBound).card ≤ (fs'.freeBelow fs.clusterBound).card + (buf.length + 511) / 512 := by
  have hbound := fs.clusterBound_le
  have hlen := hw.length
  rw [Nat.zero_add] at hlen
  obtain ⟨h5, hlt, h0⟩ := mem_freeBelow.mp hc
  have hhead : c ∈ m := by
    have hne : m ≠ [] := List.ne_nil_of_length_pos (by omega)
    rcases hw.grows with hpre | hpre
    · exact hpre.subset (List.mem_singleton_self c)
    · obtain ⟨d, hd⟩ := List.exists_mem_of_ne_nil m hne
      obtain rfl := List.mem_singleton.mp (hpre.subset hd)
      exact hd
  have hsub : fs.freeBelow fs.clusterBound \ m.toFinset ⊆ fs'.freeBelow fs.clusterBound := by
    intro d hd
    rw [Finset.mem_sdiff, List.mem_toFinset] at hd
    obtain ⟨d5, dlt, d0⟩ := mem_freeBelow.mp hd.1
    have hdc : d ≠ c := fun heq => hd.2 (heq ▸ hhead)
    refine mem_freeBelow.mpr ⟨d5, dlt, ?_⟩
    rw [hw.table d (by omega) hd.2, getFatEntry_newEmpty_of_ne (by omega) (by omega) hdc, d0]
  have hcard := Finset.card_le_card hsub
  have hsdiff := Finset.le_card_sdiff m.toFinset (fs.freeBelow fs.clusterBound)
  have hm := m.toFinset_card_le
  omega

/-- Creating an empty file and writing the bytes to it adds the file. -/
theorem Accepts.exists_added (h : Accepts fs)
    (hnone : fs.findInDirectory fs.currentDirBlock.toNat n.str = none) (hslots : fs.freeSlots.Nonempty)
    (hbuf : buf ≠ []) (hroom : (buf.length + 511) / 512 ≤ (fs.freeBelow fs.clusterBound).card) :
    ∃ fs1 fs2 i, fs.createEmptyFile n.str = some (0, fs1) ∧ fs1.currentDirBlock = fs.currentDirBlock ∧
      fs1.findInDirectory fs.currentDirBlock.toNat n.str = some i ∧
      fs1.write fs.currentDirBlock i buf = some ((buf.length : Int), fs2) ∧ Added fs fs2 n i buf := by
  have hpos := List.length_pos_of_ne_nil hbuf
  have hbound := fs.clusterBound_le
  have hleast := (fs.freeBelow fs.clusterBound).isLeast_min' (Finset.card_pos.mp (by omega))
  obtain ⟨c, hmin⟩ : ∃ c, c = (fs.freeBelow fs.clusterBound).min' (Finset.card_pos.mp (by omega)) := ⟨_, rfl⟩
  rw [← hmin] at hleast
  have hc : c ∈ fs.freeBelow fs.clusterBound := hleast.1
  obtain ⟨h5, hlt, h0⟩ := mem_freeBelow.mp hc
  obtain ⟨i, hslot⟩ : ∃ i, freeSlot (fs.readBlock fs.currentDirBlock.toNat) = some i := by
    obtain ⟨j, hj⟩ := hslots
    obtain ⟨hj16, hfree⟩ := mem_freeSlots.mp hj
    exact Option.ne_none_iff_exists'.mp fun hno => freeSlot_eq_none.mp hno j hj16 hfree
  have hi : i ∈ fs.freeSlots := by
    obtain ⟨hi16, hfree, -⟩ := freeSlot_eq_some.mp hslot
    exact mem_freeSlots.mpr ⟨hi16, hfree⟩
  have hfile := h.fileAt_newEmpty (n := n) hc hi
  obtain ⟨m, fs2, hrun, hw⟩ := hfile.write_run hbuf (by
    show _ ≤ 1 + ((fs.newEmpty n c i).freeBelow fs.clusterBound).card
    rw [freeBelow_newEmpty (by omega) (by omega), Finset.card_erase_of_mem hc]
    omega)
  obtain ⟨hwrote, hdata⟩ := hfile.wrote hbuf hw
  have hne (d : Nat) (hd : d ∈ m) : fs.currentDirBlock.toNat ≠ fs.directoryBlock d :=
    h.directory.ne_of_free h.layout hbound (mem_of_wrote hc hw hd)
  have hboot : (fs2.putEntry fs.currentDirBlock.toNat i (sized (emptyEntry n c) buf)).bootTable = fs.bootTable :=
    hw.bootTable
  have hself := slot_putEntry_self fs2 (sized (emptyEntry n c) buf) fs.currentDirBlock.toNat i
  have hothers (j : Nat) (hj : j ≠ i) : (fs2.putEntry fs.currentDirBlock.toNat i (sized (emptyEntry n c) buf)).slot
      fs.currentDirBlock.toNat j = fs.slot fs.currentDirBlock.toNat j := by
    rw [slot_putEntry_of_ne _ _ (.inr hj), slot_congr (hw.disk _ h.root_le hne), slot_newEmpty h.layout h.root_le,
      slot_putEntry_of_ne _ _ (.inr hj)]
  obtain ⟨hfound, hnames⟩ := h.names_eq (n := n) hi rfl (ne_rootDirectory rfl) hnone hboot hself hothers
  have hcard := card_le_of_wrote hc hw hpos
  refine ⟨fs.newEmpty n c i, _, i, createEmptyFile_eq hleast hslot, rfl, h.found_newEmpty hi hnone, hrun,
    ⟨hboot, hw.currentDirBlock, hi, ?_, hothers, hfound, hnames, ?_, ?_, ?_, hcard⟩⟩
  · rw [hself]
    exact isFree_emptyEntry n c
  · refine ⟨_, m, hwrote, isFree_emptyEntry n c, fun d hd => ?_, hdata⟩
    rw [currentDirBlock_putEntry, hw.currentDirBlock, directoryBlock_congr hboot]
    exact hne d hd
  · rintro directory identifier data ⟨entry, l, hold, hlive, hcur, hcontents⟩
    obtain ⟨hold1, hcontents1, hplace⟩ := h.fileAt_other (n := n) hc hi hold hlive hcur
    have hdisjoint : [c].Disjoint l := by
      rw [List.singleton_disjoint]
      exact Accepts.notMem_of_stored hold hc
    have hdir (d : Nat) (hd : d ∈ [c]) : directory.toNat ≠ (fs.newEmpty n c i).directoryBlock d := by
      rw [List.mem_singleton.mp hd]
      exact hold.ne_directory ⟨by omega, by omega⟩ (.inr h0)
    obtain ⟨hold2, hcontents2⟩ := hfile.wrote_other hw hold1 hplace hdisjoint hdir hcur
    refine ⟨entry, l, hold2, hlive, fun d hd => ?_, ?_⟩
    · rw [currentDirBlock_putEntry, hw.currentDirBlock, directoryBlock_congr hboot]
      exact hcur d hd
    · rw [hcontents2, hcontents1, hcontents]
  · intro d hd hused
    have hdc : d ≠ c := by
      rintro rfl
      exact hused h0
    rw [getFatEntry_putEntry]
    by_cases hm : d ∈ m
    · exact hw.chain.entry_ne_zero hm
    · rw [hw.table d (by omega) hm, getFatEntry_newEmpty_of_ne (by omega) (by omega) hdc]
      exact hused

theorem clusterBound_congr (h : fs'.bootTable = fs.bootTable) : fs'.clusterBound = fs.clusterBound := by
  rw [clusterBound, getDataStartBlock_congr h, clusterBound]

theorem Added.accepts (h : Accepts fs) (ha : Added fs fs' n i buf) : Accepts fs' := by
  have hroot := getRootDirectoryStartBlock_congr ha.bootTable
  refine ⟨h.layout.congr ha.bootTable, ?_, ?_, ?_, fun hcur => ?_⟩
  · rcases h.directory with hcur | ⟨d, hd0, hd, hne, hcur⟩
    · refine .inl ?_
      rw [ha.currentDirBlock, hroot]
      exact hcur
    · refine .inr ⟨d, hd0, hd, ha.links d hd hne, ?_⟩
      rw [ha.currentDirBlock, getDataStartBlock_congr ha.bootTable]
      exact hcur
  · rw [ha.currentDirBlock]
    exact h.nonneg
  · rw [ha.bootTable]
    exact h.slots
  · rw [ha.currentDirBlock] at hcur ⊢
    by_cases hi : 0 = i
    · rw [hi]
      exact ha.used
    · rw [ha.others 0 hi]
      exact h.label (hcur.trans hroot)

theorem Added.freeSlots_eq (ha : Added fs fs' n i buf) : fs'.freeSlots = fs.freeSlots.erase i := by
  refine Finset.ext fun j => ?_
  rw [Finset.mem_erase, mem_freeSlots, mem_freeSlots, ha.currentDirBlock]
  by_cases hj : j = i
  · rw [hj]
    exact iff_of_false (fun h => ha.used h.2) fun h => h.1 rfl
  · rw [ha.others j hj]
    exact (and_iff_right hj).symm

/-! ## A list of files -/

/-- The clusters that a list of files needs. -/
def clustersFor (files : List (ShortName × List UInt8)) : Nat := (files.map fun f => (f.2.length + 511) / 512).sum

/-- The files of the list were added, one after the other, and nothing else has changed. -/
structure AddedAll (fs fs' : Fat16) (files : List (ShortName × List UInt8)) : Prop where
  currentDirBlock : fs'.currentDirBlock = fs.currentDirBlock
  stored : ∀ f ∈ files, ∃ i, fs'.findInDirectory fs.currentDirBlock.toNat f.1.str = some i ∧
    fs'.Stored fs.currentDirBlock i f.2
  only : ∀ j, fs'.slot fs.currentDirBlock.toNat j = fs.slot fs.currentDirBlock.toNat j ∨
    ∃ f ∈ files, fs'.findInDirectory fs.currentDirBlock.toNat f.1.str = some j
  names : ∀ m : ShortName, (∀ f ∈ files, toUpper m.str ≠ toUpper f.1.str) →
    fs'.findInDirectory fs.currentDirBlock.toNat m.str = fs.findInDirectory fs.currentDirBlock.toNat m.str
  kept : ∀ directory identifier data, fs.Stored directory identifier data → fs'.Stored directory identifier data

theorem AddedAll.nil (fs : Fat16) : AddedAll fs fs [] :=
  ⟨rfl, fun _ hf => absurd hf List.not_mem_nil, fun _ => .inl rfl, fun _ _ => rfl, fun _ _ _ h => h⟩

theorem AddedAll.cons {fs1 : Fat16} {files : List (ShortName × List UInt8)} (ha : Added fs fs1 n i buf)
    (h : AddedAll fs1 fs' files) (hnew : ∀ f ∈ files, toUpper n.str ≠ toUpper f.1.str) :
    AddedAll fs fs' ((n, buf) :: files) := by
  obtain ⟨hcur, hstored, honly, hnames, hkept⟩ := h
  rw [ha.currentDirBlock] at hcur hstored honly hnames
  have hfound : fs'.findInDirectory fs.currentDirBlock.toNat n.str = some i := by rw [hnames n hnew, ha.found]
  refine ⟨hcur, fun f hf => ?_, fun j => ?_, fun m hm => ?_, fun directory identifier data hold =>
    hkept _ _ _ (ha.kept _ _ _ hold)⟩
  · rcases List.mem_cons.mp hf with rfl | hf
    · exact ⟨i, hfound, hkept _ _ _ ha.stored⟩
    · exact hstored f hf
  · by_cases hj : j = i
    · exact .inr ⟨(n, buf), List.mem_cons_self .., hj ▸ hfound⟩
    · rcases honly j with hsame | ⟨f, hf, hfind⟩
      · exact .inl (hsame.trans (ha.others j hj))
      · exact .inr ⟨f, List.mem_cons_of_mem _ hf, hfind⟩
  · rw [hnames m fun f hf => hm f (List.mem_cons_of_mem _ hf)]
    exact ha.names m (hm (n, buf) (List.mem_cons_self ..))

end

end Fat16

namespace FileTable
open Fat16

/-! ## Through the table of open files -/

/-- The flags of an open for a new file. -/
def newFileFlags : BitVec 32 := fsFileFlagCreate ||| fsFileFlagWrite.setWidth 32

variable {s t : FileTable} {j : FileSlot} {n : ShortName} {fs1 fs2 : Fat16} {i : Nat} {buf : List UInt8} {ret : Int}

/-- A slot whose flags are 0 is there to be taken. -/
theorem exists_fsAllocFile (h : ∃ j, (s.fsFileTable j).flags = 0) : ∃ j, s.fsAllocFile = some j := by
  obtain ⟨j, hj⟩ := h
  refine Option.ne_none_iff_exists'.mp fun hnone => ?_
  unfold fsAllocFile at hnone
  rw [Fin.find?_eq_none_iff] at hnone
  exact Bool.false_ne_true ((hnone j).symm.trans (beq_iff_eq.mpr hj))

theorem length_str (n : ShortName) : n.str.length ≤ 12 := by
  have hbase := n.base_le
  have hext := n.extension_le
  rw [ShortName.str, List.length_append]
  split
  · rw [List.length_nil]
    omega
  · rw [List.length_cons]
    omega

/-- An open creates the file, and takes the first slot for it. -/
theorem fsOpen_create (hnone : s.fat16.findInDirectory s.fat16.currentDirBlock.toNat n.str = none)
    (hcreate : s.fat16.createEmptyFile n.str = some (0, fs1))
    (hfind : fs1.findInDirectory fs1.currentDirBlock.toNat n.str = some i) (hnonneg : fs1.currentDirBlock.slt 0 = false)
    (halloc : s.fsAllocFile = some j) :
    s.fsOpen n.str newFileFlags =
      some (fsFile2fd j, FileTable.setFile { s with fat16 := fs1 } j (openedFile fs1 n.str newFileFlags)) := by
  obtain ⟨htok, hhead⟩ := tokens_str n
  have hlen := length_str n
  have hfits : TokenFits n.str := by
    unfold TokenFits dropSlash
    rw [if_neg hhead]
    omega
  have hmissing : s.Missing n.str := (missing_one htok hhead).mpr (.inl hnone)
  have hthere : ¬ FileTable.Missing { s with fat16 := fs1 } n.str := by
    rw [missing_one htok hhead, not_or]
    exact ⟨by rw [hfind]; exact Option.some_ne_none i, by rw [hnonneg]; exact Bool.false_ne_true⟩
  have hopen : s.fat16Open n.str newFileFlags =
      some (FileTable.openFound { s with fat16 := fs1 } n.str newFileFlags) := by
    unfold fat16Open
    rw [if_neg (by omega), if_neg (not_not_intro hfits), if_pos hmissing, if_pos (by decide), if_neg hhead, hcreate,
      Option.map_some]
    dsimp only
    rw [if_neg hthere]
  have hslot : FileTable.fsAllocFile { s with fat16 := fs1 } = some j := halloc
  rw [fsOpen, hopen, openFound_eq, hslot]
  rfl

/-- A write to it goes to its entry. -/
theorem fsWrite_opened (hfind : fs1.findInDirectory fs1.currentDirBlock.toNat n.str = some i)
    (hnonneg : fs1.currentDirBlock.slt 0 = false) (hfile : t.fsFileTable j = openedFile fs1 n.str newFileFlags)
    (hfs : t.fat16 = fs1) (hwrite : fs1.write fs1.currentDirBlock i buf = some (ret, fs2)) (hret : 0 ≤ ret) :
    t.fsWrite (fsFile2fd j) buf = some (ret, { t with fat16 := fs2 }) := by
  obtain ⟨htok, hhead⟩ := tokens_str n
  have hget := fs1.getDirectoryEntry_one htok hhead
  rw [hfind] at hget
  have hindex := (findInDirectory_eq_some.mp hfind).1
  have hdirectory : (t.fsFileTable j).directory.setWidth 16 = fs1.currentDirBlock := by
    rw [hfile, openedFile, hget]
    refine BitVec.eq_of_toNat_eq ?_
    rw [BitVec.toNat_setWidth, toNat_signExtend_of_nonneg hnonneg]
    exact Nat.mod_eq_of_lt fs1.currentDirBlock.isLt
  have hidentifier : (t.fsFileTable j).identifier.toNat = i := by
    have hpos : ∀ k < 16, (BitVec.ofNat 16 k).slt 0 = false := by decide
    rw [hfile, openedFile, hget]
    dsimp only
    rw [toNat_signExtend_of_nonneg (hpos i hindex), BitVec.toNat_ofNat, Nat.mod_eq_of_lt (by omega)]
  have hflags : (t.fsFileTable j).flags &&& fsFileFlagWrite ≠ 0 := by
    rw [hfile]
    exact show newFileFlags.setWidth 8 &&& fsFileFlagWrite ≠ 0 by decide
  have hlinks : (t.fsFileTable j).nlinks ≠ 0 := by
    rw [hfile]
    exact show (1 : BitVec 32) ≠ 0 by decide
  unfold fsWrite fat16Write
  rw [slotOf_fsFile2fd]
  dsimp only
  rw [if_neg hflags, if_neg hlinks, if_neg hflags, hdirectory, hidentifier, hfs, hwrite, Option.map_some,
    Option.map_some]
  dsimp only
  rw [if_neg (by omega)]

/-- Opening a new name, writing to the file and closing it adds the file. -/
theorem exists_fsAdded (h : Accepts s.fat16)
    (hnone : s.fat16.findInDirectory s.fat16.currentDirBlock.toNat n.str = none) (hslots : s.fat16.freeSlots.Nonempty)
    (hbuf : buf ≠ []) (hroom : (buf.length + 511) / 512 ≤ (s.fat16.freeBelow s.fat16.clusterBound).card)
    (hfree : ∃ j, (s.fsFileTable j).flags = 0) :
    ∃ j t u i, s.fsOpen n.str newFileFlags = some (fsFile2fd j, t) ∧
      t.fsWrite (fsFile2fd j) buf = some ((buf.length : Int), u) ∧
      Added s.fat16 (u.fsClose (fsFile2fd j)).2.fat16 n i buf ∧
      ∀ k, ((u.fsClose (fsFile2fd j)).2.fsFileTable k).flags = (s.fsFileTable k).flags := by
  obtain ⟨fs1, fs2, i, hcreate, hcur, hfind, hwrite, hadded⟩ := h.exists_added hnone hslots hbuf hroom
  obtain ⟨j, halloc⟩ := exists_fsAllocFile hfree
  have hnonneg : fs1.currentDirBlock.slt 0 = false := by
    rw [hcur]
    exact h.nonneg
  rw [← hcur] at hfind hwrite
  have hopened : Opened ⟨fs2, s.fsFileTable⟩
      ⟨fs2, (FileTable.setFile { s with fat16 := fs1 } j (openedFile fs1 n.str newFileFlags)).fsFileTable⟩ j
      newFileFlags :=
    ⟨rfl, halloc, fun _ hk => setFile_of_ne _ hk, by rw [setFile_self]; rfl, by rw [setFile_self]; rfl⟩
  have hclose := hopened.close (by decide)
  refine ⟨j, _, _, i, fsOpen_create hnone hcreate hfind hnonneg halloc,
    fsWrite_opened hfind hnonneg (setFile_self ..) rfl hwrite (Int.natCast_nonneg _), ?_, hclose.used⟩
  rw [show (FileTable.fsClose _ _).2.fat16 = fs2 from hclose.fat16]
  exact hadded

end FileTable

end RetrOS.Fs
