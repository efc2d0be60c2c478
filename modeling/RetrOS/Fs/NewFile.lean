import RetrOS.Fs.Create
import RetrOS.Fs.Writer
import Mathlib.Data.Finset.Max

/-!
# FAT16: what creating a file does

* `getFreeCluster_of_isLeast`, `getFreeCluster_cases` : the search takes the least free cluster;
* `InDirectory` : the current directory is a directory;
* `exists_slot_addEntry`, `slot_addEntry_of_live` : the slots of a block to which an entry is added;
* `createFile_eq` : with room for the entry and the data, the file is created (`FileCreated`).
-/

namespace RetrOS.Fs
open RetrOS.Lib

namespace Fat16

variable {fs fs' : Fat16} {b c i B : Nat}

/-! ## The search for a cluster -/

theorem getFreeCluster_of_isLeast (h : IsLeast (fs.freeBelow B : Set Nat) c) (hB : B ≤ 65536) :
    fs.getFreeCluster = (c, fs.allocateCluster c) := by
  obtain ⟨h5, hlt, h0⟩ := mem_freeBelow.mp h.1
  refine getFreeCluster_of_free h5 (by omega) h0 fun j hj hjc hj0 => ?_
  have := h.2 (mem_freeBelow.mpr ⟨hj, by omega, hj0⟩ : j ∈ fs.freeBelow B)
  omega

theorem getFreeCluster_cases (fs : Fat16) :
    fs.freeBelow 65536 = ∅ ∧ fs.getFreeCluster = (4294967295, fs) ∨
      ∃ c, IsLeast (fs.freeBelow 65536 : Set Nat) c ∧ fs.getFreeCluster = (c, fs.allocateCluster c) := by
  rcases (fs.freeBelow 65536).eq_empty_or_nonempty with h | h
  · refine .inl ⟨h, getFreeCluster_of_full fun j h5 hj h0 => ?_⟩
    have := mem_freeBelow.mpr ⟨h5, hj, h0⟩
    rw [h] at this
    exact absurd this (Finset.notMem_empty j)
  · have hleast := (fs.freeBelow 65536).isLeast_min' h
    exact .inr ⟨_, hleast, getFreeCluster_of_isLeast hleast (Nat.le_refl _)⟩

/-! ## The current directory -/

/-- The current directory is the root directory or the block of an allocated cluster. -/
def InDirectory (fs : Fat16) : Prop :=
  fs.currentDirBlock = fs.getRootDirectoryStartBlock ∨
    ∃ d, 0 < d ∧ d < 65536 ∧ fs.getFatEntry d ≠ 0 ∧ fs.currentDirBlock.toNat = fs.getDataStartBlock.toNat + d

theorem InDirectory.root_le (h : InDirectory fs) (hlay : Layout fs) :
    fs.getRootDirectoryStartBlock.toNat ≤ fs.currentDirBlock.toNat := by
  have hpos := hlay.reserved
  rcases h with h | ⟨d, hd, -, -, h⟩
  · rw [h]
  · rw [h, hlay.root_toNat, hlay.data_toNat]
    omega

/-- The block of a free cluster is not the current directory. -/
theorem InDirectory.ne_of_free (h : InDirectory fs) (hlay : Layout fs) (hB : B ≤ 0xFFF8) (hc : c ∈ fs.freeBelow B) :
    fs.currentDirBlock.toNat ≠ fs.directoryBlock c := by
  obtain ⟨h5, hlt, h0⟩ := mem_freeBelow.mp hc
  rcases h with h | ⟨d, hd0, hd, hne, h⟩
  · rw [h]
    exact (hlay.root_lt_directoryBlock ⟨by omega, by omega⟩).ne
  · rw [h, directoryBlock_of_pos fs (by omega) (by omega)]
    intro heq
    rw [show d = c by omega] at hne
    exact hne h0

theorem Layout.slot_syncFatTable (hlay : Layout fs) (hb : fs.getRootDirectoryStartBlock.toNat ≤ b) :
    fs.syncFatTable.slot b i = fs.slot b i :=
  slot_congr (hlay.disk_syncFatTable hb) i

/-- Adding an entry leaves the slots that are in use. -/
theorem slot_addEntry_of_live (block : BitVec 16) (name : Bytes 8) (ext : Bytes 3) (attr : UInt8)
    (cluster : BitVec 16) (size : BitVec 32) (h : ¬ (fs.slot b i).isFree) :
    (fs.addEntry block name ext attr cluster size).2.slot b i = fs.slot b i := by
  cases hslot : freeSlot (fs.readBlock block.toNat) with
  | none => rw [addEntry_none _ _ _ _ _ hslot]
  | some k =>
    rw [addEntry_some _ _ _ _ _ hslot]
    refine slot_putEntry_of_ne fs _ (or_iff_not_imp_left.mpr fun hb hik => ?_)
    rw [not_not] at hb
    rw [hb, hik] at h
    exact h (freeSlot_eq_some.mp hslot).2.1

/-- Where there is a free slot the entry is stored in the first one. -/
theorem exists_addEntry {block : BitVec 16} (name : Bytes 8) (ext : Bytes 3) (attr : UInt8) (cluster : BitVec 16)
    (size : BitVec 32) (h : ∃ i < 16, (fs.slot block.toNat i).isFree) :
    ∃ i < 16, (fs.slot block.toNat i).isFree ∧ (∀ j < i, ¬ (fs.slot block.toNat j).isFree) ∧
      (fs.addEntry block name ext attr cluster size).2 =
        fs.putEntry block.toNat i (newEntry name ext attr cluster size) := by
  cases hslot : freeSlot (fs.readBlock block.toNat) with
  | none =>
    obtain ⟨i, hi, hfree⟩ := h
    exact absurd hfree (freeSlot_eq_none.mp hslot i hi)
  | some i =>
    obtain ⟨hi, hfree, hfirst⟩ := freeSlot_eq_some.mp hslot
    exact ⟨i, hi, hfree, hfirst, by rw [addEntry_some _ _ _ _ _ hslot]⟩

/-! ## Creating a file -/

section File
variable {filename : Bytes 8} {ext : Bytes 3} {data : List UInt8}

theorem createFile_of_full (h : fs.getFreeCluster = (4294967295, fs)) :
    fs.createFile filename ext data = some (-1, fs) := by
  rw [createFile, h]
  exact if_pos (by decide)

theorem createFile_of_free (h : fs.getFreeCluster = (c, fs.allocateCluster c)) (hc : c < 65536) :
    fs.createFile filename ext data =
      (if data ≠ [] then ((fs.allocateCluster c).writeData c 0 data).map (·.2) else some (fs.allocateCluster c)).map
        fun fs => (0, (fs.addEntry fs.currentDirBlock filename ext flagArchive (BitVec.ofNat 16 c)
          (BitVec.ofNat 32 data.length)).2.syncFatTable) := by
  rw [createFile, h]
  dsimp only
  rw [if_neg (by omega), BitVec.toNat_ofNat, Nat.mod_eq_of_lt hc]

/-- What the writer leaves for data of `n` bytes: the cluster `c` is the head of a chain of clusters that were
free, and no other entry of the table changed. -/
structure NewChain (fs fs' : Fat16) (c n : Nat) (l : List Nat) (B : Nat) : Prop where
  bootTable : fs'.bootTable = fs.bootTable
  currentDirBlock : fs'.currentDirBlock = fs.currentDirBlock
  chain : IsChain fs' c l
  length : l.length = max 1 ((n + 511) / 512)
  fresh : ∀ d ∈ l, d ∈ fs.freeBelow B
  table : ∀ d < 2 ^ 31, d ∉ l → fs'.getFatEntry d = fs.getFatEntry d

theorem NewChain.head_mem {n : Nat} {l : List Nat} (h : NewChain fs fs' c n l B) : c ∈ l := by
  refine h.chain.path.head fun hl => ?_
  have := h.length
  rw [hl, List.length_nil] at this
  omega

/-- Writing the data to the new cluster and those taken behind it. -/
theorem exists_newChain (hlay : Layout fs) (hB : B ≤ 0xFFF8) (hc : c ∈ fs.freeBelow B)
    (hcard : (data.length + 511) / 512 ≤ (fs.freeBelow B).card) :
    ∃ fs' l, (if data ≠ [] then ((fs.allocateCluster c).writeData c 0 data).map (·.2)
        else some (fs.allocateCluster c)) = some fs' ∧ NewChain fs fs' c data.length l B ∧
      ∀ b, fs.getRootDirectoryStartBlock.toNat ≤ b → (∀ d ∈ l, b ≠ fs.directoryBlock d) →
        fs'.disk b = fs.disk b := by
  obtain ⟨h5, hlt, -⟩ := mem_freeBelow.mp hc
  have hend : (fs.allocateCluster c).getFatEntry c = 0xFFFF := getFatEntry_setFatEntry_self ..
  have hsame : ∀ d < 2 ^ 31, d ≠ c → (fs.allocateCluster c).getFatEntry d = fs.getFatEntry d := fun d hd hdc =>
    getFatEntry_setFatEntry_of_ne fs _ (by omega) hd hdc
  have hchain : IsChain (fs.allocateCluster c) c [c] :=
    ⟨⟨rfl, congrArg BitVec.toNat hend⟩, fun d hd => by rw [List.mem_singleton.mp hd]; omega⟩
  by_cases hdata : data = []
  · refine ⟨fs.allocateCluster c, [c], if_neg (not_not.mpr hdata), ⟨rfl, rfl, hchain, ?_, ?_, ?_⟩, fun _ _ _ => rfl⟩
    · rw [hdata]
      rfl
    · exact fun d hd => List.mem_singleton.mp hd ▸ hc
    · exact fun d hd hdc => hsame d hd fun heq => hdc (List.mem_singleton.mpr heq)
  have hlen := List.length_pos_of_ne_nil hdata
  have hfree : (fs.allocateCluster c).freeBelow B = (fs.freeBelow B).erase c :=
    freeBelow_setFatEntry (by omega) (by omega) (by decide)
  have hpos := Finset.card_pos.mpr ⟨c, hc⟩
  have hlay1 : Layout (fs.allocateCluster c) := hlay.congr rfl
  obtain ⟨l, fs', hrun, hw⟩ := writeData_eq hlay1 hchain (List.cons_ne_nil _ _) hB (Nat.zero_le _) hdata (by
    rw [hfree, Finset.card_erase_of_mem hc, List.length_singleton]
    omega)
  have hlength : l.length = (data.length + 511) / 512 := by rw [hw.length, Nat.zero_add]
  have hcl : c ∈ l := hw.chain.path.head fun hl => by
    rw [hl, List.length_nil] at hlength
    omega
  refine ⟨fs', l, ?_, ⟨hw.bootTable, hw.currentDirBlock, hw.chain, by omega, fun d hd => ?_, fun d hd hdl => ?_⟩,
    hw.disk⟩
  · rw [if_pos hdata, hrun]
    rfl
  · rcases hw.fresh d hd with hm | hm
    · rwa [List.mem_singleton.mp hm]
    · rw [hfree] at hm
      exact Finset.mem_of_mem_erase hm
  · rw [hw.table d hd hdl]
    exact hsame d hd fun heq => hdl (heq ▸ hcl)

/-- The file was created: the entry `e` is in the first free slot `i`, its chain is new, and the other slots are as
they were. -/
structure FileCreated (fs fs' : Fat16) (i c n : Nat) (e : DirectoryEntry) (l : List Nat) (B : Nat) : Prop extends
    NewChain fs fs' c n l B where
  slot_lt : i < 16
  slot_free : (fs.slot fs.currentDirBlock.toNat i).isFree
  slot_first : ∀ j < i, ¬ (fs.slot fs.currentDirBlock.toNat j).isFree
  slot : fs'.slot fs.currentDirBlock.toNat i = e
  others : ∀ j, j ≠ i → fs'.slot fs.currentDirBlock.toNat j = fs.slot fs.currentDirBlock.toNat j

theorem createFile_eq (filename : Bytes 8) (ext : Bytes 3) (hlay : Layout fs) (hdir : InDirectory fs)
    (hB : B ≤ 0xFFF8) (hslot : ∃ i < 16, (fs.slot fs.currentDirBlock.toNat i).isFree)
    (hcard : max 1 ((data.length + 511) / 512) ≤ (fs.freeBelow B).card) :
    ∃ c i l fs', fs.createFile filename ext data = some (0, fs') ∧ FileCreated fs fs' i c data.length
      (newEntry filename ext flagArchive (BitVec.ofNat 16 c) (BitVec.ofNat 32 data.length)) l B := by
  have hleast := (fs.freeBelow B).isLeast_min' (Finset.card_pos.mp (by omega))
  obtain ⟨c, hc⟩ : ∃ c, c = (fs.freeBelow B).min' (Finset.card_pos.mp (by omega)) := ⟨_, rfl⟩
  rw [← hc] at hleast
  obtain ⟨-, hlt, -⟩ := mem_freeBelow.mp hleast.1
  obtain ⟨fs2, l, hwritten, hnew, hdisk⟩ :=
    exists_newChain hlay hB hleast.1 (show (data.length + 511) / 512 ≤ _ by omega)
  have hcur : fs2.disk fs.currentDirBlock.toNat = fs.disk fs.currentDirBlock.toNat :=
    hdisk _ (hdir.root_le hlay) fun d hd => hdir.ne_of_free hlay hB (hnew.fresh d hd)
  have hslots : ∀ j, fs2.slot fs.currentDirBlock.toNat j = fs.slot fs.currentDirBlock.toNat j := slot_congr hcur
  have hslot2 : ∃ i < 16, (fs2.slot fs.currentDirBlock.toNat i).isFree := by
    simp only [hslots]
    exact hslot
  obtain ⟨i, hi, hfree, hfirst, hadd⟩ := exists_addEntry filename ext flagArchive (BitVec.ofNat 16 c)
    (BitVec.ofNat 32 data.length) hslot2
  obtain ⟨e, he⟩ : ∃ e, e = newEntry filename ext flagArchive (BitVec.ofNat 16 c) (BitVec.ofNat 32 data.length) :=
    ⟨_, rfl⟩
  rw [← he] at hadd
  have hsync : ∀ j, (fs2.putEntry fs.currentDirBlock.toNat i e).syncFatTable.slot fs.currentDirBlock.toNat j =
      (fs2.putEntry fs.currentDirBlock.toNat i e).slot fs.currentDirBlock.toNat j := by
    intro j
    have hboot : (fs2.putEntry fs.currentDirBlock.toNat i e).bootTable = fs.bootTable := hnew.bootTable
    refine (hlay.congr hboot).slot_syncFatTable ?_
    rw [getRootDirectoryStartBlock_congr hboot]
    exact hdir.root_le hlay
  refine ⟨c, i, l, (fs2.putEntry fs.currentDirBlock.toNat i e).syncFatTable, ?_, ?_⟩
  · rw [createFile_of_free (getFreeCluster_of_isLeast hleast (by omega)) (by omega), hwritten, Option.map_some,
      hnew.currentDirBlock, hadd]
  rw [← he]
  refine ⟨⟨hnew.bootTable, hnew.currentDirBlock, hnew.chain.congr fun _ _ => rfl, hnew.length, hnew.fresh,
    hnew.table⟩, hi, ?_, fun j hj => ?_, ?_, fun j hj => ?_⟩
  · rwa [hslots] at hfree
  · have := hfirst j hj
    rwa [hslots] at this
  · rw [hsync, slot_putEntry_self]
  · rw [hsync, slot_putEntry_of_ne _ _ (.inr hj), hslots]

end File

end Fat16
end RetrOS.Fs
