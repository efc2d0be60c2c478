import RetrOS.Fs.FileTable
import RetrOS.Fs.ReadBack

/-!
# What an open file holds

* `FileAt` : the entry of a file, in whatever directory it is, and the clusters of the file;
* `Holds` : the bytes of the file. `Holds.unique` : they are determined by the disk and the table;
* `FileAt.readData_eq` : what a read of any size at any offset returns;
* `FileAt.write_eq` : after a write the file holds what was written, and nothing else.
-/

namespace RetrOS.Fs

namespace Fat16

/-- The entry at a place of a directory is the one of a file with the clusters `l`. The directory is the root directory
or has a cluster of its own. -/
structure FileAt (fs : Fat16) (directory : BitVec 16) (identifier : Nat) (entry : DirectoryEntry) (l : List Nat) :
    Prop where
  layout : Layout fs
  read : fs.readEntry directory.toNat identifier = some entry
  inTable : identifier < fs.bootTable.rootDirEntries.toNat
  file : ¬entry.isDirectory
  chain : IsChain fs entry.firstCluster.toNat l
  nonempty : l ≠ []
  addressable : fs.Addressable l
  size : entry.fileSize.toNat ≤ 512 * l.length
  apart : directory = fs.getRootDirectoryStartBlock ∨
    ∃ c, 0 < c ∧ c < 65536 ∧ fs.getFatEntry c ≠ 0 ∧ c ∉ l ∧ directory.toNat = fs.getDataStartBlock.toNat + c

/-- The file holds these bytes. -/
def Holds (fs : Fat16) (directory : BitVec 16) (identifier : Nat) (data : List UInt8) : Prop :=
  ∃ entry l, FileAt fs directory identifier entry l ∧ (fs.contents l).take entry.fileSize.toNat = data

/-- The clusters of the file and the free ones are enough for the buffer. -/
def Room (fs : Fat16) (directory : BitVec 16) (identifier : Nat) (buf : List UInt8) : Prop :=
  ∀ entry l, FileAt fs directory identifier entry l →
    (buf.length + 511) / 512 ≤ l.length + (fs.freeBelow fs.clusterBound).card

section
variable {fs fs' : Fat16} {directory : BitVec 16} {identifier : Nat} {entry : DirectoryEntry} {l l' : List Nat}
  {data data' buf : List UInt8}

theorem FileAt.unique (h : FileAt fs directory identifier entry l) {entry' : DirectoryEntry}
    (h' : FileAt fs directory identifier entry' l') : entry = entry' ∧ l = l' := by
  obtain rfl : entry = entry' := Option.some.inj (h.read.symm.trans h'.read)
  exact ⟨rfl, h.chain.unique h'.chain⟩

theorem Holds.unique (h : Holds fs directory identifier data) (h' : Holds fs directory identifier data') :
    data = data' := by
  obtain ⟨entry, l, hfile, rfl⟩ := h
  obtain ⟨entry', l', hfile', rfl⟩ := h'
  obtain ⟨rfl, rfl⟩ := hfile.unique hfile'
  rfl

theorem FileAt.length_eq (h : FileAt fs directory identifier entry l)
    (hdata : (fs.contents l).take entry.fileSize.toNat = data) : data.length = entry.fileSize.toNat := by
  have := h.size
  rw [← hdata, List.length_take, length_contents]
  omega

theorem Holds.length_lt (h : Holds fs directory identifier data) : data.length < 2 ^ 25 := by
  obtain ⟨entry, l, hfile, hdata⟩ := h
  have := hfile.length_eq hdata
  have := hfile.size
  have := hfile.chain.length_le
  omega

/-! ## Reads -/

/-- A read beyond the end is one up to the end. -/
theorem readData_clip {first off n max : Nat} (hoff : off ≤ max) (h32 : off + n < 2 ^ 32) :
    fs.readData first off n max = fs.readData first off (min n (max - off)) max := by
  obtain ⟨k, hk⟩ : ∃ k, k = min n (max - off) := ⟨_, rfl⟩
  have hleft : (if (off + n) % 2 ^ 32 > max then max - off else n) = k := by
    rw [Nat.mod_eq_of_lt h32]
    split <;> omega
  have hleft' : (if (off + k) % 2 ^ 32 > max then max - off else k) = k := by
    rw [Nat.mod_eq_of_lt (by omega)]
    split <;> omega
  unfold readData
  rw [← hk]
  simp only [hleft, hleft']

/-- A read of `n` bytes at `off` returns what there is of them. -/
theorem FileAt.readData_eq (h : FileAt fs directory identifier entry l)
    (hdata : (fs.contents l).take entry.fileSize.toNat = data) {off n : Nat} (hoff : off ≤ data.length)
    (h32 : off + n < 2 ^ 32) : fs.readData entry.firstCluster.toNat off n entry.fileSize.toNat =
      (((min n (data.length - off) : Nat) : Int), (data.drop off).take n) := by
  have hlen := h.length_eq hdata
  have hsize := h.size
  obtain ⟨k, hk⟩ : ∃ k, k = min n (data.length - off) := ⟨_, rfl⟩
  have hshort := @readData_clip fs entry.firstCluster.toNat _ _ _ (hlen ▸ hoff) h32
  rw [← hlen, ← hk] at hshort
  have hbytes : ((fs.contents l).drop off).take k = (data.drop off).take n := by
    rw [← hdata, List.drop_take, List.take_take]
    congr 1
    omega
  rw [← hk, ← hlen, hshort, ← hbytes]
  rcases Nat.eq_zero_or_pos k with rfl | hpos
  · unfold readData
    rw [if_neg (by omega), Nat.mod_eq_of_lt (by omega), if_neg (show ¬off + 0 > data.length by omega)]
    rfl
  · exact Fat16.readData_eq h.chain h.addressable (by omega) (by omega) (by omega) hpos

theorem FileAt.readData_beyond (h : FileAt fs directory identifier entry l)
    (hdata : (fs.contents l).take entry.fileSize.toNat = data) {off n : Nat} (hoff : data.length < off) :
    fs.readData entry.firstCluster.toNat off n entry.fileSize.toNat = (-1, []) := by
  rw [h.length_eq hdata] at hoff
  exact if_pos hoff

/-! ## Writes -/

/-- The blocks of the file's clusters are not the block of its directory. -/
theorem FileAt.ne_directory (h : FileAt fs directory identifier entry l) {c : Nat} (hc : 2 ≤ c ∧ c < 0xFFF8)
    (hl : c ∈ l ∨ fs.getFatEntry c = 0) : directory.toNat ≠ fs.directoryBlock c := by
  rcases h.apart with hroot | ⟨d, hd0, hd, hne, hdl, hd'⟩
  · rw [hroot]
    exact (h.layout.root_lt_directoryBlock hc).ne
  · rw [hd', directoryBlock_of_pos fs (by omega) (by omega)]
    intro heq
    obtain rfl : d = c := by omega
    exact hl.elim hdl hne

theorem FileAt.index_lt (h : FileAt fs directory identifier entry l) : identifier < 16 := by
  by_contra hge
  have hread := h.read
  rw [readEntry, if_pos (Nat.not_lt.mp hge)] at hread
  cases hread

theorem FileAt.ne_root (h : FileAt fs directory identifier entry l) :
    ¬(directory.toNat = fs.getRootDirectoryStartBlock.toNat ∧ identifier = 0) := by
  intro hroot
  have hread := h.read
  rw [readEntry, if_neg (Nat.not_le.mpr h.index_lt), if_pos hroot] at hread
  exact h.file (Option.some.inj hread ▸ by decide)

/-- The entry with the size of what was written. -/
def sized (entry : DirectoryEntry) (buf : List UInt8) : DirectoryEntry :=
  { entry with fileSize := BitVec.ofInt 32 (0 + (buf.length : Int)) }

/-- A write goes to the clusters of the file and to free ones, and then to the entry. -/
theorem FileAt.write_run (h : FileAt fs directory identifier entry l) (hbuf : buf ≠ [])
    (hroom : (buf.length + 511) / 512 ≤ l.length + (fs.freeBelow fs.clusterBound).card) :
    ∃ m fs2, fs.write directory identifier buf =
        some ((buf.length : Int), fs2.putEntry directory.toNat identifier (sized entry buf)) ∧
      Wrote fs fs2 entry.firstCluster.toNat 0 buf l m fs.clusterBound := by
  obtain ⟨m, fs2, hrun, hw⟩ := writeData_eq h.layout h.chain h.nonempty fs.clusterBound_le (Nat.zero_le _) hbuf
    (by rw [Nat.zero_add]; exact hroom)
  refine ⟨m, fs2, ?_, hw⟩
  unfold write
  rw [h.read]
  dsimp only
  rw [hrun, Option.map_some]
  dsimp only
  rw [if_neg (by omega), syncDirectoryEntry, hw.bootTable, if_neg (by have := h.inTable; omega),
    Nat.mod_eq_of_lt h.index_lt]
  rfl

/-- The file after a write. -/
theorem FileAt.wrote {m : List Nat} {fs2 : Fat16} (h : FileAt fs directory identifier entry l) (hbuf : buf ≠ [])
    (hw : Wrote fs fs2 entry.firstCluster.toNat 0 buf l m fs.clusterBound) :
    FileAt (fs2.putEntry directory.toNat identifier (sized entry buf)) directory identifier (sized entry buf) m ∧
      ((fs2.putEntry directory.toNat identifier (sized entry buf)).contents m).take (sized entry buf).fileSize.toNat =
        buf := by
  have hlen := List.length_pos_of_ne_nil hbuf
  have hm := hw.length
  rw [Nat.zero_add] at hm
  have hmax := hw.chain.length_le
  have hmem (c : Nat) (hc : c ∈ m) : c ∈ l ∨ fs.getFatEntry c = 0 :=
    (hw.fresh c hc).imp_right fun hfree => (mem_freeBelow.mp hfree).2.2
  have hne (c : Nat) (hc : c ∈ m) : directory.toNat ≠ fs.directoryBlock c :=
    h.ne_directory (hw.chain.range c hc) (hmem c hc)
  have hsize : (sized entry buf).fileSize.toNat = buf.length := by
    rw [sized, Int.zero_add, BitVec.ofInt_natCast, BitVec.toNat_ofNat]
    exact Nat.mod_eq_of_lt (by omega)
  have hboot : (fs2.putEntry directory.toNat identifier (sized entry buf)).bootTable = fs.bootTable := hw.bootTable
  refine ⟨⟨?_, ?_, ?_, h.file, ?_, ?_, ?_, ?_, ?_⟩, ?_⟩
  · exact h.layout.congr hboot
  · rw [readEntry, if_neg (Nat.not_le.mpr h.index_lt), getRootDirectoryStartBlock_congr hboot,
      if_neg h.ne_root, slot_putEntry_self]
  · rw [bootTable_putEntry, hw.bootTable]
    exact h.inTable
  · exact hw.chain.congr fun _ _ => rfl
  · exact List.ne_nil_of_length_pos (by omega)
  · intro c hc
    rw [getDataStartBlock_congr hboot]
    have := hw.addressable h.addressable c hc
    rwa [getDataStartBlock_congr hw.bootTable] at this
  · omega
  · rcases h.apart with hroot | ⟨c, hc0, hc, hcne, hcl, hd⟩
    · exact .inl (hroot.trans (getRootDirectoryStartBlock_congr hboot).symm)
    · have hcm : c ∉ m := fun hcm => (hmem c hcm).elim hcl hcne
      refine .inr ⟨c, hc0, hc, ?_, hcm, ?_⟩
      · rw [getFatEntry_putEntry, hw.table c (by omega) hcm]
        exact hcne
      · rw [getDataStartBlock_congr hboot]
        exact hd
  · have hcontents : (fs2.putEntry directory.toNat identifier (sized entry buf)).contents m = fs2.contents m := by
      refine contents_congr rfl fun c hc => disk_putEntry_of_ne _ _ _ ?_
      rw [directoryBlock_congr hw.bootTable]
      exact (hne c hc).symm
    rw [hsize, hcontents]
    exact hw.data

/-- After a write the file holds what was written. -/
theorem FileAt.write_eq (h : FileAt fs directory identifier entry l) (hbuf : buf ≠ [])
    (hroom : (buf.length + 511) / 512 ≤ l.length + (fs.freeBelow fs.clusterBound).card) :
    ∃ fs', fs.write directory identifier buf = some ((buf.length : Int), fs') ∧
      Holds fs' directory identifier buf := by
  obtain ⟨m, fs2, hrun, hw⟩ := h.write_run hbuf hroom
  obtain ⟨hfile, hdata⟩ := h.wrote hbuf hw
  exact ⟨_, hrun, sized entry buf, m, hfile, hdata⟩

theorem FileAt.root_le (h : FileAt fs directory identifier entry l) :
    fs.getRootDirectoryStartBlock.toNat ≤ directory.toNat := by
  have hpos := h.layout.reserved
  rcases h.apart with hroot | ⟨c, hc0, -, -, -, hc⟩
  · rw [hroot]
  · rw [hc, h.layout.root_toNat, h.layout.data_toNat]
    omega

theorem readEntry_congr {b j : Nat} (hboot : fs'.bootTable = fs.bootTable) (hslot : fs'.slot b j = fs.slot b j) :
    fs'.readEntry b j = fs.readEntry b j := by
  unfold readEntry
  rw [hslot, getRootDirectoryStartBlock_congr hboot]

/-- A file whose entry and links have not changed. -/
theorem FileAt.congr (h : FileAt fs directory identifier entry l) (hboot : fs'.bootTable = fs.bootTable)
    (hslot : fs'.slot directory.toNat identifier = fs.slot directory.toNat identifier)
    (hlinks : ∀ c ∈ l, fs'.getFatEntry c = fs.getFatEntry c)
    (hused : ∀ c < 65536, fs.getFatEntry c ≠ 0 → fs'.getFatEntry c ≠ 0) :
    FileAt fs' directory identifier entry l := by
  refine ⟨h.layout.congr hboot, ?_, ?_, h.file, h.chain.congr hlinks, h.nonempty, ?_, h.size, ?_⟩
  · rw [readEntry_congr hboot hslot]
    exact h.read
  · rw [hboot]
    exact h.inTable
  · intro c hc
    rw [getDataStartBlock_congr hboot]
    exact h.addressable c hc
  · rcases h.apart with hroot | ⟨c, hc0, hc, hne, hcl, hd⟩
    · exact .inl (hroot.trans (getRootDirectoryStartBlock_congr hboot).symm)
    · refine .inr ⟨c, hc0, hc, hused c hc hne, hcl, ?_⟩
      rw [getDataStartBlock_congr hboot]
      exact hd

/-- A write leaves a file that has no cluster in common with the one written, and no cluster with its directory. -/
theorem FileAt.wrote_other {m : List Nat} {fs2 : Fat16} (h : FileAt fs directory identifier entry l)
    (hw : Wrote fs fs2 entry.firstCluster.toNat 0 buf l m fs.clusterBound) {directory' : BitVec 16}
    {identifier' : Nat} {entry' : DirectoryEntry} (h' : FileAt fs directory' identifier' entry' l')
    (hne : ¬(directory' = directory ∧ identifier' = identifier)) (hdisjoint : l.Disjoint l')
    (hdir : ∀ c ∈ l, directory'.toNat ≠ fs.directoryBlock c) (hcur : ∀ c ∈ l', directory.toNat ≠ fs.directoryBlock c) :
    FileAt (fs2.putEntry directory.toNat identifier (sized entry buf)) directory' identifier' entry' l' ∧
      (fs2.putEntry directory.toNat identifier (sized entry buf)).contents l' = fs.contents l' := by
  have hdis := hw.disjoint h'.chain hdisjoint
  have hkeep := (hw.other h.layout h'.chain hdisjoint).2
  have hblock (c : Nat) (hc : c ∈ m) : directory'.toNat ≠ fs.directoryBlock c := by
    rcases hw.fresh c hc with hl | hfree
    · exact hdir c hl
    · exact h'.ne_directory (hw.chain.range c hc) (.inr (mem_freeBelow.mp hfree).2.2)
  have hplace : directory'.toNat ≠ directory.toNat ∨ identifier' ≠ identifier := by
    by_contra hno
    rw [not_or, not_not, not_not] at hno
    exact hne ⟨BitVec.eq_of_toNat_eq hno.1, hno.2⟩
  refine ⟨h'.congr hw.bootTable ?_ (fun c hc => ?_) fun c hc hused => ?_, ?_⟩
  · rw [slot_putEntry_of_ne _ _ hplace]
    exact slot_congr (hw.disk _ h'.root_le hblock) _
  · have hrange := h'.chain.range c hc
    exact hw.table c (by omega) fun hm => hdis hm hc
  · by_cases hm : c ∈ m
    · exact hw.chain.entry_ne_zero hm
    · rw [getFatEntry_putEntry, hw.table c (by omega) hm]
      exact hused
  · have hcontents : (fs2.putEntry directory.toNat identifier (sized entry buf)).contents l' = fs2.contents l' := by
      refine contents_congr rfl fun c hc => disk_putEntry_of_ne _ _ _ ?_
      rw [directoryBlock_congr hw.bootTable]
      exact (hcur c hc).symm
    rw [hcontents, hkeep]

/-- An empty write is refused. -/
theorem FileAt.write_nil (h : FileAt fs directory identifier entry l) :
    fs.write directory identifier [] = some (-4, fs) := by
  unfold write
  rw [h.read]
  rfl

end

end Fat16

end RetrOS.Fs
