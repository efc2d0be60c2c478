import RetrOS.Archive.TarLoops
import RetrOS.Fs.AddFile
import RetrOS.Kernel.KmemRun
import Mathlib.Data.List.TakeWhile

/-!
# Extracting an archive

* `Member`, `archive` : a well-formed archive; `octalStringToInt_octalDigits` : the size of a member is read back;
* `ExtractLaw` : `tar_extract` returns, every member is a file with exactly its content, and nothing else is created;
* `Extractable` : there are slots, clusters, a descriptor and memory for the members, and their names are new;
* `tarExtractRound_member`, `tarExtractRound_nothing`, `tarExtractRound_end` : the rounds over such an archive;
* `extractLaw_iff` : the law holds exactly when the size of every member is a positive multiple of a block.

A member is written with the bytes that fill up its last block, and for a member of no bytes there is no memory to be
had: `tar_extract` then returns, and the members behind it are lost.
-/

namespace RetrOS.Tar
open RetrOS.Lib RetrOS.Fs FileTable

/-! ## Archives -/

/-- The last `k` octal digits of a number. -/
def octalDigits : Nat → Nat → List UInt8
  | 0, _ => []
  | k + 1, n => octalDigits k (n / 8) ++ [(48 + n % 8).toUInt8]

/-- A member of a well-formed archive: its size is in the header, in eleven octal digits, and the padding fills up its
last block. -/
structure Member where
  name : ShortName
  header : Header
  content : List UInt8
  padding : List UInt8
  named : header.name = name.str
  sized : (header.toList.drop 124).take 11 = octalDigits 11 content.length
  size_lt : content.length < 8 ^ 11
  padding_lt : padding.length < 512
  blocks : 512 ∣ content.length + padding.length

namespace Member

/-- What is in the blocks of the member. -/
def data (m : Member) : List UInt8 := m.content ++ m.padding

def bytes (m : Member) : List UInt8 := m.header.toList ++ m.data

end Member

/-- The members, two blocks of zeros, and whatever stands behind them. -/
def archive (members : List Member) (rest : List UInt8) : List UInt8 :=
  members.flatMap Member.bytes ++ (List.replicate 1024 0 ++ rest)

/-! ## The law -/

/-- Every member is a file of the current directory, with exactly its content, and no other entry has changed. -/
structure Extracted (fs fs' : Fat16) (members : List Member) : Prop where
  files : ∀ m ∈ members, ∃ j, fs'.findInDirectory fs.currentDirBlock.toNat m.name.str = some j ∧
    fs'.Holds fs.currentDirBlock j m.content
  only : ∀ j < 16, fs'.slot fs.currentDirBlock.toNat j = fs.slot fs.currentDirBlock.toNat j ∨
    ∃ m ∈ members, fs'.findInDirectory fs.currentDirBlock.toNat m.name.str = some j

/-- The loop returns and has extracted the members. -/
def ExtractLaw (R : Kmem.Region) (i : FileSlot) (s : TarState) (members : List Member) : Prop :=
  ∃ n l r, Round.heads (tarExtractRound R (fsFile2fd i)) n s = some (l, r) ∧
    Extracted s.table.fat16 r.2.table.fat16 members

/-- The archive is open, and from the offset `o` on it holds these members. Their names are new and different from each
other, and there is room for them: slots of the directory, clusters, a descriptor, and memory for each. -/
structure Extractable (R : Kmem.Region) (i : FileSlot) (s : TarState) (data : List UInt8) (o : Nat)
    (members : List Member) (rest : List UInt8) : Prop where
  archive : data.drop o = archive members rest
  opened : OpenFile s.table i o data
  read : (s.table.fsFileTable i).flags &&& fsFileFlagRead ≠ 0
  stored : s.table.fat16.Stored ((s.table.fsFileTable i).directory.setWidth 16)
    (s.table.fsFileTable i).identifier.toNat data
  accepts : s.table.fat16.Accepts
  new : ∀ m ∈ members, s.table.fat16.findInDirectory s.table.fat16.currentDirBlock.toNat m.name.str = none
  distinct : members.Pairwise fun a b => toUpper a.name.str ≠ toUpper b.name.str
  slots : members.length ≤ s.table.fat16.freeSlots.card
  clusters : (members.map fun m => m.data.length / 512).sum ≤ (s.table.fat16.freeBelow s.table.fat16.clusterBound).card
  descriptor : ∃ j, (s.table.fsFileTable j).flags = 0
  memory : ∀ m ∈ members, m.content ≠ [] → ∃ p k, Kmem.kalloc R s.heap m.header.roundedSize = .ok (some p, k)

/-! ## Headers -/

theorem octalStringToInt_octalDigits {k n : Nat} (h : n < 8 ^ k) {chars : List UInt8}
    (hchars : chars.take k = octalDigits k n) : octalStringToInt chars k = BitVec.ofNat 32 n := by
  unfold octalStringToInt
  rw [hchars]
  clear hchars
  induction k generalizing n with
  | zero =>
    obtain rfl : n = 0 := by omega
    rfl
  | succ k ih =>
    have hdigit : ∀ d < 8, (48 + d).toUInt8.toBitVec.signExtend 32 = BitVec.ofNat 32 (48 + d) := by decide
    have h8 : BitVec.toNat (8 : BitVec 32) = 8 := rfl
    have h48 : BitVec.toNat (48 : BitVec 32) = 48 := rfl
    rw [octalDigits, List.foldl_append, ih (by omega), List.foldl_cons, List.foldl_nil,
      hdigit _ (Nat.mod_lt _ (by decide))]
    refine BitVec.eq_of_toNat_eq ?_
    rw [BitVec.toNat_sub, BitVec.toNat_add, BitVec.toNat_mul, h8, h48]
    simp only [BitVec.toNat_ofNat]
    omega

namespace Member
variable (m : Member)

theorem length_data : 512 ∣ m.data.length ∧ m.data.length < m.content.length + 512 := by
  have hlen : m.data.length = m.content.length + m.padding.length := List.length_append
  rw [hlen]
  have := m.padding_lt
  exact ⟨m.blocks, by omega⟩

theorem data_eq_nil : m.data = [] ↔ m.content = [] := by
  obtain ⟨⟨k, hk⟩, hlt⟩ := m.length_data
  have hlen : m.data.length = m.content.length + m.padding.length := List.length_append
  rw [← List.length_eq_zero_iff, ← List.length_eq_zero_iff]
  omega

/-- Without padding the content is a number of blocks. -/
theorem padding_eq_nil : m.padding = [] ↔ 512 ∣ m.content.length := by
  have hlt := m.padding_lt
  have hblocks := m.blocks
  rw [← List.length_eq_zero_iff]
  omega

theorem header_ne_zero : m.header.initial ≠ 0 := by
  intro h0
  have hname := m.named
  have hlist : m.header.toList = 0 :: m.header.toList.tail := by
    have hlen : 0 < m.header.toList.length := by
      rw [Vector.length_toList]
      decide
    have hcons := (List.cons_getElem_drop_succ (h := hlen)).symm
    rwa [Vector.getElem_toList, show m.header[0] = 0 from h0, List.drop_zero, Nat.zero_add, List.drop_one] at hcons
  rw [Header.name, hlist, List.takeWhile_cons_of_neg (by decide)] at hname
  have hbase := m.name.base_pos
  rw [ShortName.str] at hname
  rw [(List.append_eq_nil_iff.mp hname.symm).1] at hbase
  exact absurd hbase (by decide)

/-- What the loop rounds the size to. -/
theorem roundedSize_eq (h : m.data.length < 2 ^ 25) : m.header.roundedSize.toNat = m.data.length := by
  obtain ⟨⟨k, hk⟩, hlt⟩ := m.length_data
  have hlen : m.data.length = m.content.length + m.padding.length := List.length_append
  have hpad := m.padding_lt
  have hsize : m.header.size = BitVec.ofNat 32 m.content.length := octalStringToInt_octalDigits m.size_lt m.sized
  have h512 : BitVec.toNat (512 : BitVec 32) = 512 := rfl
  have h1 : BitVec.toNat (1 : BitVec 32) = 1 := rfl
  rw [Header.roundedSize, hsize, BitVec.toNat_mul, BitVec.toNat_udiv, BitVec.toNat_sub, BitVec.toNat_add, h512, h1]
  simp only [BitVec.toNat_ofNat]
  omega

end Member

/-! ## Places in an archive -/

section Places
variable {s : TarState} {i : FileSlot} {data rest : List UInt8} {o : Nat} {m : Member} {members : List Member}

theorem archive_cons (m : Member) (members : List Member) (rest : List UInt8) :
    archive (m :: members) rest = m.header.toList ++ (m.data ++ archive members rest) := by
  rw [archive, archive, List.flatMap_cons, Member.bytes, List.append_assoc, List.append_assoc]

theorem length_archive_le (members : List Member) (rest : List UInt8) : 1024 ≤ (archive members rest).length := by
  rw [archive, List.length_append, List.length_append, List.length_replicate]
  omega

/-- A place with something behind it is in the file. -/
theorem length_eq_of_drop {l : List UInt8} (h : data.drop o = l) (hpos : 0 < l.length) :
    data.length = o + l.length := by
  have hlen := congrArg List.length h
  rw [List.length_drop] at hlen
  omega

/-- A member at a place: its header, its data and the next place. -/
theorem drop_member (h : data.drop o = archive (m :: members) rest) : headerAt data o = m.header ∧
    data.drop (o + 512) = m.data ++ archive members rest ∧
    data.drop (o + 512 + m.data.length) = archive members rest ∧ o + 512 + m.data.length + 1024 ≤ data.length := by
  rw [archive_cons] at h
  have hrest : data.drop (o + 512) = m.data ++ archive members rest := by
    rw [← List.drop_drop, h]
    exact List.drop_left' (Vector.length_toList ..)
  have hnext : data.drop (o + 512 + m.data.length) = archive members rest := by
    rw [← List.drop_drop, hrest, List.drop_left]
  have hle := length_archive_le members rest
  have hlen := length_eq_of_drop hnext (by omega)
  exact ⟨headerAt_of_drop h, hrest, hnext, by omega⟩

/-- Behind the members there is no name. -/
theorem drop_nothing (h : data.drop o = archive [] rest) : (headerAt data o).initial = 0 ∧ o + 1024 ≤ data.length := by
  have hle := length_archive_le [] rest
  have hlen := length_eq_of_drop h (by omega)
  have hget : (data.drop o).getD 0 0 = 0 := by
    rw [h, archive, List.flatMap_nil, List.nil_append, List.replicate_succ, List.cons_append, List.getD_cons_zero]
  refine ⟨?_, by omega⟩
  rw [headerAt, Header.initial, Vector.getElem_ofFn]
  rw [List.getD_eq_getElem?_getD, List.getElem?_drop, ← List.getD_eq_getElem?_getD] at hget
  exact hget

/-- A round with a header in front of it. -/
theorem readHeader_full (hopen : OpenFile s.table i o data)
    (hread : (s.table.fsFileTable i).flags &&& fsFileFlagRead ≠ 0) (hlen : o + 512 ≤ data.length) : ∃ b t, s.readHeader (fsFile2fd i) =
      (b, { s with table := t, header := headerAt data o }) ∧ b ≠ 0 ∧ ¬ b < 512 ∧ Moved i s.table t ∧
      OpenFile t i (o + 512) data := by
  have hlt : o < data.length := by omega
  have hmain := readHeader_eq hopen hread fun hshort => absurd hshort.2 (Nat.not_lt.mpr hlen)
  rw [headerOf, if_pos hlt, if_pos hlt] at hmain
  exact hmain

end Places

/-! ## Rounds -/

section Rounds
variable {R : Kmem.Region} {s t : TarState} {i : FileSlot} {data rest : List UInt8} {o : Nat} {m : Member}
  {members : List Member}

theorem Moved.fat16_eq {a b : FileTable} (h : Moved i a b) : b.fat16 = a.fat16 := by
  obtain ⟨x, rfl⟩ := h
  rfl

/-- The flags of every slot are as they were. -/
theorem Moved.flags_eq {a b : FileTable} (h : Moved i a b) (k : FileSlot) :
    (b.fsFileTable k).flags = (a.fsFileTable k).flags := by
  obtain ⟨x, rfl⟩ := h
  by_cases hk : k = i
  · rw [hk, setFile_self]
  · rw [setFile_of_ne _ hk]

/-- Behind the last member the loop returns. -/
theorem tarExtractRound_end (R : Kmem.Region) (hdrop : data.drop o = archive [] rest)
    (hopen : OpenFile s.table i o data) (hread : (s.table.fsFileTable i).flags &&& fsFileFlagRead ≠ 0) :
    ∃ t, tarExtractRound R (fsFile2fd i) s = .done (0, t) ∧ t.table.fat16 = s.table.fat16 := by
  obtain ⟨hname, hlen⟩ := drop_nothing hdrop
  obtain ⟨b, u, hheader, hne, hlt, hmoved, -⟩ := readHeader_full hopen hread (by omega)
  exact ⟨_, tarExtractRound_stop hheader hne hlt hname, hmoved.fat16_eq⟩

/-- At a member of no bytes it returns too, without a file. -/
theorem tarExtractRound_nothing (R : Kmem.Region) (hdrop : data.drop o = archive (m :: members) rest)
    (hopen : OpenFile s.table i o data) (hread : (s.table.fsFileTable i).flags &&& fsFileFlagRead ≠ 0)
    (hcontent : m.content = []) :
    ∃ t, tarExtractRound R (fsFile2fd i) s = .done (-1, t) ∧ t.table.fat16 = s.table.fat16 := by
  obtain ⟨hheaderAt, -, -, hlen⟩ := drop_member hdrop
  obtain ⟨b, u, hheader, hne, hlt, hmoved, -⟩ := readHeader_full hopen hread (by omega)
  have hdata : m.data.length = 0 := by rw [m.data_eq_nil.mpr hcontent, List.length_nil]
  have hsize : m.header.roundedSize = 0 := by
    refine BitVec.eq_of_toNat_eq ?_
    rw [m.roundedSize_eq (by omega), hdata]
    rfl
  have hnull : Kmem.kalloc R s.heap m.header.roundedSize = .ok (none, s.heap) := by
    rw [hsize]
    exact if_pos (show (0 : BitVec 32).toInt ≤ 0 by decide)
  rw [hheaderAt] at hheader
  exact ⟨_, tarExtractRound_null hheader hne hlt m.header_ne_zero hnull, hmoved.fat16_eq⟩

/-- The rest of a round: the data of the member are read, and written to a new file. -/
theorem extractMember_eq {p : Nat} (hrest : data.drop o = m.data ++ archive members rest)
    (hopen : OpenFile s.table i o data) (hread : (s.table.fsFileTable i).flags &&& fsFileFlagRead ≠ 0)
    (hheader : s.header = m.header) (hcontent : m.content ≠ []) (haccepts : s.table.fat16.Accepts)
    (hnone : s.table.fat16.findInDirectory s.table.fat16.currentDirBlock.toNat m.name.str = none)
    (hslots : s.table.fat16.freeSlots.Nonempty)
    (hroom : (m.data.length + 511) / 512 ≤ (s.table.fat16.freeBelow s.table.fat16.clusterBound).card)
    (hfree : ∃ j, (s.table.fsFileTable j).flags = 0) :
    ∃ t j, extractMember R (fsFile2fd i) p s = .next t ∧ Fat16.Added s.table.fat16 t.table.fat16 m.name j m.data ∧
      t.heap = Kmem.kfree R s.heap p ∧ ∀ k, (t.table.fsFileTable k).flags = (s.table.fsFileTable k).flags := by
  have hne : m.data ≠ [] := fun h => hcontent (m.data_eq_nil.mp h)
  have hpos := List.length_pos_of_ne_nil hne
  have hlt := hopen.holds.length_lt
  have hlen := length_eq_of_drop hrest (by rw [List.length_append]; omega)
  rw [List.length_append] at hlen
  have hsize := m.roundedSize_eq (by omega)
  obtain ⟨u, hfs, -⟩ := hopen.fsRead_eq hread (show o < data.length by omega) hpos (by omega)
  have hmoved := moved_fsRead s.table i m.data.length
  rw [hfs] at hmoved
  have hbytes : (data.drop o).take m.data.length = m.data := by rw [hrest, List.take_left]
  rw [hbytes] at hfs
  have hfree' : ∃ j, (u.fsFileTable j).flags = 0 := by
    obtain ⟨j, hj⟩ := hfree
    exact ⟨j, (hmoved.flags_eq j).trans hj⟩
  have hfat := hmoved.fat16_eq
  dsimp only at hfat
  rw [← hfat] at haccepts hnone hslots hroom
  obtain ⟨j, v, w, k, hnew, hwrite, hadded, hflags⟩ := exists_fsAdded haccepts hnone hslots hne hroom hfree'
  have hbuf : Slice.read (Slice.write s.memory p m.data) p m.data.length = m.data := Slice.read_write_self ..
  obtain ⟨x, hclose⟩ : ∃ x, x = (w.fsClose (fsFile2fd j)).2 := ⟨_, rfl⟩
  rw [← hclose] at hadded hflags
  rw [hfat] at hadded
  refine ⟨⟨x, Kmem.kfree R s.heap p, Slice.write s.memory p m.data, s.header⟩, k, ?_,
    hadded, rfl, fun a => (hflags a).trans (hmoved.flags_eq a)⟩
  have hopen' : u.fsOpen m.name.str (fsFileFlagCreate ||| fsFileFlagWrite.setWidth 32) = some (fsFile2fd j, v) := hnew
  have hfd := fsFile2fd_nonneg j
  unfold extractMember
  dsimp only
  rw [hheader, hsize, hfs]
  dsimp only
  rw [if_neg (by omega), m.named, hopen']
  dsimp only
  rw [if_neg (Int.not_lt.mpr hfd), hbuf, hwrite, hclose]

/-- What is left of an archive can be extracted when the file of its first member was added, the blocks of the heap are
the same, and the archive has moved. -/
theorem Extractable.tail {j : Nat} {x : BitVec 32} (h : Extractable R i s data o (m :: members) rest)
    (hadded : Fat16.Added s.table.fat16 t.table.fat16 m.name j m.data) (hheap : Kmem.SameBlocks s.heap t.heap)
    (hflags : ∀ k, (t.table.fsFileTable k).flags = (s.table.fsFileTable k).flags)
    (hslot : t.table.fsFileTable i = { s.table.fsFileTable i with offset := x })
    (hplace : position i t = o + 512 + m.data.length) :
    Extractable R i t data (o + 512 + m.data.length) members rest := by
  obtain ⟨-, -, hnext, -⟩ := drop_member h.archive
  have hstored : t.table.fat16.Stored ((t.table.fsFileTable i).directory.setWidth 16)
      (t.table.fsFileTable i).identifier.toNat data := by
    rw [hslot]
    exact hadded.kept _ _ _ h.stored
  have hdistinct := List.pairwise_cons.mp h.distinct
  refine ⟨hnext, ⟨?_, hplace, ?_, hstored.holds⟩, ?_, hstored, hadded.accepts h.accepts, fun m' hm' => ?_,
    hdistinct.2, ?_, ?_, ?_, fun m' hm' hcontent => ?_⟩
  · rw [hslot]
    exact h.opened.nlinks
  · rw [hslot]
    exact h.opened.directory
  · rw [hslot]
    exact h.read
  · rw [hadded.currentDirBlock, hadded.names m'.name (hdistinct.1 m' hm').symm]
    exact h.new m' (List.mem_cons_of_mem _ hm')
  · have hslots := h.slots
    rw [List.length_cons] at hslots
    rw [hadded.freeSlots_eq, Finset.card_erase_of_mem hadded.free]
    omega
  · have hclusters := h.clusters
    have hroom := hadded.room
    obtain ⟨⟨k, hk⟩, -⟩ := m.length_data
    rw [List.map_cons, List.sum_cons] at hclusters
    rw [Fat16.clusterBound_congr hadded.bootTable]
    omega
  · obtain ⟨k, hk⟩ := h.descriptor
    exact ⟨k, (hflags k).trans hk⟩
  · obtain ⟨p, k, halloc⟩ := h.memory m' (List.mem_cons_of_mem _ hm') hcontent
    exact ⟨p, hheap.kalloc halloc⟩

/-- A round adds the file of a member, and goes on to the next one. -/
theorem tarExtractRound_member (h : Extractable R i s data o (m :: members) rest) (hcontent : m.content ≠ []) :
    ∃ t j, tarExtractRound R (fsFile2fd i) s = .next t ∧ Fat16.Added s.table.fat16 t.table.fat16 m.name j m.data ∧
      Extractable R i t data (o + 512 + m.data.length) members rest := by
  obtain ⟨hheaderAt, hrest, -, hlen⟩ := drop_member h.archive
  have hlt := h.opened.holds.length_lt
  have hpos := List.length_pos_of_ne_nil fun hnil => hcontent (m.data_eq_nil.mp hnil)
  have hsize := m.roundedSize_eq (by omega)
  obtain ⟨b, u, hheader, hne, hblt, hmoved, hu⟩ := readHeader_full h.opened h.read (by omega)
  obtain ⟨p, k, halloc⟩ := h.memory m (List.mem_cons_self ..) hcontent
  have hfat := hmoved.fat16_eq
  have hslots : s.table.fat16.freeSlots.Nonempty := by
    have := h.slots
    rw [List.length_cons] at this
    exact Finset.card_pos.mp (by omega)
  have hroom : (m.data.length + 511) / 512 ≤ (s.table.fat16.freeBelow s.table.fat16.clusterBound).card := by
    have hclusters := h.clusters
    obtain ⟨⟨k, hk⟩, -⟩ := m.length_data
    rw [List.map_cons, List.sum_cons] at hclusters
    omega
  have hnone := h.new m (List.mem_cons_self ..)
  have haccepts := h.accepts
  have hread : (u.fsFileTable i).flags &&& fsFileFlagRead ≠ 0 := hmoved.flags ▸ h.read
  have hfree : ∃ j, (u.fsFileTable j).flags = 0 := by
    obtain ⟨j, hj⟩ := h.descriptor
    exact ⟨j, (hmoved.flags_eq j).trans hj⟩
  rw [← hfat] at hslots hroom hnone haccepts
  obtain ⟨t, j, hround, hadded, hheap, hflags⟩ := extractMember_eq (R := R) (s := ⟨u, k, s.memory, m.header⟩) (p := p)
    hrest hu hread rfl hcontent haccepts hnone hslots hroom hfree
  obtain ⟨hplace, x, hx⟩ := extractMember_inv hu hread (by rw [hsize]; exact hpos) (by rw [hsize]; omega) hround
  obtain ⟨y, hy⟩ := hmoved
  have hslot : t.table.fsFileTable i = { s.table.fsFileTable i with offset := x } := by rw [hx, hy, setFile_self]
  dsimp only at hadded hflags hplace
  rw [hfat] at hadded
  rw [hsize] at hplace
  have hsame : Kmem.SameBlocks s.heap t.heap := by
    rw [hheap]
    exact Kmem.kfree_kalloc halloc
  refine ⟨t, j, ?_, hadded, h.tail hadded hsame (fun k => (hflags k).trans ?_) hslot hplace⟩
  · rw [hheaderAt] at hheader
    exact (tarExtractRound_buffer hheader hne hblt m.header_ne_zero halloc).trans hround
  · exact Moved.flags_eq ⟨y, hy⟩ k

/-! ## The loop -/

/-- The files that the loop writes: those of the members in front of the first one of no bytes. -/
def written (members : List Member) : List (ShortName × List UInt8) :=
  (members.takeWhile fun m => m.content ≠ []).map fun m => (m.name, m.data)

theorem written_of_nil (h : m.content = []) : written (m :: members) = [] := by
  rw [written, List.takeWhile_cons_of_neg (by simp [h]), List.map_nil]

theorem written_of_ne (h : m.content ≠ []) : written (m :: members) = (m.name, m.data) :: written members := by
  rw [written, List.takeWhile_cons_of_pos (by simp [h]), List.map_cons, written]

theorem mem_written {f : ShortName × List UInt8} (h : f ∈ written members) :
    ∃ m ∈ members, m.content ≠ [] ∧ f = (m.name, m.data) := by
  obtain ⟨m, hm, rfl⟩ := List.mem_map.mp h
  exact ⟨m, List.takeWhile_subset _ hm, by simpa using List.mem_takeWhile_imp hm, rfl⟩

/-- The loop returns, and has added these files. -/
theorem exists_heads_of_extractable (h : Extractable R i s data o members rest) : ∃ n l r,
    Round.heads (tarExtractRound R (fsFile2fd i)) n s = some (l, r) ∧
      Fat16.AddedAll s.table.fat16 r.2.table.fat16 (written members) := by
  induction members generalizing s o with
  | nil =>
    obtain ⟨t, hdone, hsame⟩ := tarExtractRound_end R h.archive h.opened h.read
    exact ⟨1, [s], _, heads_done hdone, hsame ▸ .nil _⟩
  | cons m members ih =>
    by_cases hcontent : m.content = []
    · obtain ⟨t, hdone, hsame⟩ := tarExtractRound_nothing R h.archive h.opened h.read hcontent
      rw [written_of_nil hcontent]
      exact ⟨1, [s], _, heads_done hdone, hsame ▸ .nil _⟩
    · obtain ⟨t, j, hnext, hadded, ht⟩ := tarExtractRound_member h hcontent
      obtain ⟨n, l, r, hrest, hall⟩ := ih ht
      refine ⟨n + 1, s :: l, r, ?_, ?_⟩
      · rw [heads_next hnext, hrest]
        rfl
      · rw [written_of_ne hcontent]
        refine .cons hadded hall fun f hf => ?_
        obtain ⟨m', hm', -, rfl⟩ := mem_written hf
        exact (List.pairwise_cons.mp h.distinct).1 m' hm'

/-- Where every member has content, every member is written. -/
theorem written_of_forall (h : ∀ m ∈ members, m.content ≠ []) :
    written members = members.map fun m => (m.name, m.data) := by
  rw [written, List.takeWhile_eq_self_iff.mpr fun m hm => by simpa using h m hm]

/-- A member of no bytes has a name that no written file has. -/
theorem written_ne_of_nil (hdistinct : members.Pairwise fun a b => toUpper a.name.str ≠ toUpper b.name.str)
    (hm : m ∈ members) (hcontent : m.content = []) : ∀ f ∈ written members, toUpper m.name.str ≠ toUpper f.1.str := by
  intro f hf
  obtain ⟨m', hm', hne, rfl⟩ := mem_written hf
  have hmm : m ≠ m' := by
    rintro rfl
    exact hne hcontent
  have hsymm : Std.Symm fun a b : Member => toUpper a.name.str ≠ toUpper b.name.str := ⟨fun _ _ hab => hab.symm⟩
  exact hdistinct.forall hm hm' hmm

end Rounds

/-- **The members are extracted exactly when** the size of each is a positive multiple of a block. -/
theorem extractLaw_iff (R : Kmem.Region) (i : FileSlot) (s : TarState) (data : List UInt8) (members : List Member)
    (rest : List UInt8) (h : Extractable R i s data 0 members rest) :
    ExtractLaw R i s members ↔ ∀ m ∈ members, 0 < m.content.length ∧ 512 ∣ m.content.length := by
  obtain ⟨n, l, r, hrun, hall⟩ := exists_heads_of_extractable h
  constructor
  · rintro ⟨n', l', r', hrun', hlaw⟩
    obtain ⟨-, rfl⟩ := heads_unique hrun hrun'
    have hcontent (m : Member) (hm : m ∈ members) : m.content ≠ [] := by
      intro hnil
      obtain ⟨j, hfind, -⟩ := hlaw.files m hm
      rw [hall.names m.name (written_ne_of_nil h.distinct hm hnil), h.new m hm] at hfind
      cases hfind
    intro m hm
    refine ⟨List.length_pos_of_ne_nil (hcontent m hm), m.padding_eq_nil.mp ?_⟩
    obtain ⟨j, hfind, hholds⟩ := hlaw.files m hm
    obtain ⟨k, hfind', hstored⟩ := hall.stored (m.name, m.data) (by
      rw [written_of_forall hcontent]
      exact List.mem_map_of_mem hm)
    cases hfind.symm.trans hfind'
    exact List.append_right_eq_self.mp (hstored.holds.unique hholds)
  · intro hsizes
    have hcontent (m : Member) (hm : m ∈ members) : m.content ≠ [] := List.ne_nil_of_length_pos (hsizes m hm).1
    rw [written_of_forall hcontent] at hall
    refine ⟨n, l, r, hrun, fun m hm => ?_, fun j _ => ?_⟩
    · obtain ⟨j, hfind, hstored⟩ := hall.stored (m.name, m.data) (List.mem_map_of_mem hm)
      have hdata : m.data = m.content := by
        rw [Member.data, m.padding_eq_nil.mpr (hsizes m hm).2, List.append_nil]
      exact ⟨j, hfind, hdata ▸ hstored.holds⟩
    · rcases hall.only j with hsame | ⟨f, hf, hfind⟩
      · exact .inl hsame
      · obtain ⟨m, hm, rfl⟩ := List.mem_map.mp hf
        exact .inr ⟨m, hm, hfind⟩

/-! ## An archive with an empty member -/

/-- The name of one character. -/
def letter (c : UInt8) (h : ∀ d ∈ [c] ++ [], validChar d) (h' : [c].head? ≠ some 0xE5) : ShortName :=
  ⟨[c], [], Nat.one_pos, Nat.le_add_left 1 7, Nat.zero_le 3, h, h'⟩

def sampleHeader (c : UInt8) (size k : Nat) : UInt8 :=
  if k = 0 then c else if 124 ≤ k ∧ k < 135 then (octalDigits 11 size).getD (k - 124) 0 else 0

/-- A member of one block of zeros. -/
def oneBlock : Member where
  name := letter 97 (List.all_eq_true.mp (by decide)) (by decide)
  header := blockOf (sampleHeader 97 512)
  content := List.replicate 512 0
  padding := []
  named := by decide +kernel
  sized := by decide +kernel
  size_lt := by decide +kernel
  padding_lt := by decide
  blocks := by decide +kernel

def noBytes : Member where
  name := letter 98 (List.all_eq_true.mp (by decide)) (by decide)
  header := blockOf (sampleHeader 98 0)
  content := []
  padding := []
  named := by decide +kernel
  sized := by decide +kernel
  size_lt := by decide
  padding_lt := by decide
  blocks := by decide

/-- The entry of a file of five blocks, with the clusters 5 to 9. -/
def fiveBlocks : DirectoryEntry :=
  newEntry ⟨ascii "A       ", length_threeName⟩ ⟨ascii "TAR", length_tarExtension⟩ flagArchive 5 2560

/-- A member of one block, one of no bytes, and the end mark. The directory begins with a label. -/
def sampleDisk : Fat16 where
  bootTable := Fat16.oneFile.bootTable
  fatTableMemory i := if 5 ≤ i ∧ i < 9 then BitVec.ofNat 16 (i + 1) else if i = 9 then 0xFFFF else 0
  currentDirBlock := 2
  disk b :=
    if b = 6 then sampleHeader 97 512
    else if b = 8 then sampleHeader 98 0
    else fun k => if b = 2 ∧ k < 11 then 0x41 else 0

/-- The archive is open for reading, in slot 0. -/
def sampleState : TarState where
  table := ⟨sampleDisk.putEntry 2 1 fiveBlocks, fun k => if k.val = 0 then ⟨1, 0, 1, 1, 2, 2560⟩ else .zero⟩
  heap := Kmem.kmemInit fun _ => 0
  memory _ := 0
  header := .replicate 512 0

theorem sampleDisk_contents : sampleDisk.contents [5, 6, 7, 8, 9] = archive [oneBlock, noBytes] [] := by
  have hblock : Slice.read (sampleDisk.readBlock (sampleDisk.directoryBlock 5)) 0 512 = oneBlock.header.toList :=
    (toList_blockOf _).symm
  have hdata : Slice.read (sampleDisk.readBlock (sampleDisk.directoryBlock 6)) 0 512 = oneBlock.data := by
    decide +kernel
  have hnone : Slice.read (sampleDisk.readBlock (sampleDisk.directoryBlock 7)) 0 512 = noBytes.header.toList :=
    (toList_blockOf _).symm
  have hzeros : Slice.read (sampleDisk.readBlock (sampleDisk.directoryBlock 8)) 0 512 ++
      Slice.read (sampleDisk.readBlock (sampleDisk.directoryBlock 9)) 0 512 = List.replicate 1024 0 := by
    decide +kernel
  have hnil : noBytes.data = [] := rfl
  have hend : archive [] [] = List.replicate 1024 0 := by
    rw [archive, List.flatMap_nil, List.nil_append, List.append_nil]
  rw [Fat16.contents_cons, Fat16.contents_cons, Fat16.contents_cons, Fat16.contents_cons, Fat16.contents_cons,
    Fat16.contents_nil, List.append_nil, archive_cons, archive_cons, hblock, hdata, hnone, hzeros, hnil, hend,
    List.nil_append]

theorem sample_stored : sampleState.table.fat16.Stored 2 1 (archive [oneBlock, noBytes] []) := by
  refine ⟨fiveBlocks, [5, 6, 7, 8, 9], ⟨⟨by decide, by decide⟩, ?_, by decide, by decide, ⟨by decide, by decide⟩,
    by decide, by unfold Fat16.Addressable; decide, by decide, .inl (by decide)⟩, by decide, by decide, ?_⟩
  · show some ((sampleDisk.putEntry 2 1 fiveBlocks).slot 2 1) = _
    rw [Fat16.slot_putEntry_self]
  · have hcontents : (sampleDisk.putEntry 2 1 fiveBlocks).contents [5, 6, 7, 8, 9] =
        sampleDisk.contents [5, 6, 7, 8, 9] := by
      refine Fat16.contents_congr rfl fun c hc => Fat16.disk_putEntry_of_ne _ _ _ ?_
      have hne : ∀ c ∈ [5, 6, 7, 8, 9], sampleDisk.directoryBlock c ≠ 2 := by decide
      exact hne c hc
    show ((sampleDisk.putEntry 2 1 fiveBlocks).contents [5, 6, 7, 8, 9]).take 2560 = _
    rw [hcontents, List.take_of_length_le (by rw [Fat16.length_contents]; decide), sampleDisk_contents]

theorem sample_kalloc : ∃ p k, Kmem.kalloc Kmem.smallRegion sampleState.heap oneBlock.header.roundedSize =
    .ok (some p, k) := by
  have hsize : oneBlock.header.roundedSize = 512 := by decide +kernel
  rw [hsize]
  exact ⟨_, _, rfl⟩

theorem sample_extractable : Extractable Kmem.smallRegion 0 sampleState (archive [oneBlock, noBytes] []) 0
    [oneBlock, noBytes] [] where
  archive := List.drop_zero
  opened := ⟨by decide, rfl, by decide, sample_stored.holds⟩
  read := by decide
  stored := sample_stored
  accepts := ⟨⟨by decide, by decide⟩, .inl (by decide), by decide, by decide, fun _ => by
    show ¬ ((sampleDisk.putEntry 2 1 fiveBlocks).slot 2 0).isFree
    rw [Fat16.slot_putEntry_of_ne _ _ (.inr (by decide))]
    decide⟩
  new := List.forall_mem_cons.mpr ⟨by decide +kernel, List.forall_mem_singleton.mpr (by decide +kernel)⟩
  distinct := List.pairwise_pair.mpr (by decide)
  slots := by
    have hfree (j : Nat) (hj : j = 2 ∨ j = 3) : j ∈ sampleState.table.fat16.freeSlots := by
      refine Fat16.mem_freeSlots.mpr ⟨by omega, ?_⟩
      show ((sampleDisk.putEntry 2 1 fiveBlocks).slot 2 j).isFree
      rw [Fat16.slot_putEntry_of_ne _ _ (.inr (by omega))]
      rcases hj with rfl | rfl <;> decide
    exact Finset.one_lt_card.mpr ⟨2, hfree 2 (.inl rfl), 3, hfree 3 (.inr rfl), by decide⟩
  clusters := by
    have hone : oneBlock.data.length = 512 := by decide +kernel
    have hnone : noBytes.data.length = 0 := rfl
    rw [List.map_cons, List.map_cons, List.map_nil, List.sum_cons, List.sum_cons, List.sum_nil, hone, hnone]
    exact Finset.card_pos.mpr ⟨20, Fat16.mem_freeBelow.mpr (by decide)⟩
  descriptor := ⟨1, rfl⟩
  memory := List.forall_mem_cons.mpr ⟨fun _ => sample_kalloc,
    List.forall_mem_singleton.mpr fun hcontent => absurd rfl hcontent⟩

/-- The file of the empty member is not created. -/
theorem extractLaw_lost : ¬ ExtractLaw Kmem.smallRegion 0 sampleState [oneBlock, noBytes] := by
  rintro ⟨n, l, r, hrun, hlaw⟩
  obtain ⟨n', l', r', hrun', hall⟩ := exists_heads_of_extractable sample_extractable
  obtain ⟨-, rfl⟩ := heads_unique hrun hrun'
  have hmem : noBytes ∈ [oneBlock, noBytes] := List.mem_cons_of_mem _ (List.mem_singleton_self _)
  obtain ⟨j, hfind, -⟩ := hlaw.files noBytes hmem
  have hnames := hall.names noBytes.name (written_ne_of_nil sample_extractable.distinct hmem rfl)
  rw [hnames, sample_extractable.new noBytes hmem] at hfind
  cases hfind

theorem extractLaw_iff_sample : ExtractLaw Kmem.smallRegion 0 sampleState [oneBlock, noBytes] ↔
    ∀ m ∈ [oneBlock, noBytes], 0 < m.content.length ∧ 512 ∣ m.content.length :=
  extractLaw_iff Kmem.smallRegion 0 sampleState _ _ [] sample_extractable

end RetrOS.Tar
