import RetrOS.Fs.Create
import RetrOS.Fs.Chains

/-!
# FAT16: a created name and its lookup

* `SameFor n fs fs' b` : in the directory `b` the slots are the same, but for some that hold the name `n` neither
  before nor after; a lookup of `n` finds the same slot (`SameFor.findInDirectory`);
* `create` : the two create operations on a valid name; `createdEntry` the entry they add;
* `NamesRight` : the new name finds the new entry, other names find what they found, different names are told
  apart;
* `create_names_iff` : when this is so. A directory gets the bytes of the string as they are, so its name must
  have 8 characters and no lower-case letter.
-/

namespace RetrOS.Fs
open RetrOS.Lib

/-! ## The bytes at a string -/

theorem nameMemory_of_length {name : List UInt8} (behind : Nat → UInt8) (h : name.length = 8) :
    (nameMemory name behind).1 = name := by
  have hread := Slice.read_write_self behind 0 (name ++ [0])
  show Slice.read _ 0 8 = _
  rw [← Slice.take_read _ 0 (show 8 ≤ (name ++ [0]).length by simp [h]), hread, List.take_left' h]

/-- A shorter name brings its terminator into the entry. -/
theorem zero_mem_nameMemory {name : List UInt8} (behind : Nat → UInt8) (h : name.length < 8) :
    (0 : UInt8) ∈ (nameMemory name behind).1 := by
  have hzero : Slice.write behind 0 (name ++ [0]) name.length = 0 := by
    have := Slice.write_inside behind (d := 0) (show name.length < (name ++ [0]).length by simp)
    rwa [Nat.zero_add, List.getElem_concat_length rfl] at this
  exact List.mem_map.mpr ⟨name.length, List.mem_range'_1.mpr ⟨Nat.zero_le _, by omega⟩, hzero⟩

namespace ShortName

/-- The first byte of a name in a directory. -/
theorem field_head (n : ShortName) : ∃ c rest, n.field = c :: rest ∧ validChar c ∧ c ≠ 0xE5 := by
  obtain ⟨base, ext, hpos, hle, hext, hvalid, hdel⟩ := n
  cases base with
  | nil => simp at hpos
  | cons c base =>
    refine ⟨toUpperChar c, _, rfl, validChar_toUpper (hvalid c (by simp)), fun h => ?_⟩
    have hall : ∀ b : BitVec 8, toUpperChar ⟨b⟩ = 0xE5 → (⟨b⟩ : UInt8) = 0xE5 := by decide
    exact hdel (congrArg some (hall c.toBitVec h))

/-- A slot that is free holds no valid name. -/
theorem field_ne_of_isFree (n : ShortName) {e : DirectoryEntry} (h : e.isFree) : e.fullName ≠ n.field := by
  obtain ⟨c, rest, hfield, hvalid, hdel⟩ := n.field_head
  intro heq
  rw [hfield] at heq
  have hhead : e.filename.1.head? = some c := by
    have hlen := e.filename.2
    cases hname : e.filename.1 with
    | nil => rw [hname] at hlen; simp at hlen
    | cons x l =>
      rw [DirectoryEntry.fullName, hname, List.cons_append, List.cons.injEq] at heq
      rw [List.head?_cons, heq.1]
  rw [DirectoryEntry.isFree, hhead, Bool.or_eq_true, beq_iff_eq, beq_iff_eq, Option.some.injEq,
    Option.some.injEq] at h
  rcases h with rfl | rfl
  · exact absurd hvalid (by decide)
  · exact hdel rfl

/-- A name that begins with a dot is no valid name. -/
theorem field_ne_of_dot (n : ShortName) {e : DirectoryEntry} (h : e.filename.1.head? = some dot) :
    e.fullName ≠ n.field := by
  obtain ⟨c, rest, hfield, hvalid, -⟩ := n.field_head
  intro heq
  rw [hfield] at heq
  cases hname : e.filename.1 with
  | nil => rw [hname] at h; simp at h
  | cons x l =>
    rw [hname, List.head?_cons, Option.some.injEq] at h
    rw [DirectoryEntry.fullName, hname, List.cons_append, List.cons.injEq] at heq
    exact validChar_ne_dot hvalid (heq.1.symm.trans h)

/-- The bytes of a name are valid characters and spaces. -/
theorem forall_mem_field (n : ShortName) {P : UInt8 → Prop} (hvalid : ∀ c, validChar c → P c) (hspace : P space) :
    ∀ c ∈ n.field, P c := by
  have hpad : ∀ (k : Nat) (s : List UInt8), (∀ c ∈ s, validChar c) → ∀ c ∈ pad k s, P c := by
    intro k s hs c hc
    rcases List.mem_append.mp hc with hc | hc
    · exact hvalid c (hs c hc)
    · rw [List.eq_of_mem_replicate hc]
      exact hspace
  intro c hc
  rcases List.mem_append.mp hc with hc | hc
  · exact hpad 8 _ (validChar_toUpper_mem n.valid_base) c hc
  · exact hpad 3 _ (validChar_toUpper_mem n.valid_extension) c hc

theorem field_ne_zero (n : ShortName) : ∀ c ∈ n.field, c ≠ 0 := by
  refine n.forall_mem_field (fun c hvalid hzero => ?_) (by decide)
  rw [hzero] at hvalid
  exact absurd hvalid (by decide)

/-! ## What a directory is named -/

/-- The bytes stored for a directory stand for a valid name only if it has 8 characters, none of lower case. -/
theorem base_of_nameMemory (n : ShortName) (behind : Nat → UInt8) {m : ShortName}
    (h : (nameMemory n.base behind).1 ++ blankExtension.1 = m.field) :
    n.base.length = 8 ∧ toUpper n.base = n.base := by
  have hlen : n.base.length = 8 := by
    by_contra hne
    have := n.base_le
    refine m.field_ne_zero 0 ?_ rfl
    rw [← h]
    exact List.mem_append_left _ (zero_mem_nameMemory behind (by omega))
  refine ⟨hlen, ?_⟩
  rw [nameMemory_of_length behind hlen] at h
  have hbase : n.base = pad 8 (toUpper m.base) := (List.append_inj h (by rw [hlen, m.name8.2])).1
  rw [hbase, toUpper_pad, toUpper_toUpper]

theorem nameMemory_field_iff (n : ShortName) (behind : Nat → UInt8) (hext : n.extension = []) :
    (nameMemory n.base behind).1 ++ blankExtension.1 = n.field ↔ n.base.length = 8 ∧ toUpper n.base = n.base := by
  refine ⟨n.base_of_nameMemory behind, fun ⟨hlen, hup⟩ => ?_⟩
  show _ = pad 8 (toUpper n.base) ++ pad 3 (toUpper n.extension)
  rw [nameMemory_of_length behind hlen, hext, hup, pad, hlen, Nat.sub_self, List.replicate_zero, List.append_nil]
  rfl

end ShortName

namespace Fat16

variable {fs fs' fs'' : Fat16} {n : ShortName} {b i : Nat}

/-! ## Lookups of a valid name -/

/-- A slot matches a valid name if it holds its 11 bytes. -/
theorem entryMatches_iff : fs.entryMatches b n.str i ↔ ∃ e, fs.readEntry b i = some e ∧ e.fullName = n.field := by
  rw [entryMatches, Option.any_eq_true]
  exact exists_congr fun e => and_congr_right fun _ => n.nameCompare_iff e.length_fullName

/-- The slots of a directory are the same as far as the name `n` goes. -/
def SameFor (n : ShortName) (fs fs' : Fat16) (b : Nat) : Prop :=
  fs'.bootTable = fs.bootTable ∧ ∀ i < 16, fs'.slot b i = fs.slot b i ∨
    (fs.slot b i).fullName ≠ n.field ∧ (fs'.slot b i).fullName ≠ n.field

theorem SameFor.refl (n : ShortName) (fs : Fat16) (b : Nat) : SameFor n fs fs b := ⟨rfl, fun _ _ => .inl rfl⟩

theorem SameFor.trans (h : SameFor n fs fs' b) (h' : SameFor n fs' fs'' b) : SameFor n fs fs'' b := by
  refine ⟨h'.1.trans h.1, fun i hi => ?_⟩
  rcases h.2 i hi with h1 | ⟨h1, h2⟩
  · rw [← h1]
    exact h'.2 i hi
  · rcases h'.2 i hi with h3 | ⟨-, h4⟩
    · rw [h3]
      exact .inr ⟨h1, h2⟩
    · exact .inr ⟨h1, h4⟩

theorem SameFor.of_disk (hboot : fs'.bootTable = fs.bootTable) (h : fs'.disk b = fs.disk b) : SameFor n fs fs' b :=
  ⟨hboot, fun i _ => .inl (slot_congr h i)⟩

theorem SameFor.entryMatches (h : SameFor n fs fs' b) (hi : i < 16) :
    fs'.entryMatches b n.str i = fs.entryMatches b n.str i := by
  rw [Bool.eq_iff_iff, entryMatches_iff, entryMatches_iff]
  simp only [readEntry, getRootDirectoryStartBlock_congr h.1]
  split
  · rfl
  split
  · rfl
  · simp only [Option.some.injEq, exists_eq_left']
    rcases h.2 i hi with heq | ⟨h1, h2⟩
    · rw [heq]
    · exact iff_of_false h2 h1

theorem SameFor.findInDirectory (h : SameFor n fs fs' b) :
    fs'.findInDirectory b n.str = fs.findInDirectory b n.str :=
  findInDirectory_congr fun _ hi => h.entryMatches hi

/-- Storing an entry of another name over a slot of another name. -/
theorem SameFor.putEntry {b' : Nat} {e : DirectoryEntry} (hold : (fs.slot b' i).fullName ≠ n.field)
    (hnew : e.fullName ≠ n.field) : SameFor n fs (fs.putEntry b' i e) b := by
  refine ⟨rfl, fun j _ => ?_⟩
  by_cases h : b = b' ∧ j = i
  · obtain ⟨rfl, rfl⟩ := h
    rw [slot_putEntry_self]
    exact .inr ⟨hold, hnew⟩
  · refine .inl (slot_putEntry_of_ne fs e ?_)
    rw [Decidable.not_and_iff_or_not] at h
    exact h

/-- Adding an entry of another name. -/
theorem SameFor.addEntry (block : BitVec 16) (filename : Bytes 8) (extension : Bytes 3) (attributes : UInt8)
    (startCluster : BitVec 16) (fileSize : BitVec 32) (hnew : filename.1 ++ extension.1 ≠ n.field) :
    SameFor n fs (fs.addEntry block filename extension attributes startCluster fileSize).2 b := by
  cases h : freeSlot (fs.readBlock block.toNat) with
  | none =>
    rw [addEntry_none _ _ _ _ _ h]
    exact .refl ..
  | some i =>
    rw [addEntry_some _ _ _ _ _ h]
    exact .putEntry (n.field_ne_of_isFree (freeSlot_eq_some.mp h).2.1) hnew

/-! ## Creating a name -/

inductive EntryKind
  | file
  | directory
  deriving DecidableEq

/-- Creating the name `n`; a directory is created under its base name. -/
def create (fs : Fat16) (kind : EntryKind) (n : ShortName) (behind : Nat → UInt8) : Option (Int × Fat16) :=
  match kind with
  | .file => fs.createEmptyFile n.str
  | .directory => some (fs.createDirectory n.base behind)

/-- The entry that is added for the name `n`. -/
def createdEntry (fs : Fat16) (kind : EntryKind) (n : ShortName) (behind : Nat → UInt8) : DirectoryEntry :=
  let cluster := BitVec.ofNat 16 fs.getFreeCluster.1
  match kind with
  | .file => newEntry n.name8 n.extension3 flagArchive cluster 0
  | .directory => newEntry (nameMemory n.base behind) blankExtension flagSubdirectory cluster 0

theorem createEmptyFile_str (fs : Fat16) (n : ShortName) :
    fs.createEmptyFile n.str = (fs.createFile n.name8 n.extension3 []).map fun r =>
      if r.1 ≠ 0 then (-2, r.2) else (0, r.2) := by
  have hbase : ∀ c ∈ n.base, (c != dot) = true := by
    intro c hc
    simpa using validChar_ne_dot (n.valid_base c hc)
  have hname : n.str.takeWhile (· != dot) = n.base := by
    rw [ShortName.str, List.takeWhile_append_of_pos hbase]
    split <;> simp
  have hrest : skipDot (n.str.dropWhile (· != dot)) = n.extension := by
    rw [ShortName.str, List.dropWhile_append_of_pos hbase]
    split
    · rename_i h
      rw [h]
      rfl
    · rfl
  have hslash : n.str.head? ≠ some slash := by
    obtain ⟨base, ext, hpos, -, -, hvalid, -⟩ := n
    cases base with
    | nil => simp at hpos
    | cons c base =>
      intro h
      obtain rfl : c = slash := by simpa [ShortName.str] using h
      exact absurd (hvalid slash (by simp)) (by decide)
  rw [createEmptyFile, if_neg hslash]
  simp only [hname, hrest]
  rw [dif_pos ⟨n.base_le, n.extension_le⟩]
  rfl

theorem disk_putEntry_congr {e : DirectoryEntry} (h : fs'.disk = fs.disk) :
    (fs'.putEntry b i e).disk = (fs.putEntry b i e).disk := by
  unfold putEntry writeBlockOffset writeBlock readBlock
  simp only [h]

/-- Writing back the table leaves the directory. -/
theorem SameFor.syncFatTable {cur : Nat} (hlay : Layout fs) (hcur : fs.getRootDirectoryStartBlock.toNat ≤ cur)
    (hboot : fs'.bootTable = fs.bootTable) : SameFor n fs' fs'.syncFatTable cur :=
  .of_disk rfl ((hlay.congr hboot).disk_syncFatTable (by
    rw [getRootDirectoryStartBlock_congr hboot]
    exact hcur))

theorem SameFor.putEntry_congr (hboot : fs'.bootTable = fs.bootTable) (hdisk : fs'.disk = fs.disk)
    (e : DirectoryEntry) : SameFor n (fs.putEntry b i e) (fs'.putEntry b i e) b :=
  ⟨hboot, fun j _ => .inl (slot_congr (congrFun (disk_putEntry_congr hdisk) b) j)⟩

/-- The steps after the entry was added are of no matter for valid names. -/
theorem create_sameFor {kind : EntryKind} {behind : Nat → UInt8} (hlay : Layout fs)
    (hcur : fs.getRootDirectoryStartBlock.toNat ≤ fs.currentDirBlock.toNat)
    (hslot : freeSlot (fs.readBlock fs.currentDirBlock.toNat) = some i)
    (hrun : fs.create kind n behind = some (0, fs')) (m : ShortName) :
    SameFor m (fs.putEntry fs.currentDirBlock.toNat i (fs.createdEntry kind n behind)) fs'
      fs.currentDirBlock.toNat := by
  have hslot1 : freeSlot (fs.getFreeCluster.2.readBlock fs.currentDirBlock.toNat) = some i := by
    rw [readBlock, disk_getFreeCluster]
    exact hslot
  have hboot := fs.bootTable_getFreeCluster
  have hdisk := fs.disk_getFreeCluster
  cases kind with
  | file =>
    rw [create, createEmptyFile_str, createFile_nil] at hrun
    split at hrun
    · simp at hrun
    · rw [addEntry_some _ _ _ _ _ hslot1] at hrun
      obtain rfl : _ = fs' := by simpa using hrun
      exact (SameFor.putEntry_congr hboot hdisk _).trans (.syncFatTable hlay hcur hboot)
  | directory =>
    rw [create, createDirectory, if_neg (by have := n.base_le; omega)] at hrun
    unfold createdEntry
    rcases hget : fs.getFreeCluster with ⟨c, fs1⟩
    rw [hget] at hrun hslot1 hboot hdisk
    dsimp only at hrun hslot1 hboot hdisk ⊢
    rw [addEntry_some _ _ _ _ _ hslot1] at hrun
    obtain rfl : _ = fs' := by simpa using hrun
    have hdot : dotName.1 ++ blankExtension.1 ≠ m.field :=
      m.field_ne_of_dot (e := newEntry dotName blankExtension 0 0 0) rfl
    have hdotdot : dotdotName.1 ++ blankExtension.1 ≠ m.field :=
      m.field_ne_of_dot (e := newEntry dotdotName blankExtension 0 0 0) rfl
    refine (SameFor.putEntry_congr hboot hdisk _).trans <| (SameFor.addEntry _ _ _ _ _ _ hdot).trans <|
      (SameFor.addEntry _ _ _ _ _ _ hdotdot).trans <| .syncFatTable hlay hcur ?_
    simpa using hboot

/-- The entry holds the bytes of the name for every file, and for a directory whose name needs no change. -/
theorem createdEntry_fullName_iff {kind : EntryKind} {behind : Nat → UInt8}
    (hext : kind = .directory → n.extension = []) : (fs.createdEntry kind n behind).fullName = n.field ↔
      kind = .file ∨ n.base.length = 8 ∧ toUpper n.base = n.base := by
  cases kind with
  | file => exact iff_of_true rfl (.inl rfl)
  | directory =>
    show (nameMemory n.base behind).1 ++ blankExtension.1 = n.field ↔ _
    rw [n.nameMemory_field_iff behind (hext rfl)]
    simp

/-- If the entry holds the bytes of a valid name at all, it is the name it was created with. -/
theorem createdEntry_fullName_eq {kind : EntryKind} {behind : Nat → UInt8}
    (hext : kind = .directory → n.extension = []) {m : ShortName}
    (h : (fs.createdEntry kind n behind).fullName = m.field) :
    (fs.createdEntry kind n behind).fullName = n.field := by
  rw [createdEntry_fullName_iff hext]
  cases kind with
  | file => exact .inl rfl
  | directory => exact .inr (n.base_of_nameMemory behind h)

theorem createdEntry_ne_root {kind : EntryKind} {behind : Nat → UInt8} :
    fs.createdEntry kind n behind ≠ rootDirectory := by
  intro h
  have hsize := congrArg DirectoryEntry.fileSize h
  cases kind <;> exact absurd hsize (by show (0 : BitVec 32) ≠ 512; decide)

/-- The names of a directory `b` after the name `n` was created in slot `i`. -/
structure NamesRight (fs fs' : Fat16) (b : Nat) (n : ShortName) (i : Nat) (e : DirectoryEntry) : Prop where
  /-- the name finds the new entry -/
  found : fs'.findInDirectory b n.str = some i ∧ fs'.readEntry b i = some e
  /-- other names find what they found -/
  others : ∀ m : ShortName, toUpper m.str ≠ toUpper n.str → ∀ j, fs.findInDirectory b m.str = some j →
    fs'.findInDirectory b m.str = some j ∧ fs'.readEntry b j = fs.readEntry b j
  /-- names that differ in upper case find different entries -/
  distinct : ∀ m m' : ShortName, toUpper m.str ≠ toUpper m'.str → ∀ j, fs'.findInDirectory b m.str = some j →
    fs'.findInDirectory b m'.str ≠ some j

/-- No entry is found under two names that differ in upper case. -/
theorem findInDirectory_distinct {m m' : ShortName} (h : toUpper m.str ≠ toUpper m'.str) {j : Nat}
    (hj : fs.findInDirectory b m.str = some j) : fs.findInDirectory b m'.str ≠ some j := by
  intro hj'
  obtain ⟨e, he, hm⟩ := entryMatches_iff.mp (findInDirectory_eq_some.mp hj).2.1
  obtain ⟨e', he', hm'⟩ := entryMatches_iff.mp (findInDirectory_eq_some.mp hj').2.1
  obtain rfl : e = e' := Option.some.inj (he.symm.trans he')
  exact h (ShortName.field_eq_iff.mp (hm.symm.trans hm'))

theorem readEntry_of_slot (hi : i < 16) (h : ¬ (b = fs.getRootDirectoryStartBlock.toNat ∧ i = 0)) :
    fs.readEntry b i = some (fs.slot b i) := by
  rw [readEntry, if_neg (by omega), if_neg h]

/-- What was read in a slot that matches a name is read there afterwards. -/
theorem SameFor.readEntry (h : SameFor n fs fs' b) (hi : i < 16) (hm : fs.entryMatches b n.str i) :
    fs'.readEntry b i = fs.readEntry b i := by
  have hroot := getRootDirectoryStartBlock_congr h.1
  by_cases hr : b = fs.getRootDirectoryStartBlock.toNat ∧ i = 0
  · simp only [Fat16.readEntry, hroot]
    rw [if_neg (by omega), if_pos hr, if_neg (by omega), if_pos hr]
  · have hread := readEntry_of_slot hi hr
    obtain ⟨e, he, hf⟩ := entryMatches_iff.mp hm
    obtain rfl : fs.slot b i = e := Option.some.inj (hread.symm.trans he)
    rw [hread, readEntry_of_slot hi (by rw [hroot]; exact hr)]
    rcases h.2 i hi with heq | ⟨hne, -⟩
    · rw [heq]
    · exact absurd hf hne

/-- A name finds the entry that was just stored in a free slot exactly if the entry holds its bytes, no earlier one
does, and the slot is not that of the root directory itself. -/
theorem found_putEntry_iff {e : DirectoryEntry} (hi : i < 16) (hne : e ≠ rootDirectory) :
    ((fs.putEntry b i e).findInDirectory b n.str = some i ∧ (fs.putEntry b i e).readEntry b i = some e) ↔
      e.fullName = n.field ∧ (∀ j < i, ¬ fs.entryMatches b n.str j) ∧
        ¬ (b = fs.getRootDirectoryStartBlock.toNat ∧ i = 0) := by
  have hbefore : ∀ j < i, (fs.putEntry b i e).entryMatches b n.str j = fs.entryMatches b n.str j := by
    intro j hj
    simp only [entryMatches, Fat16.readEntry, slot_putEntry_of_ne fs e (show b ≠ b ∨ j ≠ i from .inr (by omega))]
    rfl
  rw [findInDirectory_eq_some]
  by_cases hr : b = fs.getRootDirectoryStartBlock.toNat ∧ i = 0
  · have hread : (fs.putEntry b i e).readEntry b i = some rootDirectory := by
      rw [Fat16.readEntry, if_neg (by omega)]
      exact if_pos hr
    rw [hread]
    exact iff_of_false (fun h => hne (Option.some.inj h.2).symm) fun h => h.2.2 hr
  · have hread : (fs.putEntry b i e).readEntry b i = some e := by
      rw [Fat16.readEntry, if_neg (by omega), slot_putEntry_self]
      exact if_neg hr
    have hmatch : (fs.putEntry b i e).entryMatches b n.str i ↔ e.fullName = n.field := by
      rw [entryMatches_iff, hread]
      simp
    constructor
    · rintro ⟨⟨-, hm, hfirst⟩, -⟩
      exact ⟨hmatch.mp hm, fun j hj => hbefore j hj ▸ hfirst j hj, hr⟩
    · rintro ⟨hname, hfirst, -⟩
      exact ⟨⟨hi, hmatch.mpr hname, fun j hj => (hbefore j hj).symm ▸ hfirst j hj⟩, hread⟩

/-- The same holds after steps that are of no matter for the name. -/
theorem SameFor.found_iff {e : DirectoryEntry} (h : SameFor n fs fs' b) :
    (fs'.findInDirectory b n.str = some i ∧ fs'.readEntry b i = some e) ↔
      fs.findInDirectory b n.str = some i ∧ fs.readEntry b i = some e := by
  rw [h.findInDirectory]
  refine and_congr_right fun hfind => ?_
  obtain ⟨hi, hm, -⟩ := findInDirectory_eq_some.mp hfind
  rw [h.readEntry hi hm]

/-- After a create operation that reports success, the names of the directory are right exactly if the entry holds
the bytes of the name, no earlier entry does, and the slot is not that of the root directory itself. -/
theorem create_names_iff (fs : Fat16) (kind : EntryKind) (n : ShortName) (behind : Nat → UInt8) (i : Nat)
    (fs' : Fat16) (hlay : Layout fs) (hcur : fs.getRootDirectoryStartBlock.toNat ≤ fs.currentDirBlock.toNat)
    (hext : kind = .directory → n.extension = [])
    (hslot : freeSlot (fs.readBlock fs.currentDirBlock.toNat) = some i)
    (hrun : fs.create kind n behind = some (0, fs')) :
    NamesRight fs fs' fs.currentDirBlock.toNat n i (fs.createdEntry kind n behind) ↔
      (kind = .file ∨ n.base.length = 8 ∧ toUpper n.base = n.base) ∧
        (∀ j < i, ¬ fs.entryMatches fs.currentDirBlock.toNat n.str j) ∧
        ¬ (fs.currentDirBlock = fs.getRootDirectoryStartBlock ∧ i = 0) := by
  have hsame := create_sameFor hlay hcur hslot hrun
  obtain ⟨hi, hfree, -⟩ := freeSlot_eq_some.mp hslot
  rw [← createdEntry_fullName_iff hext, ← BitVec.toNat_inj, ← found_putEntry_iff hi createdEntry_ne_root,
    ← (hsame n).found_iff]
  refine ⟨NamesRight.found, fun hfound => ⟨hfound, fun m hm j hj => ?_, fun m m' h j =>
    findInDirectory_distinct h⟩⟩
  -- the new entry does not hold the bytes of another name
  have hother : (fs.createdEntry kind n behind).fullName ≠ m.field := fun heq =>
    hm (ShortName.field_eq_iff.mp (heq.symm.trans (createdEntry_fullName_eq hext heq)))
  have hm' := (SameFor.putEntry (m.field_ne_of_isFree hfree) hother).trans (hsame m)
  rw [hm'.findInDirectory]
  obtain ⟨hj16, hmatch, -⟩ := findInDirectory_eq_some.mp hj
  exact ⟨hj, hm'.readEntry hj16 hmatch⟩

/-- A disk whose root directory holds a label in slot 0 and nothing else. -/
def labelled : Fat16 where
  bootTable := { reservedBlocks := 1, rootDirEntries := 16, totalBlocks := 199, fatBlocks := 1 }
  fatTableMemory := fun i => if i < 5 then 0xFFFF else 0
  currentDirBlock := 2
  disk := fun b o => if b = 2 ∧ o < 11 then 0x41 else 0

/-- The name `test_dir`. -/
def testDir : ShortName where
  base := ascii "test_dir"
  extension := []
  base_pos := by decide
  base_le := by decide
  extension_le := by decide
  valid := List.all_eq_true.mp (by decide)
  not_deleted := by decide

theorem getFreeCluster_labelled : labelled.getFreeCluster = (5, labelled.allocateCluster 5) :=
  getFreeCluster_of_free (by decide) (by decide) (by decide) fun j h5 hj => absurd hj (by omega)

theorem freeSlot_labelled : freeSlot (labelled.readBlock labelled.currentDirBlock.toNat) = some 1 := by decide

theorem create_names_labelled : ∃ fs', labelled.create .file testDir (fun _ => 0) = some (0, fs') ∧
    (NamesRight labelled fs' 2 testDir 1 (labelled.createdEntry .file testDir fun _ => 0) ↔
      (EntryKind.file = .file ∨ testDir.base.length = 8 ∧ toUpper testDir.base = testDir.base) ∧
        (∀ j < 1, ¬ labelled.entryMatches 2 testDir.str j) ∧
        ¬ (labelled.currentDirBlock = labelled.getRootDirectoryStartBlock ∧ 1 = 0)) := by
  have hrun : labelled.create .file testDir (fun _ => 0) = some (0, ((labelled.allocateCluster 5).addEntry 2
      testDir.name8 testDir.extension3 flagArchive 5 0).2.syncFatTable) := by
    rw [create, createEmptyFile_str, createFile_nil, getFreeCluster_labelled, if_neg (by decide)]
    rfl
  exact ⟨_, hrun, create_names_iff labelled .file testDir _ 1 _ ⟨by decide, by decide⟩ (by decide) (by decide)
    freeSlot_labelled hrun⟩

/-- The directory `test_dir` is created, and is not found under its name. -/
theorem create_test_dir : ∃ fs', labelled.create .directory testDir (fun _ => 0) = some (0, fs') ∧
    fs'.findInDirectory 2 testDir.str = none := by
  have hrun : labelled.create .directory testDir (fun _ => 0) =
      some (0, (labelled.createDirectory testDir.base fun _ => 0).2) := rfl
  refine ⟨_, hrun, ?_⟩
  have hsame := create_sameFor ⟨by decide, by decide⟩ (by decide) freeSlot_labelled hrun testDir
  have hfind := hsame.findInDirectory
  rw [show labelled.currentDirBlock.toNat = 2 from rfl] at hfind
  rw [hfind]
  decide

end Fat16
end RetrOS.Fs
