import RetrOS.Fs.Spelling
import RetrOS.Fs.NewFile
import RetrOS.Fs.Lookup
import Mathlib.Data.List.TakeWhile

/-!
# FAT16: the names that a listing rebuilds (`fat16_list`, `fat16_find`)

* `listName` : the name both loops rebuild from an entry. They copy the bytes of the entry up to the first space,
  wherever it is, and then a dot and all of the extension unless it begins with a space;
* `Written n e` : an entry that a create operation writes for the name `n`;
* `ListedRight` : the rebuilt name fits into its buffer and is matched by the entry;
* `listedRight_iff` : a file has it unless its name has 8 characters and an extension; then the copied bytes run on
  into the extension. A directory has it only if its name has 8 characters, none of lower case and no dot.

A buffer of 13 bytes has room for 12 characters and the terminator.
-/

namespace RetrOS.Fs
open RetrOS.Lib

/-- The string in a buffer of bytes. -/
def cString (l : List UInt8) : List UInt8 := l.takeWhile (· != 0)

/-- What is written into `name`, without the terminator; none where no byte of the entry is a space. -/
def listName (e : DirectoryEntry) : Option (List UInt8) :=
  if space ∈ e.encode then
    let name := e.encode.takeWhile (· != space)
    some (if e.extension.1.head? ≠ some space then name ++ dot :: e.extension.1 else name)
  else none

/-- The name fits, and looking it up meets the entry. -/
def ListedRight (e : DirectoryEntry) : Prop :=
  ∃ name, listName e = some name ∧ name.length < 13 ∧ nameCompare (cString name) e.fullName

/-- What is written for the valid name `n`: by `fat16_create_file` the padded name in upper case, by
`fat16_create_directory`, for a string of at most 8 characters, the 8 bytes at the string. -/
inductive Written (n : ShortName) : DirectoryEntry → Prop
  | file (cluster : BitVec 16) (size : BitVec 32) :
      Written n (newEntry n.name8 n.extension3 flagArchive cluster size)
  | directory (behind : Nat → UInt8) (cluster : BitVec 16) (h8 : n.str.length ≤ 8) :
      Written n (newEntry (nameMemory n.str behind) blankExtension flagSubdirectory cluster 0)

section
variable {e : DirectoryEntry} {n : ShortName} {s t : List UInt8}

theorem listName_eq (h : e.encode = s ++ space :: t) (hs : space ∉ s) : listName e =
    some (if e.extension.1.head? ≠ some space then s ++ dot :: e.extension.1 else s) := by
  have hmem : space ∈ e.encode := by
    rw [h]
    exact List.mem_append_right _ (List.mem_cons_self ..)
  have htake : e.encode.takeWhile (· != space) = s := by
    have hne : ∀ c ∈ s, (c != space) = true := fun c hc => bne_iff_ne.mpr fun heq => hs (heq ▸ hc)
    rw [h, List.takeWhile_append_of_pos hne, List.takeWhile_cons_of_neg (by decide), List.append_nil]
  rw [listName, if_pos hmem, htake]

theorem cString_eq (h : ∀ c ∈ s, c ≠ 0) : cString s = s :=
  List.takeWhile_eq_self_iff.mpr fun c hc => bne_iff_ne.mpr (h c hc)

/-! ## Files -/

/-- Behind what is filled with spaces another space is as good as before it. -/
theorem pad_append_space (k : Nat) (s t : List UInt8) : ∃ t', pad k s ++ space :: t = s ++ space :: t' := by
  refine ⟨List.replicate (k - s.length) space ++ t, ?_⟩
  rw [pad, List.append_assoc, ← List.singleton_append, ← List.append_assoc (List.replicate ..),
    ← List.replicate_succ', List.replicate_succ, List.cons_append]

/-- The extension is blank exactly if there is none. -/
theorem ShortName.head_extension3 (n : ShortName) : n.extension3.1.head? = some space ↔ n.extension = [] := by
  show (pad 3 (toUpper n.extension)).head? = _ ↔ _
  cases hext : n.extension with
  | nil => exact iff_of_true rfl rfl
  | cons c ext =>
    have hvalid := validChar_toUpper_mem n.valid_extension (toUpperChar c) (by
      rw [hext]
      exact List.mem_cons_self ..)
    exact iff_of_false (fun h => validChar_ne_space hvalid (Option.some.inj h)) (List.cons_ne_nil c ext)

theorem space_notMem_of_valid (hs : ∀ c ∈ s, validChar c) : space ∉ s := fun hm =>
  validChar_ne_space (hs space hm) rfl

theorem dot_notMem_of_valid (hs : ∀ c ∈ s, validChar c) : dot ∉ s := fun hm => validChar_ne_dot (hs dot hm) rfl

theorem ShortName.dot_notMem_extension3 (n : ShortName) : dot ∉ n.extension3.1 := by
  intro hm
  rcases List.mem_append.mp hm with hm | hm
  · exact dot_notMem_of_valid (validChar_toUpper_mem n.valid_extension) hm
  · exact absurd (List.eq_of_mem_replicate hm) (by decide)

/-- The bytes of an entry of a file: behind the extension stands the archive attribute, which is a space. -/
theorem encode_file (n : ShortName) (cluster : BitVec 16) (size : BitVec 32) :
    ∃ t, (newEntry n.name8 n.extension3 flagArchive cluster size).encode =
      pad 8 (toUpper n.base) ++ (pad 3 (toUpper n.extension) ++ space :: t) := by
  obtain ⟨e, he⟩ : ∃ e, e = newEntry n.name8 n.extension3 flagArchive cluster size := ⟨_, rfl⟩
  refine ⟨e.reserved.1 ++ (bytes16 e.createdTime ++ (bytes16 e.createdDate ++ (bytes16 e.firstCluster ++
    bytes32 e.fileSize))), ?_⟩
  rw [DirectoryEntry.encode, he]
  simp only [List.append_assoc, List.singleton_append]
  rfl

theorem listName_file (n : ShortName) (cluster : BitVec 16) (size : BitVec 32) :
    listName (newEntry n.name8 n.extension3 flagArchive cluster size) = some
      (if n.extension = [] then toUpper n.base
      else (toUpper n.base ++ if n.base.length < 8 then [] else toUpper n.extension) ++ dot :: n.extension3.1) := by
  have hb := space_notMem_of_valid (validChar_toUpper_mem n.valid_base)
  have he := space_notMem_of_valid (validChar_toUpper_mem n.valid_extension)
  obtain ⟨t, ht⟩ := encode_file n cluster size
  by_cases hext : n.extension = []
  · obtain ⟨t1, ht1⟩ := pad_append_space 3 (toUpper n.extension) t
    obtain ⟨t2, ht2⟩ := pad_append_space 8 (toUpper n.base) t1
    rw [ht1, hext] at ht
    have henc := ht.trans ht2
    rw [listName_eq henc hb, if_pos hext]
    exact congrArg some (if_neg (not_not.mpr (n.head_extension3.mpr hext)))
  · have hhead : n.extension3.1.head? ≠ some space := fun h => hext (n.head_extension3.mp h)
    rw [if_neg hext]
    by_cases hlt : n.base.length < 8
    · obtain ⟨k, hk⟩ : ∃ k, 8 - (toUpper n.base).length = k + 1 := ⟨7 - n.base.length, by
        rw [length_toUpper]
        omega⟩
      rw [pad, hk, List.replicate_succ, List.append_assoc, List.cons_append] at ht
      rw [listName_eq ht hb, if_pos hlt, List.append_nil]
      exact congrArg some (if_pos hhead)
    · have hfull : pad 8 (toUpper n.base) = toUpper n.base := by
        have := n.base_le
        exact pad_of_length (by rw [length_toUpper]; omega)
      obtain ⟨t1, ht1⟩ := pad_append_space 3 (toUpper n.extension) t
      rw [hfull, ht1, ← List.append_assoc] at ht
      rw [listName_eq ht fun hm => (List.mem_append.mp hm).elim hb he, if_neg hlt]
      exact congrArg some (if_pos hhead)

/-- The stored name is matched in upper case, with or without the spaces behind its extension. -/
theorem ShortName.nameCompare_upper (n : ShortName) (ext : List UInt8) (hdot : dot ∉ ext) (hle : ext.length ≤ 3)
    (hpad : pad 3 (toUpper ext) = n.extension3.1) :
    nameCompare (toUpper n.base ++ if ext = [] then [] else dot :: ext) n.field := by
  obtain ⟨s, hs⟩ : ∃ s : Spelling, s = ⟨toUpper n.base, ext, by rw [length_toUpper]; exact n.base_le, hle,
    dot_notMem_of_valid (validChar_toUpper_mem n.valid_base), hdot⟩ := ⟨_, rfl⟩
  have hfield : s.field = ⟨n.field, n.length_field⟩ := by
    apply Subtype.ext
    rw [hs]
    show pad 8 (toUpper (toUpper n.base)) ++ pad 3 (toUpper ext) = n.name8.1 ++ n.extension3.1
    rw [toUpper_toUpper, hpad]
    rfl
  have hmatch := (s.nameCompare_iff ⟨n.field, n.length_field⟩).mpr hfield.symm
  rw [hs] at hmatch
  exact hmatch

/-- For a file the name is right unless it has 8 characters and an extension. -/
theorem listedRight_file (n : ShortName) (cluster : BitVec 16) (size : BitVec 32) :
    ListedRight (newEntry n.name8 n.extension3 flagArchive cluster size) ↔
      n.base.length < 8 ∨ n.extension = [] := by
  have hle := n.base_le
  have hlen3 := n.extension3.2
  have hzero8 : ∀ c ∈ toUpper n.base, c ≠ 0 := fun c hc =>
    n.field_ne_zero c (List.mem_append_left _ (List.mem_append_left _ hc))
  have hzero3 : ∀ c ∈ n.extension3.1, c ≠ 0 := fun c hc => n.field_ne_zero c (List.mem_append_right _ hc)
  rw [ListedRight, listName_file]
  by_cases hext : n.extension = []
  · rw [if_pos hext]
    refine iff_of_true ⟨_, rfl, by rw [length_toUpper]; omega, ?_⟩ (.inr hext)
    rw [cString_eq hzero8]
    have hmatch := n.nameCompare_upper [] List.not_mem_nil (Nat.zero_le 3) (by
      show _ = pad 3 (toUpper n.extension)
      rw [hext])
    rwa [if_pos rfl, List.append_nil] at hmatch
  rw [if_neg hext]
  by_cases hlt : n.base.length < 8
  · rw [if_pos hlt, List.append_nil]
    refine iff_of_true ⟨_, rfl, ?_, ?_⟩ (.inl hlt)
    · rw [List.length_append, List.length_cons, length_toUpper, hlen3]
      omega
    · have hcstr : ∀ c ∈ toUpper n.base ++ dot :: n.extension3.1, c ≠ 0 := by
        intro c hc
        rcases List.mem_append.mp hc with hc | hc
        · exact hzero8 c hc
        · rcases List.mem_cons.mp hc with rfl | hc
          · decide
          · exact hzero3 c hc
      rw [cString_eq hcstr]
      have hup : pad 3 (toUpper n.extension3.1) = n.extension3.1 := by
        rw [pad_of_length (by rw [length_toUpper, hlen3])]
        show toUpper (pad 3 (toUpper n.extension)) = pad 3 (toUpper n.extension)
        rw [toUpper_pad, toUpper_toUpper]
      have hmatch := n.nameCompare_upper n.extension3.1 n.dot_notMem_extension3 hlen3.le hup
      rwa [if_neg (List.ne_nil_of_length_pos (by omega))] at hmatch
  · refine iff_of_false ?_ (not_or.mpr ⟨hlt, hext⟩)
    rintro ⟨name, hname, hfits, -⟩
    have hpos := List.length_pos_of_ne_nil hext
    rw [if_neg hlt, Option.some.injEq] at hname
    rw [← hname, List.length_append, List.length_append, List.length_cons, length_toUpper, length_toUpper,
      hlen3] at hfits
    omega

/-! ## Directories -/

/-- The name ends in front of the first space. -/
theorem exists_first_space (s t : List UInt8) : ∃ t', s ++ space :: t = s.takeWhile (· != space) ++ space :: t' := by
  induction s with
  | nil => exact ⟨t, rfl⟩
  | cons c s ih =>
    by_cases hc : c = space
    · subst hc
      exact ⟨s ++ space :: t, by rw [List.takeWhile_cons_of_neg (by decide)]; rfl⟩
    · obtain ⟨t', ht'⟩ := ih
      exact ⟨t', by rw [List.takeWhile_cons_of_pos (by simpa using hc), List.cons_append, ht', List.cons_append]⟩

theorem listName_directory (name : Bytes 8) (cluster : BitVec 16) :
    listName (newEntry name blankExtension flagSubdirectory cluster 0) = some (name.1.takeWhile (· != space)) := by
  obtain ⟨e, he⟩ : ∃ e, e = newEntry name blankExtension flagSubdirectory cluster 0 := ⟨_, rfl⟩
  have henc : e.encode = name.1 ++ space :: ([space, space] ++ ([flagSubdirectory] ++ (e.reserved.1 ++
      (bytes16 e.createdTime ++ (bytes16 e.createdDate ++ (bytes16 e.firstCluster ++ bytes32 e.fileSize)))))) := by
    rw [DirectoryEntry.encode, he]
    simp only [List.append_assoc]
    rfl
  obtain ⟨t, ht⟩ := exists_first_space name.1 ([space, space] ++ ([flagSubdirectory] ++ (e.reserved.1 ++
    (bytes16 e.createdTime ++ (bytes16 e.createdDate ++ (bytes16 e.firstCluster ++ bytes32 e.fileSize))))))
  have hnot : space ∉ name.1.takeWhile (· != space) := fun hm =>
    absurd (List.all_eq_true.mp List.all_takeWhile space hm) (by decide)
  rw [← he, listName_eq (henc.trans ht) hnot, he]
  exact congrArg some (if_neg (show ¬ blankExtension.1.head? ≠ some space by decide))

/-- What a component matches holds no terminator and no dot in its name part, and no letter of lower case. -/
theorem truncatedBase_plain {p : List UInt8} (hp : ∀ c ∈ p, c ≠ 0) : ∀ c ∈ pad 8 (truncatedBase p),
    c ≠ 0 ∧ c ≠ dot := by
  have hall : ∀ b : BitVec 8, (⟨b⟩ : UInt8) ≠ 0 → toUpperChar ⟨b⟩ ≠ 0 := by decide
  intro c hc
  rcases List.mem_append.mp hc with hc | hc
  · refine ⟨?_, dot_notMem_truncatedBase p c hc⟩
    have hup : c ∈ toUpper p := by
      rw [truncatedBase_append p]
      exact List.mem_append_left _ hc
    obtain ⟨d, hd, rfl⟩ := List.mem_map.mp hup
    exact hall d.toBitVec (hp d hd)
  · rw [List.eq_of_mem_replicate hc]
    decide

/-- For a directory the name is right only if it has 8 characters, none of lower case, and no extension. -/
theorem listedRight_directory (n : ShortName) (behind : Nat → UInt8) (cluster : BitVec 16) (h8 : n.str.length ≤ 8) :
    ListedRight (newEntry (nameMemory n.str behind) blankExtension flagSubdirectory cluster 0) ↔
      n.extension = [] ∧ n.base.length = 8 ∧ toUpper n.base = n.base := by
  obtain ⟨e, he⟩ : ∃ e, e = newEntry (nameMemory n.str behind) blankExtension flagSubdirectory cluster 0 := ⟨_, rfl⟩
  have hfull : e.fullName = (nameMemory n.str behind).1 ++ blankExtension.1 := by
    rw [he]
    rfl
  rw [ListedRight, ← he, he, listName_directory, ← he]
  constructor
  · rintro ⟨name, hname, -, hmatch⟩
    have hzero : ∀ c ∈ cString name, c ≠ 0 := fun c hc => by
      simpa using List.all_eq_true.mp List.all_takeWhile c hc
    rw [nameCompare_iff_truncated _ ⟨e.fullName, e.length_fullName⟩] at hmatch
    have hmem : (nameMemory n.str behind).1 = pad 8 (truncatedBase (cString name)) := by
      have hval : e.fullName = _ := congrArg Subtype.val hmatch
      rw [hfull] at hval
      exact (List.append_inj hval (by rw [(nameMemory n.str behind).2, length_pad (length_truncatedBase _)])).1
    have hplain := truncatedBase_plain hzero
    rw [← hmem] at hplain
    have hlen : n.str.length = 8 := by
      by_contra hne
      exact (hplain 0 (zero_mem_nameMemory behind (by omega))).1 rfl
    rw [nameMemory_of_length behind hlen] at hmem hplain
    have hext : n.extension = [] := by
      by_contra hne
      refine (hplain dot ?_).2 rfl
      rw [ShortName.str, if_neg hne]
      exact List.mem_append_right _ (List.mem_cons_self ..)
    have hstr : n.str = n.base := by rw [ShortName.str, if_pos hext, List.append_nil]
    rw [hstr] at hlen hmem
    refine ⟨hext, hlen, ?_⟩
    rw [hmem, toUpper_pad, toUpper_truncatedBase]
  · rintro ⟨hext, hlen, hup⟩
    have hstr : n.str = n.base := by rw [ShortName.str, if_pos hext, List.append_nil]
    have hmem : (nameMemory n.str behind).1 = n.base := by
      rw [hstr]
      exact nameMemory_of_length behind hlen
    have hspace : n.base.takeWhile (· != space) = n.base :=
      List.takeWhile_eq_self_iff.mpr fun c hc => bne_iff_ne.mpr (validChar_ne_space (n.valid_base c hc))
    refine ⟨n.base, by rw [hmem, hspace], by omega, ?_⟩
    have hzero : ∀ c ∈ n.base, c ≠ 0 := by
      rintro c hc rfl
      exact absurd (n.valid_base 0 hc) (by decide)
    rw [cString_eq hzero, ← hstr, n.nameCompare_iff e.length_fullName, hfull, hstr]
    exact (n.nameMemory_field_iff behind hext).mpr ⟨hlen, hup⟩

/-- A listing rebuilds the name of a file exactly if the name has less than 8 characters or no extension, and that of
a directory exactly if it has 8 characters, none of lower case, and no extension. -/
theorem listedRight_iff (n : ShortName) (e : DirectoryEntry) (h : Written n e) : ListedRight e ↔
    if e.isDirectory then n.extension = [] ∧ n.base.length = 8 ∧ toUpper n.base = n.base
    else n.base.length < 8 ∨ n.extension = [] := by
  cases h with
  | file cluster size =>
    have hdir : (newEntry n.name8 n.extension3 flagArchive cluster size).isDirectory = false :=
      show (flagArchive &&& flagSubdirectory != 0) = false by decide
    rw [listedRight_file, hdir]
    exact Iff.rfl
  | directory behind cluster h8 =>
    have hdir : (newEntry (nameMemory n.str behind) blankExtension flagSubdirectory cluster 0).isDirectory = true :=
      show (flagSubdirectory &&& flagSubdirectory != 0) = true by decide
    rw [listedRight_directory n behind cluster h8, hdir]
    exact Iff.rfl

/-- The name `abcdefgh.txt`. -/
def fullTxt : ShortName where
  base := ascii "abcdefgh"
  extension := ascii "txt"
  base_pos := by decide
  base_le := by decide
  extension_le := by decide
  valid := List.all_eq_true.mp (by decide)
  not_deleted := by decide

/-- The entry of an empty file of that name. -/
def fullTxtEntry : DirectoryEntry := newEntry fullTxt.name8 fullTxt.extension3 flagArchive 5 0

theorem listedRight_iff_fullTxt : Written fullTxt fullTxtEntry ∧ (ListedRight fullTxtEntry ↔
    if fullTxtEntry.isDirectory then
      fullTxt.extension = [] ∧ fullTxt.base.length = 8 ∧ toUpper fullTxt.base = fullTxt.base
    else fullTxt.base.length < 8 ∨ fullTxt.extension = []) :=
  ⟨.file 5 0, listedRight_iff fullTxt fullTxtEntry (.file 5 0)⟩

/-- The rebuilt name is `ABCDEFGHTXT.TXT`, three bytes too long for its buffer. -/
theorem listName_fullTxt : Written fullTxt fullTxtEntry ∧ listName fullTxtEntry = some (ascii "ABCDEFGHTXT.TXT") ∧
    ¬ ListedRight fullTxtEntry := by
  have hname : listName fullTxtEntry = some (ascii "ABCDEFGHTXT.TXT") := by decide
  refine ⟨.file 5 0, hname, ?_⟩
  rintro ⟨name, heq, hfits, -⟩
  rw [hname, Option.some.injEq] at heq
  rw [← heq] at hfits
  exact absurd hfits (by decide)

/-! ## What the create operations write -/

theorem written_createFile {fs : Fat16} {B : Nat} {data : List UInt8} (n : ShortName) (hlay : Fat16.Layout fs)
    (hdir : Fat16.InDirectory fs) (hB : B ≤ 0xFFF8) (hslot : ∃ i < 16, (fs.slot fs.currentDirBlock.toNat i).isFree)
    (hcard : max 1 ((data.length + 511) / 512) ≤ (fs.freeBelow B).card) :
    ∃ i fs', fs.createFile n.name8 n.extension3 data = some (0, fs') ∧
      Written n (fs'.slot fs.currentDirBlock.toNat i) := by
  obtain ⟨c, i, l, fs', hrun, hnew⟩ := Fat16.createFile_eq n.name8 n.extension3 hlay hdir hB hslot hcard
  exact ⟨i, fs', hrun, hnew.slot ▸ .file _ _⟩

/-- The bytes at the name begin with its first character. -/
theorem ShortName.not_isFree (n : ShortName) (behind : Nat → UInt8) (cluster : BitVec 16) :
    ¬ (newEntry (nameMemory n.str behind) blankExtension flagSubdirectory cluster 0).isFree := by
  obtain ⟨base, ext, hpos, hle, hext, hvalid, hdel⟩ := n
  cases base with
  | nil => simp at hpos
  | cons c base =>
    have hc := hvalid c (List.mem_cons_self ..)
    intro hfree
    have hhead : (some c == some 0x00 || some c == some 0xE5) = true := hfree
    rw [Bool.or_eq_true, beq_iff_eq, beq_iff_eq, Option.some.injEq, Option.some.injEq] at hhead
    rcases hhead with rfl | rfl
    · exact absurd hc (by decide)
    · exact hdel rfl

theorem written_createDirectory {fs fs' : Fat16} {i : Nat} {behind : Nat → UInt8} (hlay : Fat16.Layout fs)
    (hcur : fs.getRootDirectoryStartBlock.toNat ≤ fs.currentDirBlock.toNat)
    (hslot : freeSlot (fs.readBlock fs.currentDirBlock.toNat) = some i)
    (hrun : fs.createDirectory n.str behind = (0, fs')) : Written n (fs'.slot fs.currentDirBlock.toNat i) := by
  have hboot := fs.bootTable_getFreeCluster
  have hdisk := fs.disk_getFreeCluster
  unfold Fat16.createDirectory at hrun
  split at hrun
  · simp at hrun
  · next h8 =>
    rcases hget : fs.getFreeCluster with ⟨c, fs1⟩
    rw [hget] at hrun hboot hdisk
    have hslot1 : freeSlot (fs1.readBlock fs.currentDirBlock.toNat) = some i := by
      rw [Fat16.readBlock, hdisk]
      exact hslot
    dsimp only at hrun hboot
    obtain ⟨-, rfl⟩ := Prod.mk.inj hrun
    have hlive : ¬ ((fs1.putEntry fs.currentDirBlock.toNat i (newEntry (nameMemory n.str behind) blankExtension
        flagSubdirectory (BitVec.ofNat 16 c) 0)).slot fs.currentDirBlock.toNat i).isFree := by
      rw [Fat16.slot_putEntry_self]
      exact n.not_isFree behind _
    -- the dot entries go to other slots, whichever block they are written to
    have hdot : ∀ (block : BitVec 16) (cluster : BitVec 16), ¬ (((fs1.putEntry fs.currentDirBlock.toNat i
        (newEntry (nameMemory n.str behind) blankExtension flagSubdirectory (BitVec.ofNat 16 c) 0)).addEntry block
        dotName blankExtension flagSubdirectory cluster 0).2.slot fs.currentDirBlock.toNat i).isFree := by
      intro block cluster
      rw [Fat16.slot_addEntry_of_live block _ _ _ _ _ hlive]
      exact hlive
    rw [Fat16.addEntry_some _ _ _ _ _ hslot1]
    dsimp only
    rw [Fat16.Layout.slot_syncFatTable, Fat16.slot_addEntry_of_live _ _ _ _ _ _ (hdot _ _),
      Fat16.slot_addEntry_of_live _ _ _ _ _ _ hlive, Fat16.slot_putEntry_self]
    · exact .directory behind _ (Nat.not_lt.mp h8)
    · refine hlay.congr ?_
      simpa using hboot
    · rw [Fat16.getRootDirectoryStartBlock_congr (by simpa using hboot)]
      exact hcur

end
end RetrOS.Fs
