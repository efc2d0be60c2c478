import RetrOS.Fs.Remove

/-!
# FAT16: renaming (`fat16_rename_entry`, `fat16_rename`)

* `renameEntry` : the first 8 bytes at the new name become the name of the entry and the next 3 its extension. They
  are copied as they are: the dot is not taken out, nothing is filled with spaces;
* `fat16Rename` : the driver's rename;
* `RenamedRight` : the new name finds the entry, the old one nothing, and other names what they found;
* `renameEntry_lost` : among the copied bytes are the dot or the terminator, so the entry matches no valid name at all;
* `fat16Rename_never` : renaming to a valid name succeeds and is never right.
-/

namespace RetrOS.Fs
open RetrOS.Lib

/-- The memory at a C string. -/
def stringMemory (name : List UInt8) (behind : Nat → UInt8) : Nat → UInt8 := Slice.write behind 0 (name ++ [0])

namespace Fat16

def renameEntry (fs : Fat16) (directory : BitVec 16) (index : Nat) (name : Nat → UInt8) : Fat16 :=
  let entry := (fs.readEntry directory.toNat index).getD .zero
  (fs.syncDirectoryEntry directory index { entry with filename := .load name 0 8, extension := .load name 8 3 }).2

/-- `behind` is the memory behind the new path. -/
def fat16Rename (fs : Fat16) (path newPath : List UInt8) (behind : Nat → UInt8) : Int × Fat16 :=
  let id := (fs.getDirectoryEntry path).1
  if id.directory.slt 0 then (-1, fs)
  else if ¬ (fs.getDirectoryEntry newPath).1.directory.slt 0 then (-2, fs)
  else (0, fs.renameEntry id.directory id.index.toNat (stringMemory newPath behind))

/-- Renaming what `path` leads to, the entry `e`, to `n`. -/
structure RenamedRight (fs fs' : Fat16) (path : List UInt8) (e : DirectoryEntry) (n : ShortName) : Prop where
  /-- in its directory the new name finds an entry of the same file -/
  renamed : ∃ i e', fs'.findInDirectory (fs.getDirectoryEntry path).1.directory.toNat n.str = some i ∧
    fs'.readEntry (fs.getDirectoryEntry path).1.directory.toNat i = some e' ∧ e'.attributes = e.attributes ∧
    e'.firstCluster = e.firstCluster ∧ e'.fileSize = e.fileSize
  gone : fs'.Unresolved path
  /-- the names of other entries find what they found -/
  others : ∀ m : ShortName, m.field ≠ n.field → fs.findInDirectory (fs.getDirectoryEntry path).1.directory.toNat m.str ≠
    some (fs.getDirectoryEntry path).1.index.toNat → fs'.findInDirectory
      (fs.getDirectoryEntry path).1.directory.toNat m.str =
        fs.findInDirectory (fs.getDirectoryEntry path).1.directory.toNat m.str

end Fat16

/-! ## The bytes of the new name -/

theorem ShortName.field_ne_dot (n : ShortName) : ∀ c ∈ n.field, c ≠ dot :=
  n.forall_mem_field (fun _ => validChar_ne_dot) (by decide)

/-- The 11 bytes that are copied. -/
def renamedField (name : Nat → UInt8) : List UInt8 := (Bytes.load name 0 8).1 ++ (Bytes.load name 8 3).1

theorem renamedField_eq (name : Nat → UInt8) : renamedField name = Slice.read name 0 11 :=
  (Slice.read_add name 0 8 3).symm

/-- What stands at the beginning of the string is copied. -/
theorem mem_renamedField {s t : List UInt8} {c : UInt8} (behind : Nat → UInt8) {p : List UInt8}
    (hp : p ++ [0] = s ++ c :: t) (hs : s.length < 11) : c ∈ renamedField (stringMemory p behind) := by
  have hcell : stringMemory p behind s.length = c := by
    have hlt : s.length < (s ++ c :: t).length := by simp
    have hread := Slice.write_inside behind (d := 0) hlt
    rw [Nat.zero_add, List.getElem_append_right (Nat.le_refl _)] at hread
    rw [stringMemory, hp, hread]
    simp
  rw [renamedField_eq]
  exact List.mem_map.mpr ⟨s.length, List.mem_range'_1.mpr ⟨Nat.zero_le _, by omega⟩, hcell⟩

/-- The dot or, without an extension, the terminator is copied. -/
theorem ShortName.mem_renamedField (n : ShortName) (behind : Nat → UInt8) :
    dot ∈ renamedField (stringMemory n.str behind) ∨ 0 ∈ renamedField (stringMemory n.str behind) := by
  have hle := n.base_le
  by_cases hext : n.extension = []
  · refine .inr (Fs.mem_renamedField (s := n.base) (t := []) behind ?_ (by omega))
    rw [str, if_pos hext, List.append_nil]
  · refine .inl (Fs.mem_renamedField (s := n.base) (t := n.extension ++ [0]) behind ?_ (by omega))
    rw [str, if_neg hext, List.append_assoc, List.cons_append]

/-- The renamed entry has no valid name. -/
theorem ShortName.renamedField_ne (n m : ShortName) (behind : Nat → UInt8) :
    renamedField (stringMemory n.str behind) ≠ m.field := by
  intro h
  rcases n.mem_renamedField behind with hm | hm
  · exact m.field_ne_dot dot (h ▸ hm) rfl
  · exact m.field_ne_zero 0 (h ▸ hm) rfl

namespace Fat16

variable {fs fs' : Fat16} {path : List UInt8} {e : DirectoryEntry} {n : ShortName}

/-! ## What is found afterwards -/

/-- The entry is stored with the bytes of the string, if the boot table allows its index. -/
theorem renameEntry_eq (fs : Fat16) (directory : BitVec 16) (index : Nat) (name : Nat → UInt8) :
    fs.renameEntry directory index name = fs ∨ ∃ e, e.fullName = renamedField name ∧
      fs.renameEntry directory index name = fs.putEntry directory.toNat (index % 16) e := by
  unfold renameEntry syncDirectoryEntry
  split
  · exact .inl rfl
  · exact .inr ⟨_, rfl, rfl⟩

/-- The slot of the entry holds the bytes of the string; the other ones are as before. -/
theorem readEntry_renameEntry (fs : Fat16) (directory : BitVec 16) (index : Nat) (name : Nat → UInt8) (j : Nat) :
    (fs.renameEntry directory index name).readEntry directory.toNat j = fs.readEntry directory.toNat j ∨
      ∃ e, (fs.renameEntry directory index name).readEntry directory.toNat j = some e ∧
        e.fullName = renamedField name := by
  rcases fs.renameEntry_eq directory index name with heq | ⟨e, hname, heq⟩
  · exact .inl (by rw [heq])
  · rw [heq]
    by_cases hold : j ≠ index % 16 ∨ directory.toNat = fs.getRootDirectoryStartBlock.toNat ∧ j = 0
    · exact .inl (readEntry_putEntry_of_ne hold)
    · rw [not_or, not_not] at hold
      obtain ⟨rfl, hroot⟩ := hold
      have hread : (fs.putEntry directory.toNat (index % 16) e).readEntry directory.toNat (index % 16) =
          some ((fs.putEntry directory.toNat (index % 16) e).slot directory.toNat (index % 16)) :=
        readEntry_of_slot (Nat.mod_lt _ (by decide)) hroot
      exact .inr ⟨e, by rw [hread, slot_putEntry_self], hname⟩

/-- A valid name that found nothing finds nothing after the renaming: no entry is renamed to it. -/
theorem findInDirectory_renameEntry (directory : BitVec 16) {index : Nat} {m : ShortName} (behind : Nat → UInt8)
    (h : fs.findInDirectory directory.toNat m.str = none) :
    (fs.renameEntry directory index (stringMemory n.str behind)).findInDirectory directory.toNat m.str = none := by
  rw [findInDirectory_eq_none] at h ⊢
  intro j hj hmatch
  obtain ⟨e, hread, hname⟩ := entryMatches_iff.mp hmatch
  rcases fs.readEntry_renameEntry directory index (stringMemory n.str behind) j with hsame | ⟨e', hread', hfield⟩
  · exact h j hj (entryMatches_iff.mpr ⟨e, hsame ▸ hread, hname⟩)
  · obtain rfl : e = e' := Option.some.inj (hread.symm.trans hread')
    exact n.renamedField_ne m behind (hfield.symm.trans hname)

/-- Renaming to a valid name that is not in use succeeds and is never right: the new name finds nothing. -/
theorem fat16Rename_never (fs : Fat16) (path : List UInt8) (e : DirectoryEntry) (n : ShortName) (behind : Nat → UInt8)
    (hfile : fs.LeadsTo path e) (hnew : fs.Unresolved n.str)
    (hunused : fs.findInDirectory (fs.getDirectoryEntry path).1.directory.toNat n.str = none) :
    ∃ fs', fs.fat16Rename path n.str behind = (0, fs') ∧ ¬ RenamedRight fs fs' path e n := by
  refine ⟨fs.renameEntry (fs.getDirectoryEntry path).1.directory (fs.getDirectoryEntry path).1.index.toNat
    (stringMemory n.str behind), ?_, fun hright => ?_⟩
  · have hslt : (fs.getDirectoryEntry n.str).1.directory.slt 0 = true := hnew
    rw [fat16Rename, if_neg hfile.1, if_neg (not_not.mpr hslt)]
  · obtain ⟨i, e', hfind, -⟩ := hright.renamed
    rw [findInDirectory_renameEntry _ behind hunused] at hfind
    cases hfind

theorem length_txt : (ascii "txt").length ≤ 3 := by decide

/-- The name `newname.txt`. -/
def newnameTxt : ShortName where
  base := ascii "newname"
  extension := ascii "txt"
  base_pos := by decide
  base_le := by decide
  extension_le := length_txt
  valid := List.all_eq_true.mp (by decide)
  not_deleted := by decide

/-- A directory with the file `test_dir` in slot 1. -/
def testFile : Fat16 := labelled.putEntry 2 1 (newEntry testDir.name8 testDir.extension3 flagArchive 5 0)

theorem leadsTo_testFile : testFile.LeadsTo testDir.str (newEntry testDir.name8 testDir.extension3 flagArchive 5 0) ∧
    testFile.Unresolved newnameTxt.str ∧
    testFile.findInDirectory (testFile.getDirectoryEntry testDir.str).1.directory.toNat newnameTxt.str = none := by
  refine ⟨⟨by decide +kernel, by decide +kernel⟩, ?_, by decide +kernel⟩
  show (testFile.getDirectoryEntry newnameTxt.str).1.directory.slt 0 = true
  decide +kernel

theorem fat16Rename_never_testFile : ∃ fs', testFile.fat16Rename testDir.str newnameTxt.str (fun _ => 0) = (0, fs') ∧
    ¬ RenamedRight testFile fs' testDir.str (newEntry testDir.name8 testDir.extension3 flagArchive 5 0) newnameTxt :=
  fat16Rename_never testFile testDir.str _ newnameTxt _ leadsTo_testFile.1 leadsTo_testFile.2.1 leadsTo_testFile.2.2

/-- The file `test_dir` is renamed to `newname.txt` and then found under neither name. -/
theorem fat16Rename_test_dir : ∃ fs', testFile.fat16Rename testDir.str newnameTxt.str (fun _ => 0) = (0, fs') ∧
    fs'.Unresolved newnameTxt.str ∧ fs'.Unresolved testDir.str ∧
    ¬ RenamedRight testFile fs' testDir.str (newEntry testDir.name8 testDir.extension3 flagArchive 5 0) newnameTxt := by
  have hrun : (testFile.fat16Rename testDir.str newnameTxt.str fun _ => 0).1 = 0 := by decide +kernel
  refine ⟨(testFile.fat16Rename testDir.str newnameTxt.str fun _ => 0).2, Prod.ext hrun rfl, ?_, ?_, fun hright => ?_⟩
  · show ((testFile.fat16Rename testDir.str newnameTxt.str fun _ => 0).2.getDirectoryEntry
      newnameTxt.str).1.directory.slt 0 = true
    decide +kernel
  · show ((testFile.fat16Rename testDir.str newnameTxt.str fun _ => 0).2.getDirectoryEntry
      testDir.str).1.directory.slt 0 = true
    decide +kernel
  · obtain ⟨i, e', hfind, -⟩ := hright.renamed
    have hnone : (testFile.fat16Rename testDir.str newnameTxt.str fun _ => 0).2.findInDirectory
        (testFile.getDirectoryEntry testDir.str).1.directory.toNat newnameTxt.str = none := by decide +kernel
    rw [hnone] at hfind
    cases hfind

end Fat16
end RetrOS.Fs
