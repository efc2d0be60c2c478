import RetrOS.Fs.Created
import RetrOS.Fs.Files

/-!
# FAT16: freeing a chain and removing a file (`fat16_free_clusters`, `fat16_remove`)

* `FreesChain` : the loop ends, the entries of the chain are free and the other ones are as before;
* `freesChain_iff` : it does so for the empty chain only. The loop asks the entry it has just cleared where the chain
  goes on, so behind the first cluster it frees entry 0 again and again (`freeClusters_rounds`);
* `fat16Remove` : the driver's remove. It refuses every entry with an attribute;
* `RemovesRight` : created files can be removed, directories and the label cannot;
* `removesRight_iff` : no path to a created file has it. What `fat16_create_file` adds has the archive attribute
  (`createFile_isCreatedFile`), so removing it fails (`fat16Remove_created`).
-/

namespace RetrOS.Fs
open RetrOS.Lib

namespace Fat16

variable {fs fs' : Fat16} {first : Nat} {l : List Nat} {path : List UInt8}

/-! ## Freeing a chain -/

/-- Freeing the clusters of the chain `l` from `first`. -/
def FreesChain (fs : Fat16) (first : Nat) (l : List Nat) : Prop :=
  ∃ fuel count fs', freeClusters fuel fs first = some (count, fs') ∧ (∀ c ∈ l, fs'.getFatEntry c = 0) ∧
    ∀ c < 2 ^ 31, c ∉ l → fs'.getFatEntry c = fs.getFatEntry c

/-- From the second round on the loop is at cluster 0. -/
theorem freeClusters_rounds (fuel : Nat) (hfirst : first ≠ 0xFFFF) : freeClusters (fuel + 1) fs first =
    (freeClusters fuel (fs.freeCluster first) 0).map fun (count, fs) => (count + 1, fs) := by
  rw [freeClusters, if_pos hfirst]
  dsimp only
  rw [show (fs.freeCluster first).getFatEntry first = 0 from getFatEntry_setFatEntry_self ..]
  rfl

/-- A chain is freed exactly if it has no cluster. -/
theorem freesChain_iff (fs : Fat16) (first : Nat) (l : List Nat) (h : fs.IsChain first l) :
    fs.FreesChain first l ↔ l = [] := by
  constructor
  · rintro ⟨fuel, count, fs', hrun, -⟩
    by_contra hne
    have hhead := (h.range _ (h.path.head hne)).2
    rw [freeClusters_eq_none fuel (by omega)] at hrun
    exact absurd hrun (by simp)
  · rintro rfl
    have hfirst : first = 0xFFFF := h.path
    refine ⟨1, 0, fs, ?_, fun c hc => absurd hc List.not_mem_nil, fun _ _ _ => rfl⟩
    rw [freeClusters, if_neg (not_not.mpr hfirst)]

/-- A table with the chain 5, 6 and nothing else. -/
def twoClusters : Fat16 where
  bootTable := ⟨1, 512, 513, 2⟩
  fatTableMemory i := if i = 5 then 6 else if i = 6 then 0xFFFF else 0
  currentDirBlock := 3
  disk _ _ := 0

theorem freesChain_iff_twoClusters : twoClusters.IsChain 5 [5, 6] ∧
    (twoClusters.FreesChain 5 [5, 6] ↔ [5, 6] = []) := by
  have h : twoClusters.IsChain 5 [5, 6] := ⟨by decide, by decide⟩
  exact ⟨h, freesChain_iff _ 5 [5, 6] h⟩

theorem freeClusters_endless : twoClusters.IsChain 5 [5, 6] ∧ ¬ twoClusters.FreesChain 5 [5, 6] := by
  refine ⟨⟨by decide, by decide⟩, ?_⟩
  rintro ⟨fuel, count, fs', hrun, -⟩
  rw [freeClusters_eq_none fuel (by decide)] at hrun
  exact absurd hrun (by simp)

/-! ## Removing a file -/

def fat16Remove (fuel : Nat) (fs : Fat16) (path : List UInt8) : Option (Int × Fat16) :=
  let (id, entry) := fs.getDirectoryEntry path
  if id.directory.slt 0 then some (-1, fs)
  else if (entry.getD .zero).attributes ≠ 0 then some (-2, fs)
  else
    (fs.deleteEntry fuel id.directory id.index.toNat).map fun (r, fs) => if r ≠ 0 then (-3, fs) else (0, fs)

/-- The path leads to the entry `e`. -/
def LeadsTo (fs : Fat16) (path : List UInt8) (e : DirectoryEntry) : Prop :=
  ¬ (fs.getDirectoryEntry path).1.directory.slt 0 ∧ (fs.getDirectoryEntry path).2 = some e

/-- The path leads nowhere. -/
def Unresolved (fs : Fat16) (path : List UInt8) : Prop := (fs.getDirectoryEntry path).1.directory.slt 0

/-- What `fat16_create_file` writes into a directory, whatever size the file has since got. -/
def IsCreatedFile (e : DirectoryEntry) : Prop :=
  ∃ filename ext cluster size, e = newEntry filename ext flagArchive cluster size

structure RemovesRight (fs : Fat16) (path : List UInt8) : Prop where
  /-- a file is gone, and what other paths lead to is as before -/
  file : ∀ e, fs.LeadsTo path e → IsCreatedFile e → ∃ fuel fs', fs.fat16Remove fuel path = some (0, fs') ∧
    fs'.Unresolved path ∧ ∀ q, (fs.getDirectoryEntry q).1 ≠ (fs.getDirectoryEntry path).1 →
      fs'.getDirectoryEntry q = fs.getDirectoryEntry q
  /-- a directory or the label stays -/
  refused : ∀ e, fs.LeadsTo path e → e.isDirectory ∨ e.attributes &&& flagVolumeLabel ≠ 0 → ∀ fuel, ∃ r < 0,
    fs.fat16Remove fuel path = some (r, fs)

theorem LeadsTo.unique {e e' : DirectoryEntry} (h : fs.LeadsTo path e) (h' : fs.LeadsTo path e') : e = e' :=
  Option.some.inj (h.2.symm.trans h'.2)

/-- Every entry with an attribute is refused. -/
theorem fat16Remove_of_attributes {e : DirectoryEntry} (h : fs.LeadsTo path e) (he : e.attributes ≠ 0) (fuel : Nat) :
    fs.fat16Remove fuel path = some (-2, fs) := by
  obtain ⟨hdir, hentry⟩ := h
  rw [fat16Remove]
  rcases hget : fs.getDirectoryEntry path with ⟨id, entry⟩
  rw [hget] at hdir hentry
  dsimp only at hdir hentry ⊢
  rw [if_neg hdir, hentry, Option.getD_some, if_pos he]

theorem IsCreatedFile.attributes {e : DirectoryEntry} (h : IsCreatedFile e) : e.attributes = flagArchive := by
  obtain ⟨_, _, _, _, rfl⟩ := h
  rfl

/-- A created file is refused as well. -/
theorem fat16Remove_created {e : DirectoryEntry} (h : fs.LeadsTo path e) (he : IsCreatedFile e) (fuel : Nat) :
    fs.fat16Remove fuel path = some (-2, fs) := by
  refine fat16Remove_of_attributes h ?_ fuel
  rw [he.attributes]
  decide

/-- Directories and the label are not removed. -/
theorem fat16Remove_refused {e : DirectoryEntry} (h : fs.LeadsTo path e)
    (he : e.isDirectory ∨ e.attributes &&& flagVolumeLabel ≠ 0) (fuel : Nat) :
    fs.fat16Remove fuel path = some (-2, fs) := by
  refine fat16Remove_of_attributes h (fun hzero => ?_) fuel
  rw [DirectoryEntry.isDirectory, hzero] at he
  exact absurd he (by decide)

/-- Removing works as it should exactly for the paths that lead to no created file. -/
theorem removesRight_iff (fs : Fat16) (path : List UInt8) :
    fs.RemovesRight path ↔ ¬ ∃ e, fs.LeadsTo path e ∧ IsCreatedFile e := by
  constructor
  · rintro hright ⟨e, hlead, hfile⟩
    obtain ⟨fuel, fs', hrun, -⟩ := hright.file e hlead hfile
    rw [fat16Remove_created hlead hfile fuel] at hrun
    exact absurd (Prod.mk.inj (Option.some.inj hrun)).1 (by decide)
  · intro hno
    refine ⟨fun e hlead hfile => absurd ⟨e, hlead, hfile⟩ hno, fun e hlead hattr fuel => ?_⟩
    exact ⟨-2, by decide, fat16Remove_refused hlead hattr fuel⟩

/-! ## What is created -/

/-- The entry that `fat16_create_file` adds is one of a created file. -/
theorem createFile_isCreatedFile {B : Nat} {data : List UInt8} (filename : Bytes 8) (ext : Bytes 3)
    (hlay : Layout fs) (hdir : InDirectory fs) (hB : B ≤ 0xFFF8)
    (hslot : ∃ i < 16, (fs.slot fs.currentDirBlock.toNat i).isFree)
    (hcard : max 1 ((data.length + 511) / 512) ≤ (fs.freeBelow B).card) :
    ∃ i fs', fs.createFile filename ext data = some (0, fs') ∧
      IsCreatedFile (fs'.slot fs.currentDirBlock.toNat i) := by
  obtain ⟨c, i, m, fs', hrun, hnew⟩ := createFile_eq filename ext hlay hdir hB hslot hcard
  exact ⟨i, fs', hrun, _, _, _, _, hnew.slot⟩

/-- The entry that creating an empty file adds is one of a created file. -/
theorem createdEntry_isCreatedFile (fs : Fat16) (n : ShortName) (behind : Nat → UInt8) :
    IsCreatedFile (fs.createdEntry .file n behind) := ⟨_, _, _, _, rfl⟩

/-- A valid name is one component. -/
theorem tokens_str (n : ShortName) : tokens [] n.str = [n.str] ∧ n.str.head? ≠ some slash := by
  have hslash : slash ∉ n.str := by
    have hvalid : slash ∉ n.base ++ n.extension := fun h => absurd (n.valid slash h) (by decide)
    rw [List.mem_append, not_or] at hvalid
    rw [ShortName.str, List.mem_append, not_or]
    refine ⟨hvalid.1, ?_⟩
    split
    · exact List.not_mem_nil
    · exact List.not_mem_cons_of_ne_of_not_mem (by decide) hvalid.2
  have hne : n.str ≠ [] := fun h => absurd n.base_pos (by
    rw [(List.append_eq_nil_iff.mp h).1]
    decide)
  refine ⟨?_, fun h => hslash (List.mem_of_mem_head? h)⟩
  have happ := @tokens_append n.str [] [] hslash
  rw [List.append_nil, List.nil_append] at happ
  rw [happ, tokens, if_neg hne]

/-- Opening a name that leads nowhere with the create flag: it then leads to a created file. -/
theorem fat16Open_isCreatedFile {s t : FileTable} {n : ShortName} {flags : BitVec 32} {i : FileSlot}
    (hlay : Layout s.fat16) (hcur : s.fat16.getRootDirectoryStartBlock.toNat ≤ s.fat16.currentDirBlock.toNat)
    (hmissing : s.Missing n.str) (hopen : s.fat16Open n.str flags = some (some i, t)) :
    ∃ e, t.fat16.LeadsTo n.str e ∧ IsCreatedFile e := by
  obtain ⟨htok, hhead⟩ := tokens_str n
  unfold FileTable.fat16Open at hopen
  split at hopen
  · simp at hopen
  split at hopen
  · simp at hopen
  split at hopen
  · obtain ⟨⟨r, fs'⟩, hcreate, hfound⟩ := Option.map_eq_some_iff.mp hopen
    dsimp only at hfound
    split at hfound
    · simp at hfound
    · next hthere =>
      have ht : t.fat16 = fs' := (FileTable.openFound_some hfound).fat16
      have hcur' := currentDirBlock_createEmptyFile hcreate
      have hgone := hthere
      rw [FileTable.missing_one htok hhead] at hgone hmissing
      obtain ⟨hfind, hslt⟩ := not_or.mp hgone
      obtain ⟨j, hj⟩ := Option.ne_none_iff_exists'.mp hfind
      dsimp only at hj hslt
      rw [hcur'] at hj hslt
      have hentry := created_entry hlay hcur (hmissing.resolve_right hslt) hcreate hj
      refine ⟨_, ⟨?_, ?_⟩, createdEntry_isCreatedFile s.fat16 n fun _ => 0⟩
      · rw [ht]
        exact hthere
      · rw [ht, getDirectoryEntry_one htok hhead, hcur', hj]
        dsimp only
        rw [hentry, Option.getD_some]
  · simp at hopen

/-- A disk without a file; nothing is open. -/
def labelledTable : FileTable := ⟨labelled, fun _ => .zero⟩

/-- The file `test_dir` is created by an open and cannot be removed. -/
theorem fat16Remove_test_dir : ∃ t, labelledTable.fat16Open testDir.str fsFileFlagCreate = some (some 0, t) ∧
    (∃ e, t.fat16.LeadsTo testDir.str e ∧ IsCreatedFile e) ∧ ¬ t.fat16.RemovesRight testDir.str ∧
    ∀ fuel, t.fat16.fat16Remove fuel testDir.str = some (-2, t.fat16) := by
  have hmissing : labelledTable.Missing testDir.str := by decide
  have hfst : (labelledTable.fat16Open testDir.str fsFileFlagCreate).map Prod.fst = some (some 0) := by
    decide +kernel
  obtain ⟨⟨_, t⟩, hopen, rfl⟩ := Option.map_eq_some_iff.mp hfst
  obtain ⟨e, hlead, hfile⟩ := fat16Open_isCreatedFile ⟨by decide, by decide⟩ (by decide) hmissing hopen
  refine ⟨t, hopen, ⟨e, hlead, hfile⟩, fun hright => ?_, fat16Remove_created hlead hfile⟩
  obtain ⟨fuel, fs', hrun, -⟩ := hright.file e hlead hfile
  rw [fat16Remove_created hlead hfile fuel] at hrun
  exact absurd (Prod.mk.inj (Option.some.inj hrun)).1 (by decide)

end Fat16
end RetrOS.Fs
