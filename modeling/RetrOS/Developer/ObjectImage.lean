import RetrOS.Developer.Commands
import RetrOS.Fs.Created

/-!
# What becomes of the image of `as`

`as` opens `bytecode.o` to create it and not to write it, and does not look at what `fs_write` returns.

* `as_sameFiles`, `as_created` : behind `as` the file is what it was before, or it is new and empty;
* `rc_as` : so `rc` does what it would have done before, or returns -1;
* `rc_as_alike_iff` : it does what `cc` does if and only if it did so before.
-/

namespace RetrOS.Lex
open RetrOS.Interpreter RetrOS.Fs RetrOS.Fs.FileTable RetrOS.Lib

/-- Both commands come to `eval`, and to the same results. -/
def Agrees (sys : SysCall → Vm → Word × Memory) : Launch → Launch → Prop
  | .runs vm, .runs vm' => ∀ ret, Exits sys vm ret ↔ Exits sys vm' ret
  | _, _ => False

variable {accepts : Int → Prop} [DecidablePred accepts] {s t : FileTable} {path image : List UInt8}
  {bytes : List UInt8} {fd : Int}

/-! ## The files -/

/-- The three ways of an open for reading. -/
theorem fsOpen_read_cases (h : SameFiles s t) (path : List UInt8) :
    s.fsOpen path 1 = none ∧ t.fsOpen path 1 = none ∨
    s.fsOpen path 1 = some (-1, s) ∧ t.fsOpen path 1 = some (-1, t) ∨
    ∃ i file, Opened s (s.setFile i file) i 1 ∧ s.fsOpen path 1 = some (fsFile2fd i, s.setFile i file) ∧
      t.fsOpen path 1 = some (fsFile2fd i, t.setFile i file) := by
  have hflags : (1 : BitVec 32) &&& fsFileFlagCreate = 0 := by decide
  rw [fsOpen_eq hflags, fsOpen_eq hflags]
  by_cases hlen : 255 < path.length
  · rw [if_pos hlen, if_pos hlen]
    exact .inr (.inl ⟨rfl, rfl⟩)
  rw [if_neg hlen, if_neg hlen]
  by_cases htok : ¬TokenFits path
  · rw [if_pos htok, if_pos htok]
    exact .inl ⟨rfl, rfl⟩
  rw [if_neg htok, if_neg htok]
  by_cases hmissing : s.Missing path
  · rw [if_pos hmissing, if_pos (h.missing.mpr hmissing)]
    exact .inr (.inl ⟨rfl, rfl⟩)
  rw [if_neg hmissing, if_neg fun hm => hmissing (h.missing.mp hm), h.fsAllocFile, h.fat16]
  cases halloc : s.fsAllocFile with
  | none => exact .inr (.inl ⟨rfl, rfl⟩)
  | some i => exact .inr (.inr ⟨i, _, setFile_opened halloc, rfl, rfl⟩)

/-- What a command reads, behind its open. -/
theorem readFile_eq (hopen : s.fsOpen path 1 = some (fd, t)) : readFile accepts s path =
    if accepts fd then
      if (t.fsRead fd maxFileSize).1.1 ≤ 0 then some (none, (t.fsRead fd maxFileSize).2)
      else some (some (t.fsRead fd maxFileSize).1.2, ((t.fsRead fd maxFileSize).2.fsClose fd).2)
    else some (none, t) := by
  unfold readFile
  rw [hopen]
  dsimp only [Option.bind_eq_bind, Option.bind_some]
  by_cases hfd : accepts fd
  · rw [if_neg (not_not_intro hfd), if_pos hfd]
    obtain ⟨⟨i, bytes⟩, u⟩ := t.fsRead fd maxFileSize
    dsimp only
    split <;> rfl
  · rw [if_pos hfd, if_neg hfd]
    rfl

/-- Reading a file leaves the table as it was. -/
theorem readFile_sameFiles (hneg : ¬accepts (-1)) (h : readFile accepts s path = some (some bytes, t)) :
    SameFiles s t := by
  rcases fsOpen_read_cases (.refl s) path with ⟨hopen, -⟩ | ⟨hopen, -⟩ | ⟨i, file, hopened, hopen, -⟩
  · unfold readFile at h
    rw [hopen] at h
    cases h
  · rw [readFile_eq hopen, if_neg hneg] at h
    cases h
  · rw [readFile_eq hopen] at h
    split at h
    · split at h
      · cases (Prod.mk.inj (Option.some.inj h)).1
      · obtain ⟨-, rfl⟩ := Prod.mk.inj (Option.some.inj h)
        exact (hopened.fsRead maxFileSize).close (by decide)
    · cases (Prod.mk.inj (Option.some.inj h)).1

/-- What is read is decided by the disk and the slots in use. -/
theorem readFile_congr (h : SameFiles s t) (hneg : ¬accepts (-1)) (path : List UInt8) :
    (readFile accepts t path).map Prod.fst = (readFile accepts s path).map Prod.fst := by
  rcases fsOpen_read_cases h path with ⟨hs, ht⟩ | ⟨hs, ht⟩ | ⟨i, file, -, hs, ht⟩
  · unfold readFile
    rw [hs, ht]
  · rw [readFile_eq hs, readFile_eq ht, if_neg hneg, if_neg hneg, Option.map_some, Option.map_some]
  · rw [readFile_eq hs, readFile_eq ht, fsRead_setFile_congr h.fat16]
    split
    · split <;> rw [Option.map_some, Option.map_some]
    · rw [Option.map_some, Option.map_some]

theorem rc_fst (a : Areas) (s : FileTable) (path : List UInt8) (argc argv : Word) :
    (rc a s path argc argv).map Prod.fst =
      ((readFile (0 < ·) s path).map Prod.fst).map fun bytes =>
        match bytes with
        | none => .returned (-1)
        | some bytes => .runs (launch a bytes argc argv) := by
  unfold rc
  rcases readFile (0 < ·) s path with _ | ⟨_ | bytes, t⟩ <;> rfl

theorem rc_congr (h : SameFiles s t) (a : Areas) (path : List UInt8) (argc argv : Word) :
    (rc a t path argc argv).map Prod.fst = (rc a s path argc argv).map Prod.fst := by
  rw [rc_fst, rc_fst, readFile_congr h (by decide)]

/-! ## The image -/

/-- An open to create: the file is there, or it is created first. -/
theorem fsOpen_create_cases (hopen : s.fsOpen path fsFileFlagCreate = some (fd, t)) (hfd : 0 < fd) :
    ∃ i u, fd = fsFile2fd i ∧ Opened u t i fsFileFlagCreate ∧ ¬u.Missing path ∧ u.fsFileTable = s.fsFileTable ∧
      if s.Missing path then ∃ r, s.fat16.createEmptyFile path = some (r, u.fat16) else u = s := by
  obtain ⟨⟨slot, v⟩, hr, hfdv⟩ := Option.map_eq_some_iff.mp hopen
  -- the open gave a descriptor, so it filled a slot
  obtain ⟨i, rfl⟩ : ∃ i, slot = some i := by
    cases slot with
    | some i => exact ⟨i, rfl⟩
    | none =>
      obtain rfl : -1 = fd := (Prod.mk.inj hfdv).1
      exact absurd hfd (by decide)
  obtain ⟨rfl, rfl⟩ := Prod.mk.inj hfdv
  unfold fat16Open at hr
  split at hr
  · cases (Prod.mk.inj (Option.some.inj hr)).1
  split at hr
  · cases hr
  by_cases hmissing : s.Missing path
  · rw [if_pos hmissing, if_pos (by decide)] at hr
    split at hr
    · cases (Prod.mk.inj (Option.some.inj hr)).1
    obtain ⟨⟨ret, fs'⟩, hcreate, hopened⟩ := Option.map_eq_some_iff.mp hr
    dsimp only at hopened
    split at hopened
    · cases (Prod.mk.inj hopened).1
    · next hthere =>
      refine ⟨i, _, rfl, openFound_some hopened, hthere, rfl, ?_⟩
      rw [if_pos hmissing]
      exact ⟨ret, hcreate⟩
  · rw [if_neg hmissing] at hr
    refine ⟨i, s, rfl, openFound_some (Option.some.inj hr), hmissing, rfl, ?_⟩
    rw [if_neg hmissing]

/-- A file that is opened to be created is not written. -/
theorem fsWrite_created {u : FileTable} {i : FileSlot} (h : Opened u t i fsFileFlagCreate) (image : List UInt8) :
    t.fsWrite (fsFile2fd i) image = some (-2, t) := by
  unfold fsWrite
  rw [slotOf_fsFile2fd]
  dsimp only
  rw [if_pos (by rw [h.flags]; decide)]

/-- The end of `as`: the disk is as it was when the file had been found or created. -/
theorem writeOut_cases (h : writeOut s image = some (.returned 0, t)) :
    ∃ u, SameFiles u t ∧ ¬u.Missing defaultOut ∧ u.fsFileTable = s.fsFileTable ∧
      if s.Missing defaultOut then ∃ r, s.fat16.createEmptyFile defaultOut = some (r, u.fat16) else u = s := by
  unfold writeOut at h
  cases hopen : s.fsOpen defaultOut fsFileFlagCreate with
  | none =>
    rw [hopen] at h
    cases h
  | some p =>
    obtain ⟨fd, v⟩ := p
    rw [hopen] at h
    dsimp only [Option.bind_eq_bind, Option.bind_some] at h
    by_cases hfd : fd ≤ 0
    · rw [if_pos hfd] at h
      cases (Prod.mk.inj (Option.some.inj h)).1
    · obtain ⟨i, u, rfl, hopened, hthere, hfiles, hcreate⟩ := fsOpen_create_cases hopen (by omega)
      rw [if_neg hfd, fsWrite_created hopened] at h
      obtain ⟨-, rfl⟩ := Prod.mk.inj (Option.some.inj h)
      exact ⟨u, hopened.close (by decide), hthere, hfiles, hcreate⟩

/-- `bytecode.o`, as a valid name. -/
def defaultOutName : ShortName where
  base := ascii "bytecode"
  extension := ascii "o"
  base_pos := by decide
  base_le := by decide
  extension_le := by decide
  valid := List.all_eq_true.mp (by decide)
  not_deleted := by decide

theorem str_defaultOutName : defaultOutName.str = defaultOut := by decide

theorem tokens_defaultOut : tokens [] defaultOut = [defaultOut] := by decide

theorem head_defaultOut : defaultOut.head? ≠ some slash := by decide

/-- A directory with room for the file system: the standing facts of a mounted disk. -/
structure Mounted (s : FileTable) : Prop where
  layout : Fat16.Layout s.fat16
  current : s.fat16.getRootDirectoryStartBlock.toNat ≤ s.fat16.currentDirBlock.toNat

/-- What an open for reading finds in the file that was created. -/
theorem rc_created {u : FileTable} (hs : Mounted s) (hmissing : s.Missing defaultOut) {r : Int}
    (hcreate : s.fat16.createEmptyFile defaultOut = some (r, u.fat16)) (hthere : ¬u.Missing defaultOut)
    (a : Areas) (argc argv : Word) : (rc a u defaultOut argc argv).map Prod.fst = some (.returned (-1)) := by
  have hfound := hthere
  rw [← str_defaultOutName] at hcreate
  have hcur := Fat16.currentDirBlock_createEmptyFile hcreate
  rw [missing_one tokens_defaultOut head_defaultOut] at hmissing hthere
  obtain ⟨hfind, hslt⟩ := not_or.mp hthere
  obtain ⟨index, hfind⟩ := Option.ne_none_iff_exists'.mp hfind
  have hnone := hmissing.resolve_right fun h => hslt (hcur ▸ h)
  have hempty := Fat16.created_empty (n := defaultOutName) (j := index) hs.layout hs.current
    (str_defaultOutName ▸ hnone) hcreate (by rw [str_defaultOutName, ← hcur]; exact hfind)
  obtain ⟨e, hentry, hsize, hdir⟩ := hempty
  rw [← hcur] at hentry
  have hread : (readFile (0 < ·) u defaultOut).map Prod.fst = some none := by
    have hopen : u.fsOpen defaultOut 1 = _ := fsOpen_eq (by decide)
    rw [if_neg (by decide), if_neg (by decide), if_neg hfound] at hopen
    cases halloc : u.fsAllocFile with
    | none =>
      rw [halloc] at hopen
      rw [readFile_eq hopen, if_neg (by decide), Option.map_some]
    | some i =>
      rw [halloc] at hopen
      have hzero : ((u.setFile i (openedFile u.fat16 defaultOut 1)).fsRead (fsFile2fd i) maxFileSize).1.1 ≤ 0 :=
        fsRead_empty tokens_defaultOut head_defaultOut hfind hentry hsize hdir hfound (by decide)
      rw [readFile_eq hopen]
      split
      · rw [Option.map_some]
      · rw [Option.map_some]
  rw [rc_fst, hread, Option.map_some]

variable {n : Nat} {a : Areas}

/-- What `as` has done before it writes the image. -/
theorem as_writeOut (h : as n a s path = some (.returned 0, t)) :
    ∃ u image, SameFiles s u ∧ writeOut u image = some (.returned 0, t) := by
  unfold as at h
  cases hread : readFile (0 < ·) s path with
  | none =>
    rw [hread] at h
    cases h
  | some p =>
    obtain ⟨_ | bytes, u⟩ := p
    · rw [hread] at h
      cases (Prod.mk.inj (Option.some.inj h)).1
    · rw [hread] at h
      dsimp only [Option.bind_eq_bind, Option.bind_some] at h
      have hsame := readFile_sameFiles (by decide) hread
      split at h
      · cases (Prod.mk.inj (Option.some.inj h)).1
      · exact ⟨u, _, hsame, h⟩

/-- Behind `as`, `rc` does what it would have done before, or comes to an empty file. -/
theorem rc_as (hs : Mounted s) (h : as n a s path = some (.returned 0, t)) (b : Areas) (argc argv : Word) :
    (rc b t defaultOut argc argv).map Prod.fst =
      if s.Missing defaultOut then some (.returned (-1)) else (rc b s defaultOut argc argv).map Prod.fst := by
  obtain ⟨u, image, hsame, hout⟩ := as_writeOut h
  obtain ⟨v, hclosed, hthere, -, hcreate⟩ := writeOut_cases hout
  rw [rc_congr hclosed]
  split
  · next hmissing =>
    rw [if_pos (hsame.missing.mpr hmissing), hsame.fat16] at hcreate
    obtain ⟨r, hcreate⟩ := hcreate
    exact rc_created hs hmissing hcreate hthere b argc argv
  · next hmissing =>
    rw [if_neg fun hm => hmissing (hsame.missing.mp hm)] at hcreate
    rw [hcreate, rc_congr hsame]

/-- `rc` on `bytecode.o` with the files `t` does what `cc` does on the source with the files `s`. -/
def RunsAlike (sys : SysCall → Vm → Word × Memory) (n : Nat) (b c : Areas) (t s : FileTable) (path : List UInt8)
    (argc argv : Word) : Prop :=
  ∃ r o, (rc b t defaultOut argc argv).map Prod.fst = some r ∧ (cc n c s path argc argv).map Prod.fst = some o ∧
    Agrees sys r o

/-- Behind `as`, `rc` on the image does what `cc` does on the source if and only if `bytecode.o` had been there before
and `rc` did so then. -/
theorem rc_as_alike_iff (sys : SysCall → Vm → Word × Memory) (hs : Mounted s)
    (has : as n a s path = some (.returned 0, t)) (b c : Areas) (argc argv : Word) :
    RunsAlike sys n b c t s path argc argv ↔ ¬s.Missing defaultOut ∧ RunsAlike sys n b c s s path argc argv := by
  unfold RunsAlike
  rw [rc_as hs has]
  split
  · next hmissing =>
    refine iff_of_false ?_ fun h => h.1 hmissing
    rintro ⟨r, o, hr, -, hagrees⟩
    obtain rfl := Option.some.inj hr
    exact hagrees
  · next hmissing => exact ⟨fun h => ⟨hmissing, h⟩, And.right⟩

/-! ## A program of one function -/

def mainText : List UInt8 := ascii "int main(){return 5;}"

def mainEntry : DirectoryEntry := newEntry ⟨ascii "A       ", by decide⟩ ⟨ascii "C  ", by decide⟩ flagArchive 5 21

/-- The program in the file `a.c`, in the cluster 5; slot 0 of the directory is a label. -/
def mainDisk : Fat16 :=
  let fs := { Fat16.labelled with fatTableMemory := fun i => if i < 6 then 0xFFFF else 0 }
  (fs.putEntry 2 1 mainEntry).writeBlock (Slice.write (fun _ => 0) 0 mainText) (fs.directoryBlock 5)

/-- One other file is open. -/
def mainFiles : FileTable := ⟨mainDisk, fun i => if (i : Nat) = 0 then ⟨1, 0, 1, 0, 2, 512⟩ else .zero⟩

def mainAreas : Areas := ⟨0x10000, 0x20000, 0x40000, 0x50000, fun _ => 0⟩

/-- System functions that do nothing. -/
def noSys : SysCall → Vm → Word × Memory := fun _ vm => (0, vm.mem)

theorem mounted_mainFiles : Mounted mainFiles := ⟨⟨by decide, by decide⟩, by decide⟩

theorem missing_mainFiles : mainFiles.Missing defaultOut := by decide +kernel

/-- The command returned `n`. -/
def Launch.returns (n : Int) : Launch → Bool
  | .returned m => m == n
  | _ => false

theorem Launch.eq_of_returns {n : Int} {r : Launch} (h : r.returns n = true) : r = .returned n := by
  cases r with
  | returned m => exact congrArg Launch.returned (beq_iff_eq.mp h)
  | exited e => cases h
  | runs vm => cases h

/-- The program exits after `k` turns with `n`. -/
def Launch.exitsAfter (k : Nat) (n : Word) : Launch → Bool
  | .runs vm => (evalSteps noSys k vm).any fun vm =>
      Op.decode (vm.mem.loadInt vm.pc) == some (.sys .exit) && vm.top == n
  | _ => false

theorem Launch.exits_of_exitsAfter {k : Nat} {n : Word} {r : Launch} (h : r.exitsAfter k n = true) :
    ∃ vm, r = .runs vm ∧ Exits noSys vm n := by
  cases r with
  | returned m => cases h
  | exited e => cases h
  | runs vm =>
    rw [exitsAfter, Option.any_eq_true] at h
    obtain ⟨vm', hsteps, hexit⟩ := h
    rw [Bool.and_eq_true, beq_iff_eq, beq_iff_eq] at hexit
    exact ⟨vm, rfl, k, vm', hsteps, hexit.1, hexit.2⟩

theorem as_mainFiles : ∃ t, as 24 mainAreas mainFiles (ascii "a.c") = some (.returned 0, t) := by
  have h : (as 24 mainAreas mainFiles (ascii "a.c")).map (fun out => out.1.returns 0) = some true := by decide +kernel
  obtain ⟨⟨r, t⟩, has, hr⟩ := Option.map_eq_some_iff.mp h
  obtain rfl := Launch.eq_of_returns hr
  exact ⟨t, has⟩

theorem rc_as_alike_iff_main : ∃ t, as 24 mainAreas mainFiles (ascii "a.c") = some (.returned 0, t) ∧
    (RunsAlike noSys 24 mainAreas mainAreas t mainFiles (ascii "a.c") 2 0 ↔
      ¬mainFiles.Missing defaultOut ∧ RunsAlike noSys 24 mainAreas mainAreas mainFiles mainFiles (ascii "a.c") 2 0) := by
  obtain ⟨t, has⟩ := as_mainFiles
  exact ⟨t, has, rc_as_alike_iff noSys mounted_mainFiles has mainAreas mainAreas 2 0⟩

/-- `cc` runs the program to its result 5; `as` reports that it was assembled, and then `rc` runs nothing. -/
theorem rc_as_main : ∃ t vm, as 24 mainAreas mainFiles (ascii "a.c") = some (.returned 0, t) ∧
    (cc 24 mainAreas mainFiles (ascii "a.c") 2 0).map Prod.fst = some (.runs vm) ∧ Exits noSys vm 5 ∧
    (rc mainAreas t defaultOut 2 0).map Prod.fst = some (.returned (-1)) ∧
    ¬RunsAlike noSys 24 mainAreas mainAreas t mainFiles (ascii "a.c") 2 0 := by
  obtain ⟨t, has⟩ := as_mainFiles
  have hrc := rc_as mounted_mainFiles has mainAreas 2 0
  rw [if_pos missing_mainFiles] at hrc
  have hcc : (((cc 24 mainAreas mainFiles (ascii "a.c") 2 0).map Prod.fst).map (Launch.exitsAfter 4 5)) = some true := by
    decide +kernel
  obtain ⟨r, hr, hexit⟩ := Option.map_eq_some_iff.mp hcc
  obtain ⟨vm, rfl, hexits⟩ := Launch.exits_of_exitsAfter hexit
  refine ⟨t, vm, has, hr, hexits, hrc, ?_⟩
  rintro ⟨r, o, hr, -, hagrees⟩
  rw [hrc] at hr
  obtain rfl := Option.some.inj hr
  exact hagrees

end RetrOS.Lex
