import RetrOS.Fs.FileTable
import RetrOS.Fs.ReadBack

/-!
# Descriptors of open files

Runs of `fs_open`, of any path and flags, and of `fs_close` of any descriptor.

* `Session` : the table, and the descriptors that were handed out and not closed;
* `Session.Step` : a call. Where an open writes behind the driver's arrays any state may follow;
* `Descriptors` : the open descriptors have distinct slots, a new one has a slot that was not in use, and the slot of a
  closed one is handed out again;
* `sessionRun_descriptors` : so it is as long as every file that is opened has flags in its low byte.
-/

namespace RetrOS.Fs
open RetrOS.Lib

structure Session where
  files : FileTable
  /-- the descriptors handed out and not closed -/
  opened : List Int

inductive FsCall
  | open (path : List UInt8) (flags : BitVec 32)
  | close (fd : Int)

/-- The name of a new file fits in the arrays of `fat16_create_empty_file`. -/
def NameFits (path : List UInt8) : Prop :=
  (path.takeWhile (· != dot)).length ≤ 8 ∧ (skipDot (path.dropWhile (· != dot))).length ≤ 3

namespace Session

/-- After `fat16_init`; the table of files is zeroed. -/
def initial (fs : Fat16) : Session := ⟨⟨fs, fun _ => .zero⟩, []⟩

inductive Step : Session → FsCall → Session → Prop
  | open {s : Session} {path : List UInt8} {flags : BitVec 32} {fd : Int} {files : FileTable} :
      s.files.fsOpen path flags = some (fd, files) →
        Step s (.open path flags) ⟨files, if 0 ≤ fd then fd :: s.opened else s.opened⟩
  /-- the driver's arrays have been overrun -/
  | overrun {s t : Session} {path : List UInt8} {flags : BitVec 32} :
      s.files.fsOpen path flags = none → Step s (.open path flags) t
  | close (s : Session) (fd : Int) :
      Step s (.close fd)
        ⟨(s.files.fsClose fd).2, if (s.files.fsClose fd).1 = 0 then s.opened.erase fd else s.opened⟩

structure Descriptors (s : Session) : Prop where
  distinct : s.opened.Nodup
  fresh : ∀ i, s.files.fsAllocFile = some i → FileTable.fsFile2fd i ∉ s.opened
  reused : ∀ i, FileTable.fsFile2fd i ∉ s.opened → (∀ j < i, FileTable.fsFile2fd j ∈ s.opened) →
    s.files.fsAllocFile = some i
  closes : ∀ fd ∈ s.opened, (s.files.fsClose fd).1 = 0

/-- The path of an open fits in the driver's arrays; and when the low byte of the flags is 0, the open fails, since the
path leads to no entry or no slot is free. -/
def CallOk (s : Session) (a : FsCall) : Prop :=
  ∀ path flags, a = .open path flags → path.length ≤ 255 →
    TokenFits path ∧
    (s.files.Missing path → flags &&& fsFileFlagCreate ≠ 0 → path.head? ≠ some slash → NameFits path) ∧
    (flags.setWidth 8 = (0 : BitVec 8) → s.files.Missing path ∨ ∀ i, (s.files.fsFileTable i).flags ≠ 0)

end Session

/-! ## What a call does to the table -/

namespace FileTable

variable {s t : FileTable} {i : FileSlot} {path : List UInt8} {flags : BitVec 32} {fd : Int}

/-- The slot `i` has been filled. -/
def Filled (s t : FileTable) (i : FileSlot) (flags : BitVec 32) : Prop :=
  s.fsAllocFile = some i ∧ ∃ file, t.fsFileTable = Function.update s.fsFileTable i file ∧
    file.flags = flags.setWidth 8 ∧ file.nlinks = 1

theorem openFound_cases {r : Option FileSlot × FileTable} (h : s.openFound path flags = r) :
    r.1 = none ∧ r.2.fsFileTable = s.fsFileTable ∨ ∃ i, r.1 = some i ∧ Filled s r.2 i flags := by
  subst h
  unfold openFound
  cases halloc : s.fsAllocFile with
  | none => exact .inl ⟨rfl, rfl⟩
  | some i => exact .inr ⟨i, rfl, halloc, _, rfl, rfl, rfl⟩

theorem createEmptyFile_ne_none (fs : Fat16) (h : path.head? ≠ some slash → NameFits path) :
    fs.createEmptyFile path ≠ none := by
  unfold Fat16.createEmptyFile
  split
  · exact Option.some_ne_none _
  · next hslash =>
    unfold NameFits at h
    dsimp only
    rw [dif_pos (h hslash), Fat16.createFile_nil]
    split <;> exact Option.some_ne_none _

theorem create_eq_zero (h : flags.setWidth 8 = (0 : BitVec 8)) : flags &&& fsFileFlagCreate = 0 := by
  have hbit : flags.getLsbD 3 = false := by
    have := congrArg (·.getLsbD 3) h
    simpa using this
  rw [show fsFileFlagCreate = BitVec.twoPow 32 3 by decide, BitVec.and_twoPow, hbit]
  rfl

/-- An open fails or fills a slot; with the low byte of the flags 0, only where the path leads to an entry. -/
theorem fsOpen_cases (h : s.fsOpen path flags = some (fd, t)) :
    fd = -1 ∧ t.fsFileTable = s.fsFileTable ∨ ∃ i, fd = fsFile2fd i ∧ Filled s t i flags ∧ path.length ≤ 255 ∧
      (flags.setWidth 8 = (0 : BitVec 8) → ¬s.Missing path) := by
  unfold fsOpen at h
  obtain ⟨r, hr, hfd⟩ := Option.map_eq_some_iff.mp h
  have hfd : (r.1 = none → fd = -1) ∧ (∀ i, r.1 = some i → fd = fsFile2fd i) ∧ t = r.2 := by
    obtain ⟨_ | i, u⟩ := r
    · obtain ⟨rfl, rfl⟩ := Prod.mk.inj hfd
      exact ⟨fun _ => rfl, nofun, rfl⟩
    · obtain ⟨rfl, rfl⟩ := Prod.mk.inj hfd
      exact ⟨nofun, fun _ hj => congrArg _ (Option.some.inj hj), rfl⟩
  obtain ⟨hnone, hsome, rfl⟩ := hfd
  unfold fat16Open at hr
  split at hr
  · rw [← Option.some.inj hr]
    exact .inl ⟨hnone (by rw [← Option.some.inj hr]), rfl⟩
  next hlen =>
  split at hr
  · cases hr
  split at hr
  · next hmissing =>
    split at hr
    · next hcreate =>
      split at hr
      · rw [← Option.some.inj hr]
        exact .inl ⟨hnone (by rw [← Option.some.inj hr]), rfl⟩
      · obtain ⟨c, -, hc⟩ := Option.map_eq_some_iff.mp hr
        dsimp only at hc
        split at hc
        · rw [← hc]
          exact .inl ⟨hnone (by rw [← hc]), rfl⟩
        · rcases openFound_cases hc with ⟨hr1, hr2⟩ | ⟨i, hr1, hfill⟩
          · exact .inl ⟨hnone hr1, hr2⟩
          · exact .inr ⟨i, hsome i hr1, hfill, by omega, fun h0 => absurd (create_eq_zero h0) hcreate⟩
    · rw [← Option.some.inj hr]
      exact .inl ⟨hnone (by rw [← Option.some.inj hr]), rfl⟩
  · next hmissing =>
    rcases openFound_cases (Option.some.inj hr) with ⟨hr1, hr2⟩ | ⟨i, hr1, hfill⟩
    · exact .inl ⟨hnone hr1, hr2⟩
    · exact .inr ⟨i, hsome i hr1, hfill, by omega, fun _ => hmissing⟩

theorem fsOpen_ne_none (hfits : path.length ≤ 255 → TokenFits path ∧
    (s.Missing path → flags &&& fsFileFlagCreate ≠ 0 → path.head? ≠ some slash → NameFits path)) :
    s.fsOpen path flags ≠ none := by
  unfold fsOpen
  rw [Ne, Option.map_eq_none_iff]
  unfold fat16Open
  split
  · exact Option.some_ne_none _
  next hlen =>
  obtain ⟨htoken, hname⟩ := hfits (by omega)
  rw [if_neg (not_not_intro htoken)]
  split
  · next hmissing =>
    split
    · next hcreate =>
      split
      · exact Option.some_ne_none _
      · rw [Option.map_eq_none_iff]
        exact createEmptyFile_ne_none s.fat16 (hname hmissing hcreate)
    · exact Option.some_ne_none _
  · exact Option.some_ne_none _

/-- A file that is open is closed; its slot is free. -/
theorem fsClose_of_open (hflags : (s.fsFileTable i).flags ≠ 0) (hnlinks : (s.fsFileTable i).nlinks ≠ 0) :
    ∃ file, (s.fsClose (fsFile2fd i)).1 = 0 ∧
      (s.fsClose (fsFile2fd i)).2.fsFileTable = Function.update s.fsFileTable i file ∧ file.flags = 0 := by
  unfold fsClose
  rw [slotOf_fsFile2fd]
  dsimp only
  rw [if_neg hflags, fat16Close, if_neg hnlinks]
  dsimp only
  rw [if_neg (by decide)]
  unfold fsFreeFile setFile
  dsimp only
  rw [Function.update_idem]
  exact ⟨_, rfl, rfl, rfl⟩

/-- Any other descriptor is refused. -/
theorem fsClose_of_not_open (h : ∀ i, fd = fsFile2fd i → (s.fsFileTable i).flags = 0) : s.fsClose fd = (-2, s) := by
  unfold fsClose
  split
  · rfl
  · next i hslot => rw [if_pos (h i (fsFile2fd_of_slotOf hslot).symm)]

end FileTable

/-! ## Runs -/

namespace Session
open FileTable

variable {s t : Session}

/-- The open descriptors are the slots in use, and the driver can close what they hold. -/
structure Inv (s : Session) : Prop where
  nodup : s.opened.Nodup
  slot : ∀ fd ∈ s.opened, ∃ i, fd = fsFile2fd i
  inUse : ∀ i, fsFile2fd i ∈ s.opened ↔ (s.files.fsFileTable i).flags ≠ 0
  nlinks : ∀ i, (s.files.fsFileTable i).flags ≠ 0 → (s.files.fsFileTable i).nlinks ≠ 0

theorem inv_initial (fs : Fat16) : Inv (initial fs) :=
  ⟨List.nodup_nil, nofun, fun _ => iff_of_false List.not_mem_nil fun h => h rfl, fun _ h => absurd rfl h⟩

theorem Inv.open (h : Inv s) {path : List UInt8} {flags : BitVec 32} (hok : CallOk s (.open path flags))
    (hst : Step s (.open path flags) t) : Inv t := by
  cases hst with
  | overrun hnone =>
    refine absurd hnone (fsOpen_ne_none fun hlen => ?_)
    obtain ⟨htoken, hname, -⟩ := hok path flags rfl hlen
    exact ⟨htoken, hname⟩
  | «open» hopen =>
    rcases fsOpen_cases hopen with ⟨rfl, htable⟩ | ⟨i, rfl, ⟨halloc, file, htable, hflags, hlinks⟩, hlen, hzero⟩
    · rw [if_neg (by decide)]
      exact ⟨h.nodup, h.slot, fun i => by rw [htable]; exact h.inUse i, fun i => by rw [htable]; exact h.nlinks i⟩
    · rw [if_pos (fsFile2fd_nonneg i)]
      obtain ⟨hfree, -⟩ := fsAllocFile_eq_some.mp halloc
      have hne : file.flags ≠ 0 := by
        intro h0
        rcases (hok path flags rfl hlen).2.2 (hflags.symm.trans h0) with hmissing | hfull
        · exact hzero (hflags.symm.trans h0) hmissing
        · exact hfull i hfree
      have hnew : fsFile2fd i ∉ s.opened := fun hm => (h.inUse i).mp hm hfree
      refine ⟨List.nodup_cons.mpr ⟨hnew, h.nodup⟩, ?_, fun j => ?_, fun j => ?_⟩
      · rintro fd hfd
        rcases List.mem_cons.mp hfd with rfl | hfd
        · exact ⟨i, rfl⟩
        · exact h.slot fd hfd
      · rw [List.mem_cons, htable]
        by_cases hj : j = i
        · subst hj
          rw [Function.update_self]
          exact iff_of_true (.inl rfl) hne
        · rw [Function.update_of_ne hj, or_iff_right fun heq => hj (fsFile2fd_inj heq)]
          exact h.inUse j
      · rw [htable]
        by_cases hj : j = i
        · subst hj
          rw [Function.update_self, hlinks]
          exact fun _ => by decide
        · rw [Function.update_of_ne hj]
          exact h.nlinks j

theorem Inv.close (h : Inv s) (fd : Int) :
    Inv ⟨(s.files.fsClose fd).2, if (s.files.fsClose fd).1 = 0 then s.opened.erase fd else s.opened⟩ := by
  by_cases hfd : fd ∈ s.opened
  · obtain ⟨i, rfl⟩ := h.slot fd hfd
    have hflags := (h.inUse i).mp hfd
    obtain ⟨file, hret, htable, hfree⟩ := fsClose_of_open hflags (h.nlinks i hflags)
    rw [if_pos hret]
    refine ⟨h.nodup.erase _, fun fd hm => h.slot fd (List.mem_of_mem_erase hm), fun j => ?_, fun j => ?_⟩
    · rw [h.nodup.mem_erase_iff, htable]
      by_cases hj : j = i
      · subst hj
        rw [Function.update_self]
        exact iff_of_false (fun hm => hm.1 rfl) fun hne => hne hfree
      · rw [Function.update_of_ne hj, ← h.inUse j]
        exact and_iff_right fun heq => hj (fsFile2fd_inj heq)
    · rw [htable]
      by_cases hj : j = i
      · subst hj
        rw [Function.update_self]
        exact fun hne => absurd hfree hne
      · rw [Function.update_of_ne hj]
        exact h.nlinks j
  · have hrefused : s.files.fsClose fd = (-2, s.files) := by
      refine fsClose_of_not_open fun i hi => ?_
      by_contra hne
      exact hfd (hi ▸ (h.inUse i).mpr hne)
    rw [hrefused, if_neg (show (-2 : Int) ≠ 0 by decide)]
    exact h

theorem Inv.descriptors (h : Inv s) : Descriptors s where
  distinct := h.nodup
  fresh i hi hm := (h.inUse i).mp hm (fsAllocFile_eq_some.mp hi).1
  reused i hi hlower := by
    refine fsAllocFile_eq_some.mpr ⟨?_, fun j hj => (h.inUse j).mp (hlower j hj)⟩
    by_contra hne
    exact hi ((h.inUse i).mpr hne)
  closes fd hfd := by
    obtain ⟨i, rfl⟩ := h.slot fd hfd
    have hflags := (h.inUse i).mp hfd
    obtain ⟨-, hret, -⟩ := fsClose_of_open hflags (h.nlinks i hflags)
    exact hret

/-- As long as every file that is opened has flags in its low byte, descriptors have slots of their own, in every
sequence of opens and closes. -/
theorem sessionRun_descriptors (fs : Fat16) (as : List FsCall) (s : Session)
    (h : Run Step CallOk (initial fs) as s) : Descriptors s := by
  refine (h.invariant (P := Inv) (fun s a t hs hok hst => ?_) (inv_initial fs)).descriptors
  cases a with
  | «open» path flags => exact hs.open hok hst
  | close fd =>
    cases hst
    exact hs.close fd

/-- The root directory as it is when it has been opened. -/
def rootFile (fs : Fat16) (flags : BitVec 32) : File :=
  { flags := flags.setWidth 8
    offset := 0
    nlinks := 1
    identifier := 0
    directory := fs.getRootDirectoryStartBlock.signExtend 32
    size := 512 }

theorem fsOpen_root {files : FileTable} {flags : BitVec 32} {i : FileSlot}
    (hroot : files.fat16.getRootDirectoryStartBlock.slt 0 = false) (halloc : files.fsAllocFile = some i) :
    files.fsOpen [slash] flags = some (fsFile2fd i, files.setFile i (rootFile files.fat16 flags)) := by
  have hget : files.fat16.getDirectoryEntry [slash] =
      (⟨files.fat16.getRootDirectoryStartBlock, 0⟩, some rootDirectory) := if_pos rfl
  have hfound : ¬files.Missing [slash] := by
    unfold Missing
    rw [hget, hroot]
    exact Bool.false_ne_true
  unfold fsOpen fat16Open openFound
  rw [if_neg (by decide), if_neg (by decide), if_neg hfound, hget, halloc]
  rfl

theorem step_root {flags : BitVec 32} {i : FileSlot} (hroot : s.files.fat16.getRootDirectoryStartBlock.slt 0 = false)
    (halloc : s.files.fsAllocFile = some i) : Step s (.open [slash] flags)
      ⟨s.files.setFile i (rootFile s.files.fat16 flags), fsFile2fd i :: s.opened⟩ := by
  have hstep := Step.open (@fsOpen_root _ flags _ hroot halloc)
  rwa [if_pos (fsFile2fd_nonneg i)] at hstep

theorem callOk_root {flags : BitVec 32} (hflags : flags.setWidth 8 ≠ (0 : BitVec 8)) :
    CallOk s (.open [slash] flags) := by
  rintro path flags' heq -
  obtain ⟨rfl, rfl⟩ := FsCall.open.inj heq
  exact ⟨by decide, fun _ _ hslash => absurd rfl hslash, fun h0 => absurd h0 hflags⟩

theorem fsAllocFile_zero {files : FileTable} (h : (files.fsFileTable 0).flags = 0) : files.fsAllocFile = some 0 :=
  fsAllocFile_eq_some.mpr ⟨h, fun _ hj => absurd hj (Fin.not_lt_zero _)⟩

/-- After an open of the root directory. -/
def afterOpen (fs : Fat16) (flags : BitVec 32) : Session :=
  ⟨(initial fs).files.setFile 0 (rootFile fs flags), [fsFile2fd 0]⟩

theorem step_afterOpen (fs : Fat16) (flags : BitVec 32) (hroot : fs.getRootDirectoryStartBlock.slt 0 = false) :
    Step (initial fs) (.open [slash] flags) (afterOpen fs flags) :=
  step_root (s := initial fs) hroot (fsAllocFile_zero rfl)

/-- The root directory is opened twice. -/
theorem sessionRun_descriptors_root : ∃ s, s.opened = [fsFile2fd 1, fsFile2fd 0] ∧ Descriptors s := by
  have hroot : Fat16.oneFile.getRootDirectoryStartBlock.slt 0 = false := by decide
  have hone : (afterOpen Fat16.oneFile 1).files.fsAllocFile = some 1 := by
    refine fsAllocFile_eq_some.mpr ⟨rfl, fun j hj => ?_⟩
    obtain rfl : j = 0 := Fin.ext (Nat.lt_one_iff.mp hj)
    show (rootFile Fat16.oneFile 1).flags ≠ 0
    decide
  have hrun : Run Step CallOk (initial Fat16.oneFile) [.open [slash] 1, .open [slash] 3] _ :=
    .cons (callOk_root (by decide)) (step_afterOpen Fat16.oneFile 1 hroot) (.single (callOk_root (by decide))
      (step_root (s := afterOpen Fat16.oneFile 1) hroot hone))
  exact ⟨_, rfl, sessionRun_descriptors _ _ _ hrun⟩

/-- A file without flags keeps its slot free: the next open hands out the slot again. -/
theorem sessionRun_shared : ¬∀ (fs : Fat16) (as : List FsCall) (s : Session), AnyRun Step (initial fs) as s →
    s.opened.Nodup := by
  intro hall
  have hroot : Fat16.oneFile.getRootDirectoryStartBlock.slt 0 = false := by decide
  have hfree : ((afterOpen Fat16.oneFile 0).files.fsFileTable 0).flags = 0 := by
    show (rootFile Fat16.oneFile 0).flags = 0
    decide
  have hrun : AnyRun Step (initial Fat16.oneFile) [.open [slash] 0, .open [slash] 0] _ :=
    .cons trivial (step_afterOpen Fat16.oneFile 0 hroot) (.single trivial
      (step_root (s := afterOpen Fat16.oneFile 0) hroot (fsAllocFile_zero hfree)))
  exact (List.nodup_cons.mp (hall _ _ _ hrun)).1 (List.mem_cons_self ..)

end Session

end RetrOS.Fs
