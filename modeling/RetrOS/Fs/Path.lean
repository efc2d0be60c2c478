import RetrOS.Fs.Formatted
import RetrOS.Lib.Run

/-!
# FAT16: paths (`fat16_get_directory_entry`)

* `tokens` : the components `sstrtok` returns, for paths that fit into its buffer;
* `getDirectoryEntry` : the resolution of a path. A component that is found and is no directory is passed over;
* `RespectsDots` : `d/./p` and `d/x/../p` are `d/p`, a file is not passed over, what is found has a non-negative
  identifier;
* `not_respectsDots` : no tree built by the create operations has the property. A component is compared up to its
  first dot, so `.` does not match the dot entries but a blank name.
-/

namespace RetrOS.Fs
open RetrOS.Lib

/-- `fat16_file_identifier`, two `int16_t`. -/
structure FileIdentifier where
  directory : BitVec 16
  index : BitVec 16
  deriving DecidableEq

/-- What `sstrtok` returns for the delimiter `/`; `token` is the one begun. At the end of the string there is none,
so an empty one behind a last slash does not count. -/
def tokens (token : List UInt8) : List UInt8 → List (List UInt8)
  | [] => if token = [] then [] else [token]
  | c :: s => if c = slash then token :: tokens [] s else tokens (token ++ [c]) s

/-- The variables of the loop over the components. -/
structure Cursor where
  startBlock : BitVec 16
  lastStartBlock : BitVec 16
  entry : DirectoryEntry
  index : Nat

/-- The result for the entry found last. -/
def Cursor.result (c : Cursor) : FileIdentifier × Option DirectoryEntry :=
  (⟨if c.entry.isDirectory then c.lastStartBlock else c.startBlock, BitVec.ofNat 16 c.index⟩, some c.entry)

namespace Fat16

/-- One round: the component is looked up and, if it is a directory, entered. -/
def lookup (fs : Fat16) (c : Cursor) (token : List UInt8) : Option Cursor :=
  (fs.findInDirectory c.startBlock.toNat token).map fun index =>
    let entry := (fs.readEntry c.startBlock.toNat index).getD c.entry
    if entry.isDirectory then
      { startBlock :=
          if entry.firstCluster ≠ fs.getRootDirectoryStartBlock then fs.getDataStartBlock + entry.firstCluster
          else fs.getRootDirectoryStartBlock
        lastStartBlock := c.startBlock
        entry := entry
        index := index }
    else { c with entry := entry, index := index }

def walk (fs : Fat16) (c : Cursor) (tokens : List (List UInt8)) : Option Cursor := tokens.foldlM fs.lookup c

/-- `fat16_get_directory_entry`: the identifier and the entry stored through `entry_out`. -/
def getDirectoryEntry (fs : Fat16) (path : List UInt8) : FileIdentifier × Option DirectoryEntry :=
  if path = [slash] then (⟨fs.getRootDirectoryStartBlock, 0⟩, some rootDirectory)
  else
    let (startBlock, path) :=
      if path.head? = some slash then (fs.getRootDirectoryStartBlock, path.tail) else (fs.currentDirBlock, path)
    match fs.walk ⟨startBlock, 0, .zero, 0⟩ (tokens [] path) with
    | some c => c.result
    | none => (⟨-1, -1⟩, none)

/-- The entry `fat16_find_entry` finds; it compares as many bytes as the name has. -/
def findEntry (fs : Fat16) (filename : List UInt8) (ext : Bytes 3) : Option DirectoryEntry :=
  ((List.range fs.bootTable.rootDirEntries.toNat).map fun i =>
    (fs.readEntry fs.currentDirBlock.toNat i).getD .zero).find? fun entry =>
      filename.isPrefixOf entry.encode && entry.extension == ext

def changeDirectory (fs : Fat16) (name : List UInt8) : Fat16 :=
  match fs.findEntry name blankExtension with
  | some entry =>
    if entry.isDirectory then { fs with currentDirBlock := fs.getDataStartBlock + entry.firstCluster } else fs
  | none => fs

end Fat16

/-! ## Paths as components -/

/-- A component of a path. -/
abbrev Component := { c : List UInt8 // c ≠ [] ∧ slash ∉ c }

def dotComponent : Component := ⟨[dot], by decide⟩

def dotdotComponent : Component := ⟨[dot, dot], by decide⟩

/-- The absolute path, each component behind a slash. -/
def pathOf (cs : List Component) : List UInt8 := cs.flatMap fun c => slash :: c.1

theorem tokens_append {c s token : List UInt8} (hc : slash ∉ c) : tokens token (c ++ s) = tokens (token ++ c) s := by
  induction c generalizing token with
  | nil => rw [List.nil_append, List.append_nil]
  | cons x c ih =>
    rw [List.mem_cons, not_or] at hc
    rw [List.cons_append, tokens, if_neg (Ne.symm hc.1), ih hc.2, List.append_assoc, List.singleton_append]

theorem tokens_pathOf (cs : List Component) {token : List UInt8} (ht : token ≠ []) :
    tokens token (pathOf cs) = token :: cs.map (·.1) := by
  induction cs generalizing token with
  | nil => exact if_neg ht
  | cons c cs ih =>
    show tokens token (slash :: (c.1 ++ pathOf cs)) = _
    rw [tokens, if_pos rfl, tokens_append c.2.2, List.nil_append, ih c.2.1, List.map_cons]

namespace Fat16

variable {fs fs' : Fat16} {cs ds : List Component}

/-- The resolution of an absolute path. -/
def resolve (fs : Fat16) (cs : List Component) : FileIdentifier × Option DirectoryEntry :=
  fs.getDirectoryEntry (pathOf cs)

/-- Where the resolution of an absolute path starts. -/
def rootCursor (fs : Fat16) : Cursor := ⟨fs.getRootDirectoryStartBlock, 0, .zero, 0⟩

def walkTo (fs : Fat16) (cs : List Component) : Option Cursor := fs.walk fs.rootCursor (cs.map (·.1))

theorem resolve_eq (hcs : cs ≠ []) : fs.resolve cs =
    match fs.walkTo cs with
    | some c => c.result
    | none => (⟨-1, -1⟩, none) := by
  cases cs with
  | nil => exact absurd rfl hcs
  | cons c cs =>
    have hpath : pathOf (c :: cs) = slash :: (c.1 ++ pathOf cs) := rfl
    have hne : slash :: (c.1 ++ pathOf cs) ≠ [slash] := fun h =>
      c.2.1 (List.append_eq_nil_iff.mp (List.cons.inj h).2).1
    have htokens : tokens [] (c.1 ++ pathOf cs) = (c :: cs).map (·.1) := by
      rw [tokens_append c.2.2, List.nil_append, tokens_pathOf cs c.2.1, List.map_cons]
    rw [resolve, getDirectoryEntry, hpath, if_neg hne, List.head?_cons, if_pos rfl]
    dsimp only
    rw [List.tail_cons, htokens]
    rfl

theorem resolve_of_some {c : Cursor} (hcs : cs ≠ []) (h : fs.walkTo cs = some c) : fs.resolve cs = c.result := by
  rw [resolve_eq hcs, h]

theorem resolve_of_none (hcs : cs ≠ []) (h : fs.walkTo cs = none) : fs.resolve cs = (⟨-1, -1⟩, none) := by
  rw [resolve_eq hcs, h]

/-- One component more. -/
theorem walkTo_concat (x : Component) : fs.walkTo (cs ++ [x]) = (fs.walkTo cs).bind fun c => fs.lookup c x.1 := by
  rw [walkTo, List.map_append, walk, List.foldlM_append, List.map_singleton]
  simp only [List.foldlM_cons, List.foldlM_nil, bind_pure]
  rfl

/-- What is known of an entry that was found. -/
theorem lookup_eq_some {c c' : Cursor} {token : List UInt8} (h : fs.lookup c token = some c') :
    fs.readEntry c.startBlock.toNat c'.index = some c'.entry ∧ nameCompare token c'.entry.fullName ∧
      if c'.entry.isDirectory then
        c'.lastStartBlock = c.startBlock ∧ c'.startBlock =
          if c'.entry.firstCluster ≠ fs.getRootDirectoryStartBlock then
            fs.getDataStartBlock + c'.entry.firstCluster
          else fs.getRootDirectoryStartBlock
      else c'.startBlock = c.startBlock := by
  obtain ⟨i, hi, rfl⟩ := Option.map_eq_some_iff.mp h
  obtain ⟨-, hmatch, -⟩ := findInDirectory_eq_some.mp hi
  obtain ⟨e, he, hname⟩ := (Option.any_eq_true ..).mp hmatch
  rw [he, Option.getD_some]
  by_cases hdir : e.isDirectory
  · simp [hdir, he, hname]
  · simp [hdir, he, hname]

/-! ## The property -/

/-- The path of a directory; no component for the root directory. -/
def IsDirectory (fs : Fat16) (d : List Component) : Prop :=
  d = [] ∨ ∃ e, (fs.resolve d).2 = some e ∧ e.isDirectory

/-- The path of a regular file. -/
def IsRegular (fs : Fat16) (d : List Component) : Prop :=
  d ≠ [] ∧ ∃ e, (fs.resolve d).2 = some e ∧ ¬ e.isDirectory

structure RespectsDots (fs : Fat16) : Prop where
  dot : ∀ d p, fs.IsDirectory d → p ≠ [] → fs.resolve (d ++ dotComponent :: p) = fs.resolve (d ++ p)
  dotdot : ∀ d x p, fs.IsDirectory d → fs.IsDirectory (d ++ [x]) → p ≠ [] →
    fs.resolve (d ++ x :: dotdotComponent :: p) = fs.resolve (d ++ p)
  file : ∀ d p, fs.IsRegular d → p ≠ [] → (fs.resolve (d ++ p)).2 = none
  identifier : ∀ p, p ≠ [] → (fs.resolve p).2 ≠ none → 0 ≤ (fs.resolve p).1.directory.toInt

/-! ## Entries of the root directory -/

/-- A directory has a blank extension. -/
def RootEntry (e : DirectoryEntry) : Prop := e.isDirectory → e.extension = blankExtension

theorem rootEntry_archive (name : Bytes 8) (ext : Bytes 3) (cluster : BitVec 16) (size : BitVec 32) :
    RootEntry (newEntry name ext flagArchive cluster size) := fun hdir =>
  absurd hdir (show ¬ (flagArchive &&& flagSubdirectory != 0) by decide)

def RootDirectories (fs : Fat16) : Prop := ∀ i, RootEntry (fs.slot fs.getRootDirectoryStartBlock.toNat i)

theorem RootDirectories.congr (h : RootDirectories fs) (hroot : fs'.getRootDirectoryStartBlock =
    fs.getRootDirectoryStartBlock) (hdisk : fs'.disk fs.getRootDirectoryStartBlock.toNat =
      fs.disk fs.getRootDirectoryStartBlock.toNat) : RootDirectories fs' := by
  intro i
  rw [hroot, slot_congr hdisk]
  exact h i

theorem RootDirectories.addEntry (h : RootDirectories fs) {block : BitVec 16} (name : Bytes 8) (ext : Bytes 3)
    (attr : UInt8) (cluster : BitVec 16) (size : BitVec 32) (hnew : RootEntry (newEntry name ext attr cluster size)) :
    RootDirectories (fs.addEntry block name ext attr cluster size).2 := by
  cases hslot : freeSlot (fs.readBlock block.toNat) with
  | none =>
    rw [addEntry_none _ _ _ _ _ hslot]
    exact h
  | some k =>
    rw [addEntry_some _ _ _ _ _ hslot]
    intro i
    show RootEntry ((fs.putEntry block.toNat k _).slot fs.getRootDirectoryStartBlock.toNat i)
    by_cases hik : fs.getRootDirectoryStartBlock.toNat = block.toNat ∧ i = k
    · obtain ⟨hb, rfl⟩ := hik
      rw [hb, slot_putEntry_self]
      exact hnew
    · rw [slot_putEntry_of_ne fs _ (not_and_or.mp hik)]
      exact h i

theorem RootDirectories.syncFatTable (h : RootDirectories fs) (hlay : Layout fs) : RootDirectories fs.syncFatTable :=
  h.congr rfl (hlay.disk_syncFatTable (Nat.le_refl _))

/-! ## Trees -/

end Fat16

/-- What builds a tree: the create operations, in any directory. -/
inductive TreeOp
  | directory (name : List UInt8) (behind : Nat → UInt8)
  | emptyFile (path : List UInt8)
  | changeDirectory (name : List UInt8)

namespace Fat16

variable {fs fs' : Fat16}

def treeStep (fs : Fat16) : TreeOp → Option Fat16
  | .directory name behind => some (fs.createDirectory name behind).2
  | .emptyFile path => (fs.createEmptyFile path).map (·.2)
  | .changeDirectory name => some (fs.changeDirectory name)

/-- What every operation keeps. -/
structure TreeOk (fs : Fat16) : Prop where
  layout : Layout fs
  root : RootDirectories fs

theorem TreeOk.getFreeCluster (h : TreeOk fs) : TreeOk fs.getFreeCluster.2 := by
  have hboot := fs.bootTable_getFreeCluster
  exact ⟨h.layout.congr hboot, h.root.congr (getRootDirectoryStartBlock_congr hboot)
    (congrFun fs.disk_getFreeCluster _)⟩

theorem TreeOk.addEntry (h : TreeOk fs) {block : BitVec 16} (name : Bytes 8) (ext : Bytes 3) (attr : UInt8)
    (cluster : BitVec 16) (size : BitVec 32) (hnew : RootEntry (newEntry name ext attr cluster size)) :
    TreeOk (fs.addEntry block name ext attr cluster size).2 :=
  ⟨h.layout.congr (bootTable_addEntry ..), h.root.addEntry name ext attr cluster size hnew⟩

theorem TreeOk.syncFatTable (h : TreeOk fs) : TreeOk fs.syncFatTable :=
  ⟨h.layout.congr rfl, h.root.syncFatTable h.layout⟩

theorem TreeOk.createDirectory (h : TreeOk fs) (name : List UInt8) (behind : Nat → UInt8) :
    TreeOk (fs.createDirectory name behind).2 := by
  have hentry : ∀ (name8 : Bytes 8) (cluster : BitVec 16),
      RootEntry (newEntry name8 blankExtension flagSubdirectory cluster 0) := fun _ _ _ => rfl
  rw [Fat16.createDirectory]
  split
  · exact h
  · exact (((h.getFreeCluster.addEntry _ _ _ _ _ (hentry _ _)).addEntry _ _ _ _ _ (hentry _ _)).addEntry _ _ _ _ _
      (hentry _ _)).syncFatTable

theorem TreeOk.createEmptyFile (h : TreeOk fs) {path : List UInt8} {r : Int}
    (hrun : fs.createEmptyFile path = some (r, fs')) : TreeOk fs' := by
  rw [Fat16.createEmptyFile] at hrun
  split at hrun
  · obtain ⟨-, rfl⟩ : r = -1 ∧ fs' = fs := by simpa [eq_comm] using hrun
    exact h
  dsimp only at hrun
  split at hrun
  · rw [createFile_nil] at hrun
    split at hrun
    · obtain ⟨-, rfl⟩ : r = -2 ∧ fs' = fs.getFreeCluster.2 := by simpa [eq_comm] using hrun
      exact h.getFreeCluster
    · rw [Option.map_some, Option.some.injEq, Prod.mk.injEq] at hrun
      rw [← hrun.2]
      exact (h.getFreeCluster.addEntry _ _ _ _ _ (rootEntry_archive _ _ _ _)).syncFatTable
  · exact absurd hrun (by simp)

theorem TreeOk.changeDirectory (h : TreeOk fs) (name : List UInt8) : TreeOk (fs.changeDirectory name) := by
  rw [Fat16.changeDirectory]
  split
  · split
    · exact ⟨h.layout.congr rfl, h.root⟩
    · exact h
  · exact h

theorem TreeOk.step {op : TreeOp} (h : TreeOk fs) (hstep : fs.treeStep op = some fs') : TreeOk fs' := by
  cases op with
  | directory name behind =>
    rw [← Option.some.inj hstep]
    exact h.createDirectory name behind
  | emptyFile path =>
    obtain ⟨⟨r, fs2⟩, hrun, rfl⟩ := Option.map_eq_some_iff.mp hstep
    exact h.createEmptyFile hrun
  | changeDirectory name =>
    rw [← Option.some.inj hstep]
    exact h.changeDirectory name

/-! ## The root directory and the dots -/

/-- The name of the entry that stands in slot 0 of the root directory. -/
def rootComponent : Component := ⟨ascii "ROOT", by decide⟩

theorem isDirectory_rootDirectory : rootDirectory.isDirectory = true := by decide

/-- In the root directory `ROOT` is found, whatever the other entries are. -/
theorem lookup_root {c : Cursor} (hc : c.startBlock = fs.getRootDirectoryStartBlock) :
    ∃ b, fs.lookup c rootComponent.1 = some ⟨b, fs.getRootDirectoryStartBlock, rootDirectory, 0⟩ := by
  have hread : fs.readEntry c.startBlock.toNat 0 = some rootDirectory := by
    rw [readEntry, if_neg (by decide), if_pos ⟨congrArg BitVec.toNat hc, rfl⟩]
  have hfind : fs.findInDirectory c.startBlock.toNat rootComponent.1 = some 0 := by
    refine findInDirectory_eq_some.mpr ⟨by decide, ?_, fun j hj => absurd hj (Nat.not_lt_zero j)⟩
    rw [entryMatches, hread]
    decide
  refine ⟨if rootDirectory.firstCluster ≠ fs.getRootDirectoryStartBlock then
    fs.getDataStartBlock + rootDirectory.firstCluster else fs.getRootDirectoryStartBlock, ?_⟩
  rw [lookup, hfind, Option.map_some, hread, hc]
  simp only [Option.getD_some, isDirectory_rootDirectory, if_true]

theorem resolve_root : fs.resolve [rootComponent] = (⟨fs.getRootDirectoryStartBlock, 0⟩, some rootDirectory) := by
  obtain ⟨b, hb⟩ := lookup_root (c := fs.rootCursor) rfl
  have hwalk : fs.walkTo [rootComponent] = some ⟨b, fs.getRootDirectoryStartBlock, rootDirectory, 0⟩ :=
    (@walkTo_concat fs [] rootComponent).trans hb
  rw [resolve_of_some (List.cons_ne_nil _ _) hwalk, Cursor.result, if_pos isDirectory_rootDirectory]
  rfl

/-- Where a file would be passed over in the root directory, there is none. -/
theorem RespectsDots.isDirectory {c : Cursor} (h : RespectsDots fs) (hcs : cs ≠ []) (hwalk : fs.walkTo cs = some c)
    (hc : c.startBlock = fs.getRootDirectoryStartBlock) : c.entry.isDirectory := by
  by_contra hfile
  have hreg : fs.IsRegular cs := ⟨hcs, c.entry, by rw [resolve_of_some hcs hwalk]; rfl, hfile⟩
  obtain ⟨b, hb⟩ := lookup_root hc
  have hnone := h.file cs [rootComponent] hreg (List.cons_ne_nil _ _)
  rw [resolve_of_some (by simp) (by rw [walkTo_concat, hwalk]; exact hb)] at hnone
  exact absurd hnone (Option.some_ne_none _)

/-- No entry of the root directory makes `..` lead anywhere: a directory has no extension. -/
theorem RootDirectories.not_dotdot (h : RootDirectories fs) {c c' : Cursor}
    (hc : c.startBlock = fs.getRootDirectoryStartBlock) (hlookup : fs.lookup c dotdotComponent.1 = some c') :
    ¬ c'.entry.isDirectory := by
  intro hdir
  obtain ⟨hread, hname, -⟩ := lookup_eq_some hlookup
  rw [hc, readEntry] at hread
  split at hread
  · exact absurd hread (by simp)
  have hfull := (nameCompare_dotdot c'.entry.length_fullName).mp hname
  have hext : c'.entry.extension.1 = [dot, space, space] :=
    (List.append_inj hfull (by rw [c'.entry.filename.2]; rfl)).2
  split at hread
  · rw [← Option.some.inj hread] at hext
    exact absurd hext (by decide)
  · have hroot := h c'.index
    rw [Option.some.inj hread] at hroot
    rw [hroot hdir] at hext
    exact absurd hext (by decide)

/-- From a directory whose block is not the root directory, nothing found is in the root directory. -/
theorem result_ne_of_lookup {c c' : Cursor} {token : List UInt8} {b : BitVec 16} (hc : c.startBlock ≠ b)
    (hlookup : fs.lookup c token = some c') : c'.result.1.directory ≠ b := by
  obtain ⟨-, -, hnext⟩ := lookup_eq_some hlookup
  by_cases hdir : c'.entry.isDirectory
  · rw [if_pos hdir] at hnext
    rw [Cursor.result, if_pos hdir, hnext.1]
    exact hc
  · rw [if_neg hdir] at hnext
    rw [Cursor.result, if_neg hdir, hnext]
    exact hc

/-- If `.` leads to a directory whose block is the root directory, `..` leads nowhere from there. -/
theorem TreeOk.not_dot_to_root (h : TreeOk fs) (hr : RespectsDots fs) {c : Cursor}
    (hc : fs.walkTo [dotComponent] = some c) (hdir : c.entry.isDirectory) :
    c.startBlock ≠ fs.getRootDirectoryStartBlock := by
  intro hstart
  have htwo : fs.walkTo [dotComponent, dotdotComponent] = fs.lookup c dotdotComponent.1 := by
    rw [show [dotComponent, dotdotComponent] = [dotComponent] ++ [dotdotComponent] from rfl, walkTo_concat, hc]
    rfl
  cases hc2 : fs.lookup c dotdotComponent.1 with
  | none =>
    have hparent := hr.dotdot [] dotComponent [rootComponent] (.inl rfl)
      (.inr ⟨c.entry, by rw [List.nil_append, resolve_of_some (List.cons_ne_nil _ _) hc]; rfl, hdir⟩)
      (List.cons_ne_nil _ _)
    have hnone : fs.walkTo [dotComponent, dotdotComponent, rootComponent] = none := by
      rw [show [dotComponent, dotdotComponent, rootComponent] =
        [dotComponent, dotdotComponent] ++ [rootComponent] from rfl, walkTo_concat, htwo, hc2]
      rfl
    rw [List.nil_append, List.nil_append, resolve_root, resolve_of_none (List.cons_ne_nil _ _) hnone] at hparent
    exact absurd (congrArg Prod.snd hparent) (Option.some_ne_none _).symm
  | some c2 =>
    have hfile := h.root.not_dotdot hstart hc2
    obtain ⟨-, -, hnext⟩ := lookup_eq_some hc2
    rw [if_neg hfile, hstart] at hnext
    exact hfile (hr.isDirectory (List.cons_ne_nil _ _) (htwo.trans hc2) hnext)

/-- `/./ROOT` is not `/ROOT`, or something else is wrong. -/
theorem TreeOk.dots_fail (h : TreeOk fs) : ¬ RespectsDots fs := by
  intro hr
  have hdot := hr.dot [] [rootComponent] (.inl rfl) (List.cons_ne_nil _ _)
  rw [List.nil_append, List.nil_append, resolve_root] at hdot
  have hone : fs.walkTo [dotComponent] = fs.lookup fs.rootCursor dotComponent.1 :=
    @walkTo_concat fs [] dotComponent
  have htwo : fs.walkTo [dotComponent, rootComponent] =
      (fs.walkTo [dotComponent]).bind fun c => fs.lookup c rootComponent.1 :=
    @walkTo_concat fs [dotComponent] rootComponent
  cases hc : fs.walkTo [dotComponent] with
  | none =>
    -- the usual case: `.` is not found
    rw [resolve_of_none (List.cons_ne_nil _ _) (by rw [htwo, hc]; rfl)] at hdot
    exact absurd (congrArg Prod.snd hdot) (Option.some_ne_none _).symm
  | some c =>
    obtain ⟨-, -, hnext⟩ := lookup_eq_some (hone.symm.trans hc)
    by_cases hdir : c.entry.isDirectory
    · have hstart := h.not_dot_to_root hr hc hdir
      rw [hc, Option.bind_some] at htwo
      cases hc2 : fs.lookup c rootComponent.1 with
      | none =>
        rw [resolve_of_none (List.cons_ne_nil _ _) (htwo.trans hc2)] at hdot
        exact absurd (congrArg Prod.snd hdot) (Option.some_ne_none _).symm
      | some c2 =>
        rw [resolve_of_some (List.cons_ne_nil _ _) (htwo.trans hc2)] at hdot
        exact result_ne_of_lookup hstart hc2 (congrArg (·.1.directory) hdot)
    · -- a file with a blank name would be passed over
      rw [if_neg hdir] at hnext
      exact hdir (hr.isDirectory (List.cons_ne_nil _ _) hc hnext)

/-- No tree respects the dots. -/
theorem not_respectsDots (disk : Nat → Nat → UInt8) (behind : Nat → BitVec 16) (size : BitVec 32) (reserved : Int)
    (fs fs' : Fat16) (ops : List TreeOp) (hfmt : format disk behind size reserved = some fs) (hlay : Layout fs)
    (hrun : AnyRun (fun s op t => s.treeStep op = some t) fs ops fs') : ¬ RespectsDots fs' := by
  have hstart : TreeOk fs := by
    obtain ⟨-, -, -, hlabel, hslots⟩ := format_spec hfmt hlay
    refine ⟨hlay, fun i => ?_⟩
    show RootEntry (fs.rootSlot i)
    by_cases hi : i = 0
    · rw [hi, hlabel]
      exact fun _ => rfl
    · rw [hslots i hi]
      exact fun hdir => absurd hdir (by decide)
  exact (hrun.invariant (P := TreeOk) (fun s op t hs _ hstep => hs.step hstep) hstart).dots_fail

/-! ## A tree with one file -/

def aTxt : Component := ⟨ascii "a.txt", by decide⟩

/-- On a formatted disk of 513 sectors the file `a.txt` is created in slot 1. -/
theorem exists_oneFileTree (hfmt : format (fun _ _ => 0) (fun _ => 0) 513 1 = some fs) : Layout fs ∧
    ∃ fs', AnyRun (fun s op t => s.treeStep op = some t) fs [.emptyFile aTxt.1] fs' ∧
      (fs'.rootSlot 1).fullName = ascii "A       TXT" ∧ ∀ i, i ≠ 0 → i ≠ 1 → fs'.rootSlot i = .zero := by
  have hboot := bootTable_format hfmt
  have hlay : Layout fs := ⟨by rw [hboot]; decide, by rw [hboot]; decide⟩
  obtain ⟨hcur, -, hzero, hlabel, hslots⟩ := format_spec hfmt hlay
  have hcur' : fs.currentDirBlock.toNat = fs.getRootDirectoryStartBlock.toNat := congrArg BitVec.toNat hcur
  have hone : (fs.rootSlot 1).isFree := by
    rw [hslots 1 (by decide)]
    rfl
  have hslot : ∃ i < 16, (fs.slot fs.currentDirBlock.toNat i).isFree := by
    rw [hcur']
    exact ⟨1, by decide, hone⟩
  have hfive : 5 ∈ fs.freeBelow 0xFFF8 :=
    mem_freeBelow.mpr ⟨by decide, by decide, hzero 5 (by decide) (by rw [hboot]; decide)⟩
  have hfree : max 1 ((([] : List UInt8).length + 511) / 512) ≤ (fs.freeBelow 0xFFF8).card :=
    Finset.card_pos.mpr ⟨5, hfive⟩
  obtain ⟨c, i, l, fs', hrun, hnew⟩ := createFile_eq ⟨pad 8 (ascii "A"), by decide⟩ ⟨pad 3 (ascii "TXT"), by decide⟩
    hlay (.inl hcur) (Nat.le_refl _) hslot hfree
  have hroot : fs'.getRootDirectoryStartBlock.toNat = fs.currentDirBlock.toNat := by
    rw [getRootDirectoryStartBlock_congr hnew.bootTable, hcur']
  obtain rfl : i = 1 := by
    have hi0 : i ≠ 0 := by
      rintro rfl
      have hlive := hnew.slot_free
      rw [hcur'] at hlive
      change (fs.rootSlot 0).isFree at hlive
      rw [hlabel] at hlive
      exact absurd hlive (by decide)
    by_contra h1
    have := hnew.slot_first 1 (by omega)
    rw [hcur'] at this
    exact this hone
  refine ⟨hlay, fs', .single trivial ?_, ?_, fun j hj0 hj1 => ?_⟩
  · show (fs.createEmptyFile aTxt.1).map (·.2) = some fs'
    rw [createEmptyFile, if_neg (by decide)]
    dsimp only
    rw [dif_pos (by decide)]
    show ((fs.createFile ⟨pad 8 (ascii "A"), _⟩ ⟨pad 3 (ascii "TXT"), _⟩ []).map _).map _ = _
    rw [hrun]
    rfl
  · rw [rootSlot, hroot, hnew.slot]
    show pad 8 (ascii "A") ++ pad 3 (ascii "TXT") = _
    decide
  · rw [rootSlot, hroot, hnew.others j hj1, hcur']
    exact hslots j hj0

theorem not_respectsDots_oneFile : ∃ fs fs', format (fun _ _ => 0) (fun _ => 0) 513 1 = some fs ∧
    AnyRun (fun s op t => s.treeStep op = some t) fs [.emptyFile aTxt.1] fs' ∧ ¬ RespectsDots fs' := by
  obtain ⟨fs, hfmt⟩ := format_small
  obtain ⟨hlay, fs', hrun, -⟩ := exists_oneFileTree hfmt
  exact ⟨fs, fs', hfmt, hrun, not_respectsDots _ _ _ _ fs fs' _ hfmt hlay hrun⟩

/-- The file is found as `/a.txt`, and not as `/./a.txt`. -/
theorem resolve_dot_oneFile : ∃ fs fs', format (fun _ _ => 0) (fun _ => 0) 513 1 = some fs ∧
    AnyRun (fun s op t => s.treeStep op = some t) fs [.emptyFile aTxt.1] fs' ∧
    (fs'.resolve [aTxt]).2 ≠ none ∧ fs'.resolve [dotComponent, aTxt] = (⟨-1, -1⟩, none) := by
  obtain ⟨fs, hfmt⟩ := format_small
  obtain ⟨hlay, fs', hrun, hname, hzero⟩ := exists_oneFileTree hfmt
  have hread : ∀ i < 16, fs'.readEntry fs'.getRootDirectoryStartBlock.toNat i =
      some (if i = 0 then rootDirectory else fs'.rootSlot i) := by
    intro i hi
    rw [readEntry, if_neg (Nat.not_le.mpr hi)]
    by_cases h0 : i = 0
    · rw [if_pos ⟨rfl, h0⟩, if_pos h0]
    · rw [if_neg fun h => h0 h.2, if_neg h0]
      rfl
  refine ⟨fs, fs', hfmt, hrun, ?_, ?_⟩
  · have hfind : fs'.findInDirectory fs'.getRootDirectoryStartBlock.toNat aTxt.1 = some 1 := by
      refine findInDirectory_eq_some.mpr ⟨by decide, ?_, fun j hj => ?_⟩
      · rw [entryMatches, hread 1 (by decide), if_neg (by decide), Option.any_some, hname]
        decide
      · obtain rfl : j = 0 := by omega
        rw [entryMatches, hread 0 (by decide), if_pos rfl]
        decide
    have hwalk : ∃ c, fs'.walkTo [aTxt] = some c := by
      rw [show fs'.walkTo [aTxt] = fs'.lookup fs'.rootCursor aTxt.1 from @walkTo_concat fs' [] aTxt, lookup]
      show ∃ c, (fs'.findInDirectory fs'.getRootDirectoryStartBlock.toNat aTxt.1).map _ = some c
      rw [hfind]
      exact ⟨_, rfl⟩
    obtain ⟨c, hc⟩ := hwalk
    rw [resolve_of_some (List.cons_ne_nil _ _) hc]
    exact Option.some_ne_none _
  · have hfind : fs'.findInDirectory fs'.getRootDirectoryStartBlock.toNat dotComponent.1 = none := by
      refine findInDirectory_eq_none.mpr fun j hj => ?_
      rw [entryMatches, hread j hj, Option.any_some]
      by_cases h0 : j = 0
      · rw [if_pos h0]
        decide
      · rw [if_neg h0]
        by_cases h1 : j = 1
        · rw [h1, hname]
          decide
        · rw [hzero j h0 h1]
          decide
    have hwalk : fs'.walkTo [dotComponent, aTxt] = none := by
      rw [show [dotComponent, aTxt] = ([] ++ [dotComponent]) ++ [aTxt] from rfl, walkTo_concat, walkTo_concat]
      show ((fs'.lookup fs'.rootCursor dotComponent.1).bind _) = none
      rw [lookup]
      show ((fs'.findInDirectory fs'.getRootDirectoryStartBlock.toNat dotComponent.1).map _).bind _ = none
      rw [hfind]
      rfl
    exact resolve_of_none (List.cons_ne_nil _ _) hwalk

end Fat16
end RetrOS.Fs
