import RetrOS.Fs.Files
import RetrOS.Fs.Path
import Mathlib.Data.Fin.Basic

/-!
# Open files (`fs/fs.c`, `fs/fat16_iface.c`)

The table of open files over the FAT16 driver, which is the current file system.

* `fsAllocFile`, `fsFreeFile` : a slot is free when its flags are 0, and a file keeps the low byte of its flags;
* `fat16Open`, `fat16Close`, `fat16Read`, `fat16Write` : what the driver does for an open file;
* `fsOpen`, `fsClose`, `fsSeek`, `fsSize`, `fsRead`, `fsWrite` : the calls, with their return values.

A path is a C string. The result of an open is `none` where the driver writes behind its arrays: `sstrtok` copies the
path to 128 bytes, and the name of a new file has 8 and 3 (`createEmptyFile`).
-/

namespace RetrOS.Fs

/-- `struct file` -/
structure File where
  flags : BitVec 8
  offset : BitVec 32
  nlinks : BitVec 32
  identifier : BitVec 32
  directory : BitVec 32
  size : BitVec 32
  deriving DecidableEq

def File.zero : File := ⟨0, 0, 0, 0, 0, 0⟩

def fsFileFlagRead : BitVec 8 := 1
def fsFileFlagWrite : BitVec 8 := 2
def fsFileFlagCreate : BitVec 32 := 8

/-- A place in `fs_file_table`. -/
abbrev FileSlot := Fin 256

structure FileTable where
  fat16 : Fat16
  fsFileTable : FileSlot → File

/-- The path that is split into components. -/
def dropSlash (path : List UInt8) : List UInt8 := if path.head? = some slash then path.tail else path

/-- The path fits in the buffer of `sstrtok`. -/
def TokenFits (path : List UInt8) : Prop := (dropSlash path).length ≤ 126

instance (path : List UInt8) : Decidable (TokenFits path) := inferInstanceAs (Decidable (_ ≤ _))

namespace FileTable

def setFile (s : FileTable) (i : FileSlot) (file : File) : FileTable :=
  { s with fsFileTable := Function.update s.fsFileTable i file }

/-- `fs_file2fd` -/
def fsFile2fd (i : FileSlot) : Int := i.val

/-- The slot of a descriptor in range. -/
def slotOf (fd : Int) : Option FileSlot := if h : 0 ≤ fd ∧ fd < 256 then some ⟨fd.toNat, by omega⟩ else none

def fsAllocFile (s : FileTable) : Option FileSlot := Fin.find? fun i => (s.fsFileTable i).flags == 0

def fsFreeFile (s : FileTable) (i : FileSlot) : FileTable :=
  s.setFile i { s.fsFileTable i with nlinks := 0, offset := 0, flags := 0, identifier := 0, directory := 0 }

/-! ## The driver -/

/-- The path leads to no entry, or the block of its directory is negative as an `int16_t`. -/
def Missing (s : FileTable) (path : List UInt8) : Prop := (s.fat16.getDirectoryEntry path).1.directory.slt 0

instance (s : FileTable) (path : List UInt8) : Decidable (s.Missing path) := inferInstanceAs (Decidable (_ = true))

/-- The end of `fat16_open`, when the entry has been found. -/
def openFound (s : FileTable) (path : List UInt8) (flags : BitVec 32) : Option FileSlot × FileTable :=
  let (id, entry) := s.fat16.getDirectoryEntry path
  match s.fsAllocFile with
  | none => (none, s)
  | some i =>
    (some i, s.setFile i
      { flags := flags.setWidth 8
        offset := 0
        directory := id.directory.signExtend 32
        identifier := id.index.signExtend 32
        nlinks := 1
        size := entry.elim 0 DirectoryEntry.fileSize })

def fat16Open (s : FileTable) (path : List UInt8) (flags : BitVec 32) : Option (Option FileSlot × FileTable) :=
  if 255 < path.length then some (none, s)
  else if ¬TokenFits path then none
  else if s.Missing path then
    if flags &&& fsFileFlagCreate ≠ 0 then
      if path.head? = some slash then some (none, s)
      else (s.fat16.createEmptyFile path).map fun r =>
        let s := { s with fat16 := r.2 }
        if s.Missing path then (none, s) else s.openFound path flags
    else some (none, s)
  else some (s.openFound path flags)

def fat16Close (s : FileTable) (i : FileSlot) : Int × FileTable :=
  if (s.fsFileTable i).nlinks = 0 then (-1, s) else (0, s.setFile i { s.fsFileTable i with nlinks := 0 })

/-- `fat16_read`: the return value and what is stored in the buffer. -/
def fat16Read (s : FileTable) (i : FileSlot) (size : Nat) : Int × List UInt8 :=
  let file := s.fsFileTable i
  if file.nlinks = 0 then (-1, [])
  else if file.flags &&& fsFileFlagRead = 0 then (-2, [])
  else
    match s.fat16.readEntry file.directory.toNat file.identifier.toNat with
    | none => (-3, [])
    | some entry =>
      let fileSize := if entry.isDirectory then 512 else entry.fileSize.toNat
      let read := s.fat16.readData entry.firstCluster.toNat file.offset.toNat size fileSize
      if read.1 < 0 then (-4, read.2) else read

def fat16Write (s : FileTable) (i : FileSlot) (buf : List UInt8) : Option (Int × FileTable) :=
  let file := s.fsFileTable i
  if file.nlinks = 0 then some (-1, s)
  else if file.flags &&& fsFileFlagWrite = 0 then some (-2, s)
  else (s.fat16.write (file.directory.setWidth 16) file.identifier.toNat buf).map fun r => (r.1, { s with fat16 := r.2 })

/-! ## The calls -/

def fsOpen (s : FileTable) (path : List UInt8) (flags : BitVec 32) : Option (Int × FileTable) :=
  (s.fat16Open path flags).map fun r =>
    match r with
    | (none, s) => (-1, s)
    | (some i, s) => (fsFile2fd i, s)

def fsClose (s : FileTable) (fd : Int) : Int × FileTable :=
  match slotOf fd with
  | none => (-2, s)
  | some i =>
    if (s.fsFileTable i).flags = 0 then (-2, s)
    else
      let (ret, s) := s.fat16Close i
      if ret < 0 then (-3, s) else (0, s.fsFreeFile i)

inductive SeekFlag
  | start
  | cur
  deriving DecidableEq

def fsSeek (s : FileTable) (fd : Int) (offset : BitVec 32) (flag : SeekFlag) : Int × FileTable :=
  match slotOf fd with
  | none => (-2, s)
  | some i =>
    let file := s.fsFileTable i
    if file.flags = 0 then (-2, s)
    else
      match flag with
      | .start => (0, s.setFile i { file with offset := offset })
      | .cur => (0, s.setFile i { file with offset := file.offset + offset })

def fsSize (s : FileTable) (fd : Int) : Int :=
  match slotOf fd with
  | none => -1
  | some i => if (s.fsFileTable i).flags = 0 then -1 else (s.fsFileTable i).size.toInt

/-- `fs_read`: the return value, the bytes returned and the state after it. The offset grows by the size asked for. -/
def fsRead (s : FileTable) (fd : Int) (size : Nat) : (Int × List UInt8) × FileTable :=
  match slotOf fd with
  | none => ((-2, []), s)
  | some i =>
    let file := s.fsFileTable i
    if file.flags &&& fsFileFlagRead = 0 then ((-2, []), s)
    else
      let (ret, bytes) := s.fat16Read i size
      if ret ≤ 0 then ((-3, []), s)
      else ((ret, bytes), s.setFile i { file with offset := file.offset + BitVec.ofNat 32 size })

def fsWrite (s : FileTable) (fd : Int) (buf : List UInt8) : Option (Int × FileTable) :=
  match slotOf fd with
  | none => some (-2, s)
  | some i =>
    if (s.fsFileTable i).flags &&& fsFileFlagWrite = 0 then some (-2, s)
    else (s.fat16Write i buf).map fun r => if r.1 < 0 then (-3, r.2) else r

/-! ## The slots -/

section
variable {s t : FileTable} {i j : FileSlot} {path : List UInt8} {flags : BitVec 32}

@[simp] theorem slotOf_fsFile2fd (i : FileSlot) : slotOf (fsFile2fd i) = some i := by
  have := i.isLt
  unfold slotOf fsFile2fd
  rw [dif_pos ⟨by omega, by omega⟩]
  rfl

theorem fsFile2fd_of_slotOf {fd : Int} (h : slotOf fd = some i) : fsFile2fd i = fd := by
  unfold slotOf at h
  split at h
  · next hfd =>
    rw [← Option.some.inj h]
    exact Int.toNat_of_nonneg hfd.1
  · cases h

theorem fsFile2fd_inj (h : fsFile2fd i = fsFile2fd j) : i = j := Fin.ext (by unfold fsFile2fd at h; omega)

theorem fsFile2fd_nonneg (i : FileSlot) : 0 ≤ fsFile2fd i := Int.natCast_nonneg _

/-- The first slot whose flags are 0. -/
theorem fsAllocFile_eq_some : s.fsAllocFile = some i ↔
    (s.fsFileTable i).flags = 0 ∧ ∀ j < i, (s.fsFileTable j).flags ≠ 0 := by
  unfold fsAllocFile
  rw [Fin.find?_eq_some_iff]
  simp

@[simp] theorem setFile_self (s : FileTable) (i : FileSlot) (file : File) : (s.setFile i file).fsFileTable i = file :=
  Function.update_self ..

theorem setFile_of_ne (file : File) (h : j ≠ i) : (s.setFile i file).fsFileTable j = s.fsFileTable j :=
  Function.update_of_ne h ..

end

end FileTable

end RetrOS.Fs
