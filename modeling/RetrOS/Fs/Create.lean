import RetrOS.Fs.Data
import RetrOS.Fs.Names
import Mathlib.Data.List.Find

/-!
# FAT16: creating files and directories (`fs/fat16.c`)

* `createFile`, `createEmptyFile`, `createDirectory` : the create operations, in the current directory;
* `entryMatches`, `findInDirectory` : the search of a directory for a component of a path.

A name is a C string. `fat16_create_directory` copies 8 bytes of it into the entry: the terminator and the memory
`behind` it are among them when the name is shorter. `fat16_create_empty_file` writes behind its arrays when the
name does not fit; there the result is `none`, as where `writeData` has none.
-/

namespace RetrOS.Fs
open RetrOS.Lib

/-- The 8 bytes at a C string. -/
def nameMemory (name : List UInt8) (behind : Nat → UInt8) : Bytes 8 :=
  .load (Slice.write behind 0 (name ++ [0])) 0 8

def dotName : Bytes 8 := ⟨ascii ".       ", by decide⟩

def dotdotName : Bytes 8 := ⟨ascii "..      ", by decide⟩

namespace Fat16

/-- `fat16_create_file`; the `-1` of a full table is negative as an `int`. -/
def createFile (fs : Fat16) (filename : Bytes 8) (ext : Bytes 3) (data : List UInt8) : Option (Int × Fat16) :=
  let (firstCluster, fs) := fs.getFreeCluster
  if 2 ^ 31 ≤ firstCluster then some (-1, fs)
  else
    let cluster := BitVec.ofNat 16 firstCluster
    let written := if data ≠ [] then (fs.writeData cluster.toNat 0 data).map (·.2) else some fs
    written.map fun fs =>
      let fs := (fs.addEntry fs.currentDirBlock filename ext flagArchive cluster (BitVec.ofNat 32 data.length)).2
      (0, fs.syncFatTable)

def createEmptyFile (fs : Fat16) (path : List UInt8) : Option (Int × Fat16) :=
  if path.head? = some slash then some (-1, fs)
  else
    let name := path.takeWhile (· != dot)
    let ext := skipDot (path.dropWhile (· != dot))
    if h : name.length ≤ 8 ∧ ext.length ≤ 3 then
      (fs.createFile ⟨pad 8 (toUpper name), length_pad (by rw [length_toUpper]; exact h.1)⟩
        ⟨pad 3 (toUpper ext), length_pad (by rw [length_toUpper]; exact h.2)⟩ []).map fun r =>
          if r.1 ≠ 0 then (-2, r.2) else (0, r.2)
    else none

def createDirectory (fs : Fat16) (name : List UInt8) (behind : Nat → UInt8) : Int × Fat16 :=
  if name.length > 8 then (-1, fs)
  else
    let startBlock := fs.currentDirBlock
    let (freeCluster, fs) := fs.getFreeCluster
    let directoryBlock := BitVec.ofNat 16 freeCluster
    let parent := if startBlock = fs.getRootDirectoryStartBlock then 0 else startBlock - fs.getDataStartBlock
    let fs := (fs.addEntry startBlock (nameMemory name behind) blankExtension flagSubdirectory directoryBlock 0).2
    let block := fs.getDataStartBlock + directoryBlock
    let fs := (fs.addEntry block dotName blankExtension flagSubdirectory directoryBlock 0).2
    let fs := (fs.addEntry block dotdotName blankExtension flagSubdirectory parent 0).2
    (0, fs.syncFatTable)

/-- Creating an empty file. -/
theorem createFile_nil (fs : Fat16) (filename : Bytes 8) (ext : Bytes 3) :
    fs.createFile filename ext [] =
      if 2 ^ 31 ≤ fs.getFreeCluster.1 then some (-1, fs.getFreeCluster.2)
      else some (0, (fs.getFreeCluster.2.addEntry fs.currentDirBlock filename ext flagArchive
        (BitVec.ofNat 16 fs.getFreeCluster.1) 0).2.syncFatTable) := by
  have hcur := fs.currentDirBlock_getFreeCluster
  unfold createFile
  rcases hget : fs.getFreeCluster with ⟨c, fs1⟩
  rw [hget] at hcur
  dsimp only at hcur ⊢
  rw [← hcur]
  rfl

/-! ## Looking up a component -/

def entryMatches (fs : Fat16) (block : Nat) (token : List UInt8) (index : Nat) : Bool :=
  (fs.readEntry block index).any fun entry => nameCompare token entry.fullName

/-- The first slot of a directory that matches. -/
def findInDirectory (fs : Fat16) (block : Nat) (token : List UInt8) : Option Nat :=
  (List.range 16).find? (fs.entryMatches block token)

section
variable {fs fs' : Fat16} {b i : Nat} {token : List UInt8}

theorem findInDirectory_eq_some : fs.findInDirectory b token = some i ↔
    i < 16 ∧ fs.entryMatches b token i ∧ ∀ j < i, ¬ fs.entryMatches b token j := by
  rw [findInDirectory, List.find?_range_eq_some, List.mem_range]
  simp only [Bool.not_eq_true', Bool.not_eq_true]
  exact ⟨fun ⟨h1, h2, h3⟩ => ⟨h2, h1, h3⟩, fun ⟨h1, h2, h3⟩ => ⟨h2, h1, h3⟩⟩

theorem findInDirectory_eq_none : fs.findInDirectory b token = none ↔
    ∀ j < 16, ¬ fs.entryMatches b token j := by
  rw [findInDirectory, List.find?_eq_none]
  simp only [List.mem_range]

theorem findInDirectory_congr (h : ∀ j < 16, fs'.entryMatches b token j = fs.entryMatches b token j) :
    fs'.findInDirectory b token = fs.findInDirectory b token :=
  List.find?_congr fun j hj => h j (List.mem_range.mp hj)

end

end Fat16
end RetrOS.Fs
