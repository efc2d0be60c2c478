import RetrOS.Ext.Cache

/-!
# Directory entries (`include/fs/directory.h`)

* `DirectoryEntry` : `struct directory_entry` with a name that ends in its 20 bytes;
* `encode` : its 24 bytes.
-/

namespace RetrOS.Ext
open RetrOS.Lib

/-- `FS_DIRECTORY_NAME_SIZE` bytes with the end of the name. -/
def IsName (name : List UInt8) : Prop := name.length < 20 ∧ 0 ∉ name

instance (name : List UInt8) : Decidable (IsName name) := inferInstanceAs (Decidable (_ ∧ _))

structure DirectoryEntry where
  name : List UInt8
  inode : BitVec 16
  flags : UInt8
  isName : IsName name

namespace DirectoryEntry

/-- `FS_DIR_FLAG_DIRECTORY`, `FS_DIR_FLAG_FILE` -/
def flagDirectory : UInt8 := 2
def flagFile : UInt8 := 4

/-- The bytes of the structure; the last one is padding. -/
def encode (entry : DirectoryEntry) : List UInt8 :=
  entry.name ++ List.replicate (20 - entry.name.length) 0 ++ bytes16 entry.inode ++ [entry.flags, 0]

@[simp] theorem length_encode (entry : DirectoryEntry) : entry.encode.length = 24 := by
  have hlt := entry.isName.1
  simp only [encode, List.length_append, List.length_replicate, length_bytes16, List.length_cons, List.length_nil]
  omega

/-- `.` and `..` -/
def self (i : BitVec 16) : DirectoryEntry := ⟨[46], i, flagDirectory, by decide⟩
def back (i : BitVec 16) : DirectoryEntry := ⟨[46, 46], i, flagDirectory, by decide⟩

end DirectoryEntry

end RetrOS.Ext
