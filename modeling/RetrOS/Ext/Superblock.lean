import RetrOS.Ext.BlockCalls
import RetrOS.Ext.Entry

/-!
# Creation, synchronization and start of the ext file system (`fs/ext.c`)

* `Superblock` : `struct superblock` in its bytes (`load_write_encode`);
* `Mount` : the file system in memory;
* `extSync` : `ext_sync`;
* `extCreateFileSystem`, `initExt` : a new file system, or the one that is on the disk.

Superblock, inode bitmap and block bitmap have one block each, from `FS_START_LOCATION` on.
-/

namespace RetrOS.Ext
open RetrOS.Lib

/-- `get_bitmap_size` -/
def getBitmapSize (n : Nat) : Nat := (n + 7) / 8

structure Superblock where
  magic : BitVec 16
  size : BitVec 32
  nblocks : BitVec 32
  ninodes : BitVec 32
  /-- pointers; the next start replaces them -/
  inodeMap : BitVec 32
  blockMap : BitVec 32
  blocksStart : BitVec 16
  inodesStart : BitVec 16
  rootInode : BitVec 16

namespace Superblock

/-- `MAGIC` -/
def magicNumber : BitVec 16 := 0xfeed

def encode (sb : Superblock) : List UInt8 :=
  bytes16 sb.magic ++ [0, 0] ++ bytes32 sb.size ++ bytes32 sb.nblocks ++ bytes32 sb.ninodes ++ bytes32 sb.inodeMap ++
    bytes32 sb.blockMap ++ bytes16 sb.blocksStart ++ bytes16 sb.inodesStart ++ bytes16 sb.rootInode ++ [0, 0]

/-- The structure at the start of a block. -/
def load (m : Nat → UInt8) : Superblock :=
  { magic := load16 m 0
    size := load32 m 4
    nblocks := load32 m 8
    ninodes := load32 m 12
    inodeMap := load32 m 16
    blockMap := load32 m 20
    blocksStart := load16 m 24
    inodesStart := load16 m 26
    rootInode := load16 m 28 }

@[simp] theorem length_encode (sb : Superblock) : sb.encode.length = 32 := rfl

/-- A stored superblock reads back. -/
theorem load_write_encode (m : Nat → UInt8) (sb : Superblock) : load (Slice.write m 0 sb.encode) = sb := by
  obtain ⟨magic, size, nblocks, ninodes, inodeMap, blockMap, blocksStart, inodesStart, rootInode⟩ := sb
  simp only [load, encode, bytes16, bytes32, List.cons_append, List.nil_append, Superblock.mk.injEq]
  exact ⟨word16_bytes magic, word32_bytes size, word32_bytes nblocks, word32_bytes ninodes, word32_bytes inodeMap,
    word32_bytes blockMap, word16_bytes blocksStart, word16_bytes inodesStart, word16_bytes rootInode⟩

end Superblock

/-- `superblock` in memory with the volume that it describes, and the inodes. `magic` is `MAGIC` in all of them. -/
structure Mount where
  ext : ExtFs
  size : BitVec 32
  rootInode : BitVec 16

/-- A bitmap in its bytes. -/
def mapBytes (map : Nat → BitVec 8) (n : Nat) : List UInt8 := Slice.read (fun i => ⟨map i⟩) 0 n

/-- `create_bitmap`, with the first bytes read from a block. -/
def loadMap (bytes : List UInt8) : Nat → BitVec 8 := fun i => (Slice.write (fun _ => 0) 0 bytes i).toBitVec

namespace Mount

/-- What `ext_sync` stores; the two pointers are where `kalloc` put the bitmaps. -/
def superblock (m : Mount) (inodeMap blockMap : BitVec 32) : Superblock :=
  { magic := Superblock.magicNumber
    size := m.size
    nblocks := BitVec.ofNat 32 m.ext.volume.nblocks
    ninodes := BitVec.ofNat 32 m.ext.volume.ninodes
    inodeMap := inodeMap
    blockMap := blockMap
    blocksStart := m.ext.volume.blocksStart
    inodesStart := m.ext.volume.inodesStart
    rootInode := m.rootInode }

/-- `ext_sync` -/
def extSync (fsStart : Nat) (inodeMap blockMap : BitVec 32) (m : Mount) : Blockwise Mount := do
  let e ← Calls.inodesSync m.ext
  let v ← Calls.writeBlockOffset e.volume (m.superblock inodeMap blockMap).encode 0 fsStart
  let v ← Calls.writeBlockOffset v (mapBytes v.inodeMap (getBitmapSize v.ninodes)) 0 (fsStart + 1)
  let v ← Calls.writeBlockOffset v (mapBytes v.blockMap (getBitmapSize v.nblocks)) 0 (fsStart + 2)
  return { m with ext := { e with volume := v } }

end Mount

/-! ## A new file system -/

namespace Calls

/-- Through a pointer of `inode_get`. A null pointer, which an empty cache never gives, is not followed. -/
def through (e : ExtFs) (p : Option Slot) (f : Slot → Blockwise ExtFs) : Blockwise ExtFs := p.elim (pure e) f

/-- `inode_write` through a pointer -/
def write (e : ExtFs) (k : Slot) (buf : List UInt8) : Blockwise ExtFs := do
  let (_, v, inode) ← inodeWrite e.volume (e.cache k) buf
  return { e.setInode k inode with volume := v }

/-- `__inode_add_dir` -/
def inodeAddDir (e : ExtFs) (entry : DirectoryEntry) (p : Option Slot) : Blockwise ExtFs :=
  through e p fun k => write (e.setPos k (e.cache k).size) k entry.encode

/-- `ext_create_directory`; its errors are `-FS_ERR_CREATE_INODE` and `-FS_ERR_INODE_MISSING`, here the name is a
name that fits. -/
def extCreateDirectory (e : ExtFs) (name : List UInt8) (h : IsName name) (current : BitVec 16) :
    Blockwise (BitVec 16 × ExtFs) := do
  let (i, e) ← allocInode e fsTypeDirectory
  if i = 0 then return (-7, e)
  else
    let (inode, e) ← inodeGet e i
    if inode = none then return (-8, e)
    else
      let (currentDir, e) ← inodeGet e current
      let e ← inodeAddDir e (.back (currentDir.elim 0 fun k => (e.cache k).inode)) inode
      let e ← inodeAddDir e (.self i) inode
      let e ← inodeAddDir e ⟨name, i, DirectoryEntry.flagDirectory, h⟩ currentDir
      return (i, e)

end Calls

/-- `test_file_text`, with its end. -/
def testFileText : List UInt8 :=
  ("\t\tint add(int a, int b)\n\t\t\x7b\n\t\t\treturn a+b;\n\t\t\x7d\n\t\t\n\t\tint main()\n\t\t\x7b\n" ++
    "\t\t\tint c;\n\t\t\t\n\t\t\tc = add(10, 13);\n\t\t\treturn c;\n\t\t\x7d\n").toUTF8.toList ++ [0]

open Calls in
/-- `ext_create_file_system` with its files `bin`, `add.c` and `edit.o`. -/
def extCreateFileSystem (fsStart sectors : Nat) (disk : Nat → Nat → UInt8) : Blockwise Mount := do
  let (root, e) ← allocInode (.create fsStart sectors disk) fsTypeDirectory
  let (rootDir, e) ← inodeGet e root
  let e ← through e rootDir fun k => pure (e.link k)
  let e ← inodeAddDir e (.back root) rootDir
  let e ← inodeAddDir e (.self root) rootDir
  let (bin, e) ← extCreateDirectory e [98, 105, 110] (by decide) root
  let (binDir, e) ← inodeGet e bin
  let (file, e) ← allocInode e fsTypeFile
  let (testFile, e) ← inodeGet e file
  let e ← through e testFile fun k => write e k testFileText
  let (home, e) ← allocInode e fsTypeFile
  let e ← inodeAddDir e ⟨[97, 100, 100, 46, 99], file, DirectoryEntry.flagFile, by decide⟩ rootDir
  let e ← inodeAddDir e ⟨[101, 100, 105, 116, 46, 111], home, DirectoryEntry.flagFile, by decide⟩ binDir
  let e ← through e rootDir fun k => pure (e.setPos k 0)
  return ⟨e, Volume.spaceOf fsStart sectors, root⟩

/-- `init_ext` behind the superblock that it found. -/
def loadExt (fsStart sectors : Nat) (disk : Nat → Nat → UInt8) (sb : Superblock) : Blockwise Mount := do
  let blockBytes := getBitmapSize sb.nblocks.toNat
  let blockMap ← .emit ⟨0, blockBytes⟩ (loadMap (Slice.read (disk (fsStart + 2)) 0 blockBytes))
  let inodeBytes := getBitmapSize sb.ninodes.toNat
  let inodeMap ← .emit ⟨0, inodeBytes⟩ (loadMap (Slice.read (disk (fsStart + 1)) 0 inodeBytes))
  let v : Volume :=
    { ninodes := sb.ninodes.toNat
      nblocks := sb.nblocks.toNat
      inodesStart := BitVec.ofNat 16 (fsStart + 3)
      blocksStart := BitVec.ofNat 16 ((BitVec.ofNat 16 (fsStart + 3)).toNat + sb.ninodes.toNat)
      inodeMap := inodeMap
      blockMap := blockMap
      sectors := sectors
      disk := disk }
  let (rootDir, e) ← Calls.inodeGet ⟨v, fun _ => .zero⟩ sb.rootInode
  let e ← Calls.through e rootDir fun k => pure (e.link k)
  return ⟨e, sb.size, sb.rootInode⟩

/-- `init_ext` after a start of the machine: a disk without `MAGIC` gets a new file system. -/
def initExt (fsStart sectors : Nat) (disk : Nat → Nat → UInt8) : Blockwise Mount := do
  let sb ← .emit ⟨0, 32⟩ (Superblock.load (disk fsStart))
  if sb.magic ≠ Superblock.magicNumber then extCreateFileSystem fsStart sectors disk
  else loadExt fsStart sectors disk sb

end RetrOS.Ext
