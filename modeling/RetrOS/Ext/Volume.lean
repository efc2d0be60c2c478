import RetrOS.Ext.Inode
import RetrOS.Kernel.Bitmap
import Mathlib.Logic.Function.Basic

/-!
# The volume of the ext file system (`fs/inode.c`, `fs/ext.c`)

* `Volume` : the superblock with its two bitmaps, and the disk below it;
* `createFileSystem` : `ext_create_file_system` up to its first `alloc_inode`;
* `inodeWrite`, `inodeRead` : the transfers, block by block, through the 16-bit position of an inode;
* `inodeSync` : `__inode_sync`.

A block of the disk is a function from offsets to bytes.
-/

namespace RetrOS.Ext
open RetrOS.Lib

structure Volume where
  /-- `struct superblock`; one inode takes one block (`INODES_PER_BLOCK = 1`) -/
  ninodes : Nat
  nblocks : Nat
  inodesStart : BitVec 16
  blocksStart : BitVec 16
  inodeMap : Nat → BitVec 8
  blockMap : Nat → BitVec 8
  /-- the blocks of the device -/
  sectors : Nat
  disk : Nat → Nat → UInt8

namespace Volume

/-- `superblock.size` : what is left of the disk behind `FS_START_LOCATION`. -/
def spaceOf (fsStart sectors : Nat) : BitVec 32 := BitVec.ofNat 32 (sectors * 512) - BitVec.ofNat 32 (fsStart * 512)

/-- `superblock.ninodes`; an inode counts with its `sizeof(struct inode) = 424` bytes and 200 blocks. -/
def ninodesOf (fsStart sectors : Nat) : Nat := (spaceOf fsStart sectors).toNat / (424 + 200 * 512)

/-- `ext_create_file_system` up to the first `alloc_inode`. The maps are cleared, the inode table is not. -/
def createFileSystem (fsStart sectors : Nat) (disk : Nat → Nat → UInt8) : Volume :=
  { ninodes := ninodesOf fsStart sectors
    nblocks := ninodesOf fsStart sectors * 200
    inodesStart := BitVec.ofNat 16 (fsStart + 3)
    blocksStart := BitVec.ofNat 16 ((BitVec.ofNat 16 (fsStart + 3)).toNat + ninodesOf fsStart sectors)
    inodeMap := fun _ => 0
    blockMap := fun _ => 0
    sectors := sectors
    disk := disk }

/-- The block of inode `i`. The `int` sum goes to the device as a `uint32_t`. -/
def inodeAddr (v : Volume) (i : BitVec 16) : Nat := (v.inodesStart.setWidth 32 + i.signExtend 32).toNat

/-- The disk block of a recorded block. -/
def dataAddr (v : Volume) (b : BitVec 16) : Nat := v.blocksStart.toNat + b.toNat

/-- `write_block_offset` -/
def writeBlockOffset (v : Volume) (buf : List UInt8) (offset block : Nat) : Volume :=
  { v with disk := Function.update v.disk block (Slice.write (v.disk block) offset buf) }

/-- `read_block_offset` -/
def readBlockOffset (v : Volume) (size offset block : Nat) : List UInt8 := Slice.read (v.disk block) offset size

/-- `__inode_sync` -/
def inodeSync (v : Volume) (inode : Inode) : Volume :=
  v.writeBlockOffset inode.encode 0 (v.inodeAddr inode.inode)

/-- `__new_inode` : the sentinel `-1` of the bitmap becomes number `0`. -/
def newInode (v : Volume) : BitVec 16 × Volume :=
  match Bitmap.getFreeBitmap v.inodeMap v.ninodes with
  | some (i, map) => (BitVec.ofNat 16 (i + 1), { v with inodeMap := map })
  | none => (0, v)

/-- `__new_block` : the sentinel becomes block `0`. -/
def newBlock (v : Volume) : BitVec 16 × Volume :=
  match Bitmap.getFreeBitmap v.blockMap v.nblocks with
  | some (i, map) => (BitVec.ofNat 16 (i + 1), { v with blockMap := map })
  | none => (0, v)

end Volume

/-- A volume and the inode that is being written. -/
abbrev Writing := Volume × Inode

namespace Writing

/-- `if(inode->blocks[block] == 0) inode->blocks[block] = __new_block(sb)`, for the block of the position -/
def ensureBlock : Writing → Writing
  | (v, inode) =>
    if inode.blocks inode.block = 0 then
      ((v.newBlock).2, { inode with blocks := Function.update inode.blocks inode.block (v.newBlock).1 })
    else (v, inode)

/-- One piece at the position, inside its block, and the position behind it. -/
def put (buf : List UInt8) : Writing → Writing
  | (v, inode) =>
    (v.writeBlockOffset buf inode.inBlock (v.dataAddr (inode.blocks inode.block)),
      { inode with pos := inode.pos + BitVec.ofNat 16 buf.length })

/-- `while (size > BLOCK_SIZE)`, and the last piece. -/
def writeLoop (w : Writing) (buf : List UInt8) : Writing :=
  if 512 < buf.length then writeLoop (ensureBlock (put (buf.take 512) w)) (buf.drop 512) else put buf w
termination_by buf.length
decreasing_by
  rw [List.length_drop]
  omega

end Writing

/-- `inode_write`; the result `-1` is `none`. -/
def Volume.inodeWrite (v : Volume) (inode : Inode) (buf : List UInt8) : Option Nat × Writing :=
  if 102400 < buf.length + inode.pos.toNat ∨ 200 < inode.pos.toNat / 512 then (none, v, inode)
  else
    let w := Writing.ensureBlock (v, inode)
    let w := (w.1, { w.2 with size := if inode.pos = 0 then 0 else w.2.size })
    -- a write past a block border begins with the rest of the block
    let partialPiece := inode.inBlock ≠ 0 ∧ 512 < inode.inBlock + buf.length
    let w := if partialPiece then Writing.put (buf.take (512 - inode.inBlock)) w else w
    let left := if partialPiece then buf.drop (512 - inode.inBlock) else buf
    let (v', inode') := Writing.writeLoop (Writing.ensureBlock w) left
    let inode' := { inode' with size := inode'.size + BitVec.ofNat 16 buf.length }
    (some buf.length, v'.inodeSync inode', inode')

/-- What `inode_read` returns: `0` behind the end, a number of bytes, or one of its errors. -/
inductive ReadResult
  | bytes (n : Nat)
  /-- `-1`: more than `MAX_FILE_SIZE` -/
  | tooLong
  /-- `-2`: a block is missing -/
  | missing
deriving DecidableEq

/-- `while (left > BLOCK_SIZE)` and the last piece; the second component is what is copied. -/
def Volume.readLoop (v : Volume) (inode : Inode) (left : Nat) (progress : List UInt8) :
    Bool × Inode × List UInt8 :=
  if 512 < left then
    if inode.blocks inode.block = 0 then (false, inode, progress)
    else
      readLoop v { inode with pos := inode.pos + 512 } (left - 512)
        (progress ++ v.readBlockOffset 512 0 (v.dataAddr (inode.blocks inode.block)))
  else
    (true, inode, progress ++ v.readBlockOffset left inode.inBlock (v.dataAddr (inode.blocks inode.block)))
termination_by left
decreasing_by omega

/-- `inode_read`; `none` where a `memcpy` gets a negative length. -/
def Volume.inodeRead (v : Volume) (inode : Inode) (size : Nat) : Option (ReadResult × Inode × List UInt8) :=
  if inode.size ≤ inode.pos then some (.bytes 0, inode, [])
  else if 102400 < size then some (.tooLong, inode, [])
  else
    let left := min size inode.size.toNat
    let partialPiece := inode.inBlock ≠ 0 ∧ 512 < inode.inBlock + size
    let toRead := 512 - inode.inBlock
    if partialPiece ∧ left < toRead then none
    else
      let start := if partialPiece then
          ({ inode with pos := inode.pos + BitVec.ofNat 16 toRead }, left - toRead,
            v.readBlockOffset toRead inode.inBlock (v.dataAddr (inode.blocks inode.block)))
        else (inode, left, [])
      match v.readLoop start.1 start.2.1 start.2.2 with
      | (false, inode', data) => some (.missing, inode', data)
      | (true, inode', data) =>
        some (.bytes (min size inode.size.toNat), { inode' with pos := inode'.pos + BitVec.ofNat 16 size }, data)

end RetrOS.Ext
