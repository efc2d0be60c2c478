import RetrOS.Ext.Volume
import Mathlib.Data.Fin.Basic

/-!
# The inode cache and the calls on it (`fs/inode.c`, `fs/ext.c`)

* `ExtFs` : the volume and the write-back cache of 100 inodes above it;
* `inodeCacheInsert`, `inodeLoad`, `inodeGet` : a slot is free when its type is 0, and an inode without links may be
  evicted;
* `allocInode` : a new inode, in the cache only;
* `extWrite`, `extSeek`, `extRead`, `extSize` : the calls by number, with their return values.

An `inode_get` hands out a pointer into the cache. The operations through it are those on a slot.
-/

namespace RetrOS.Ext
open RetrOS.Lib

/-- A place in `__inode_cache`. -/
abbrev Slot := Fin 100

structure ExtFs where
  volume : Volume
  cache : Slot → Inode

/-- `FS_TYPE_FILE`, `FS_TYPE_DIRECTORY` -/
def fsTypeFile : UInt8 := 1
def fsTypeDirectory : UInt8 := 2

namespace ExtFs

def setInode (e : ExtFs) (k : Slot) (inode : Inode) : ExtFs := { e with cache := Function.update e.cache k inode }

/-- `__inode_cache_insert` : the first free slot, or the first inode without links, which goes to the disk. -/
def inodeCacheInsert (e : ExtFs) (inode : Inode) : Option Slot × ExtFs :=
  match Fin.find? fun k => (e.cache k).type == 0 with
  | some k => (some k, e.setInode k inode)
  | none =>
    match Fin.find? fun k => (e.cache k).nlink == 0 with
    | some k => (some k, { e.setInode k inode with volume := e.volume.inodeSync (e.cache k) })
    | none => (none, e)

/-- The record of inode `i` on the disk, as `__inode_load` reads it. -/
def diskInode (e : ExtFs) (i : BitVec 16) : Inode :=
  { Inode.load (e.volume.disk (e.volume.inodeAddr i)) with nlink := 0 }

/-- `__inode_load` -/
def inodeLoad (e : ExtFs) (i : BitVec 16) : Option Slot × ExtFs := e.inodeCacheInsert (e.diskInode i)

/-- `inode_get`; `NULL` is `none`. -/
def inodeGet (e : ExtFs) (i : BitVec 16) : Option Slot × ExtFs :=
  match Fin.find? fun k => (e.cache k).inode == i with
  | some k => (some k, e)
  | none => e.inodeLoad i

/-- The initializer of `alloc_inode`. -/
def newRecord (i : BitVec 16) (type : UInt8) : Inode := { Inode.zero with inode := i, type := type }

/-- `alloc_inode`; the number `0` is what `__new_inode` makes of a full map, and what a full cache returns. -/
def allocInode (e : ExtFs) (type : UInt8) : BitVec 16 × ExtFs :=
  if type ≠ fsTypeFile ∧ type ≠ fsTypeDirectory then (-1, e)
  else
    let (i, v) := e.volume.newInode
    match { e with volume := v }.inodeCacheInsert (newRecord i type) with
    | (some _, e') => (i, e')
    | (none, e') => (0, e')

/-! ## Through a pointer -/

/-- `inode_write` -/
def inodeWrite (e : ExtFs) (k : Slot) (buf : List UInt8) : Option Nat × ExtFs :=
  let (ret, v, inode) := e.volume.inodeWrite (e.cache k) buf
  (ret, { e.setInode k inode with volume := v })

/-- `inode_read` -/
def inodeRead (e : ExtFs) (k : Slot) (size : Nat) : Option (ReadResult × ExtFs × List UInt8) :=
  (e.volume.inodeRead (e.cache k) size).map fun (ret, inode, data) => (ret, e.setInode k inode, data)

/-- `inode->pos = pos` -/
def setPos (e : ExtFs) (k : Slot) (pos : BitVec 16) : ExtFs := e.setInode k { e.cache k with pos := pos }

/-- `inode->nlink++` -/
def link (e : ExtFs) (k : Slot) : ExtFs := e.setInode k { e.cache k with nlink := (e.cache k).nlink + 1 }

/-- `if(inode->nlink != 0) inode->nlink--` -/
def unlink (e : ExtFs) (k : Slot) : ExtFs :=
  if (e.cache k).nlink = 0 then e else e.setInode k { e.cache k with nlink := (e.cache k).nlink - 1 }

/-! ## By number -/

/-- The errors of the calls. -/
inductive Error
  /-- `-ERROR_NULL_POINTER` -/
  | nullPointer
  /-- `-FS_ERR_FILE_MISSING` : the inode is not open -/
  | fileMissing
  /-- `-1` of `inode_write` -/
  | outOfSpace
  /-- `-1` of `ext_seek` -/
  | pastEnd
deriving DecidableEq

def extWrite (e : ExtFs) (i : BitVec 16) (buf : List UInt8) : Except Error Nat × ExtFs :=
  match e.inodeGet i with
  | (none, e) => (.error .nullPointer, e)
  | (some k, e) =>
    if (e.cache k).nlink = 0 then (.error .fileMissing, e)
    else
      match (e.setPos k 0).inodeWrite k buf with
      | (none, e) => (.error .outOfSpace, e)
      | (some n, e) => (.ok n, e)

def extSeek (e : ExtFs) (i : BitVec 16) (pos : Int) : Except Error Unit × ExtFs :=
  match e.inodeGet i with
  | (none, e) => (.error .nullPointer, e)
  | (some k, e) =>
    if (e.cache k).size.toNat < pos then (.error .pastEnd, e) else (.ok (), e.setPos k (BitVec.ofInt 16 pos))

def extRead (e : ExtFs) (i : BitVec 16) (size : Nat) : Option (Except Error ReadResult × ExtFs × List UInt8) :=
  match e.inodeGet i with
  | (none, e) => some (.error .nullPointer, e, [])
  | (some k, e) =>
    if (e.cache k).nlink = 0 then some (.error .fileMissing, e, [])
    else (e.inodeRead k size).map fun (ret, e, data) => (.ok ret, e, data)

def extSize (e : ExtFs) (i : BitVec 16) : Except Error Nat × ExtFs :=
  match e.inodeGet i with
  | (none, e) => (.error .nullPointer, e)
  | (some k, e) => (.ok (e.cache k).size.toNat, e)

/-- An empty cache above a new file system. -/
def create (fsStart sectors : Nat) (disk : Nat → Nat → UInt8) : ExtFs :=
  ⟨.createFileSystem fsStart sectors disk, fun _ => .zero⟩

/-! ## What an insertion and a lookup can do -/

@[simp] theorem setInode_volume (e : ExtFs) (k : Slot) (inode : Inode) : (e.setInode k inode).volume = e.volume := rfl

@[simp] theorem setInode_self (e : ExtFs) (k : Slot) (inode : Inode) : (e.setInode k inode).cache k = inode :=
  Function.update_self ..

theorem setInode_of_ne (e : ExtFs) {k l : Slot} (inode : Inode) (h : l ≠ k) :
    (e.setInode k inode).cache l = e.cache l :=
  Function.update_of_ne h _ _

theorem setInode_cache (e : ExtFs) (k : Slot) : e.setInode k (e.cache k) = e := by
  unfold setInode
  rw [Function.update_eq_self]

theorem inodeCacheInsert_cases (e : ExtFs) (inode : Inode) :
    (∃ k, (e.cache k).type = 0 ∧ e.inodeCacheInsert inode = (some k, e.setInode k inode)) ∨
    (∃ k, (e.cache k).type ≠ 0 ∧ (e.cache k).nlink = 0 ∧
      e.inodeCacheInsert inode = (some k, { e.setInode k inode with volume := e.volume.inodeSync (e.cache k) })) ∨
    ((∀ k, (e.cache k).type ≠ 0 ∧ (e.cache k).nlink ≠ 0) ∧ e.inodeCacheInsert inode = (none, e)) := by
  unfold inodeCacheInsert
  cases hfree : Fin.find? fun k => (e.cache k).type == 0 with
  | some k => exact .inl ⟨k, eq_of_beq (Fin.find?_eq_some_iff.mp hfree).1, rfl⟩
  | none =>
    have hnone := Fin.find?_eq_none_iff.mp hfree
    have hused : ∀ k, (e.cache k).type ≠ 0 := fun k => ne_of_beq_false (hnone k)
    cases hclosed : Fin.find? fun k => (e.cache k).nlink == 0 with
    | some k => exact .inr (.inl ⟨k, hused k, eq_of_beq (Fin.find?_eq_some_iff.mp hclosed).1, rfl⟩)
    | none =>
      have hnone := Fin.find?_eq_none_iff.mp hclosed
      exact .inr (.inr ⟨fun k => ⟨hused k, ne_of_beq_false (hnone k)⟩, rfl⟩)

theorem inodeGet_cases (e : ExtFs) (i : BitVec 16) :
    (∃ k, (e.cache k).inode = i ∧ e.inodeGet i = (some k, e)) ∨
    ((∀ k, (e.cache k).inode ≠ i) ∧ e.inodeGet i = e.inodeCacheInsert (e.diskInode i)) := by
  unfold inodeGet
  cases hfind : Fin.find? fun k => (e.cache k).inode == i with
  | some k => exact .inl ⟨k, eq_of_beq (Fin.find?_eq_some_iff.mp hfind).1, rfl⟩
  | none =>
    have hnone := Fin.find?_eq_none_iff.mp hfind
    exact .inr ⟨fun k => ne_of_beq_false (hnone k), rfl⟩

end ExtFs

/-! ## The inode table on the disk -/

namespace Volume

theorem inodeAddr_inj (v : Volume) {i j : BitVec 16} (h : v.inodeAddr i = v.inodeAddr j) : i = j := by
  have hsum := (BitVec.add_right_inj _).mp (BitVec.eq_of_toNat_eq h)
  have hself : ∀ x : BitVec 16, (x.signExtend 32).setWidth 16 = x := fun x => by
    ext n hn
    rw [BitVec.getElem_setWidth, BitVec.getLsbD_signExtend]
    simp only [hn, if_true, BitVec.getLsbD_eq_getElem]
    simp
    omega
  rw [← hself i, ← hself j, hsum]

/-- A block of the inode table. -/
theorem inodeAddr_of_lt (v : Volume) {i : BitVec 16} (h : i.toNat < 32768) :
    v.inodeAddr i = v.inodesStart.toNat + i.toNat := by
  have hsext : i.signExtend 32 = i.setWidth 32 := by
    rw [BitVec.signExtend_eq_setWidth_of_msb_false]
    rw [BitVec.msb_eq_decide]
    simp
    omega
  have hs := v.inodesStart.isLt
  rw [inodeAddr, hsext, BitVec.toNat_add, BitVec.toNat_setWidth, BitVec.toNat_setWidth]
  omega

end Volume

namespace ExtFs

theorem diskInode_inodeSync (e : ExtFs) (inode : Inode) :
    { e with volume := e.volume.inodeSync inode }.diskInode inode.inode = { inode with nlink := 0 } := by
  have haddr : (e.volume.inodeSync inode).inodeAddr inode.inode = e.volume.inodeAddr inode.inode := rfl
  have hdisk : (e.volume.inodeSync inode).disk (e.volume.inodeAddr inode.inode) =
      Slice.write (e.volume.disk (e.volume.inodeAddr inode.inode)) 0 inode.encode := Function.update_self ..
  unfold diskInode
  dsimp only
  rw [haddr, hdisk, Inode.load_write_encode]

theorem diskInode_inodeSync_of_ne (e : ExtFs) {inode : Inode} {i : BitVec 16} (h : i ≠ inode.inode) :
    { e with volume := e.volume.inodeSync inode }.diskInode i = e.diskInode i := by
  have hne : e.volume.inodeAddr i ≠ e.volume.inodeAddr inode.inode := fun heq => h (e.volume.inodeAddr_inj heq)
  have hdisk : (e.volume.inodeSync inode).disk (e.volume.inodeAddr i) = e.volume.disk (e.volume.inodeAddr i) :=
    Function.update_of_ne hne _ _
  have haddr : (e.volume.inodeSync inode).inodeAddr i = e.volume.inodeAddr i := rfl
  unfold diskInode
  dsimp only
  rw [haddr, hdisk]

end ExtFs

end RetrOS.Ext
