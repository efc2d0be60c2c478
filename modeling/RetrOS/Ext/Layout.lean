import RetrOS.Ext.Superblock
import RetrOS.Lib.Run

/-!
# The blocks of the bitmaps (`init_ext`, `ext_sync`)

* `InodeOp`, `MountOp`, `Mount.step` : the calls of the inode functions, `ext_sync`, and a restart after it;
* `Laid` : the numbers of the superblock are those of the disk (`Laid.step`, `laid_initExt`);
* `SameMaps` : what `init_ext` reads is what `ext_sync` wrote (`Laid.restart`);
* `BlocksLaw` : all calls stay in their blocks, in every run from a new file system;
* `blocksLaw_iff` : on the disks with at most 20 inodes.

An inode counts with 200 blocks, so 21 inodes need 525 bytes for the block bitmap.
-/

namespace RetrOS.Ext
open RetrOS.Lib Writing

/-- The numbers of a volume, without its contents. -/
def Volume.layout (v : Volume) : Volume :=
  { v with inodeMap := fun _ => 0, blockMap := fun _ => 0, disk := fun _ _ => 0 }

/-- The numbers are those that `ext_create_file_system` computes for the disk. -/
def Laid (fsStart sectors : Nat) (e : ExtFs) : Prop :=
  e.volume.layout = .createFileSystem fsStart sectors fun _ _ => 0

/-- A call of an inode function. -/
inductive InodeOp
  | get (i : BitVec 16)
  | alloc (type : UInt8)
  | write (k : Slot) (buf : List UInt8)
  | read (k : Slot) (size : Nat)
  | seek (k : Slot) (pos : BitVec 16)
  | link (k : Slot)
  | unlink (k : Slot)

inductive MountOp
  | inode (op : InodeOp)
  /-- `ext_sync`, with the addresses of the bitmaps -/
  | sync (inodeMap blockMap : BitVec 32)
  /-- `ext_sync`, and `init_ext` when the machine starts again -/
  | restart (inodeMap blockMap : BitVec 32)

namespace Mount

def restart (fsStart : Nat) (inodeMap blockMap : BitVec 32) (m : Mount) : Blockwise Mount := do
  let m ← m.extSync fsStart inodeMap blockMap
  initExt fsStart m.ext.volume.sectors m.ext.volume.disk

/-- The inodes behind a call; `none` where a `memcpy` gets a negative length. -/
def stepExt (e : ExtFs) : InodeOp → Blockwise (Option ExtFs)
  | .get i => do
    let (_, e) ← Calls.inodeGet e i
    return some e
  | .alloc type => do
    let (_, e) ← Calls.allocInode e type
    return some e
  | .write k buf => do
    let e ← Calls.write e k buf
    return some e
  | .read k size => do
    let out ← Calls.inodeRead e.volume (e.cache k) size
    return out.map fun (_, inode, _) => e.setInode k inode
  | .seek k pos => return some (e.setPos k pos)
  | .link k => return some (e.link k)
  | .unlink k => return some (e.unlink k)

def step (fsStart : Nat) (m : Mount) : MountOp → Blockwise (Option Mount)
  | .inode op => do
    let e ← stepExt m.ext op
    return e.map fun e => { m with ext := e }
  | .sync inodeMap blockMap => do
    let m ← m.extSync fsStart inodeMap blockMap
    return some m
  | .restart inodeMap blockMap => do
    let m ← m.restart fsStart inodeMap blockMap
    return some m

/-- The call `op` takes `m` to `m'`. -/
abbrev Next (fsStart : Nat) (m : Mount) (op : MountOp) (m' : Mount) : Prop := (m.step fsStart op).val = some m'

/-- The bitmaps of two file systems, in the bytes that `ext_sync` stores. -/
structure SameMaps (m m' : Mount) : Prop where
  ninodes : m'.ext.volume.ninodes = m.ext.volume.ninodes
  nblocks : m'.ext.volume.nblocks = m.ext.volume.nblocks
  inodeMap : ∀ i < getBitmapSize m.ext.volume.ninodes, m'.ext.volume.inodeMap i = m.ext.volume.inodeMap i
  blockMap : ∀ i < getBitmapSize m.ext.volume.nblocks, m'.ext.volume.blockMap i = m.ext.volume.blockMap i

end Mount

/-- On a disk where `init_ext` creates the file system all its calls stay in their blocks, and so do those of every
call in every run after it; and a restart keeps the bitmaps. -/
structure BlocksLaw (fsStart sectors : Nat) : Prop where
  init : ∀ disk, (Superblock.load (disk fsStart)).magic ≠ Superblock.magicNumber →
    (initExt fsStart sectors disk).All BlockCall.Inside
  run : ∀ disk, (Superblock.load (disk fsStart)).magic ≠ Superblock.magicNumber → ∀ ops m,
    AnyRun (Mount.Next fsStart) (initExt fsStart sectors disk).val ops m →
    ∀ op, (m.step fsStart op).All BlockCall.Inside
  maps : ∀ disk, (Superblock.load (disk fsStart)).magic ≠ Superblock.magicNumber → ∀ ops m,
    AnyRun (Mount.Next fsStart) (initExt fsStart sectors disk).val ops m →
    ∀ inodeMap blockMap, m.SameMaps (m.restart fsStart inodeMap blockMap).val

/-! ## The numbers of the superblock -/

section Layout
variable {v v' : Volume} {inode : Inode} {buf : List UInt8} {e : ExtFs} {k : Slot} {i : BitVec 16}

@[simp] theorem layout_inodeSync (v : Volume) (inode : Inode) : (v.inodeSync inode).layout = v.layout := rfl

@[simp] theorem layout_writeBlockOffset (v : Volume) (buf : List UInt8) (offset block : Nat) :
    (v.writeBlockOffset buf offset block).layout = v.layout := rfl

@[simp] theorem layout_newInode (v : Volume) : v.newInode.2.layout = v.layout := by
  unfold Volume.newInode
  split <;> rfl

theorem Writing.Moved.layout {w w' : Writing} {n : Nat} (h : Moved w n w') : w'.1.layout = w.1.layout := by
  rw [h.volume]
  rfl

@[simp] theorem layout_inodeWrite (v : Volume) (inode : Inode) (buf : List UInt8) :
    (v.inodeWrite inode buf).2.1.layout = v.layout := by
  by_cases hacc : buf.length + inode.pos.toNat ≤ 102400
  · rw [inodeWrite_eq v inode buf hacc]
    exact (Moved.writeAll (v, inode.restart) buf).layout
  · rw [inodeWrite_reject v (Nat.lt_of_not_le hacc)]

theorem layout_of_disk (h : v' = { v with disk := v'.disk }) : v'.layout = v.layout := by
  rw [h]
  rfl

/-- An inode that is cached may send another one to the disk. -/
theorem inodeCacheInsert_volume (e : ExtFs) (inode : Inode) : (e.inodeCacheInsert inode).2.volume =
    { e.volume with disk := (e.inodeCacheInsert inode).2.volume.disk } := by
  obtain ⟨k, -, hins⟩ | ⟨k, -, -, hins⟩ | ⟨-, hins⟩ := e.inodeCacheInsert_cases inode
  · rw [hins]
    rfl
  · rw [hins]
    rfl
  · rw [hins]

theorem inodeGet_volume (e : ExtFs) (i : BitVec 16) : (e.inodeGet i).2.volume =
    { e.volume with disk := (e.inodeGet i).2.volume.disk } := by
  obtain ⟨k, -, hget⟩ | ⟨-, hget⟩ := e.inodeGet_cases i
  · rw [hget]
  · rw [hget]
    exact inodeCacheInsert_volume e _

@[simp] theorem layout_inodeCacheInsert (e : ExtFs) (inode : Inode) :
    (e.inodeCacheInsert inode).2.volume.layout = e.volume.layout :=
  layout_of_disk (inodeCacheInsert_volume e inode)

@[simp] theorem layout_inodeGet (e : ExtFs) (i : BitVec 16) : (e.inodeGet i).2.volume.layout = e.volume.layout :=
  layout_of_disk (inodeGet_volume e i)

@[simp] theorem layout_allocInode (e : ExtFs) (type : UInt8) :
    (e.allocInode type).2.volume.layout = e.volume.layout := by
  unfold ExtFs.allocInode
  split
  · rfl
  · dsimp only
    have hins := layout_inodeCacheInsert { e with volume := e.volume.newInode.2 }
      (ExtFs.newRecord e.volume.newInode.1 type)
    split <;> next h => rw [h, layout_newInode] at hins; exact hins

@[simp] theorem layout_write (e : ExtFs) (k : Slot) (buf : List UInt8) :
    (Calls.write e k buf).val.volume.layout = e.volume.layout := by
  show (Calls.inodeWrite e.volume (e.cache k) buf).val.2.1.layout = e.volume.layout
  rw [Calls.val_inodeWrite, layout_inodeWrite]

@[simp] theorem volume_link (e : ExtFs) (k : Slot) : (e.link k).volume = e.volume := rfl

@[simp] theorem volume_setPos (e : ExtFs) (k : Slot) (pos : BitVec 16) : (e.setPos k pos).volume = e.volume := rfl

@[simp] theorem volume_unlink (e : ExtFs) (k : Slot) : (e.unlink k).volume = e.volume := by
  unfold ExtFs.unlink
  split <;> rfl

/-- Inodes that go to the disk leave everything else. -/
theorem inodesSync_volume (e : ExtFs) :
    (Calls.inodesSync e).val.volume = { e.volume with disk := (Calls.inodesSync e).val.volume.disk } := by
  unfold Calls.inodesSync
  generalize List.finRange 100 = slots
  refine Traced.foldlM_invariant (P := fun s : ExtFs => s.volume = { e.volume with disk := s.volume.disk })
    (fun s k hs => ?_) rfl _
  split
  · show s.volume.inodeSync (s.cache k) = _
    rw [hs]
    rfl
  · exact hs

end Layout

namespace Calls
variable {e : ExtFs} {p : Option Slot} {f : Slot → Blockwise ExtFs}

@[simp] theorem layout_through (h : ∀ k, (f k).val.volume.layout = e.volume.layout) :
    (through e p f).val.volume.layout = e.volume.layout := by
  cases p with
  | none => rfl
  | some k => exact h k

@[simp] theorem layout_inodeAddDir (e : ExtFs) (entry : DirectoryEntry) (p : Option Slot) :
    (inodeAddDir e entry p).val.volume.layout = e.volume.layout :=
  layout_through fun k => by rw [layout_write]; rfl

@[simp] theorem layout_extCreateDirectory (e : ExtFs) (name : List UInt8) (h : IsName name) (current : BitVec 16) :
    (extCreateDirectory e name h current).val.2.volume.layout = e.volume.layout := by
  unfold extCreateDirectory
  simp only [Traced.val_bind, Traced.val_ite, Traced.val_pure]
  split
  · simp
  · split
    · simp
    · simp

theorem volume_through_link (e : ExtFs) (p : Option Slot) :
    (through e p fun k => pure (e.link k)).val.volume = e.volume := by
  cases p <;> rfl

theorem inside_through (h : ∀ k, (f k).All BlockCall.Inside) : (through e p f).All BlockCall.Inside := by
  cases p with
  | none => exact Traced.all_pure _
  | some k => exact h k

theorem inside_write (e : ExtFs) (k : Slot) (buf : List UInt8) : (write e k buf).All BlockCall.Inside :=
  (Traced.all_bind ..).mpr ⟨inside_inodeWrite _ _ _, Traced.all_pure _⟩

theorem inside_inodeAddDir (e : ExtFs) (entry : DirectoryEntry) (p : Option Slot) :
    (inodeAddDir e entry p).All BlockCall.Inside :=
  inside_through fun k => inside_write _ k _

theorem inside_extCreateDirectory (e : ExtFs) (name : List UInt8) (h : IsName name) (current : BitVec 16) :
    (extCreateDirectory e name h current).All BlockCall.Inside := by
  unfold extCreateDirectory
  refine (Traced.all_bind ..).mpr ⟨inside_allocInode _ _, ?_⟩
  dsimp only
  split
  · exact Traced.all_pure _
  · refine (Traced.all_bind ..).mpr ⟨inside_inodeGet _ _, ?_⟩
    split
    · exact Traced.all_pure _
    · simp only [Traced.all_bind, Traced.all_pure, inside_inodeGet, inside_inodeAddDir, and_self]

end Calls

open Calls in
theorem inside_extCreateFileSystem (fsStart sectors : Nat) (disk : Nat → Nat → UInt8) :
    (extCreateFileSystem fsStart sectors disk).All BlockCall.Inside := by
  unfold extCreateFileSystem
  simp only [Traced.all_bind, Traced.all_pure, inside_allocInode, inside_inodeGet, inside_inodeAddDir,
    inside_extCreateDirectory, inside_through, inside_write, implies_true, and_self]

theorem laid_create (fsStart sectors : Nat) (disk : Nat → Nat → UInt8) :
    Laid fsStart sectors (.create fsStart sectors disk) := rfl

open Calls in
theorem laid_extCreateFileSystem (fsStart sectors : Nat) (disk : Nat → Nat → UInt8) :
    Laid fsStart sectors (extCreateFileSystem fsStart sectors disk).val.ext := by
  unfold extCreateFileSystem Laid
  simp only [Traced.val_bind, Traced.val_pure]
  simp
  exact laid_create fsStart sectors disk

/-! ## What is stored and read back -/

theorem ninodesOf_lt (fsStart sectors : Nat) : Volume.ninodesOf fsStart sectors < 41771 := by
  have hlt := (Volume.spaceOf fsStart sectors).isLt
  unfold Volume.ninodesOf
  omega

section Restart
variable {fsStart sectors : Nat} {m m' : Mount} {e : ExtFs}

theorem Laid.ninodes (h : Laid fsStart sectors e) : e.volume.ninodes = Volume.ninodesOf fsStart sectors :=
  congrArg Volume.ninodes h

theorem Laid.nblocks (h : Laid fsStart sectors e) : e.volume.nblocks = Volume.ninodesOf fsStart sectors * 200 :=
  congrArg Volume.nblocks h

theorem Laid.device (h : Laid fsStart sectors e) : e.volume.sectors = sectors := congrArg Volume.sectors h

theorem loadMap_mapBytes (map : Nat → BitVec 8) {n i : Nat} (h : i < n) : loadMap (mapBytes map n) i = map i := by
  have hlen : i < (mapBytes map n).length := by rwa [mapBytes, Slice.length_read]
  have hcell := Slice.write_inside (fun _ => (0 : UInt8)) (d := 0) hlen
  rw [Nat.zero_add] at hcell
  rw [loadMap, hcell]
  simp only [mapBytes, Slice.getElem_read, Nat.zero_add]

/-- The three blocks hold the superblock and the bitmaps. -/
structure Stored (fsStart : Nat) (m : Mount) (disk : Nat → Nat → UInt8) : Prop where
  superblock : ∃ inodeMap blockMap, Superblock.load (disk fsStart) = m.superblock inodeMap blockMap
  inodeMap : Slice.read (disk (fsStart + 1)) 0 (getBitmapSize m.ext.volume.ninodes) =
    mapBytes m.ext.volume.inodeMap (getBitmapSize m.ext.volume.ninodes)
  blockMap : Slice.read (disk (fsStart + 2)) 0 (getBitmapSize m.ext.volume.nblocks) =
    mapBytes m.ext.volume.blockMap (getBitmapSize m.ext.volume.nblocks)

/-- A bitmap that is stored in a block. -/
theorem read_write_map (block : Nat → UInt8) (map : Nat → BitVec 8) (n : Nat) :
    Slice.read (Slice.write block 0 (mapBytes map n)) 0 n = mapBytes map n := by
  have hread := Slice.read_write_self block 0 (mapBytes map n)
  rwa [mapBytes, Slice.length_read] at hread

/-- `ext_sync` stores all three, and keeps everything in memory. -/
theorem extSync_stored (fsStart : Nat) (inodeMap blockMap : BitVec 32) (m : Mount) :
    Stored fsStart m (m.extSync fsStart inodeMap blockMap).val.ext.volume.disk ∧
      (m.extSync fsStart inodeMap blockMap).val.ext.volume =
        { m.ext.volume with disk := (m.extSync fsStart inodeMap blockMap).val.ext.volume.disk } := by
  have hsync := inodesSync_volume m.ext
  obtain ⟨e, he⟩ : ∃ e, e = (Calls.inodesSync m.ext).val := ⟨_, rfl⟩
  rw [← he] at hsync
  have hval : (m.extSync fsStart inodeMap blockMap).val.ext.volume =
      ((e.volume.writeBlockOffset (m.superblock inodeMap blockMap).encode 0 fsStart).writeBlockOffset
        (mapBytes e.volume.inodeMap (getBitmapSize e.volume.ninodes)) 0 (fsStart + 1)).writeBlockOffset
        (mapBytes e.volume.blockMap (getBitmapSize e.volume.nblocks)) 0 (fsStart + 2) := by
    simp only [Mount.extSync, Traced.val_bind, Traced.val_pure, Calls.writeBlockOffset, Traced.val_emit, ← he]
    rfl
  rw [hval, hsync]
  refine ⟨⟨⟨inodeMap, blockMap, ?_⟩, ?_, ?_⟩, rfl⟩
  · simp only [Volume.writeBlockOffset]
    rw [Function.update_of_ne (by omega), Function.update_of_ne (by omega), Function.update_self,
      Superblock.load_write_encode]
  · simp only [Volume.writeBlockOffset]
    rw [Function.update_of_ne (by omega), Function.update_self, read_write_map]
  · simp only [Volume.writeBlockOffset]
    rw [Function.update_self, read_write_map]

/-- The bitmaps and numbers that `loadExt` takes from the disk. -/
theorem loadExt_volume (fsStart sectors : Nat) (disk : Nat → Nat → UInt8) (sb : Superblock) :
    (loadExt fsStart sectors disk sb).val.ext.volume =
      { ninodes := sb.ninodes.toNat
        nblocks := sb.nblocks.toNat
        inodesStart := BitVec.ofNat 16 (fsStart + 3)
        blocksStart := BitVec.ofNat 16 ((BitVec.ofNat 16 (fsStart + 3)).toNat + sb.ninodes.toNat)
        inodeMap := loadMap (Slice.read (disk (fsStart + 1)) 0 (getBitmapSize sb.ninodes.toNat))
        blockMap := loadMap (Slice.read (disk (fsStart + 2)) 0 (getBitmapSize sb.nblocks.toNat))
        sectors := sectors
        disk := (loadExt fsStart sectors disk sb).val.ext.volume.disk } := by
  unfold loadExt
  simp only [Traced.val_bind, Traced.val_emit, Traced.val_pure, Calls.val_inodeGet, Calls.volume_through_link]
  exact inodeGet_volume _ _

theorem inside_loadExt (disk : Nat → Nat → UInt8) {sb : Superblock} (hinodes : getBitmapSize sb.ninodes.toNat ≤ 512)
    (hblocks : getBitmapSize sb.nblocks.toNat ≤ 512) : (loadExt fsStart sectors disk sb).All BlockCall.Inside := by
  unfold loadExt
  refine (Traced.all_bind ..).mpr ⟨Calls.inside_emit (by omega) _, ?_⟩
  refine (Traced.all_bind ..).mpr ⟨Calls.inside_emit (by omega) _, ?_⟩
  simp only [Traced.all_bind, Traced.all_pure, Calls.inside_inodeGet, Calls.inside_through, implies_true, and_self]

/-- The superblock is read, and either the new file system or the old one is set up. -/
theorem initExt_eq (fsStart sectors : Nat) (disk : Nat → Nat → UInt8) : initExt fsStart sectors disk =
    Traced.emit ⟨0, 32⟩ (Superblock.load (disk fsStart)) >>= fun sb =>
      if sb.magic ≠ Superblock.magicNumber then extCreateFileSystem fsStart sectors disk
      else loadExt fsStart sectors disk sb := rfl

theorem initExt_created {disk : Nat → Nat → UInt8}
    (h : (Superblock.load (disk fsStart)).magic ≠ Superblock.magicNumber) :
    Laid fsStart sectors (initExt fsStart sectors disk).val.ext ∧
      (initExt fsStart sectors disk).All BlockCall.Inside := by
  rw [initExt_eq, Traced.val_bind, Traced.all_bind, Traced.val_emit, if_pos h]
  exact ⟨laid_extCreateFileSystem .., Calls.inside_emit (by decide) _, inside_extCreateFileSystem _ _ _⟩

/-- Where the blocks of a file system are found, `init_ext` sets it up with its bitmaps. -/
theorem initExt_stored {disk : Nat → Nat → UInt8} (hlaid : Laid fsStart sectors m.ext) (h : Stored fsStart m disk) :
    Laid fsStart sectors (initExt fsStart sectors disk).val.ext ∧ m.SameMaps (initExt fsStart sectors disk).val ∧
      (Volume.ninodesOf fsStart sectors ≤ 20 → (initExt fsStart sectors disk).All BlockCall.Inside) := by
  obtain ⟨⟨inodeMap, blockMap, hsb⟩, hinodes, hblocks⟩ := h
  have hlt := ninodesOf_lt fsStart sectors
  have hn := hlaid.ninodes
  have hb := hlaid.nblocks
  have hninodes : (m.superblock inodeMap blockMap).ninodes.toNat = m.ext.volume.ninodes := by
    rw [Mount.superblock, BitVec.toNat_ofNat, Nat.mod_eq_of_lt (by omega)]
  have hnblocks : (m.superblock inodeMap blockMap).nblocks.toNat = m.ext.volume.nblocks := by
    rw [Mount.superblock, BitVec.toNat_ofNat, Nat.mod_eq_of_lt (by omega)]
  have hmagic : ¬ (m.superblock inodeMap blockMap).magic ≠ Superblock.magicNumber := fun hne => hne rfl
  rw [initExt_eq, Traced.val_bind, Traced.all_bind, Traced.val_emit, hsb, if_neg hmagic]
  have hvolume := loadExt_volume fsStart sectors disk (m.superblock inodeMap blockMap)
  rw [hninodes, hnblocks, hinodes, hblocks] at hvolume
  refine ⟨?_, ⟨?_, ?_, fun i hi => ?_, fun i hi => ?_⟩, fun hfew => ⟨Calls.inside_emit (by decide) _,
    inside_loadExt disk ?_ ?_⟩⟩
  · rw [Laid, hvolume, hn, hb]
    rfl
  · rw [hvolume]
  · rw [hvolume]
  · rw [hvolume]
    exact loadMap_mapBytes _ hi
  · rw [hvolume]
    exact loadMap_mapBytes _ hi
  · rw [hninodes, getBitmapSize]
    omega
  · rw [hnblocks, getBitmapSize]
    omega

theorem restart_stored (hlaid : Laid fsStart sectors m.ext) (inodeMap blockMap : BitVec 32) :
    Laid fsStart sectors (m.restart fsStart inodeMap blockMap).val.ext ∧
      m.SameMaps (m.restart fsStart inodeMap blockMap).val := by
  obtain ⟨hstored, hvolume⟩ := extSync_stored fsStart inodeMap blockMap m
  have hdevice : (m.extSync fsStart inodeMap blockMap).val.ext.volume.sectors = sectors := by
    rw [hvolume]
    exact hlaid.device
  have hinit := initExt_stored hlaid hstored
  rw [Mount.restart, Traced.val_bind, hdevice]
  exact ⟨hinit.1, hinit.2.1⟩

/-! ## One call, and every run -/

theorem layout_stepExt {op : InodeOp} {e' : ExtFs} (h : (Mount.stepExt e op).val = some e') :
    e'.volume.layout = e.volume.layout := by
  cases op with
  | read k size =>
    simp only [Mount.stepExt, Traced.val_bind, Traced.val_pure, Option.map_eq_some_iff] at h
    obtain ⟨out, -, rfl⟩ := h
    rfl
  | get | alloc | write | seek | link | unlink =>
    simp only [Mount.stepExt, Traced.val_bind, Traced.val_pure, Option.some.injEq] at h
    rw [← h]
    simp

theorem Laid.step (h : Laid fsStart sectors m.ext) {op : MountOp} (hnext : Mount.Next fsStart m op m') :
    Laid fsStart sectors m'.ext := by
  unfold Mount.Next at hnext
  cases op with
  | inode op =>
    simp only [Mount.step, Traced.val_bind, Traced.val_pure, Option.map_eq_some_iff] at hnext
    obtain ⟨e', he, rfl⟩ := hnext
    exact (layout_stepExt he).trans h
  | sync inodeMap blockMap =>
    simp only [Mount.step, Traced.val_bind, Traced.val_pure, Option.some.injEq] at hnext
    rw [← hnext]
    exact (layout_of_disk (extSync_stored fsStart inodeMap blockMap m).2).trans h
  | restart inodeMap blockMap =>
    simp only [Mount.step, Traced.val_bind, Traced.val_pure, Option.some.injEq] at hnext
    rw [← hnext]
    exact (restart_stored h inodeMap blockMap).1

theorem Laid.run (h : Laid fsStart sectors m.ext) {ops : List MountOp} (hrun : AnyRun (Mount.Next fsStart) m ops m') :
    Laid fsStart sectors m'.ext :=
  hrun.invariant (P := fun m => Laid fsStart sectors m.ext) (fun _ _ _ hm _ hnext => hm.step hnext) h

theorem inside_stepExt (e : ExtFs) (op : InodeOp) : (Mount.stepExt e op).All BlockCall.Inside := by
  cases op with
  | get i => exact (Traced.all_bind ..).mpr ⟨Calls.inside_inodeGet _ _, Traced.all_pure _⟩
  | alloc type => exact (Traced.all_bind ..).mpr ⟨Calls.inside_allocInode _ _, Traced.all_pure _⟩
  | write k buf => exact (Traced.all_bind ..).mpr ⟨Calls.inside_write _ _ _, Traced.all_pure _⟩
  | read k size => exact (Traced.all_bind ..).mpr ⟨Calls.inside_inodeRead _ _ _, Traced.all_pure _⟩
  | seek | link | unlink => exact Traced.all_pure _

/-- `ext_sync` stays in the blocks exactly when each bitmap has one. -/
theorem inside_extSync (inodeMap blockMap : BitVec 32) : (m.extSync fsStart inodeMap blockMap).All BlockCall.Inside ↔
    getBitmapSize m.ext.volume.ninodes ≤ 512 ∧ getBitmapSize m.ext.volume.nblocks ≤ 512 := by
  have hsync := inodesSync_volume m.ext
  simp only [Mount.extSync, Traced.all_bind, Traced.all_pure, Calls.inside_inodesSync, Calls.writeBlockOffset,
    Traced.all_emit, Traced.val_emit, true_and, and_true]
  generalize (Calls.inodesSync m.ext).val = e at hsync ⊢
  rw [hsync]
  simp only [Volume.writeBlockOffset, BlockCall.Inside, mapBytes, Slice.length_read, Superblock.length_encode]
  omega

/-- With at most 20 inodes every call of a file system stays in its blocks. -/
theorem Laid.inside (h : Laid fsStart sectors m.ext) (hfew : Volume.ninodesOf fsStart sectors ≤ 20) (op : MountOp) :
    (m.step fsStart op).All BlockCall.Inside := by
  have hn := h.ninodes
  have hb := h.nblocks
  have hsync (inodeMap blockMap : BitVec 32) : (m.extSync fsStart inodeMap blockMap).All BlockCall.Inside := by
    rw [inside_extSync, getBitmapSize, getBitmapSize]
    omega
  cases op with
  | inode op => exact (Traced.all_bind ..).mpr ⟨inside_stepExt _ _, Traced.all_pure _⟩
  | sync inodeMap blockMap => exact (Traced.all_bind ..).mpr ⟨hsync _ _, Traced.all_pure _⟩
  | restart inodeMap blockMap =>
    obtain ⟨hstored, hvolume⟩ := extSync_stored fsStart inodeMap blockMap m
    have hdevice : (m.extSync fsStart inodeMap blockMap).val.ext.volume.sectors = sectors := by
      rw [hvolume]
      exact h.device
    refine (Traced.all_bind ..).mpr ⟨(Traced.all_bind ..).mpr ⟨hsync _ _, ?_⟩, Traced.all_pure _⟩
    rw [hdevice]
    exact (initExt_stored h hstored).2.2 hfew

/-- With more inodes the first `ext_sync` does not. -/
theorem not_inside_sync (h : Laid fsStart sectors m.ext) (hmany : 20 < Volume.ninodesOf fsStart sectors) :
    ¬ (m.step fsStart (.sync 0 0)).All BlockCall.Inside := by
  have hb := h.nblocks
  intro hall
  have hsync := ((Traced.all_bind ..).mp hall).1
  rw [inside_extSync, getBitmapSize, getBitmapSize] at hsync
  omega

theorem not_blocksLaw {disk : Nat → Nat → UInt8}
    (hblank : (Superblock.load (disk fsStart)).magic ≠ Superblock.magicNumber)
    (hmany : 20 < Volume.ninodesOf fsStart sectors) : ¬ BlocksLaw fsStart sectors := fun h =>
  not_inside_sync (initExt_created hblank).1 hmany (h.run disk hblank [] _ (.nil _) (.sync 0 0))

end Restart

def blankDisk : Nat → Nat → UInt8 := fun _ _ => 0

theorem magic_blankDisk (block : Nat) : (Superblock.load (blankDisk block)).magic ≠ Superblock.magicNumber := by
  show load16 (fun _ => 0) 0 ≠ 0xfeed
  decide

/-- **On every disk: the calls stay in their blocks and the bitmaps survive** exactly when the file system has at most
20 inodes. -/
theorem blocksLaw_iff (fsStart sectors : Nat) : BlocksLaw fsStart sectors ↔ Volume.ninodesOf fsStart sectors ≤ 20 := by
  constructor
  · intro h
    by_contra hmany
    exact not_blocksLaw (magic_blankDisk fsStart) (Nat.lt_of_not_le hmany) h
  · intro hfew
    refine ⟨fun disk hblank => (initExt_created hblank).2, fun disk hblank ops m hrun op => ?_,
      fun disk hblank ops m hrun inodeMap blockMap => ?_⟩
    · exact ((initExt_created hblank).1.run hrun).inside hfew op
    · exact (restart_stored ((initExt_created hblank).1.run hrun) inodeMap blockMap).2

/-- Behind a kernel of 50000 bytes a disk of 4320 sectors has 21 inodes. -/
theorem blocksLaw_large : ¬ BlocksLaw 99 4320 := not_blocksLaw (magic_blankDisk 99) (by decide)

end RetrOS.Ext
