import RetrOS.Ext.WriteCalls
import RetrOS.Lib.Traced

/-!
# The calls of `read_block_offset` and `write_block_offset`

* `BlockCall`, `BlockCall.Inside` : a call, and that it stays in its block;
* `Calls.inodeWrite`, `Calls.inodeRead`, `Calls.inodeGet`, `Calls.allocInode` : the functions of `fs/inode.c` with the
  calls they make. Without these they are the functions of the model (`val_inodeWrite`, `val_inodeRead`, …);
* `inside_inodeWrite`, `inside_inodeRead`, … : all of them stay in their blocks.

Both functions copy through a buffer of one block. A whole block is written with `write_block`, which has none.
-/

namespace RetrOS.Ext
open RetrOS.Lib

/-- The arguments `offset` and `size`. -/
structure BlockCall where
  offset : Int
  size : Int

/-- The call copies no byte behind the block. -/
def BlockCall.Inside (c : BlockCall) : Prop := c.offset + c.size ≤ 512

/-- A function with its calls. -/
abbrev Blockwise := Traced BlockCall

namespace Calls

def readBlockOffset (v : Volume) (size offset block : Nat) : Blockwise (List UInt8) :=
  .emit ⟨offset, size⟩ (v.readBlockOffset size offset block)

def writeBlockOffset (v : Volume) (buf : List UInt8) (offset block : Nat) : Blockwise Volume :=
  .emit ⟨offset, buf.length⟩ (v.writeBlockOffset buf offset block)

/-- `__inode_sync`; `sizeof(*inode)` is 424. -/
def inodeSync (v : Volume) (inode : Inode) : Blockwise Volume := .emit ⟨0, 424⟩ (v.inodeSync inode)

def put (buf : List UInt8) (w : Writing) : Blockwise Writing := do
  let v ← writeBlockOffset w.1 buf w.2.inBlock (w.1.dataAddr (w.2.blocks w.2.block))
  return (v, { w.2 with pos := w.2.pos + BitVec.ofNat 16 buf.length })

def writeLoop (w : Writing) (buf : List UInt8) : Blockwise Writing :=
  if 512 < buf.length then writeLoop (Writing.ensureBlock (Writing.put (buf.take 512) w)) (buf.drop 512)
  else put buf w
termination_by buf.length
decreasing_by
  rw [List.length_drop]
  omega

def inodeWrite (v : Volume) (inode : Inode) (buf : List UInt8) : Blockwise (Option Nat × Writing) :=
  if 102400 < buf.length + inode.pos.toNat ∨ 200 < inode.pos.toNat / 512 then pure (none, v, inode)
  else do
    let w := Writing.ensureBlock (v, inode)
    let w := (w.1, { w.2 with size := if inode.pos = 0 then 0 else w.2.size })
    let partialPiece := inode.inBlock ≠ 0 ∧ 512 < inode.inBlock + buf.length
    let w ← (if partialPiece then put (buf.take (512 - inode.inBlock)) w else pure w)
    let left := if partialPiece then buf.drop (512 - inode.inBlock) else buf
    let w ← writeLoop (Writing.ensureBlock w) left
    let inode' := { w.2 with size := w.2.size + BitVec.ofNat 16 buf.length }
    let v' ← inodeSync w.1 inode'
    return (some buf.length, v', inode')

def readLoop (v : Volume) (inode : Inode) (left : Nat) (progress : List UInt8) :
    Blockwise (Bool × Inode × List UInt8) :=
  if 512 < left then
    if inode.blocks inode.block = 0 then pure (false, inode, progress)
    else do
      let piece ← readBlockOffset v 512 0 (v.dataAddr (inode.blocks inode.block))
      readLoop v { inode with pos := inode.pos + 512 } (left - 512) (progress ++ piece)
  else do
    let piece ← readBlockOffset v left inode.inBlock (v.dataAddr (inode.blocks inode.block))
    return (true, inode, progress ++ piece)
termination_by left
decreasing_by omega

/-- The loop of `inode_read` and its result. -/
def readRest (v : Volume) (inode : Inode) (left : Nat) (progress : List UInt8) (size ret : Nat) :
    Blockwise (Option (ReadResult × Inode × List UInt8)) := do
  let (found, inode', data) ← readLoop v inode left progress
  return some (if found then (.bytes ret, { inode' with pos := inode'.pos + BitVec.ofNat 16 size }, data)
    else (.missing, inode', data))

def inodeRead (v : Volume) (inode : Inode) (size : Nat) : Blockwise (Option (ReadResult × Inode × List UInt8)) :=
  if inode.size ≤ inode.pos then pure (some (.bytes 0, inode, []))
  else if 102400 < size then pure (some (.tooLong, inode, []))
  else
    let left := min size inode.size.toNat
    let toRead := 512 - inode.inBlock
    if inode.inBlock ≠ 0 ∧ 512 < inode.inBlock + size then do
      let piece ← readBlockOffset v toRead inode.inBlock (v.dataAddr (inode.blocks inode.block))
      let inode' := { inode with pos := inode.pos + BitVec.ofNat 16 toRead }
      -- the last piece may have a negative length
      if left < toRead then .emit ⟨inode'.inBlock, left - toRead⟩ none
      else readRest v inode' (left - toRead) piece size left
    else readRest v inode left [] size left

def inodeCacheInsert (e : ExtFs) (inode : Inode) : Blockwise (Option Slot × ExtFs) :=
  match Fin.find? fun k => (e.cache k).type == 0 with
  | some k => pure (some k, e.setInode k inode)
  | none =>
    match Fin.find? fun k => (e.cache k).nlink == 0 with
    | some k => do
      let v ← inodeSync e.volume (e.cache k)
      return (some k, { e.setInode k inode with volume := v })
    | none => pure (none, e)

/-- `__inode_load`; the record has 424 bytes here too. -/
def inodeLoad (e : ExtFs) (i : BitVec 16) : Blockwise (Option Slot × ExtFs) := do
  let inode ← .emit ⟨0, 424⟩ (e.diskInode i)
  inodeCacheInsert e inode

def inodeGet (e : ExtFs) (i : BitVec 16) : Blockwise (Option Slot × ExtFs) :=
  match Fin.find? fun k => (e.cache k).inode == i with
  | some k => pure (some k, e)
  | none => inodeLoad e i

def allocInode (e : ExtFs) (type : UInt8) : Blockwise (BitVec 16 × ExtFs) :=
  if type ≠ fsTypeFile ∧ type ≠ fsTypeDirectory then pure (-1, e)
  else do
    let (i, v) := e.volume.newInode
    let (k, e') ← inodeCacheInsert { e with volume := v } (ExtFs.newRecord i type)
    return (if k.isSome then i else 0, e')

/-- `inodes_sync` -/
def inodesSync (e : ExtFs) : Blockwise ExtFs :=
  (List.finRange 100).foldlM
    (fun e k =>
      if (e.cache k).type ≠ 0 then do
        let v ← inodeSync e.volume (e.cache k)
        return { e with volume := v }
      else pure e) e

/-! ## Without the calls -/

section Val
variable (v : Volume) (inode : Inode) (e : ExtFs)

@[simp] theorem val_put (buf : List UInt8) (w : Writing) : (put buf w).val = Writing.put buf w := rfl

@[simp] theorem val_writeLoop (w : Writing) (buf : List UInt8) : (writeLoop w buf).val = Writing.writeLoop w buf := by
  fun_induction Calls.writeLoop w buf with
  | case1 w buf hlt ih =>
    rw [ih, Writing.writeLoop.eq_1 w buf, if_pos hlt]
  | case2 w buf hle =>
    rw [val_put, Writing.writeLoop.eq_1 w buf, if_neg hle]

theorem val_inodeWrite (buf : List UInt8) : (inodeWrite v inode buf).val = v.inodeWrite inode buf := by
  unfold inodeWrite Volume.inodeWrite
  split
  · rfl
  · simp only [Traced.val_bind, Traced.val_ite, Traced.val_pure, val_put, val_writeLoop]
    rfl

@[simp] theorem val_readLoop (left : Nat) (progress : List UInt8) :
    (readLoop v inode left progress).val = v.readLoop inode left progress := by
  fun_induction Calls.readLoop v inode left progress with
  | case1 inode left progress hlt hzero =>
    rw [Volume.readLoop.eq_1 v inode, if_pos hlt, if_pos hzero]
    rfl
  | case2 inode left progress hlt hzero ih =>
    rw [Volume.readLoop.eq_1 v inode, if_pos hlt, if_neg hzero]
    exact ih _
  | case3 inode left progress hle =>
    rw [Volume.readLoop.eq_1 v inode, if_neg hle]
    rfl

theorem val_readRest (left : Nat) (progress : List UInt8) (size ret : Nat) :
    (readRest v inode left progress size ret).val = match v.readLoop inode left progress with
      | (false, inode', data) => some (.missing, inode', data)
      | (true, inode', data) => some (.bytes ret, { inode' with pos := inode'.pos + BitVec.ofNat 16 size }, data) := by
  rw [← val_readLoop]
  unfold readRest
  rw [Traced.val_bind]
  obtain ⟨found, inode', data⟩ := (readLoop v inode left progress).val
  cases found with
  | false => rfl
  | true => rfl

theorem val_inodeRead (size : Nat) : (inodeRead v inode size).val = v.inodeRead inode size := by
  unfold inodeRead Volume.inodeRead
  split
  · rfl
  · split
    · rfl
    · dsimp only
      by_cases hpart : inode.inBlock ≠ 0 ∧ 512 < inode.inBlock + size
      · rw [if_pos hpart, if_pos hpart]
        by_cases hneg : min size inode.size.toNat < 512 - inode.inBlock
        · rw [if_pos ⟨hpart, hneg⟩, Traced.val_bind, if_pos hneg]
          rfl
        · rw [if_neg fun h => hneg h.2, Traced.val_bind, if_neg hneg]
          exact val_readRest ..
      · rw [if_neg hpart, if_neg hpart, if_neg fun h => hpart h.1]
        exact val_readRest ..

@[simp] theorem val_inodeCacheInsert : (inodeCacheInsert e inode).val = e.inodeCacheInsert inode := by
  unfold inodeCacheInsert ExtFs.inodeCacheInsert
  cases Fin.find? fun k => (e.cache k).type == 0 with
  | some k => rfl
  | none =>
    cases Fin.find? fun k => (e.cache k).nlink == 0 with
    | some k => rfl
    | none => rfl

@[simp] theorem val_inodeGet (i : BitVec 16) : (inodeGet e i).val = e.inodeGet i := by
  unfold inodeGet ExtFs.inodeGet
  cases Fin.find? fun k => (e.cache k).inode == i with
  | some k => rfl
  | none =>
    show (inodeLoad e i).val = e.inodeLoad i
    rw [inodeLoad, Traced.val_bind, Traced.val_emit, val_inodeCacheInsert, ExtFs.inodeLoad]

@[simp] theorem val_allocInode (type : UInt8) : (allocInode e type).val = e.allocInode type := by
  unfold allocInode ExtFs.allocInode
  split
  · rfl
  · dsimp only
    rw [Traced.val_bind, val_inodeCacheInsert, Traced.val_pure]
    rcases ExtFs.inodeCacheInsert _ _ with ⟨_ | k, e'⟩
    · rfl
    · rfl

end Val

/-! ## All calls stay in their blocks -/

section Inside
variable (v : Volume) (inode : Inode) (e : ExtFs)

theorem inside_emit {α : Type} {offset size : Int} (h : offset + size ≤ 512) (a : α) :
    (Traced.emit (⟨offset, size⟩ : BlockCall) a).All BlockCall.Inside := (Traced.all_emit ..).mpr h

theorem inside_inodeSync : (inodeSync v inode).All BlockCall.Inside := inside_emit (by decide) _

theorem inside_put {buf : List UInt8} {w : Writing} (h : w.2.inBlock + buf.length ≤ 512) :
    (put buf w).All BlockCall.Inside :=
  (Traced.all_bind ..).mpr ⟨inside_emit (by omega) _, Traced.all_pure _⟩

theorem inside_writeLoop (w : Writing) (buf : List UInt8) (h : w.2.inBlock = 0 ∨ w.2.inBlock + buf.length ≤ 512) :
    (writeLoop w buf).All BlockCall.Inside := by
  fun_induction Calls.writeLoop w buf with
  | case1 w buf hlt ih =>
    have htake : (buf.take 512).length = 512 := List.length_take_of_le (by omega)
    have hmoved := (Writing.Moved.put (buf.take 512) w).trans (Writing.Moved.ensure _)
    have hpos := congrArg Inode.pos hmoved.record
    rw [htake] at hpos
    refine ih (.inl ?_)
    have hin : w.2.pos.toNat % 512 = 0 := by
      have hblock : w.2.inBlock = 0 := by omega
      exact hblock
    have hp := w.2.pos.isLt
    rw [Inode.inBlock, hpos, BitVec.toNat_add, BitVec.toNat_ofNat]
    omega
  | case2 w buf hle => exact inside_put (by omega)

theorem inside_inodeWrite (buf : List UInt8) : (inodeWrite v inode buf).All BlockCall.Inside := by
  unfold inodeWrite
  split
  · exact Traced.all_pure _
  · have hfirst := Writing.Moved.ensure (v, inode)
    have hpos1 : (Writing.ensureBlock (v, inode)).2.pos = inode.pos := by
      rw [hfirst.record, BitVec.add_zero]
    have hlt := inode.inBlock_lt
    have hp := inode.pos.isLt
    have hin : inode.inBlock = inode.pos.toNat % 512 := rfl
    simp only [Traced.all_bind, Traced.all_pure, inside_inodeSync, and_true]
    by_cases hpart : inode.inBlock ≠ 0 ∧ 512 < inode.inBlock + buf.length
    · have htake : (buf.take (512 - inode.inBlock)).length = 512 - inode.inBlock :=
        List.length_take_of_le (by omega)
      rw [if_pos hpart, if_pos hpart]
      refine ⟨inside_put ?_, inside_writeLoop _ _ (.inl ?_)⟩
      · show (Writing.ensureBlock (v, inode)).2.pos.toNat % 512 + _ ≤ 512
        rw [hpos1, htake]
        omega
      · have hnext := Writing.Moved.ensure (Writing.put (buf.take (512 - inode.inBlock))
          ((Writing.ensureBlock (v, inode)).1, { (Writing.ensureBlock (v, inode)).2 with
            size := if inode.pos = 0 then 0 else (Writing.ensureBlock (v, inode)).2.size }))
        have hpos2 := congrArg Inode.pos hnext.record
        rw [BitVec.add_zero] at hpos2
        rw [val_put, Inode.inBlock, hpos2]
        show ((Writing.ensureBlock (v, inode)).2.pos +
          BitVec.ofNat 16 (buf.take (512 - inode.inBlock)).length).toNat % 512 = 0
        rw [hpos1, htake, BitVec.toNat_add, BitVec.toNat_ofNat]
        omega
    · rw [if_neg hpart, if_neg hpart]
      refine ⟨Traced.all_pure _, inside_writeLoop _ _ ?_⟩
      have hnext := Writing.Moved.ensure ((Writing.ensureBlock (v, inode)).1,
        { (Writing.ensureBlock (v, inode)).2 with
          size := if inode.pos = 0 then 0 else (Writing.ensureBlock (v, inode)).2.size })
      have hpos2 := congrArg Inode.pos hnext.record
      rw [BitVec.add_zero] at hpos2
      rw [Traced.val_pure, Inode.inBlock, hpos2]
      show (Writing.ensureBlock (v, inode)).2.pos.toNat % 512 = 0 ∨
        (Writing.ensureBlock (v, inode)).2.pos.toNat % 512 + buf.length ≤ 512
      rw [hpos1]
      omega

theorem inside_readLoop (left : Nat) (progress : List UInt8) (h : inode.inBlock = 0 ∨ inode.inBlock + left ≤ 512) :
    (readLoop v inode left progress).All BlockCall.Inside := by
  fun_induction Calls.readLoop v inode left progress with
  | case1 inode left progress hlt hzero => exact Traced.all_pure _
  | case2 inode left progress hlt hzero ih =>
    refine (Traced.all_bind ..).mpr ⟨inside_emit (by decide) _, ih _ (.inl ?_)⟩
    exact inBlock_advance (by omega)
  | case3 inode left progress hle =>
    exact (Traced.all_bind ..).mpr ⟨inside_emit (by omega) _, Traced.all_pure _⟩

theorem inside_inodeRead (size : Nat) : (inodeRead v inode size).All BlockCall.Inside := by
  have hlt := inode.inBlock_lt
  have hp := inode.pos.isLt
  have hin : inode.inBlock = inode.pos.toNat % 512 := rfl
  have hrest (inode' : Inode) (left : Nat) (progress : List UInt8) (ret : Nat)
      (h : inode'.inBlock = 0 ∨ inode'.inBlock + left ≤ 512) :
      (readRest v inode' left progress size ret).All BlockCall.Inside :=
    (Traced.all_bind ..).mpr ⟨inside_readLoop v inode' left progress h, Traced.all_pure _⟩
  unfold inodeRead
  split
  · exact Traced.all_pure _
  · split
    · exact Traced.all_pure _
    · dsimp only
      split
      · next hpart =>
        have hnext : ({ inode with pos := inode.pos + BitVec.ofNat 16 (512 - inode.inBlock) } : Inode).inBlock = 0 := by
          show (inode.pos + BitVec.ofNat 16 (512 - inode.inBlock)).toNat % 512 = 0
          rw [BitVec.toNat_add, BitVec.toNat_ofNat]
          omega
        refine (Traced.all_bind ..).mpr ⟨inside_emit (by omega) _, ?_⟩
        split
        · rw [Traced.all_emit, hnext]
          show ((0 : Nat) : Int) + ((min size inode.size.toNat : Nat) - (512 - inode.inBlock : Nat)) ≤ 512
          omega
        · exact hrest _ _ _ _ (.inl hnext)
      · next hpart => exact hrest _ _ _ _ (by omega)

theorem inside_inodeCacheInsert : (inodeCacheInsert e inode).All BlockCall.Inside := by
  unfold inodeCacheInsert
  split
  · exact Traced.all_pure _
  · split
    · exact (Traced.all_bind ..).mpr ⟨inside_inodeSync _ _, Traced.all_pure _⟩
    · exact Traced.all_pure _

theorem inside_inodeGet (i : BitVec 16) : (inodeGet e i).All BlockCall.Inside := by
  unfold inodeGet
  split
  · exact Traced.all_pure _
  · exact (Traced.all_bind ..).mpr ⟨inside_emit (by decide) _,
      inside_inodeCacheInsert _ _⟩

theorem inside_allocInode (type : UInt8) : (allocInode e type).All BlockCall.Inside := by
  unfold allocInode
  split
  · exact Traced.all_pure _
  · exact (Traced.all_bind ..).mpr ⟨inside_inodeCacheInsert _ _, Traced.all_pure _⟩

theorem inside_inodesSync : (inodesSync e).All BlockCall.Inside := by
  refine Traced.all_foldlM (fun e k => ?_) e _
  split
  · exact (Traced.all_bind ..).mpr ⟨inside_inodeSync _ _, Traced.all_pure _⟩
  · exact Traced.all_pure _

end Inside

end Calls

end RetrOS.Ext
