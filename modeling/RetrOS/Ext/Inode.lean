import RetrOS.Lib.Slice
import RetrOS.Lib.LittleEndian
import Mathlib.Data.List.FinRange

/-!
# Inodes of the ext file system (`include/fs/inode.h`)

* `Inode` : `struct inode` up to its lock and its time, which nothing reads;
* `encode`, `load` : the record in its bytes (`load_write_encode`);
* `Inode.SameFile` : two records that agree but for the number of links.

All integers are those of the structure: the number is an `int16_t`, the size and the position have 16 bits.
-/

namespace RetrOS.Ext
open RetrOS.Lib

/-- `NDIRECT` -/
abbrev BlockIndex := Fin 200

structure Inode where
  inode : BitVec 16
  type : UInt8
  /-- the number of processes that have it open -/
  nlink : UInt8
  size : BitVec 16
  blocks : BlockIndex → BitVec 16
  pos : BitVec 16

namespace Inode

/-- An empty place of the cache. -/
def zero : Inode := ⟨0, 0, 0, 0, fun _ => 0, 0⟩

/-- The block of the position. -/
def block (inode : Inode) : BlockIndex := ⟨inode.pos.toNat / 512, by omega⟩

/-- The position in its block. -/
def inBlock (inode : Inode) : Nat := inode.pos.toNat % 512

/-- What is stored on the disk, up to the lock. -/
def encode (inode : Inode) : List UInt8 :=
  bytes16 inode.inode ++ [inode.type] ++ [inode.nlink] ++ bytes16 inode.size ++
    (List.finRange 200).flatMap (fun k => bytes16 (inode.blocks k)) ++ bytes16 inode.pos

/-- The record at the start of a block. -/
def load (m : Nat → UInt8) : Inode :=
  { inode := load16 m 0
    type := m 2
    nlink := m 3
    size := load16 m 4
    blocks := fun k => load16 m (6 + 2 * k)
    pos := load16 m 406 }

/-- The same inode with the same contents; the number of links may differ. -/
structure SameFile (r r' : Inode) : Prop where
  inode : r.inode = r'.inode
  type : r.type = r'.type
  size : r.size = r'.size
  blocks : r.blocks = r'.blocks
  pos : r.pos = r'.pos

theorem SameFile.refl (r : Inode) : SameFile r r := ⟨rfl, rfl, rfl, rfl, rfl⟩

theorem inBlock_lt (inode : Inode) : inode.inBlock < 512 := Nat.mod_lt _ (by decide)

/-! ## The bytes of a record -/

theorem length_flatMap_bytes16 {α : Type*} (f : α → BitVec 16) (l : List α) :
    (l.flatMap fun k => bytes16 (f k)).length = 2 * l.length := by
  induction l with
  | nil => rfl
  | cons x l ih =>
    rw [List.flatMap_cons, List.length_append, length_bytes16, ih, List.length_cons]
    omega

@[simp] theorem length_encode (inode : Inode) : inode.encode.length = 408 := by
  simp only [encode, List.length_append, length_bytes16, length_flatMap_bytes16, List.length_finRange,
    List.length_singleton]

/-- The words before the one of block `k`, the word, and those behind it. -/
theorem exists_flatMap_split (f : BlockIndex → BitVec 16) (k : BlockIndex) : ∃ xs zs,
    (List.finRange 200).flatMap (fun k => bytes16 (f k)) = xs ++ bytes16 (f k) ++ zs ∧ xs.length = 2 * k := by
  have hk : (k : Nat) < (List.finRange 200).length := by simp
  refine ⟨((List.finRange 200).take k).flatMap fun k => bytes16 (f k),
    ((List.finRange 200).drop (k + 1)).flatMap fun k => bytes16 (f k), ?_, ?_⟩
  · have hsplit : List.finRange 200 = (List.finRange 200).take k ++ k :: (List.finRange 200).drop (k + 1) := by
      conv_lhs => rw [← List.take_append_drop k (List.finRange 200), List.drop_eq_getElem_cons hk]
      simp
    conv_lhs => rw [hsplit]
    rw [List.flatMap_append, List.flatMap_cons, List.append_assoc]
  · rw [length_flatMap_bytes16, List.length_take_of_le (Nat.le_of_lt hk)]

/-- A stored record reads back. -/
theorem load_write_encode (m : Nat → UInt8) (inode : Inode) : load (Slice.write m 0 inode.encode) = inode := by
  obtain ⟨number, type, nlink, size, blocks, pos⟩ := inode
  have hfield := fun (xs ys zs : List UInt8) (k n : Nat) => @Slice.read_write_field _ m 0
    (encode ⟨number, type, nlink, size, blocks, pos⟩) k n xs ys zs
  simp only [Nat.zero_add] at hfield
  have hbyte {k : Nat} {x : UInt8}
      (h : Slice.read (Slice.write m 0 (encode ⟨number, type, nlink, size, blocks, pos⟩)) k 1 = [x]) :
      Slice.write m 0 (encode ⟨number, type, nlink, size, blocks, pos⟩) k = x := by
    simpa [Slice.read, List.range'] using h
  simp only [load, Inode.mk.injEq]
  refine ⟨?_, ?_, ?_, ?_, ?_, ?_⟩
  · exact load16_of_read (hfield [] (bytes16 number) _ 0 2 (by simp [encode]; rfl) rfl rfl)
  · exact hbyte (hfield (bytes16 number) [type] _ 2 1 (by simp [encode]; rfl) rfl rfl)
  · exact hbyte (hfield (bytes16 number ++ [type]) [nlink] _ 3 1 (by simp [encode]; rfl) rfl rfl)
  · exact load16_of_read (hfield (bytes16 number ++ [type] ++ [nlink]) (bytes16 size) _ 4 2
      (by simp [encode]; rfl) rfl rfl)
  · funext k
    obtain ⟨xs, zs, hsplit, hlen⟩ := exists_flatMap_split blocks k
    refine load16_of_read (hfield (bytes16 number ++ [type] ++ [nlink] ++ bytes16 size ++ xs) (bytes16 (blocks k))
      (zs ++ bytes16 pos) (6 + 2 * k) 2 ?_ ?_ rfl)
    · rw [encode, hsplit]
      simp only [List.append_assoc]
    · simp only [List.length_append, length_bytes16, List.length_singleton, hlen]
  · refine load16_of_read (hfield (bytes16 number ++ [type] ++ [nlink] ++ bytes16 size ++
      (List.finRange 200).flatMap fun k => bytes16 (blocks k)) (bytes16 pos) [] 406 2
      (by rw [encode, List.append_nil]) ?_ rfl)
    simp only [List.length_append, length_bytes16, length_flatMap_bytes16, List.length_finRange,
      List.length_singleton]

end Inode

end RetrOS.Ext
