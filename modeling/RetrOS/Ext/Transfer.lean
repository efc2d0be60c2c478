import RetrOS.Ext.Cache
import Mathlib.Data.Fintype.Basic

/-!
# What a write does (`inode_write`)

* `Marked`, `Owned` : a recorded block is below the limit and set in the bitmap; the blocks of an inode are distinct;
* `Room` : as many free blocks below the limit as places that have none;
* `Wrote w buf w'` : the state after `buf` is stored at the position. Pieces compose (`Wrote.trans`), and are
  made of `ensureBlock` (`Wrote.ensure`) and `put` (`Wrote.put`);
* `inodeWrite_spec` : the whole of `inode_write`.

The limit is what a 16-bit block number can say of the blocks that the map has and the disk holds.
-/

namespace RetrOS.Ext
open RetrOS.Lib

/-- The place of a position in `blocks`. -/
def blockAt (p : BitVec 16) : BlockIndex := ⟨p.toNat / 512, by omega⟩

theorem Inode.block_eq (inode : Inode) : inode.block = blockAt inode.pos := rfl

namespace Volume

/-- The last block that can be recorded, in the bitmap and on the disk. -/
def limit (v : Volume) : Nat := min (min v.nblocks 65535) (v.sectors - 1 - v.blocksStart.toNat)

/-- The bits of the free blocks below the limit. -/
def free (v : Volume) : Finset Nat := (Finset.range v.limit).filter fun j => Bits.test v.blockMap j = false

theorem mem_free {v : Volume} {j : Nat} : j ∈ v.free ↔ j < v.limit ∧ Bits.test v.blockMap j = false := by
  rw [free, Finset.mem_filter, Finset.mem_range]

/-- Block `b` has been handed out. -/
structure Marked (v : Volume) (b : BitVec 16) : Prop where
  le_limit : b.toNat ≤ v.limit
  test : Bits.test v.blockMap (b.toNat - 1) = true

end Volume

namespace Writing

/-- The blocks of the inode have been handed out, each to one place. -/
structure Owned (w : Writing) : Prop where
  marked : ∀ k, w.2.blocks k ≠ 0 → w.1.Marked (w.2.blocks k)
  inj : ∀ k l, w.2.blocks k ≠ 0 → w.2.blocks k = w.2.blocks l → k = l

/-- The places of `T` without a block. -/
def missing (T : Finset BlockIndex) (inode : Inode) : Finset BlockIndex := T.filter fun k => inode.blocks k = 0

/-- Enough free blocks for the places of `T`. -/
def Room (T : Finset BlockIndex) (w : Writing) : Prop := (missing T w.2).card ≤ w.1.free.card

/-- The byte of the file at position `p`. -/
def byteAt (w : Writing) (p : BitVec 16) : UInt8 := w.1.disk (w.1.dataAddr (w.2.blocks (blockAt p))) (p.toNat % 512)

/-- Byte `o` of disk block `a` is that of position `p`. -/
def IsAt (w : Writing) (p : BitVec 16) (a o : Nat) : Prop :=
  a = w.1.dataAddr (w.2.blocks (blockAt p)) ∧ o = p.toNat % 512

/-- `w'` is `w` after `buf` is stored at the position. -/
structure Wrote (w : Writing) (buf : List UInt8) (w' : Writing) : Prop where
  volume : w'.1 = { w.1 with blockMap := w'.1.blockMap, disk := w'.1.disk }
  record : w'.2 = { w.2 with blocks := w'.2.blocks, pos := w.2.pos + BitVec.ofNat 16 buf.length }
  owned : Owned w'
  mono : ∀ j, Bits.test w.1.blockMap j = true → Bits.test w'.1.blockMap j = true
  keep : ∀ k, w.2.blocks k ≠ 0 → w'.2.blocks k = w.2.blocks k
  fresh : ∀ k, w.2.blocks k = 0 → w'.2.blocks k ≠ 0 → Bits.test w.1.blockMap ((w'.2.blocks k).toNat - 1) = false
  touched : ∀ x < buf.length, w'.2.blocks (blockAt (w.2.pos + BitVec.ofNat 16 x)) ≠ 0
  content : buf.length ≤ 65536 → ∀ x (h : x < buf.length), byteAt w' (w.2.pos + BitVec.ofNat 16 x) = buf[x]
  frame : ∀ a o, (∀ x < buf.length, ¬ IsAt w' (w.2.pos + BitVec.ofNat 16 x) a o) → w'.1.disk a o = w.1.disk a o

/-! ## The geometry stays -/

section Geometry
variable {w w' : Writing} {buf : List UInt8}

theorem Wrote.dataAddr_eq (h : Wrote w buf w') (b : BitVec 16) : w'.1.dataAddr b = w.1.dataAddr b := by
  rw [h.volume]
  rfl

theorem Wrote.pos_eq (h : Wrote w buf w') : w'.2.pos = w.2.pos + BitVec.ofNat 16 buf.length := by
  rw [h.record]

end Geometry

/-! ## Positions -/

theorem pos_add (p : BitVec 16) (x y : Nat) :
    p + BitVec.ofNat 16 x + BitVec.ofNat 16 y = p + BitVec.ofNat 16 (x + y) := by
  rw [BitVec.add_assoc, BitVec.ofNat_add]

/-- Two positions are equal if their places and offsets are. -/
theorem pos_ext {p q : BitVec 16} (hb : blockAt p = blockAt q) (ho : p.toNat % 512 = q.toNat % 512) : p = q := by
  have hdiv : p.toNat / 512 = q.toNat / 512 := congrArg Fin.val hb
  apply BitVec.eq_of_toNat_eq
  rw [← Nat.div_add_mod p.toNat 512, ← Nat.div_add_mod q.toNat 512, hdiv, ho]

theorem pos_inj {p : BitVec 16} {x y : Nat} (hx : x < 65536) (hy : y < 65536)
    (h : p + BitVec.ofNat 16 x = p + BitVec.ofNat 16 y) : x = y := by
  have heq := congrArg BitVec.toNat ((BitVec.add_right_inj p).mp h)
  rwa [BitVec.toNat_ofNat, BitVec.toNat_ofNat, Nat.mod_eq_of_lt hx, Nat.mod_eq_of_lt hy] at heq

/-- The positions of a piece lie in one block. -/
theorem toNat_pos_add {p : BitVec 16} {x : Nat} (h : p.toNat % 512 + x < 512) :
    (p + BitVec.ofNat 16 x).toNat = p.toNat + x := by
  have hp := p.isLt
  rw [BitVec.toNat_add, BitVec.toNat_ofNat]
  omega

theorem blockAt_add {p : BitVec 16} {x : Nat} (h : p.toNat % 512 + x < 512) :
    blockAt (p + BitVec.ofNat 16 x) = blockAt p := by
  apply Fin.ext
  show (p + BitVec.ofNat 16 x).toNat / 512 = p.toNat / 512
  rw [toNat_pos_add h]
  omega

theorem offset_add {p : BitVec 16} {x : Nat} (h : p.toNat % 512 + x < 512) :
    (p + BitVec.ofNat 16 x).toNat % 512 = p.toNat % 512 + x := by
  rw [toNat_pos_add h]
  omega

/-- Two recorded positions with the same byte of the disk. -/
theorem Owned.isAt_inj {w : Writing} (h : Owned w) {p q : BitVec 16} (hp : w.2.blocks (blockAt p) ≠ 0)
    (hat : IsAt w q (w.1.dataAddr (w.2.blocks (blockAt p))) (p.toNat % 512)) : p = q := by
  refine pos_ext (h.inj _ _ hp ?_) hat.2
  have hsum := hat.1
  rw [Volume.dataAddr, Volume.dataAddr] at hsum
  exact BitVec.eq_of_toNat_eq (Nat.add_left_cancel hsum)

/-! ## Composition -/

section Composition
variable {w w' w'' : Writing} {a b : List UInt8}

theorem Wrote.refl (h : Owned w) : Wrote w [] w := by
  refine ⟨rfl, ?_, h, fun _ h => h, fun _ _ => rfl, fun _ h0 h1 => absurd h0 h1, fun x hx => ?_, fun _ x hx => ?_,
    fun _ _ _ => rfl⟩
  · rw [List.length_nil, BitVec.add_zero]
  · exact absurd hx (Nat.not_lt_zero x)
  · exact absurd hx (Nat.not_lt_zero x)

/-- A place without a block at the start has one that was free at the start. -/
theorem Wrote.trans_fresh (h : Wrote w a w') (h' : Wrote w' b w'') {k : BlockIndex} (h0 : w.2.blocks k = 0)
    (hk : w''.2.blocks k ≠ 0) : Bits.test w.1.blockMap ((w''.2.blocks k).toNat - 1) = false := by
  by_cases hmid : w'.2.blocks k = 0
  · rw [← Bool.not_eq_true]
    intro hset
    have hclear := h'.fresh k hmid hk
    rw [h.mono _ hset] at hclear
    exact absurd hclear (by decide)
  · rw [h'.keep k hmid]
    exact h.fresh k h0 hmid

theorem Wrote.byteAt_trans (h : Wrote w a w') (h' : Wrote w' b w'') (hlen : a.length + b.length ≤ 65536) {x : Nat}
    (hx : x < a.length) :
    byteAt w'' (w.2.pos + BitVec.ofNat 16 x) = byteAt w' (w.2.pos + BitVec.ofNat 16 x) := by
  have hne := h.touched x hx
  have hkeep := h'.keep _ hne
  rw [byteAt, byteAt, hkeep, h'.dataAddr_eq]
  refine h'.frame _ _ fun y hy hat => ?_
  rw [← h'.dataAddr_eq, ← hkeep] at hat
  have heq := h'.owned.isAt_inj (by rwa [hkeep]) hat
  rw [h.pos_eq, pos_add] at heq
  have := pos_inj (by omega) (by omega) heq
  omega

theorem Wrote.trans (h : Wrote w a w') (h' : Wrote w' b w'') : Wrote w (a ++ b) w'' := by
  have hpos : ∀ y, w'.2.pos + BitVec.ofNat 16 y = w.2.pos + BitVec.ofNat 16 (a.length + y) := fun y => by
    rw [h.pos_eq, pos_add]
  refine ⟨?_, ?_, h'.owned, fun j hj => h'.mono j (h.mono j hj), fun k hk => ?_, fun k => h.trans_fresh h',
    fun x hx => ?_, fun hlen x hx => ?_, fun d o hout => ?_⟩
  · rw [h'.volume, h.volume]
  · rw [h'.record, h.record, List.length_append, pos_add]
  · rw [h'.keep k (by rwa [h.keep k hk]), h.keep k hk]
  · by_cases hxa : x < a.length
    · rw [h'.keep _ (h.touched x hxa)]
      exact h.touched x hxa
    · obtain ⟨y, rfl⟩ := Nat.exists_eq_add_of_le (Nat.le_of_not_lt hxa)
      rw [List.length_append] at hx
      rw [← hpos]
      exact h'.touched y (by omega)
  · rw [List.length_append] at hlen
    by_cases hxa : x < a.length
    · rw [h.byteAt_trans h' hlen hxa, h.content (by omega) x hxa, List.getElem_append_left hxa]
    · obtain ⟨y, rfl⟩ := Nat.exists_eq_add_of_le (Nat.le_of_not_lt hxa)
      have hy : y < b.length := by
        rw [List.length_append] at hx
        omega
      rw [← hpos, h'.content (by omega) y hy, List.getElem_append_right (by omega)]
      congr 1
      omega
  · rw [List.length_append] at hout
    rw [h'.frame d o fun y hy hat => hout (a.length + y) (by omega) (by rwa [← hpos])]
    refine h.frame d o fun x hx hat => hout x (by omega) ?_
    rwa [IsAt, h'.dataAddr_eq, h'.keep _ (h.touched x hx)]

end Composition

/-! ## One piece -/

section Piece
variable {w : Writing} {buf : List UInt8}

/-- A piece inside the block of the position, which is there. -/
theorem Wrote.put (h : Owned w) (hblock : w.2.blocks w.2.block ≠ 0) (hlen : w.2.inBlock + buf.length ≤ 512) :
    Wrote w buf (put buf w) := by
  have hin : ∀ x < buf.length, w.2.pos.toNat % 512 + x < 512 := fun x hx => by
    have hlen' : w.2.pos.toNat % 512 + buf.length ≤ 512 := hlen
    omega
  have hdisk : (Writing.put buf w).1.disk = Function.update w.1.disk (w.1.dataAddr (w.2.blocks w.2.block))
      (Slice.write (w.1.disk (w.1.dataAddr (w.2.blocks w.2.block))) w.2.inBlock buf) := rfl
  refine ⟨rfl, rfl, ⟨fun k hk => ⟨(h.marked k hk).1, (h.marked k hk).2⟩, h.inj⟩, fun _ h => h, fun _ _ => rfl,
    fun _ h0 h1 => absurd h0 h1, fun x hx => ?_, fun _ x hx => ?_, fun a o hout => ?_⟩
  · rw [blockAt_add (hin x hx)]
    exact hblock
  · rw [byteAt, blockAt_add (hin x hx), offset_add (hin x hx), hdisk]
    show Function.update w.1.disk (w.1.dataAddr (w.2.blocks w.2.block)) _ (w.1.dataAddr (w.2.blocks w.2.block)) _ = _
    rw [Function.update_self]
    exact Slice.write_inside _ hx
  · rw [hdisk]
    by_cases ha : a = w.1.dataAddr (w.2.blocks w.2.block)
    · rw [ha, Function.update_self]
      by_cases ho : o < w.2.inBlock
      · exact Slice.write_of_lt _ _ ho
      · by_cases ho' : w.2.inBlock + buf.length ≤ o
        · exact Slice.write_of_ge _ ho'
        · obtain ⟨x, rfl⟩ := Nat.exists_eq_add_of_le (Nat.le_of_not_lt ho)
          have hx : x < buf.length := by omega
          refine absurd ⟨?_, ?_⟩ (hout x hx)
          · rw [blockAt_add (hin x hx)]
            exact ha
          · rw [offset_add (hin x hx)]
            rfl
    · rw [Function.update_of_ne ha]

end Piece

/-! ## A new block -/

theorem newBlock_of_free {v : Volume} (h : v.free.Nonempty) : ∃ i ∈ v.free,
    v.newBlock = (BitVec.ofNat 16 (i + 1), { v with blockMap := Bits.set v.blockMap i }) := by
  obtain ⟨j, hj⟩ := h
  obtain ⟨hlt, hclear⟩ := Volume.mem_free.mp hj
  have hle : v.limit ≤ v.nblocks := (min_le_left _ _).trans (min_le_left _ _)
  have hj : j < v.nblocks := by omega
  obtain ⟨i, hi, hget⟩ := Bitmap.getFreeBitmap_of_clear hj hclear
  exact ⟨i, Volume.mem_free.mpr ⟨by omega, (Bitmap.getFreeBitmap_some hget).2.1⟩, by rw [Volume.newBlock, hget]⟩

/-- The number of a free block, as it is recorded. -/
theorem toNat_of_free {v : Volume} {i : Nat} (h : i ∈ v.free) : (BitVec.ofNat 16 (i + 1)).toNat = i + 1 := by
  have hlt := (Volume.mem_free.mp h).1
  have hle : v.limit ≤ 65535 := (min_le_left _ _).trans (min_le_right _ _)
  rw [BitVec.toNat_ofNat, Nat.mod_eq_of_lt (by omega)]

theorem free_set (v : Volume) (i : Nat) :
    ({ v with blockMap := Bits.set v.blockMap i } : Volume).free = v.free.erase i := by
  ext j
  rw [Volume.mem_free, Finset.mem_erase, Volume.mem_free, Bits.test_set, Bool.or_eq_false_iff, decide_eq_false_iff_not]
  show j < v.limit ∧ _ ↔ _
  tauto

/-- Room for any write. -/
theorem room_of_card (T : Finset BlockIndex) {w : Writing} (hfree : 200 ≤ w.1.free.card) : Room T w := by
  have hle := Finset.card_le_univ (missing T w.2)
  rw [Fintype.card_fin] at hle
  exact hle.trans hfree

section Ensure
variable {w : Writing} {T : Finset BlockIndex}

/-- The inode after free block `i` is recorded at the position. -/
theorem Owned.record (h : Owned w) {i : Nat} (hi : i ∈ w.1.free) :
    Owned ({ w.1 with blockMap := Bits.set w.1.blockMap i },
      { w.2 with blocks := Function.update w.2.blocks w.2.block (BitVec.ofNat 16 (i + 1)) }) := by
  have hnum := toNat_of_free hi
  obtain ⟨hlt, hclear⟩ := Volume.mem_free.mp hi
  have hother : ∀ k, w.2.blocks k ≠ 0 → w.2.blocks k ≠ BitVec.ofNat 16 (i + 1) := by
    intro k hk heq
    have hset := (h.marked k hk).test
    rw [heq, hnum, Nat.add_sub_cancel, hclear] at hset
    exact absurd hset (by decide)
  refine ⟨fun k hk => ?_, fun k l hk heq => ?_⟩
  · by_cases hkb : k = w.2.block
    · subst hkb
      simp only [Function.update_self]
      refine ⟨?_, ?_⟩
      · rw [hnum]
        exact hlt
      · rw [hnum, Nat.add_sub_cancel, Bits.test_set_self]
    · simp only [Function.update_of_ne hkb] at hk ⊢
      refine ⟨(h.marked k hk).le_limit, ?_⟩
      rw [Bits.test_set, (h.marked k hk).test, Bool.or_true]
  · by_cases hkb : k = w.2.block
    · by_cases hlb : l = w.2.block
      · rw [hkb, hlb]
      · simp only [hkb, Function.update_self, Function.update_of_ne hlb] at heq hk
        exact absurd heq.symm (hother l (heq ▸ hk))
    · by_cases hlb : l = w.2.block
      · simp only [hlb, Function.update_self, Function.update_of_ne hkb] at heq hk
        exact absurd heq (hother k hk)
      · simp only [Function.update_of_ne hkb, Function.update_of_ne hlb] at heq hk
        exact h.inj k l hk heq

theorem Room.nonempty (hroom : Room T w) (hT : w.2.block ∈ T) (h0 : w.2.blocks w.2.block = 0) :
    w.1.free.Nonempty := by
  have hmem : w.2.block ∈ missing T w.2 := Finset.mem_filter.mpr ⟨hT, h0⟩
  have hpos := Finset.card_pos.mpr ⟨_, hmem⟩
  exact Finset.card_pos.mp (lt_of_lt_of_le hpos hroom)

/-- One place less, one free block less. -/
theorem Room.record (hroom : Room T w) (hT : w.2.block ∈ T) (h0 : w.2.blocks w.2.block = 0) {i : Nat}
    (hi : i ∈ w.1.free) :
    Room T ({ w.1 with blockMap := Bits.set w.1.blockMap i },
      { w.2 with blocks := Function.update w.2.blocks w.2.block (BitVec.ofNat 16 (i + 1)) }) := by
  have hsub : missing T { w.2 with blocks := Function.update w.2.blocks w.2.block (BitVec.ofNat 16 (i + 1)) } ⊆
      (missing T w.2).erase w.2.block := by
    intro k hk
    obtain ⟨hkT, hk0⟩ := Finset.mem_filter.mp hk
    by_cases hkb : k = w.2.block
    · simp only [hkb, Function.update_self] at hk0
      have hnum := toNat_of_free hi
      rw [hk0] at hnum
      exact absurd hnum (by simp)
    · simp only [Function.update_of_ne hkb] at hk0
      exact Finset.mem_erase.mpr ⟨hkb, Finset.mem_filter.mpr ⟨hkT, hk0⟩⟩
  have hmem : w.2.block ∈ missing T w.2 := Finset.mem_filter.mpr ⟨hT, h0⟩
  have hcard := Finset.card_le_card hsub
  rw [Finset.card_erase_of_mem hmem] at hcard
  rw [Room, free_set, Finset.card_erase_of_mem hi]
  exact hcard.trans (Nat.sub_le_sub_right hroom 1)

/-- `ensureBlock` finds a block, where there is room for it. -/
theorem Wrote.ensure (h : Owned w) (hroom : Room T w) (hT : w.2.block ∈ T) :
    Wrote w [] (ensureBlock w) ∧ (ensureBlock w).2.blocks w.2.block ≠ 0 ∧ Room T (ensureBlock w) := by
  by_cases h0 : w.2.blocks w.2.block = 0
  · obtain ⟨i, hi, hnew⟩ := newBlock_of_free (hroom.nonempty hT h0)
    have hnum := toNat_of_free hi
    obtain ⟨hlt, hclear⟩ := Volume.mem_free.mp hi
    have heq : ensureBlock w = ({ w.1 with blockMap := Bits.set w.1.blockMap i },
        { w.2 with blocks := Function.update w.2.blocks w.2.block (BitVec.ofNat 16 (i + 1)) }) := by
      rw [ensureBlock, if_pos h0, hnew]
    rw [heq]
    refine ⟨⟨rfl, ?_, h.record hi, fun j hj => ?_, fun k hk => ?_, fun k hk0 hk => ?_, fun x hx => ?_,
      fun _ x hx => ?_, fun _ _ _ => rfl⟩, ?_, hroom.record hT h0 hi⟩
    · rw [List.length_nil, BitVec.add_zero]
    · rw [Bits.test_set, hj, Bool.or_true]
    · have hkb : k ≠ w.2.block := fun hkb => hk (hkb ▸ h0)
      exact Function.update_of_ne hkb _ _
    · by_cases hkb : k = w.2.block
      · simp only [hkb, Function.update_self]
        rw [hnum, Nat.add_sub_cancel, hclear]
      · simp only [Function.update_of_ne hkb] at hk
        exact absurd hk0 hk
    · exact absurd hx (Nat.not_lt_zero x)
    · exact absurd hx (Nat.not_lt_zero x)
    · simp only [Function.update_self]
      intro hzero
      rw [hzero] at hnum
      exact absurd hnum (by simp)
  · have heq : ensureBlock w = w := by
      rw [ensureBlock, if_neg h0]
    rw [heq]
    exact ⟨.refl h, h0, hroom⟩

end Ensure

/-! ## All pieces -/

/-- The places that a write of `n` bytes at position `p` may give a block. -/
def places (p : BitVec 16) (n : Nat) : Finset BlockIndex :=
  (Finset.range (max 1 n)).image fun x => blockAt (p + BitVec.ofNat 16 x)

theorem mem_places {p : BitVec 16} {n x : Nat} (h : x < n) : blockAt (p + BitVec.ofNat 16 x) ∈ places p n :=
  Finset.mem_image.mpr ⟨x, Finset.mem_range.mpr (by omega), rfl⟩

theorem blockAt_mem_places (p : BitVec 16) (n : Nat) : blockAt p ∈ places p n :=
  Finset.mem_image.mpr ⟨0, Finset.mem_range.mpr (by omega), by rw [BitVec.add_zero]⟩

section Pieces
variable {w : Writing} {T : Finset BlockIndex} {buf : List UInt8}

theorem Room.put (hroom : Room T w) (buf : List UInt8) : Room T (put buf w) := hroom

/-- A piece, and the block behind it. -/
theorem Wrote.put_ensure (buf : List UInt8) (h : Owned w) (hroom : Room T w) (hblock : w.2.blocks w.2.block ≠ 0)
    (hlen : w.2.inBlock + buf.length ≤ 512) (hT : blockAt (w.2.pos + BitVec.ofNat 16 buf.length) ∈ T) :
    Wrote w buf (ensureBlock (Writing.put buf w)) ∧
      (ensureBlock (Writing.put buf w)).2.blocks (ensureBlock (Writing.put buf w)).2.block ≠ 0 ∧
      Room T (ensureBlock (Writing.put buf w)) := by
  have hput := Wrote.put h hblock hlen
  obtain ⟨hensure, hne, hroom'⟩ := Wrote.ensure hput.owned (hroom.put buf) hT
  have hboth := hput.trans hensure
  rw [List.append_nil] at hboth
  have hpos : (ensureBlock (Writing.put buf w)).2.pos = (Writing.put buf w).2.pos := by
    rw [hboth.pos_eq]
    rfl
  refine ⟨hboth, ?_, hroom'⟩
  rw [Inode.block_eq, hpos]
  exact hne

theorem Wrote.writeLoop (buf : List UInt8) (h : Owned w) (hroom : Room T w) (hblock : w.2.blocks w.2.block ≠ 0)
    (hfit : w.2.inBlock = 0 ∨ w.2.inBlock + buf.length ≤ 512)
    (hT : ∀ x < buf.length, blockAt (w.2.pos + BitVec.ofNat 16 x) ∈ T) : Wrote w buf (Writing.writeLoop w buf) := by
  fun_induction Writing.writeLoop w buf with
  | case1 w buf hlt ih =>
    have hin : w.2.inBlock = 0 := by omega
    have htake : (buf.take 512).length = 512 := List.length_take_of_le (by omega)
    obtain ⟨hput, hne, hroom'⟩ := Wrote.put_ensure (buf.take 512) h hroom hblock (by rw [hin, htake])
      (by rw [htake]; exact hT 512 hlt)
    have hpos := hput.pos_eq
    rw [htake] at hpos
    have hrest := ih hput.owned hroom' hne (.inl ?_) fun x hx => ?_
    · have hall := hput.trans hrest
      rwa [List.take_append_drop] at hall
    · have hp := w.2.pos.isLt
      rw [Inode.inBlock] at hin ⊢
      rw [hpos, BitVec.toNat_add, BitVec.toNat_ofNat]
      omega
    · rw [List.length_drop] at hx
      rw [hpos, pos_add]
      exact hT _ (by omega)
  | case2 w buf hle => exact Wrote.put h hblock (by omega)

end Pieces

end Writing

/-! ## The whole of a write -/

section Write
variable {v : Volume} {inode : Inode} {buf : List UInt8}
open Writing

/-- A write at position 0 is a new file. -/
def Inode.restart (inode : Inode) : Inode := { inode with size := if inode.pos = 0 then 0 else inode.size }

/-- The size counts everything that is written. -/
def Inode.grow (inode : Inode) (n : Nat) : Inode := { inode with size := inode.size + BitVec.ofNat 16 n }

theorem ensureBlock_restart : ((ensureBlock (v, inode)).1, { (ensureBlock (v, inode)).2 with
    size := if inode.pos = 0 then 0 else (ensureBlock (v, inode)).2.size }) = ensureBlock (v, inode.restart) := by
  by_cases h0 : inode.blocks inode.block = 0
  · have h0' : inode.restart.blocks inode.restart.block = 0 := h0
    rw [ensureBlock, ensureBlock, if_pos h0, if_pos h0']
    rfl
  · have h0' : ¬ inode.restart.blocks inode.restart.block = 0 := h0
    rw [ensureBlock, ensureBlock, if_neg h0, if_neg h0']
    rfl

theorem inodeWrite_reject (v : Volume) (h : 102400 < buf.length + inode.pos.toNat) :
    v.inodeWrite inode buf = (none, v, inode) := by
  rw [Volume.inodeWrite, if_pos (.inl h)]

theorem inodeWrite_spec (v : Volume) (inode : Inode) (buf : List UInt8)
    (hacc : buf.length + inode.pos.toNat ≤ 102400) (h : Owned (v, inode))
    (hroom : Room (places inode.pos buf.length) (v, inode)) : ∃ w', Wrote (v, inode.restart) buf w' ∧
      v.inodeWrite inode buf = (some buf.length, w'.1.inodeSync (w'.2.grow buf.length), w'.2.grow buf.length) := by
  have hown : Owned (v, inode.restart) := ⟨h.marked, h.inj⟩
  have hpos := inode.pos.isLt
  have hreject : ¬ (102400 < buf.length + inode.pos.toNat ∨ 200 < inode.pos.toNat / 512) := by omega
  obtain ⟨hfirst, hblock, hroom1⟩ := Wrote.ensure hown hroom (blockAt_mem_places inode.pos buf.length)
  have hpos1 : (ensureBlock (v, inode.restart)).2.pos = inode.pos := by
    rw [hfirst.pos_eq, List.length_nil, BitVec.add_zero]
    rfl
  have hblock1 : (ensureBlock (v, inode.restart)).2.blocks (ensureBlock (v, inode.restart)).2.block ≠ 0 := by
    rw [Inode.block_eq, hpos1]
    exact hblock
  have hin1 : (ensureBlock (v, inode.restart)).2.inBlock = inode.inBlock := by
    rw [Inode.inBlock, hpos1]
    rfl
  have heq : v.inodeWrite inode buf = _ := Volume.inodeWrite.eq_1 v inode buf
  rw [if_neg hreject] at heq
  simp only [ensureBlock_restart] at heq
  by_cases hpart : inode.inBlock ≠ 0 ∧ 512 < inode.inBlock + buf.length
  · have htake : (buf.take (512 - inode.inBlock)).length = 512 - inode.inBlock := List.length_take_of_le (by omega)
    have hlt := inode.inBlock_lt
    rw [if_pos hpart, if_pos hpart] at heq
    obtain ⟨hput, hne, hroom2⟩ := Wrote.put_ensure (buf.take (512 - inode.inBlock)) hfirst.owned hroom1 hblock1
      (by rw [hin1, htake]; omega) (by rw [hpos1, htake]; exact mem_places (by omega))
    have hpos2 := hput.pos_eq
    rw [hpos1, htake] at hpos2
    have hrest := Wrote.writeLoop (buf.drop (512 - inode.inBlock)) hput.owned hroom2 hne (.inl ?_) fun x hx => ?_
    · have hall := (hfirst.trans hput).trans hrest
      rw [List.nil_append, List.take_append_drop] at hall
      exact ⟨_, hall, heq⟩
    · have hmod : inode.pos.toNat % 512 = inode.inBlock := rfl
      rw [Inode.inBlock, hpos2, BitVec.toNat_add, BitVec.toNat_ofNat]
      omega
    · rw [List.length_drop] at hx
      rw [hpos2, pos_add]
      exact mem_places (by omega)
  · rw [if_neg hpart, if_neg hpart] at heq
    obtain ⟨hagain, hne, hroom2⟩ := Wrote.ensure hfirst.owned hroom1
      (by rw [Inode.block_eq, hpos1]; exact blockAt_mem_places inode.pos buf.length)
    have hpos2 := hagain.pos_eq
    rw [hpos1, List.length_nil, BitVec.add_zero] at hpos2
    have hrest := Wrote.writeLoop buf hagain.owned hroom2
      (by rw [Inode.block_eq, hpos2, ← hpos1]; exact hne) ?_ fun x hx => ?_
    · exact ⟨_, (hfirst.trans hagain).trans hrest, heq⟩
    · have hin2 : (ensureBlock (ensureBlock (v, inode.restart))).2.inBlock = inode.inBlock := by
        rw [Inode.inBlock, hpos2]
        rfl
      rw [hin2]
      omega
    · rw [hpos2]
      exact mem_places hx

end Write

end RetrOS.Ext
