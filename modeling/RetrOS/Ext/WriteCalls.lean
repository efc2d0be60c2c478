import RetrOS.Ext.ReadCalls

/-!
# What a write leaves behind (`inode_write`)

* `writeAll` : the pieces of a write; `inodeWrite_eq` : the write, with the record and its place on the disk;
* `Moved` : what any write does to the record of the inode; `Spares` : and to the bytes that it is not meant for.
  Pieces compose (`Spares.trans`), and are made of `ensureBlock` and `put`;
* `WriteLaw` : the position behind the data, the size that follows from it, and the other bytes as they were;
* `inodeWriteLaw_iff` : this holds for new files and for appends.

A write through a full bitmap goes to block `0`, which is not recorded: the bytes of the inode are spared all the
same. A number that an inode can record has 16 bits.
-/

namespace RetrOS.Ext
open RetrOS.Lib Writing

namespace Writing

/-- The pieces of a write, in its order. -/
def writeAll (w : Writing) (buf : List UInt8) : Writing :=
  let w := ensureBlock w
  if w.2.inBlock ≠ 0 ∧ 512 < w.2.inBlock + buf.length then
    writeLoop (ensureBlock (put (buf.take (512 - w.2.inBlock)) w)) (buf.drop (512 - w.2.inBlock))
  else writeLoop (ensureBlock w) buf

/-- `w'` is `w` with the position `n` further on, and other blocks. -/
structure Moved (w : Writing) (n : Nat) (w' : Writing) : Prop where
  record : w'.2 = { w.2 with blocks := w'.2.blocks, pos := w.2.pos + BitVec.ofNat 16 n }
  volume : w'.1 = { w.1 with blockMap := w'.1.blockMap, disk := w'.1.disk }

section Moved
variable {w w' w'' : Writing} {n m : Nat} {buf : List UInt8}

theorem Moved.trans (h : Moved w n w') (h' : Moved w' m w'') : Moved w (n + m) w'' := by
  constructor
  · rw [h'.record, h.record, pos_add]
  · rw [h'.volume, h.volume]

theorem Moved.ensure (w : Writing) : Moved w 0 (ensureBlock w) := by
  obtain ⟨v, inode⟩ := w
  unfold ensureBlock Volume.newBlock
  dsimp only
  split
  · split
    · exact ⟨by rw [BitVec.add_zero], rfl⟩
    · exact ⟨by rw [BitVec.add_zero], rfl⟩
  · exact ⟨by rw [BitVec.add_zero], rfl⟩

theorem Moved.put (buf : List UInt8) (w : Writing) : Moved w buf.length (put buf w) := ⟨rfl, rfl⟩

theorem Moved.writeLoop (w : Writing) (buf : List UInt8) : Moved w buf.length (writeLoop w buf) := by
  fun_induction Writing.writeLoop w buf with
  | case1 w buf hlt ih =>
    have htake : (buf.take 512).length = 512 := List.length_take_of_le (by omega)
    have hfirst := (Moved.put (buf.take 512) w).trans (Moved.ensure _)
    have hall := hfirst.trans ih
    rwa [htake, List.length_drop, Nat.add_zero, Nat.add_sub_cancel' (by omega)] at hall
  | case2 w buf hle => exact Moved.put buf w

theorem Moved.writeAll (w : Writing) (buf : List UInt8) : Moved w buf.length (writeAll w buf) := by
  have hlt := (ensureBlock w).2.inBlock_lt
  unfold Writing.writeAll
  dsimp only
  split
  · next hpart =>
    have hall := (Moved.ensure w).trans
      (((Moved.put (buf.take (512 - (ensureBlock w).2.inBlock)) (ensureBlock w)).trans (Moved.ensure _)).trans
        (Moved.writeLoop _ (buf.drop (512 - (ensureBlock w).2.inBlock))))
    rwa [List.length_take_of_le (by omega), List.length_drop, Nat.add_zero, Nat.zero_add,
      Nat.add_sub_cancel' (by omega)] at hall
  · have hall := (Moved.ensure w).trans ((Moved.ensure (ensureBlock w)).trans (Moved.writeLoop _ buf))
    rwa [Nat.zero_add, Nat.zero_add] at hall

end Moved

/-! ## The other bytes -/

/-- The recorded blocks are set in the bitmap, and each is recorded once. -/
structure Held (w : Writing) : Prop where
  test : ∀ k, w.2.blocks k ≠ 0 → Bits.test w.1.blockMap ((w.2.blocks k).toNat - 1) = true
  inj : ∀ k l, w.2.blocks k ≠ 0 → w.2.blocks k = w.2.blocks l → k = l

/-- The blocks that were recorded stay, and the bytes in them but for those at the `n` positions written. -/
structure Spares (w : Writing) (n : Nat) (w' : Writing) : Prop where
  keep : ∀ k, w.2.blocks k ≠ 0 → w'.2.blocks k = w.2.blocks k
  bytes : ∀ p, w.2.blocks (blockAt p) ≠ 0 → (∀ x < n, p ≠ w.2.pos + BitVec.ofNat 16 x) → byteAt w' p = byteAt w p

section Spares
variable {w w' w'' : Writing} {n m : Nat} {buf : List UInt8}

theorem Owned.held (h : Owned w) : Held w := ⟨fun k hk => (h.marked k hk).test, h.inj⟩

theorem Spares.trans (h : Spares w n w') (h' : Spares w' m w'') (hmoved : Moved w n w') : Spares w (n + m) w'' := by
  have hpos (y : Nat) : w'.2.pos + BitVec.ofNat 16 y = w.2.pos + BitVec.ofNat 16 (n + y) := by
    rw [hmoved.record, pos_add]
  refine ⟨fun k hk => ?_, fun p hp hout => ?_⟩
  · rw [h'.keep k (by rwa [h.keep k hk]), h.keep k hk]
  · rw [h'.bytes p (by rwa [h.keep _ hp]) fun y hy => ?_, h.bytes p hp fun x hx => hout x (by omega)]
    rw [hpos]
    exact hout (n + y) (by omega)

theorem Spares.put (h : Held w) (buf : List UInt8) : Spares w buf.length (put buf w) := by
  refine ⟨fun _ _ => rfl, fun p hp hout => ?_⟩
  have hdisk : (Writing.put buf w).1.disk = Function.update w.1.disk (w.1.dataAddr (w.2.blocks w.2.block))
      (Slice.write (w.1.disk (w.1.dataAddr (w.2.blocks w.2.block))) w.2.inBlock buf) := rfl
  show (Writing.put buf w).1.disk (w.1.dataAddr (w.2.blocks (blockAt p))) (p.toNat % 512) = _
  rw [hdisk]
  by_cases ha : w.1.dataAddr (w.2.blocks (blockAt p)) = w.1.dataAddr (w.2.blocks w.2.block)
  · -- the byte lies in the block of the piece
    have hnumber : w.2.blocks (blockAt p) = w.2.blocks w.2.block := BitVec.eq_of_toNat_eq (Nat.add_left_cancel ha)
    have hplace : blockAt p = blockAt w.2.pos := h.inj _ _ hp hnumber
    have hdiv : p.toNat / 512 = w.2.pos.toNat / 512 := congrArg Fin.val hplace
    have hin : w.2.inBlock = w.2.pos.toNat % 512 := rfl
    rw [ha, Function.update_self, byteAt, ha]
    by_cases ho : p.toNat % 512 < w.2.inBlock
    · exact Slice.write_of_lt _ _ ho
    · by_cases ho' : w.2.inBlock + buf.length ≤ p.toNat % 512
      · exact Slice.write_of_ge _ ho'
      · have heq : p = w.2.pos + BitVec.ofNat 16 (p.toNat % 512 - w.2.inBlock) := by
          apply BitVec.eq_of_toNat_eq
          rw [toNat_pos_add (by omega)]
          omega
        exact absurd heq (hout _ (by omega))
  · rw [Function.update_of_ne ha]
    rfl

/-- What `__new_block` can do: the bitmap is full, or it hands out a block that was not set. -/
theorem newBlock_cases (v : Volume) (hfew : v.nblocks ≤ 65535) : v.newBlock = (0, v) ∨
    ∃ i, Bits.test v.blockMap i = false ∧ (BitVec.ofNat 16 (i + 1)).toNat = i + 1 ∧
      v.newBlock = (BitVec.ofNat 16 (i + 1), { v with blockMap := Bits.set v.blockMap i }) := by
  unfold Volume.newBlock
  cases hget : Bitmap.getFreeBitmap v.blockMap v.nblocks with
  | none => exact .inl rfl
  | some r =>
    obtain ⟨i, map⟩ := r
    obtain ⟨hlt, hclear, hmap⟩ := Bitmap.getFreeBitmap_some hget
    refine .inr ⟨i, hclear, ?_, by rw [hmap]⟩
    rw [BitVec.toNat_ofNat]
    omega

theorem Spares.ensure (h : Held w) (hfew : w.1.nblocks ≤ 65535) :
    Held (ensureBlock w) ∧ Spares w 0 (ensureBlock w) := by
  by_cases h0 : w.2.blocks w.2.block = 0
  · have hkept (b : BitVec 16) (k : BlockIndex) (hk : w.2.blocks k ≠ 0) :
        Function.update w.2.blocks w.2.block b k = w.2.blocks k :=
      Function.update_of_ne (fun hkb => hk (by rw [hkb, h0])) _ _
    rcases newBlock_cases w.1 hfew with hfull | ⟨i, hclear, hnum, hnew⟩
    · have heq : ensureBlock w = w := by
        rw [ensureBlock, if_pos h0, hfull, ← h0, Function.update_eq_self]
      rw [heq]
      exact ⟨h, fun _ _ => rfl, fun _ _ _ => rfl⟩
    · have heq : ensureBlock w = ({ w.1 with blockMap := Bits.set w.1.blockMap i },
          { w.2 with blocks := Function.update w.2.blocks w.2.block (BitVec.ofNat 16 (i + 1)) }) := by
        rw [ensureBlock, if_pos h0, hnew]
      have hother (k : BlockIndex) (hk : w.2.blocks k ≠ 0) : w.2.blocks k ≠ BitVec.ofNat 16 (i + 1) := by
        intro hsame
        have hset := h.test k hk
        rw [hsame, hnum, Nat.add_sub_cancel, hclear] at hset
        exact absurd hset (by decide)
      rw [heq]
      refine ⟨⟨fun k hk => ?_, fun k l hk hkl => ?_⟩, fun k hk => hkept _ k hk, fun p hp _ => ?_⟩
      · by_cases hkb : k = w.2.block
        · subst hkb
          simp only [Function.update_self]
          rw [hnum, Nat.add_sub_cancel, Bits.test_set_self]
        · simp only [Function.update_of_ne hkb] at hk ⊢
          rw [Bits.test_set, h.test k hk, Bool.or_true]
      · by_cases hkb : k = w.2.block
        · by_cases hlb : l = w.2.block
          · rw [hkb, hlb]
          · simp only [hkb, Function.update_self, Function.update_of_ne hlb] at hkl hk
            exact absurd hkl.symm (hother l (hkl ▸ hk))
        · by_cases hlb : l = w.2.block
          · simp only [hlb, Function.update_self, Function.update_of_ne hkb] at hkl hk
            exact absurd hkl (hother k hk)
          · simp only [Function.update_of_ne hkb, Function.update_of_ne hlb] at hk hkl
            exact h.inj k l hk hkl
      · show w.1.disk (w.1.dataAddr (Function.update w.2.blocks w.2.block _ (blockAt p))) _ = _
        rw [hkept _ _ hp]
        rfl
  · have heq : ensureBlock w = w := by rw [ensureBlock, if_neg h0]
    rw [heq]
    exact ⟨h, fun _ _ => rfl, fun _ _ _ => rfl⟩

theorem Held.put (h : Held w) (buf : List UInt8) : Held (put buf w) := ⟨h.test, h.inj⟩

/-- A piece, and the block behind it. -/
theorem Spares.put_ensure (h : Held w) (hfew : w.1.nblocks ≤ 65535) (buf : List UInt8) :
    Held (ensureBlock (Writing.put buf w)) ∧ Spares w buf.length (ensureBlock (Writing.put buf w)) := by
  obtain ⟨hheld, hensure⟩ := Spares.ensure (h.put buf) hfew
  exact ⟨hheld, (Spares.put h buf).trans hensure (Moved.put buf w)⟩

theorem Moved.few (h : Moved w n w') : w'.1.nblocks = w.1.nblocks := by rw [h.volume]

theorem Spares.writeLoop (buf : List UInt8) (h : Held w) (hfew : w.1.nblocks ≤ 65535) :
    Spares w buf.length (writeLoop w buf) := by
  fun_induction Writing.writeLoop w buf with
  | case1 w buf hlt ih =>
    have htake : (buf.take 512).length = 512 := List.length_take_of_le (by omega)
    have hmoved := (Moved.put (buf.take 512) w).trans (Moved.ensure _)
    obtain ⟨hheld, hfirst⟩ := Spares.put_ensure h hfew (buf.take 512)
    have hall := hfirst.trans (ih hheld (by rw [hmoved.few]; exact hfew)) hmoved
    rwa [htake, List.length_drop, Nat.add_sub_cancel' (by omega)] at hall
  | case2 w buf hle => exact Spares.put h buf

/-- **A write spares the bytes that it is not meant for.** -/
theorem Spares.writeAll (buf : List UInt8) (h : Held w) (hfew : w.1.nblocks ≤ 65535) :
    Spares w buf.length (writeAll w buf) := by
  have hlt := (ensureBlock w).2.inBlock_lt
  have hmoved := Moved.ensure w
  obtain ⟨hheld, hfirst⟩ := Spares.ensure h hfew
  have hfew1 : (ensureBlock w).1.nblocks ≤ 65535 := by rw [hmoved.few]; exact hfew
  unfold Writing.writeAll
  dsimp only
  split
  · next hpart =>
    have hmoved2 := (Moved.put (buf.take (512 - (ensureBlock w).2.inBlock)) (ensureBlock w)).trans (Moved.ensure _)
    obtain ⟨hheld2, hsecond⟩ := Spares.put_ensure hheld hfew1 (buf.take (512 - (ensureBlock w).2.inBlock))
    have hrest := Spares.writeLoop (buf.drop (512 - (ensureBlock w).2.inBlock)) hheld2
      (by rw [hmoved2.few]; exact hfew1)
    have hall := hfirst.trans (hsecond.trans hrest hmoved2) hmoved
    rwa [List.length_take_of_le (by omega), List.length_drop, Nat.zero_add, Nat.add_sub_cancel' (by omega)] at hall
  · have hmoved2 := Moved.ensure (ensureBlock w)
    obtain ⟨hheld2, hsecond⟩ := Spares.ensure hheld hfew1
    have hrest := Spares.writeLoop buf hheld2 (by rw [hmoved2.few]; exact hfew1)
    have hall := hfirst.trans (hsecond.trans hrest hmoved2) hmoved
    rwa [Nat.zero_add, Nat.zero_add] at hall

/-- So does a write that finds enough blocks with numbers of 16 bits, in a bitmap of any size. -/
theorem Spares.of_wrote (h : Wrote w buf w') : Spares w buf.length w' := by
  refine ⟨h.keep, fun p hp hout => ?_⟩
  have hkeep := h.keep _ hp
  rw [byteAt, byteAt, hkeep, h.dataAddr_eq]
  refine h.frame _ _ fun x hx hat => ?_
  have heq := h.owned.isAt_inj (p := p) (by rwa [hkeep]) (by rwa [hkeep, h.dataAddr_eq])
  exact hout x hx heq

end Spares

end Writing

/-- **The whole of a write**, whatever blocks there are. -/
theorem inodeWrite_eq (v : Volume) (inode : Inode) (buf : List UInt8)
    (hacc : buf.length + inode.pos.toNat ≤ 102400) :
    v.inodeWrite inode buf = (some buf.length,
      (writeAll (v, inode.restart) buf).1.inodeSync ((writeAll (v, inode.restart) buf).2.grow buf.length),
      (writeAll (v, inode.restart) buf).2.grow buf.length) := by
  have hpos := inode.pos.isLt
  have hreject : ¬ (102400 < buf.length + inode.pos.toNat ∨ 200 < inode.pos.toNat / 512) := by omega
  have hin : (ensureBlock (v, inode.restart)).2.inBlock = inode.inBlock := by
    rw [Inode.inBlock, (Moved.ensure (v, inode.restart)).record, BitVec.add_zero]
    rfl
  have heq : v.inodeWrite inode buf = _ := Volume.inodeWrite.eq_1 v inode buf
  rw [if_neg hreject] at heq
  simp only [ensureBlock_restart] at heq
  rw [heq, writeAll, hin]
  by_cases hpart : inode.inBlock ≠ 0 ∧ 512 < inode.inBlock + buf.length
  · rw [if_pos hpart, if_pos hpart, if_pos hpart]
    rfl
  · rw [if_neg hpart, if_neg hpart, if_neg hpart]
    rfl

/-! ## The law -/

/-- After a write of `n` bytes the position is `n` further on; the size is `n` for a new file, and otherwise what covers
the old bytes and the new ones; and the bytes of the file that were not written are as they were. -/
structure WriteLaw (v : Volume) (inode : Inode) (buf : List UInt8) : Prop where
  ret : (v.inodeWrite inode buf).1 = some buf.length
  pos : (v.inodeWrite inode buf).2.2.pos.toNat = inode.pos.toNat + buf.length
  size : (v.inodeWrite inode buf).2.2.size.toNat =
    if inode.pos = 0 then buf.length else max inode.size.toNat (inode.pos.toNat + buf.length)
  bytes : ∀ p : BitVec 16, p.toNat < (v.inodeWrite inode buf).2.2.size.toNat →
    (p.toNat < inode.pos.toNat ∨ inode.pos.toNat + buf.length ≤ p.toNat) → inode.blocks (blockAt p) ≠ 0 →
    byteAt (v.inodeWrite inode buf).2 p = byteAt (v, inode) p

section Law
variable {v : Volume} {inode : Inode} {buf : List UInt8}

/-- The position and the size that a write leaves. -/
theorem inodeWrite_record (v : Volume) (hacc : buf.length + inode.pos.toNat ≤ 102400) :
    (v.inodeWrite inode buf).2.2.pos.toNat = (inode.pos.toNat + buf.length) % 65536 ∧
      (v.inodeWrite inode buf).2.2.size.toNat =
        ((if inode.pos = 0 then 0 else inode.size.toNat) + buf.length) % 65536 := by
  have hmoved := Moved.writeAll (v, inode.restart) buf
  rw [inodeWrite_eq v inode buf hacc]
  dsimp only [Inode.grow]
  constructor
  · rw [hmoved.record]
    show (inode.pos + BitVec.ofNat 16 buf.length).toNat = _
    rw [BitVec.toNat_add, BitVec.toNat_ofNat]
    omega
  · rw [hmoved.record]
    show ((if inode.pos = 0 then 0 else inode.size) + BitVec.ofNat 16 buf.length).toNat = _
    rw [BitVec.toNat_add, BitVec.toNat_ofNat]
    split
    · show (0 + buf.length % 65536) % 65536 = _
      omega
    · omega

/-- A write moves the position, spares the other bytes, and stores the record. -/
theorem inodeWrite_spares (v : Volume) (inode : Inode) (buf : List UInt8)
    (hacc : buf.length + inode.pos.toNat ≤ 102400) (hown : Owned (v, inode))
    (hspace : v.nblocks ≤ 65535 ∨ Room (places inode.pos buf.length) (v, inode)) :
    ∃ w', Moved (v, inode.restart) buf.length w' ∧ Spares (v, inode.restart) buf.length w' ∧
      v.inodeWrite inode buf = (some buf.length, w'.1.inodeSync (w'.2.grow buf.length), w'.2.grow buf.length) := by
  rcases hspace with hfew | hroom
  · have hheld : Writing.Held (v, inode.restart) := ⟨hown.held.test, hown.held.inj⟩
    exact ⟨_, Moved.writeAll _ buf, Spares.writeAll buf hheld hfew, inodeWrite_eq v inode buf hacc⟩
  · obtain ⟨w', hwrote, hwrite⟩ := inodeWrite_spec v inode buf hacc hown hroom
    exact ⟨w', ⟨hwrote.record, hwrote.volume⟩, Spares.of_wrote hwrote, hwrite⟩

/-- **A write does what it should exactly when** its end has 16 bits and it makes a new file, or appends, or is
empty. The inode is one of a file system: its blocks were handed out to it, each once, none of them is the block of
its record, and the blocks of the bitmap, or enough free ones, have numbers of 16 bits. -/
theorem inodeWriteLaw_iff (v : Volume) (inode : Inode) (buf : List UInt8) (hpos : inode.pos ≤ inode.size)
    (hacc : buf.length + inode.pos.toNat ≤ 102400) (hown : Owned (v, inode))
    (hspace : v.nblocks ≤ 65535 ∨ Room (places inode.pos buf.length) (v, inode))
    (hapart : ∀ k, inode.blocks k ≠ 0 → v.dataAddr (inode.blocks k) ≠ v.inodeAddr inode.inode) :
    WriteLaw v inode buf ↔
      inode.pos.toNat + buf.length < 65536 ∧ (inode.pos = 0 ∨ inode.pos = inode.size ∨ buf = []) := by
  have hp := inode.pos.isLt
  have hs := inode.size.isLt
  have hle : inode.pos.toNat ≤ inode.size.toNat := hpos
  obtain ⟨hrpos, hrsize⟩ := inodeWrite_record v hacc
  have hzero : inode.pos = 0 ↔ inode.pos.toNat = 0 := BitVec.toNat_inj.symm
  constructor
  · intro h
    have hlpos := h.pos
    have hlsize := h.size
    rw [hrpos] at hlpos
    rw [hrsize] at hlsize
    refine ⟨by omega, ?_⟩
    by_cases h0 : inode.pos = 0
    · exact .inl h0
    · rw [if_neg h0, if_neg h0] at hlsize
      -- the size counts the overwritten bytes again
      by_cases hempty : buf.length = 0
      · exact .inr (.inr (List.length_eq_zero_iff.mp hempty))
      · exact .inr (.inl (BitVec.eq_of_toNat_eq (by omega)))
  · rintro ⟨hend, hcase⟩
    have hsize : (v.inodeWrite inode buf).2.2.size.toNat =
        if inode.pos = 0 then buf.length else max inode.size.toNat (inode.pos.toNat + buf.length) := by
      rw [hrsize]
      by_cases h0 : inode.pos = 0
      · rw [if_pos h0, if_pos h0]
        omega
      · rw [if_neg h0, if_neg h0]
        rcases hcase with h0' | happend | hempty
        · exact absurd h0' h0
        · rw [happend] at hend ⊢
          omega
        · rw [hempty, List.length_nil]
          omega
    obtain ⟨w', hmoved, hspares, hwrite⟩ := inodeWrite_spares v inode buf hacc hown hspace
    refine ⟨?_, by rw [hrpos]; omega, hsize, fun p hpsize hout hblock => ?_⟩
    · rw [hwrite]
    · rw [hwrite]
      have hkeep := hspares.keep (blockAt p) hblock
      have hdata : w'.1.dataAddr (w'.2.blocks (blockAt p)) = v.dataAddr (inode.blocks (blockAt p)) := by
        rw [hkeep, hmoved.volume]
        rfl
      have hnumber : (w'.2.grow buf.length).inode = inode.inode := by
        show w'.2.inode = inode.inode
        rw [hmoved.record]
        rfl
      have hinode : w'.1.inodeAddr (w'.2.grow buf.length).inode = v.inodeAddr inode.inode := by
        rw [hnumber, hmoved.volume]
        rfl
      have hsync := byteAt_inodeSync w'.1 (w'.2.grow buf.length) (w'.2.grow buf.length) p (by
        rw [hinode]
        show w'.1.dataAddr (w'.2.blocks (blockAt p)) ≠ _
        rw [hdata]
        exact hapart _ hblock)
      rw [hsync]
      refine hspares.bytes p hblock fun x hx heq => ?_
      have hat := congrArg BitVec.toNat heq
      have hxpos : (inode.restart.pos + BitVec.ofNat 16 x).toNat = inode.pos.toNat + x := by
        show (inode.pos + BitVec.ofNat 16 x).toNat = _
        rw [BitVec.toNat_add, BitVec.toNat_ofNat]
        omega
      dsimp only at hat
      omega

end Law

/-- The record of an allocated inode lies in front of its blocks. -/
theorem Simulated.apart {s : Tracked} (h : Simulated s) {p : Pointer} (hp : s.Holds p) (k : BlockIndex)
    (hk : (s.ext.cache p.slot).blocks k ≠ 0) :
    s.ext.volume.dataAddr ((s.ext.cache p.slot).blocks k) ≠ s.ext.volume.inodeAddr (s.ext.cache p.slot).inode := by
  obtain ⟨r, hr⟩ := Option.ne_none_iff_exists'.mp hp.2
  rw [hp.1]
  exact (Nat.ne_of_lt (h.inodeAddr_lt hr hk)).symm

/-- Three bytes stored over the bytes 5 to 7 of a file of 1000: its size becomes 1003. -/
theorem inodeWriteLaw_overwrite :
    ¬ WriteLaw (.createFileSystem 2 404 fun _ _ => 0) { thousand with pos := 5 } [97, 98, 99] := by
  intro h
  have hsize := h.size
  rw [(inodeWrite_record _ (by decide)).2] at hsize
  exact absurd hsize (by decide)

/-- The first write to the first file of a new file system. -/
theorem inodeWriteLaw_iff_first : ∃ s, Run Tracked.Next Tracked.Meets (.create 2 404 fun _ _ => 0)
    [.alloc 1, .get 1, .link ⟨0, 1⟩] s ∧ WriteLaw s.ext.volume (s.ext.cache 0) [97, 98, 99] := by
  obtain ⟨s, hrun, hholds, hpos, hsize, hfew⟩ : ∃ s, Run Tracked.Next Tracked.Meets (.create 2 404 fun _ _ => 0)
      [.alloc 1, .get 1, .link ⟨0, 1⟩] s ∧ s.Holds ⟨0, 1⟩ ∧ (s.ext.cache 0).pos = 0 ∧ (s.ext.cache 0).size = 0 ∧
        s.ext.volume.nblocks ≤ 65535 :=
    ⟨_, .cons (.inr (.inl ⟨0, by decide +kernel, by decide +kernel⟩)) rfl <|
        .cons (.inl ⟨0, by decide +kernel⟩) rfl <|
        .cons ⟨by decide +kernel, Option.isSome_iff_ne_none.mp (by decide +kernel)⟩ rfl <| .nil _,
      ⟨by decide +kernel, Option.isSome_iff_ne_none.mp (by decide +kernel)⟩, by decide +kernel, by decide +kernel,
      by decide +kernel⟩
  have h := simulated_of_run fits_two hrun
  refine ⟨s, hrun, (inodeWriteLaw_iff s.ext.volume (s.ext.cache 0) [97, 98, 99] ?_ ?_ (h.owned hholds) (.inl hfew)
    (h.apart hholds)).mpr ⟨?_, .inl hpos⟩⟩
  · rw [hpos, hsize]
    decide
  · rw [hpos]
    decide
  · rw [hpos]
    decide

end RetrOS.Ext
