import RetrOS.Ext.Simulation

/-!
# The blocks of the inodes

* `ExtFs.record` : the record of an inode, in the cache or on the disk;
* `BlocksApart` : recorded blocks are distinct, behind the last inode and on the disk;
* `WritesGetBlocks` : every byte of a write goes to a recorded block, or the write is rejected;
* `trackedRun_blocks` : both hold in every run whose calls meet their condition.

`__new_block` turns the sentinel of a full map into block 0, which is the block of the last inode.
-/

namespace RetrOS.Ext
open RetrOS.Lib Writing

/-- The record of inode `i`: a slot has it, or the disk. -/
def ExtFs.record (e : ExtFs) (i : BitVec 16) : Inode :=
  match Fin.find? fun k => (e.cache k).inode == i with
  | some k => e.cache k
  | none => e.diskInode i

namespace Tracked

/-- Blocks that are recorded in allocated inodes. -/
structure BlocksApart (s : Tracked) : Prop where
  distinct : ∀ i j k l, s.last i ≠ none → s.last j ≠ none → (s.ext.record i).blocks k ≠ 0 →
    (s.ext.record i).blocks k = (s.ext.record j).blocks l → i = j ∧ k = l
  behind : ∀ i k, s.last i ≠ none → (s.ext.record i).blocks k ≠ 0 →
    s.ext.volume.inodesStart.toNat + s.ext.volume.ninodes < s.ext.volume.dataAddr ((s.ext.record i).blocks k)
  inside : ∀ i k, s.last i ≠ none → (s.ext.record i).blocks k ≠ 0 →
    s.ext.volume.dataAddr ((s.ext.record i).blocks k) < s.ext.volume.sectors

/-- A write is rejected and changes nothing, or every byte has a block. -/
def WriteGetsBlocks (s : Tracked) (p : Pointer) (buf : List UInt8) : Prop :=
  s.ext.inodeWrite p.slot buf = (none, s.ext) ∨
    ∀ x < buf.length, ((s.ext.inodeWrite p.slot buf).2.cache p.slot).blocks
      (blockAt ((s.ext.cache p.slot).pos + BitVec.ofNat 16 x)) ≠ 0

end Tracked

namespace Simulated
variable {s : Tracked}

/-- The record that is found is the last one stored. -/
theorem record_sameFile (h : Simulated s) {i : BitVec 16} {r : Inode} (hr : s.last i = some r) :
    (s.ext.record i).SameFile r := by
  unfold ExtFs.record
  cases hfind : Fin.find? fun k => (s.ext.cache k).inode == i with
  | some k =>
    have hk : (s.ext.cache k).inode = i := eq_of_beq (Fin.find?_eq_some_iff.mp hfind).1
    obtain ⟨r', hr', hsame⟩ := h.holds (p := ⟨k, i⟩) ⟨hk, by rw [hr]; exact Option.some_ne_none r⟩
    rw [hr, Option.some_inj] at hr'
    exact hr' ▸ hsame
  | none =>
    have hnone := Fin.find?_eq_none_iff.mp hfind
    exact h.cached.stored i r hr fun k => ne_of_beq_false (hnone k)

theorem blocksApart (h : Simulated s) : s.BlocksApart := by
  have hlast : ∀ i, s.last i ≠ none → ∃ r, s.last i = some r ∧ (s.ext.record i).blocks = r.blocks := by
    intro i hi
    obtain ⟨r, hr⟩ := Option.ne_none_iff_exists'.mp hi
    exact ⟨r, hr, (h.record_sameFile hr).blocks⟩
  refine ⟨fun i j k l hi hj hk heq => ?_, fun i k hi hk => ?_, fun i k hi hk => ?_⟩
  · obtain ⟨r, hr, hb⟩ := hlast i hi
    obtain ⟨r', hr', hb'⟩ := hlast j hj
    rw [hb] at hk heq
    rw [hb'] at heq
    obtain rfl := h.table.apart i j r r' k l hr hr' hk heq
    rw [hr, Option.some_inj] at hr'
    subst hr'
    exact ⟨rfl, (h.table.owned i r hr).inj k l hk heq⟩
  · have hborder := h.table.border
    have hpos : 0 < ((s.ext.record i).blocks k).toNat := Nat.pos_of_ne_zero fun h0 => hk (BitVec.eq_of_toNat_eq h0)
    rw [Volume.dataAddr]
    omega
  · obtain ⟨r, hr, hb⟩ := hlast i hi
    rw [hb] at hk ⊢
    have hle := ((h.table.owned i r hr).marked k hk).le_limit
    have hlimit : s.ext.volume.limit ≤ s.ext.volume.sectors - 1 - s.ext.volume.blocksStart.toNat := min_le_right _ _
    have hpos : 0 < (r.blocks k).toNat := Nat.pos_of_ne_zero fun h0 => hk (BitVec.eq_of_toNat_eq h0)
    rw [Volume.dataAddr]
    dsimp only at hle
    omega

theorem writeGetsBlocks (h : Simulated s) {p : Pointer} {buf : List UInt8} (hok : s.Meets (.write p buf)) :
    s.WriteGetsBlocks p buf := by
  obtain ⟨hp, hroom⟩ := hok
  by_cases hacc : buf.length + (s.ext.cache p.slot).pos.toNat ≤ 102400
  · obtain ⟨⟨v', r'⟩, hwrote, hwrite⟩ :=
      inodeWrite_spec s.ext.volume (s.ext.cache p.slot) buf hacc (h.owned hp) (hroom hacc)
    refine .inr fun x hx => ?_
    have hself : ((s.ext.inodeWrite p.slot buf).2.cache p.slot) = r'.grow buf.length := by
      unfold ExtFs.inodeWrite
      rw [hwrite]
      exact s.ext.setInode_self ..
    rw [hself]
    exact hwrote.touched x hx
  · refine .inl ?_
    unfold ExtFs.inodeWrite
    rw [inodeWrite_reject s.ext.volume (Nat.lt_of_not_le hacc)]
    exact congrArg (Prod.mk none) (s.ext.setInode_cache p.slot)

end Simulated

/-- In the runs whose calls all meet their condition the blocks of the inodes are distinct, behind the last inode and
on the disk, and every write gets its blocks. -/
theorem trackedRun_blocks {fsStart sectors : Nat} (hfits : Fits fsStart sectors) {disk : Nat → Nat → UInt8}
    {as : List Action} {s : Tracked} (h : Run Tracked.Next Tracked.Meets (.create fsStart sectors disk) as s) :
    s.BlocksApart ∧ ∀ p buf, s.Meets (.write p buf) → s.WriteGetsBlocks p buf :=
  have hs := simulated_of_run hfits h
  ⟨hs.blocksApart, fun _ _ hok => hs.writeGetsBlocks hok⟩

theorem trackedRun_blocks_write : ∃ s, Run Tracked.Next Tracked.Meets (.create 2 404 fun _ _ => 0)
    [.alloc 1, .get 1, .link ⟨0, 1⟩, .write ⟨0, 1⟩ [65, 66]] s ∧
    s.BlocksApart ∧ ∀ p buf, s.Meets (.write p buf) → s.WriteGetsBlocks p buf := by
  obtain ⟨s, hrun⟩ : ∃ s, Run Tracked.Next Tracked.Meets (.create 2 404 fun _ _ => 0)
      [.alloc 1, .get 1, .link ⟨0, 1⟩, .write ⟨0, 1⟩ [65, 66]] s :=
    ⟨_, .cons (.inr (.inl ⟨0, by decide +kernel, by decide +kernel⟩)) rfl <|
      .cons (.inl ⟨0, by decide +kernel⟩) rfl <|
      .cons ⟨by decide +kernel, Option.isSome_iff_ne_none.mp (by decide +kernel)⟩ rfl <|
      .cons ⟨⟨by decide +kernel, Option.isSome_iff_ne_none.mp (by decide +kernel)⟩,
        fun _ => room_of_card _ (by decide +kernel)⟩ rfl <| .nil _⟩
  exact ⟨s, hrun, trackedRun_blocks fits_two hrun⟩

/-- On a disk without room for an inode the root directory is inode 0, and a write to it takes block 0, the block of the
last inode, and succeeds. -/
theorem trackedRun_no_block : ∃ as s, AnyRun Tracked.Next (.create 2 100 fun _ _ => 0) as s ∧
    s.ext.volume.nblocks = 0 ∧ (s.ext.inodeGet 0).1 = some 0 ∧ (s.ext.inodeWrite 0 [65]).1 = some 1 ∧
    ¬ s.WriteGetsBlocks ⟨0, 0⟩ [65] := by
  have hrun : (exec Tracked.step (.create 2 100 fun _ _ => 0) [.alloc 2, .get 0, .link ⟨0, 0⟩]).any
      (fun s => s.ext.volume.nblocks == 0 && (s.ext.inodeGet 0).1 == some 0 &&
        (s.ext.inodeWrite 0 [65]).1 == some 1 &&
        ((s.ext.inodeWrite 0 [65]).2.cache 0).blocks (blockAt ((s.ext.cache 0).pos + BitVec.ofNat 16 0)) == 0) =
      true := by
    decide +kernel
  obtain ⟨s, hs, hend⟩ := (Option.any_eq_true ..).mp hrun
  rw [Bool.and_eq_true, Bool.and_eq_true, Bool.and_eq_true] at hend
  obtain ⟨⟨⟨hn, hget⟩, hret⟩, hblock⟩ := hend
  refine ⟨_, s, run_of_exec hs, eq_of_beq hn, eq_of_beq hget, eq_of_beq hret, ?_⟩
  rintro (hreject | hblocks)
  · rw [hreject] at hret
    exact absurd (eq_of_beq hret) (by simp)
  · exact hblocks 0 (by decide) (eq_of_beq hblock)

end RetrOS.Ext
