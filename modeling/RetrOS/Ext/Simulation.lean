import RetrOS.Ext.Records

/-!
# The cache and the disk are a map from numbers to inodes

* `Simulated` : records, bitmaps, cache and disk agree;
* `Simulated.inodeGet`, `Simulated.alloc`, `Simulated.write`, `Simulated.read`, `Simulated.store_same` : every call
  keeps the agreement (`Simulated.step`), and with it every run does (`simulated_of_run`);
* `trackedRun_isMap` : `inode_get` returns what was last stored, and no inode is in two slots.
-/

namespace RetrOS.Ext
open RetrOS.Lib Writing

/-! ## One call -/

/-- Records, bitmaps, cache and disk agree. -/
structure Simulated (s : Tracked) : Prop where
  table : Table s.ext.volume s.last
  cached : Cached s.ext s.last

namespace Simulated
variable {s t : Tracked}

theorem ne_zero (h : Simulated s) {i : BitVec 16} {r : Inode} (hr : s.last i = some r) : i ≠ 0 :=
  (h.table.number i r hr).1

/-- The record of a slot is the last one stored. -/
theorem holds (h : Simulated s) {p : Pointer} (hp : s.Holds p) :
    ∃ r, s.last p.inode = some r ∧ (s.ext.cache p.slot).SameFile r := by
  obtain ⟨r, hr⟩ := Option.ne_none_iff_exists'.mp hp.2
  obtain ⟨r', hr', hsame⟩ := h.cached.used p.slot (by rw [hp.1]; exact h.ne_zero hr)
  rw [hp.1] at hr'
  exact ⟨r', hr', hsame⟩

/-- `inode_get` returns the last record of an allocated number, or every slot is in use and open. -/
theorem inodeGet (h : Simulated s) {i : BitVec 16} (hok : s.Meets (.get i)) :
    (∃ k e', s.ext.inodeGet i = (some k, e') ∧ Simulated ⟨e', s.last⟩ ∧
      ∀ r, s.last i = some r → (e'.cache k).SameFile r) ∨
    (s.ext.inodeGet i = (none, s.ext) ∧ ∀ k, (s.ext.cache k).type ≠ 0 ∧ (s.ext.cache k).nlink ≠ 0) := by
  obtain ⟨k, hk, hget⟩ | ⟨hout, hget⟩ := s.ext.inodeGet_cases i
  · refine .inl ⟨k, s.ext, hget, h, fun r hr => ?_⟩
    obtain ⟨r', hr', hsame⟩ := h.holds (p := ⟨k, i⟩) ⟨hk, by rw [hr]; exact Option.some_ne_none r⟩
    rw [hr, Option.some_inj] at hr'
    exact hr' ▸ hsame
  · -- the record on the disk is the last one, or blank
    have hrecord : (∃ r, s.last i = some r ∧ (s.ext.diskInode i).SameFile r) ∨ Tracked.Blank (s.ext.diskInode i) := by
      rcases hok with ⟨k, hk⟩ | hlast | hblank
      · exact absurd hk (hout k)
      · obtain ⟨r, hr⟩ := Option.ne_none_iff_exists'.mp hlast
        exact .inl ⟨r, hr, h.cached.stored i r hr hout⟩
      · exact .inr hblank
    have hnumber : ∀ r, s.last i = some r → (s.ext.diskInode i).SameFile r →
        (s.ext.diskInode i).inode = i ∧ (s.ext.diskInode i).type ≠ 0 := fun r hr hsame => by
      rw [hsame.inode, hsame.type]
      exact h.table.record i r hr
    have hvac : (s.ext.diskInode i).type = 0 → (s.ext.diskInode i).inode = 0 := fun ht => by
      rcases hrecord with ⟨r, hr, hsame⟩ | hblank
      · exact absurd ht (hnumber r hr hsame).2
      · exact hblank.2
    have hused : (s.ext.diskInode i).inode ≠ 0 →
        ∃ r, s.last (s.ext.diskInode i).inode = some r ∧ (s.ext.diskInode i).SameFile r := fun hi => by
      rcases hrecord with ⟨r, hr, hsame⟩ | hblank
      · exact ⟨r, by rw [(hnumber r hr hsame).1]; exact hr, hsame⟩
      · exact absurd hblank.2 hi
    have hnew : (s.ext.diskInode i).type ≠ 0 →
        ∀ l, (s.ext.cache l).type ≠ 0 → (s.ext.cache l).inode ≠ (s.ext.diskInode i).inode := fun ht l _ => by
      rcases hrecord with ⟨r, hr, hsame⟩ | hblank
      · rw [(hnumber r hr hsame).1]
        exact hout l
      · exact absurd hblank.1 ht
    obtain ⟨k, e', hins, hself, hgrows, hcached⟩ | ⟨hins, hfull⟩ :=
      h.cached.insert s.last h.table.zero (fun _ _ => rfl) hvac hused hnew
    · refine .inl ⟨k, e', hget.trans hins, ⟨h.table.grows hgrows, hcached⟩, fun r hr => ?_⟩
      rw [hself]
      exact h.cached.stored i r hr hout
    · exact .inr ⟨hget.trans hins, hfull⟩

theorem get (h : Simulated s) {i : BitVec 16} (hok : s.Meets (.get i)) :
    Simulated { s with ext := (s.ext.inodeGet i).2 } := by
  obtain ⟨k, e', hget, he', -⟩ | ⟨hget, -⟩ := h.inodeGet hok
  · rw [hget]
    exact he'
  · rw [hget]
    exact h

/-- A new inode has a number of its own. The number 0 of a full map stays in the cache. -/
theorem alloc (h : Simulated s) {type : UInt8} (hok : s.Meets (.alloc type)) : Simulated (s.alloc type) := by
  unfold Tracked.alloc ExtFs.allocInode
  by_cases hbad : type ≠ fsTypeFile ∧ type ≠ fsTypeDirectory
  · rw [if_pos hbad]
    exact h
  · rw [if_neg hbad]
    have ht : type ≠ 0 := by
      rintro rfl
      exact hbad ⟨by decide, by decide⟩
    have h0 := h.table.zero
    obtain ⟨i, v, hnew, hi0, hi1, hle, hgrows, hdisk, hclear, hset⟩ | ⟨hnew, hfull⟩ :=
      s.ext.volume.newInode_cases h.table.few
    · have hnone : s.last i = none := by
        cases hr : s.last i with
        | none => rfl
        | some r =>
          have hold := (h.table.number i r hr).2.2
          rw [hclear] at hold
          exact absurd hold (by decide)
      have hcached : Cached { s.ext with volume := v } s.last := by
        refine h.cached.of_disk rfl fun j => ?_
        unfold ExtFs.diskInode
        rw [hgrows.inodeAddr_eq, hdisk]
      have hlast : ∀ j, j ≠ (ExtFs.newRecord i type).inode →
          Function.update s.last i (some (ExtFs.newRecord i type)) j = s.last j := fun j hj =>
        Function.update_of_ne hj _ _
      have hnew' : ∀ l, (s.ext.cache l).type ≠ 0 → (s.ext.cache l).inode ≠ i := by
        intro l _ hl
        obtain ⟨r, hr, -⟩ := h.cached.used l (by rwa [hl])
        rw [hl, hnone] at hr
        exact absurd hr (by simp)
      obtain ⟨k, e', hins, -, hgrows', hcached'⟩ | ⟨hins, -⟩ := hcached.insert (r := ExtFs.newRecord i type)
        (Function.update s.last i (some (ExtFs.newRecord i type))) (by rw [Function.update_of_ne hi0.symm, h0]) hlast
        (fun ht' => absurd ht' ht) (fun _ => ⟨_, Function.update_self .., .refl _⟩) (fun _ => hnew')
      · simp only [hnew, hins, hi0, hi1, or_self, if_false]
        exact ⟨(h.table.alloc hgrows hi0 hle hset ht).grows hgrows', hcached'⟩
      · simp only [hnew, hins, true_or, if_true]
        exact ⟨h.table.grows hgrows, hcached⟩
    · have hzero : ∀ k, (s.ext.cache k).type ≠ 0 → (s.ext.cache k).inode ≠ 0 := by
        rcases hok with hbad' | ⟨j, hj, hclear⟩ | hzero
        · exact absurd hbad' hbad
        · rw [hfull j hj] at hclear
          exact absurd hclear (by decide)
        · exact hzero
      obtain ⟨k, e', hins, -, hgrows, hcached⟩ | ⟨hins, -⟩ := h.cached.insert (r := ExtFs.newRecord 0 type) s.last h0
        (fun _ _ => rfl) (fun ht' => absurd ht' ht) (fun h00 => absurd rfl h00) (fun _ => hzero)
      · simp only [hnew, hins, true_or, if_true]
        exact ⟨h.table.grows hgrows, hcached⟩
      · simp only [hnew, hins, true_or, if_true]
        exact h

/-! ### Through a pointer -/

/-- The slot of a pointer gets another record of its inode. -/
theorem store (h : Simulated s) {p : Pointer} (hp : s.Holds p) {e' : ExtFs}
    (hother : ∀ l, l ≠ p.slot → e'.cache l = s.ext.cache l) (hi : (e'.cache p.slot).inode = (s.ext.cache p.slot).inode)
    (ht : (e'.cache p.slot).type = (s.ext.cache p.slot).type) (hgrows : s.ext.volume.Grows e'.volume)
    (hown : Owned (e'.volume, e'.cache p.slot))
    (hfresh : ∀ k, (e'.cache p.slot).blocks k ≠ 0 → (e'.cache p.slot).blocks k = (s.ext.cache p.slot).blocks k ∨
      Bits.test s.ext.volume.blockMap (((e'.cache p.slot).blocks k).toNat - 1) = false)
    (hdisk : ∀ j r, j ≠ p.inode → s.last j = some r → e'.diskInode j = s.ext.diskInode j) :
    Simulated (s.store p e') := by
  obtain ⟨r, hr, hsame⟩ := h.holds hp
  have hi' := hi.trans hp.1
  refine ⟨h.table.update hr hi' ?_ hgrows hown fun k hk => ?_,
    h.cached.modify hr (h.ne_zero hr) hp.1 hother hi' ht hdisk⟩
  · rw [ht, hsame.type]
    exact (h.table.record _ r hr).2
  · rw [← hsame.blocks]
    exact hfresh k hk

/-- The blocks and the volume stay. -/
theorem store_same (h : Simulated s) {p : Pointer} (hp : s.Holds p) {inode : Inode}
    (hi : inode.inode = (s.ext.cache p.slot).inode) (ht : inode.type = (s.ext.cache p.slot).type)
    (hb : inode.blocks = (s.ext.cache p.slot).blocks) : Simulated (s.store p (s.ext.setInode p.slot inode)) := by
  obtain ⟨r, hr, hsame⟩ := h.holds hp
  have hself := s.ext.setInode_self p.slot inode
  refine h.store hp (fun l hl => s.ext.setInode_of_ne inode hl) ?_ ?_ (.refl _) ?_ (fun k _ => .inl ?_)
    fun _ _ _ _ => rfl
  · rw [hself, hi]
  · rw [hself, ht]
  · rw [hself]
    exact (h.table.owned _ r hr).of_blocks (hb.trans hsame.blocks)
  · rw [hself, hb]

theorem owned (h : Simulated s) {p : Pointer} (hp : s.Holds p) : Owned (s.ext.volume, s.ext.cache p.slot) := by
  obtain ⟨r, hr, hsame⟩ := h.holds hp
  exact (h.table.owned _ r hr).of_blocks hsame.blocks

/-- A data block lies behind the inode table. -/
theorem inodeAddr_lt (h : Simulated s) {j : BitVec 16} {r : Inode} (hr : s.last j = some r) {b : BitVec 16}
    (hb : b ≠ 0) :
    s.ext.volume.inodeAddr j < s.ext.volume.dataAddr b := by
  have hle := (h.table.number j r hr).2.1
  have hfew := h.table.few
  have hborder := h.table.border
  have hpos : 0 < b.toNat := Nat.pos_of_ne_zero fun h0 => hb (BitVec.eq_of_toNat_eq h0)
  rw [Volume.inodeAddr_of_lt _ (by omega), Volume.dataAddr]
  omega

theorem write (h : Simulated s) {p : Pointer} {buf : List UInt8} (hok : s.Meets (.write p buf)) :
    Simulated (s.store p (s.ext.inodeWrite p.slot buf).2) := by
  obtain ⟨hp, hroom⟩ := hok
  by_cases hacc : buf.length + (s.ext.cache p.slot).pos.toNat ≤ 102400
  · obtain ⟨⟨v', r'⟩, hwrote, hwrite⟩ :=
      inodeWrite_spec s.ext.volume (s.ext.cache p.slot) buf hacc (h.owned hp) (hroom hacc)
    have hres : (s.ext.inodeWrite p.slot buf).2 =
        { s.ext.setInode p.slot (r'.grow buf.length) with volume := v'.inodeSync (r'.grow buf.length) } := by
      unfold ExtFs.inodeWrite
      rw [hwrite]
    have hself : (s.ext.setInode p.slot (r'.grow buf.length)).cache p.slot = r'.grow buf.length :=
      s.ext.setInode_self ..
    have hrecord := hwrote.record
    have hgrows := Volume.Grows.of_wrote hwrote
    dsimp only at hrecord
    have hnumber : (r'.grow buf.length).inode = (s.ext.cache p.slot).inode := by
      rw [hrecord]
      rfl
    rw [hres]
    refine h.store hp (fun l hl => s.ext.setInode_of_ne _ hl) ?_ ?_ (hgrows.trans (.sync _ _)) ?_ (fun k hk => ?_)
      fun j r hj hr => ?_
    · dsimp only
      rw [hself, hnumber]
    · dsimp only
      rw [hself, hrecord]
      rfl
    · dsimp only
      rw [hself]
      exact (Volume.Grows.sync v' _).owned (hwrote.owned.of_blocks rfl)
    · dsimp only at hk ⊢
      rw [hself] at hk ⊢
      by_cases h0 : (s.ext.cache p.slot).blocks k = 0
      · exact .inr (hwrote.fresh k h0 hk)
      · exact .inl (hwrote.keep k h0)
    · have hne : j ≠ (r'.grow buf.length).inode := by rwa [hnumber, hp.1]
      have hdisk : v'.disk (s.ext.volume.inodeAddr j) = s.ext.volume.disk (s.ext.volume.inodeAddr j) := by
        funext o
        refine hwrote.frame _ o fun x hx hat => ?_
        have hlt := h.inodeAddr_lt hr (hwrote.touched x hx)
        have haddr := hat.1
        rw [hwrote.dataAddr_eq] at haddr
        dsimp only at haddr hlt
        omega
      rw [ExtFs.diskInode_inodeSync_of_ne { s.ext.setInode p.slot (r'.grow buf.length) with volume := v' } hne]
      unfold ExtFs.diskInode
      dsimp only
      rw [hgrows.inodeAddr_eq, hdisk]
  · have hreject := inodeWrite_reject s.ext.volume (Nat.lt_of_not_le hacc)
    have hres : (s.ext.inodeWrite p.slot buf).2 = s.ext.setInode p.slot (s.ext.cache p.slot) := by
      unfold ExtFs.inodeWrite
      rw [hreject]
      rfl
    rw [hres]
    exact h.store_same hp rfl rfl rfl

end Simulated

/-! ## Reading moves the position only -/

theorem readLoop_record (v : Volume) (inode : Inode) (left : Nat) (progress : List UInt8) :
    ∃ pos, (v.readLoop inode left progress).2.1 = { inode with pos := pos } := by
  fun_induction Volume.readLoop v inode left progress with
  | case1 inode left progress _ _ => exact ⟨inode.pos, rfl⟩
  | case2 inode left progress _ _ ih =>
    obtain ⟨pos, hpos⟩ := ih
    exact ⟨pos, hpos⟩
  | case3 inode left progress _ => exact ⟨inode.pos, rfl⟩

theorem inodeRead_record {v : Volume} {inode : Inode} {size : Nat} {out : ReadResult × Inode × List UInt8}
    (h : v.inodeRead inode size = some out) : ∃ pos, out.2.1 = { inode with pos := pos } := by
  unfold Volume.inodeRead at h
  split at h
  · cases h
    exact ⟨inode.pos, rfl⟩
  · split at h
    · cases h
      exact ⟨inode.pos, rfl⟩
    · dsimp only at h
      split at h
      · cases h
      · generalize hstart : (if inode.inBlock ≠ 0 ∧ 512 < inode.inBlock + size then _ else (inode, _, [])) = start at h
        obtain ⟨pos, hpos⟩ : ∃ pos, start.1 = { inode with pos := pos } := by
          rw [← hstart]
          split
          · exact ⟨_, rfl⟩
          · exact ⟨inode.pos, rfl⟩
        obtain ⟨pos', hpos'⟩ := readLoop_record v start.1 start.2.1 start.2.2
        generalize v.readLoop start.1 start.2.1 start.2.2 = loop at h hpos'
        obtain ⟨ok, inode', data⟩ := loop
        rw [hpos] at hpos'
        dsimp only at hpos'
        subst hpos'
        cases ok with
        | false =>
          cases h
          exact ⟨pos', rfl⟩
        | true =>
          cases h
          exact ⟨_, rfl⟩

namespace Simulated
variable {s t : Tracked}

theorem read (h : Simulated s) {p : Pointer} {size : Nat} {out : ReadResult × ExtFs × List UInt8}
    (hp : s.Holds p) (hread : s.ext.inodeRead p.slot size = some out) : Simulated (s.store p out.2.1) := by
  obtain ⟨⟨ret, inode, data⟩, hrecord, rfl⟩ := Option.map_eq_some_iff.mp hread
  obtain ⟨pos, hpos⟩ := inodeRead_record hrecord
  dsimp only at hpos ⊢
  rw [hpos]
  exact h.store_same hp rfl rfl rfl

/-- Every call that meets its condition keeps the agreement. -/
theorem step (h : Simulated s) {a : Action} (hok : s.Meets a) (hstep : s.step a = some t) : Simulated t := by
  cases a with
  | get i =>
    obtain rfl := Option.some_inj.mp hstep
    exact h.get hok
  | alloc type =>
    obtain rfl := Option.some_inj.mp hstep
    exact h.alloc hok
  | write p buf =>
    obtain rfl := Option.some_inj.mp hstep
    exact h.write hok
  | read p size =>
    obtain ⟨out, hread, rfl⟩ := Option.map_eq_some_iff.mp hstep
    exact h.read hok hread
  | seek p pos =>
    obtain rfl := Option.some_inj.mp hstep
    exact h.store_same hok rfl rfl rfl
  | link p =>
    obtain rfl := Option.some_inj.mp hstep
    exact h.store_same hok rfl rfl rfl
  | unlink p =>
    obtain rfl := Option.some_inj.mp hstep
    unfold ExtFs.unlink
    split
    · rw [← s.ext.setInode_cache p.slot]
      exact h.store_same hok rfl rfl rfl
    · exact h.store_same hok rfl rfl rfl

/-- An empty cache above cleared bitmaps. -/
theorem create {fsStart sectors : Nat} (hfits : Fits fsStart sectors) (disk : Nat → Nat → UInt8) :
    Simulated (.create fsStart sectors disk) := by
  have hborder := hfits.border
  refine ⟨⟨?_, hfits.number, ?_, ?_, ?_, ?_⟩, ⟨fun _ _ => rfl, fun _ h => absurd rfl h, fun _ _ h => absurd rfl h, ?_⟩⟩
  · show (BitVec.ofNat 16 (fsStart + 3)).toNat + Volume.ninodesOf fsStart sectors =
      (BitVec.ofNat 16 ((BitVec.ofNat 16 (fsStart + 3)).toNat + Volume.ninodesOf fsStart sectors)).toNat
    rw [BitVec.toNat_ofNat, BitVec.toNat_ofNat]
    omega
  all_goals
    intros
    contradiction

end Simulated

theorem simulated_of_run {fsStart sectors : Nat} (hfits : Fits fsStart sectors) {disk : Nat → Nat → UInt8}
    {as : List Action} {s : Tracked}
    (h : Run Tracked.Next Tracked.Meets (.create fsStart sectors disk) as s) : Simulated s :=
  h.invariant (fun _ _ _ hs hok hstep => hs.step hok hstep) (.create hfits disk)

/-! ## The cache is a map from numbers to inodes -/

/-- `inode_get` of an allocated number returns what was last stored for it, or every slot holds an open inode; no inode
is in two slots. -/
def Tracked.IsMap (s : Tracked) : Prop :=
  (∀ i r, s.last i = some r →
    (∃ k e, s.ext.inodeGet i = (some k, e) ∧ (e.cache k).SameFile r) ∨
    ((s.ext.inodeGet i).1 = none ∧ ∀ k, (s.ext.cache k).type ≠ 0 ∧ (s.ext.cache k).nlink ≠ 0)) ∧
  ∀ k l, (s.ext.cache k).type ≠ 0 → (s.ext.cache l).type ≠ 0 → (s.ext.cache k).inode = (s.ext.cache l).inode → k = l

theorem Simulated.isMap {s : Tracked} (h : Simulated s) : s.IsMap := by
  refine ⟨fun i r hr => ?_, h.cached.distinct⟩
  have hok : s.Meets (.get i) := .inr (.inl (by rw [hr]; exact Option.some_ne_none r))
  obtain ⟨k, e, hget, -, hsame⟩ | ⟨hget, hfull⟩ := h.inodeGet hok
  · exact .inl ⟨k, e, hget, hsame r hr⟩
  · exact .inr ⟨by rw [hget], hfull⟩

/-- The runs whose calls all meet their condition simulate a map from numbers to inodes. -/
theorem trackedRun_isMap {fsStart sectors : Nat} (hfits : Fits fsStart sectors) {disk : Nat → Nat → UInt8}
    {as : List Action} {s : Tracked}
    (h : Run Tracked.Next Tracked.Meets (.create fsStart sectors disk) as s) : s.IsMap :=
  (simulated_of_run hfits h).isMap

/-- A file system with two inodes. -/
theorem fits_two : Fits 2 404 := ⟨by decide, by decide, by decide⟩

theorem trackedRun_isMap_open : ∃ s, Run Tracked.Next Tracked.Meets (.create 2 404 fun _ _ => 0)
    [.alloc 1, .get 1, .link ⟨0, 1⟩, .seek ⟨0, 1⟩ 5, .alloc 2] s ∧ s.IsMap := by
  obtain ⟨s, hrun⟩ : ∃ s, Run Tracked.Next Tracked.Meets (.create 2 404 fun _ _ => 0)
      [.alloc 1, .get 1, .link ⟨0, 1⟩, .seek ⟨0, 1⟩ 5, .alloc 2] s :=
    ⟨_, .cons (.inr (.inl ⟨0, by decide +kernel, by decide +kernel⟩)) rfl <|
      .cons (.inl ⟨0, by decide +kernel⟩) rfl <|
      .cons ⟨by decide +kernel, Option.isSome_iff_ne_none.mp (by decide +kernel)⟩ rfl <|
      .cons ⟨by decide +kernel, Option.isSome_iff_ne_none.mp (by decide +kernel)⟩ rfl <|
      .cons (.inr (.inl ⟨1, by decide +kernel, by decide +kernel⟩)) rfl <| .nil _⟩
  exact ⟨s, hrun, trackedRun_isMap fits_two hrun⟩

/-- An older file system left a record of inode 2 in the table. -/
def leftover (a o : Nat) : UInt8 := if a = 7 ∧ o = 0 then 2 else if a = 7 ∧ o = 2 then 1 else 0

/-- With a full map `alloc_inode` stores inode 0 in the cache, again and again; and a number that was looked up before
it was allocated has two slots. -/
theorem trackedRun_twice :
    (∃ as s, AnyRun Tracked.Next (.create 2 404 fun _ _ => 0) as s ∧ ¬ s.IsMap) ∧
    ∃ as s, AnyRun Tracked.Next (.create 2 404 leftover) as s ∧ ¬ s.IsMap := by
  have htwo : ∀ s : Tracked, ∀ k l, k ≠ l → ((s.ext.cache k).type != 0 && (s.ext.cache l).type != 0 &&
      (s.ext.cache k).inode == (s.ext.cache l).inode) = true → ¬ s.IsMap := by
    intro s k l hkl htwo hmap
    rw [Bool.and_eq_true, Bool.and_eq_true] at htwo
    exact hkl (hmap.2 k l (bne_iff_ne.mp htwo.1.1) (bne_iff_ne.mp htwo.1.2) (eq_of_beq htwo.2))
  have hfull : (exec Tracked.step (.create 2 404 fun _ _ => 0) [.alloc 1, .alloc 1, .alloc 1, .alloc 1]).any
      (fun s => (s.ext.cache 2).type != 0 && (s.ext.cache 3).type != 0 &&
        (s.ext.cache 2).inode == (s.ext.cache 3).inode) = true := by
    decide +kernel
  have hleft : (exec Tracked.step (.create 2 404 leftover) [.alloc 1, .get 2, .alloc 1]).any
      (fun s => (s.ext.cache 1).type != 0 && (s.ext.cache 2).type != 0 &&
        (s.ext.cache 1).inode == (s.ext.cache 2).inode) = true := by
    decide +kernel
  obtain ⟨s, hs, hsame⟩ := (Option.any_eq_true ..).mp hfull
  obtain ⟨s', hs', hsame'⟩ := (Option.any_eq_true ..).mp hleft
  exact ⟨⟨_, s, run_of_exec hs, htwo s 2 3 (by decide) hsame⟩, _, s', run_of_exec hs', htwo s' 1 2 (by decide) hsame'⟩

end RetrOS.Ext
