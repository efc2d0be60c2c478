import RetrOS.Ext.Transfer
import RetrOS.Lib.Run

/-!
# Records of the inodes that are allocated

Calls of `inode_get`, `alloc_inode` and the operations through pointers, with the record last stored for every
number that `alloc_inode` returned.

* `Tracked.step`, `Tracked.Meets` : one call, and the condition on the state before it;
* `Table` : the records and the bitmaps agree, and no block is recorded twice (`Table.update`, `Table.alloc`);
* `Cached` : the cache above the disk holds the records (`Cached.insert`, `Cached.modify`).

`inode_get` of an unknown number reads whatever an older file system left there, and a pointer stays in use after its
inode is evicted. Both are left to the condition.
-/

namespace RetrOS.Ext
open RetrOS.Lib Writing

/-- A pointer into the cache, and the number that it was got for. -/
structure Pointer where
  slot : Slot
  inode : BitVec 16

inductive Action
  | get (i : BitVec 16)
  | alloc (type : UInt8)
  | write (p : Pointer) (buf : List UInt8)
  | read (p : Pointer) (size : Nat)
  | seek (p : Pointer) (pos : BitVec 16)
  | link (p : Pointer)
  | unlink (p : Pointer)

/-- The file system, and what was last stored for the inodes that are allocated. -/
structure Tracked where
  ext : ExtFs
  last : BitVec 16 → Option Inode

namespace Tracked

/-- What is stored through a pointer is the record of its slot. -/
def store (s : Tracked) (p : Pointer) (e : ExtFs) : Tracked :=
  ⟨e, Function.update s.last p.inode (some (e.cache p.slot))⟩

/-- The numbers `0` and `-1` are errors. -/
def alloc (s : Tracked) (type : UInt8) : Tracked :=
  let (i, e) := s.ext.allocInode type
  ⟨e, if i = 0 ∨ i = -1 then s.last else Function.update s.last i (some (ExtFs.newRecord i type))⟩

/-- One call; a `memcpy` of negative length has no result. -/
def step (s : Tracked) : Action → Option Tracked
  | .get i => some { s with ext := (s.ext.inodeGet i).2 }
  | .alloc type => some (s.alloc type)
  | .write p buf => some (s.store p (s.ext.inodeWrite p.slot buf).2)
  | .read p size => (s.ext.inodeRead p.slot size).map fun out => s.store p out.2.1
  | .seek p pos => some (s.store p (s.ext.setPos p.slot pos))
  | .link p => some (s.store p (s.ext.link p.slot))
  | .unlink p => some (s.store p (s.ext.unlink p.slot))

/-- The call `a` takes `s` to `t`. -/
abbrev Next (s : Tracked) (a : Action) (t : Tracked) : Prop := s.step a = some t

/-- Before the first `alloc_inode` of `ext_create_file_system`. -/
def create (fsStart sectors : Nat) (disk : Nat → Nat → UInt8) : Tracked := ⟨.create fsStart sectors disk, fun _ => none⟩

/-- The slot still holds the inode of the pointer. -/
def Holds (s : Tracked) (p : Pointer) : Prop := (s.ext.cache p.slot).inode = p.inode ∧ s.last p.inode ≠ none

/-- There is no inode in the record. -/
def Blank (inode : Inode) : Prop := inode.type = 0 ∧ inode.inode = 0

/-- The condition on a call. -/
def Meets (s : Tracked) : Action → Prop
  | .get i => (∃ k, (s.ext.cache k).inode = i) ∨ s.last i ≠ none ∨ Blank (s.ext.diskInode i)
  | .alloc type => (type ≠ fsTypeFile ∧ type ≠ fsTypeDirectory) ∨
      (∃ j < s.ext.volume.ninodes, Bits.test s.ext.volume.inodeMap j = false) ∨
      ∀ k, (s.ext.cache k).type ≠ 0 → (s.ext.cache k).inode ≠ 0
  | .write p buf => s.Holds p ∧ (buf.length + (s.ext.cache p.slot).pos.toNat ≤ 102400 →
      Room (places (s.ext.cache p.slot).pos buf.length) (s.ext.volume, s.ext.cache p.slot))
  | .read p _ | .seek p _ | .link p | .unlink p => s.Holds p

end Tracked

/-- The inode table fits behind the start, on the disk and in the 16 bits of its borders and numbers. -/
structure Fits (fsStart sectors : Nat) : Prop where
  border : fsStart + 3 + Volume.ninodesOf fsStart sectors < 65536
  inside : fsStart + 3 + Volume.ninodesOf fsStart sectors < sectors
  number : Volume.ninodesOf fsStart sectors < 32768

/-! ## Volumes that grow -/

/-- The maps only get bits. -/
structure Volume.Grows (v v' : Volume) : Prop where
  geometry : v' = { v with inodeMap := v'.inodeMap, blockMap := v'.blockMap, disk := v'.disk }
  inodeMap : ∀ j, Bits.test v.inodeMap j = true → Bits.test v'.inodeMap j = true
  blockMap : ∀ j, Bits.test v.blockMap j = true → Bits.test v'.blockMap j = true

namespace Volume.Grows
variable {v v' v'' : Volume}

theorem refl (v : Volume) : v.Grows v := ⟨rfl, fun _ h => h, fun _ h => h⟩

theorem trans (h : v.Grows v') (h' : v'.Grows v'') : v.Grows v'' :=
  ⟨by rw [h'.geometry, h.geometry], fun j hj => h'.inodeMap j (h.inodeMap j hj),
    fun j hj => h'.blockMap j (h.blockMap j hj)⟩

theorem sync (v : Volume) (inode : Inode) : v.Grows (v.inodeSync inode) := ⟨rfl, fun _ h => h, fun _ h => h⟩

theorem limit_eq (h : v.Grows v') : v'.limit = v.limit := by
  rw [h.geometry]
  rfl

theorem inodeAddr_eq (h : v.Grows v') (i : BitVec 16) : v'.inodeAddr i = v.inodeAddr i := by
  rw [h.geometry]
  rfl

theorem marked (h : v.Grows v') {b : BitVec 16} (hb : v.Marked b) : v'.Marked b :=
  ⟨by rw [h.limit_eq]; exact hb.le_limit, h.blockMap _ hb.test⟩

theorem owned (h : v.Grows v') {inode : Inode} (ho : Owned (v, inode)) : Owned (v', inode) :=
  ⟨fun k hk => h.marked (ho.marked k hk), ho.inj⟩

theorem of_wrote {inode inode' : Inode} {buf : List UInt8} (h : Wrote (v, inode) buf (v', inode')) : v.Grows v' := by
  have hv := h.volume
  dsimp only at hv
  refine ⟨?_, fun j hj => ?_, h.mono⟩
  · rw [hv]
  · rw [hv]
    exact hj

end Volume.Grows

theorem Writing.Owned.of_blocks {v : Volume} {inode inode' : Inode} (h : Owned (v, inode))
    (heq : inode'.blocks = inode.blocks) : Owned (v, inode') :=
  ⟨fun k => by simp only [heq]; exact h.marked k, fun k l => by simp only [heq]; exact h.inj k l⟩

/-- `__new_inode` marks a number that was free, or the map is full. -/
theorem Volume.newInode_cases (v : Volume) (hfew : v.ninodes < 32768) :
    (∃ i v', v.newInode = (i, v') ∧ i ≠ 0 ∧ i ≠ -1 ∧ i.toNat ≤ v.ninodes ∧ v.Grows v' ∧ v'.disk = v.disk ∧
      Bits.test v.inodeMap (i.toNat - 1) = false ∧ Bits.test v'.inodeMap (i.toNat - 1) = true) ∨
    (v.newInode = (0, v) ∧ ∀ j < v.ninodes, Bits.test v.inodeMap j = true) := by
  unfold Volume.newInode
  cases hget : Bitmap.getFreeBitmap v.inodeMap v.ninodes with
  | some out =>
    obtain ⟨j, map⟩ := out
    obtain ⟨hj, hclear, rfl⟩ := Bitmap.getFreeBitmap_some hget
    have hnum : (BitVec.ofNat 16 (j + 1)).toNat = j + 1 := by
      rw [BitVec.toNat_ofNat, Nat.mod_eq_of_lt (by omega)]
    refine .inl ⟨_, _, rfl, fun h0 => ?_, fun h1 => ?_, by omega, ⟨rfl, fun i hi => ?_, fun _ hi => hi⟩, rfl, ?_, ?_⟩
    · rw [h0] at hnum
      exact absurd hnum (by simp)
    · rw [h1] at hnum
      have hall : (-1 : BitVec 16).toNat = 65535 := rfl
      omega
    · rw [Bits.test_set, hi, Bool.or_true]
    · rwa [hnum]
    · rw [hnum, Nat.add_sub_cancel, Bits.test_set_self]
  | none =>
    refine .inr ⟨rfl, fun j hj => ?_⟩
    cases hclear : Bits.test v.inodeMap j with
    | true => rfl
    | false =>
      obtain ⟨i, -, hsome⟩ := Bitmap.getFreeBitmap_of_clear hj hclear
      rw [hget] at hsome
      exact absurd hsome (by simp)

/-! ## The records and the bitmaps -/

/-- Allocated numbers are marked in the map of inodes, and their blocks are apart. -/
structure Table (v : Volume) (last : BitVec 16 → Option Inode) : Prop where
  border : v.inodesStart.toNat + v.ninodes = v.blocksStart.toNat
  few : v.ninodes < 32768
  record : ∀ i r, last i = some r → r.inode = i ∧ r.type ≠ 0
  number : ∀ i r, last i = some r → i ≠ 0 ∧ i.toNat ≤ v.ninodes ∧ Bits.test v.inodeMap (i.toNat - 1) = true
  owned : ∀ i r, last i = some r → Owned (v, r)
  apart : ∀ i j r r' k l, last i = some r → last j = some r' → r.blocks k ≠ 0 → r.blocks k = r'.blocks l → i = j

namespace Table
variable {v v' : Volume} {last : BitVec 16 → Option Inode}

theorem grows (h : Table v last) (hv : v.Grows v') : Table v' last := by
  have hn : v'.ninodes = v.ninodes := by rw [hv.geometry]
  refine ⟨?_, ?_, h.record, fun i r hr => ?_, fun i r hr => hv.owned (h.owned i r hr), h.apart⟩
  · rw [hv.geometry]
    exact h.border
  · rw [hn]
    exact h.few
  · obtain ⟨h0, hle, hset⟩ := h.number i r hr
    exact ⟨h0, by rw [hn]; exact hle, hv.inodeMap _ hset⟩

theorem zero (h : Table v last) : last 0 = none := by
  cases hr : last 0 with
  | none => rfl
  | some r => exact absurd rfl (h.number 0 r hr).1

/-- Another record for `i`, whose blocks are its own or were free. -/
theorem update (h : Table v last) {i : BitVec 16} {r r' : Inode} (hr : last i = some r) (hi : r'.inode = i)
    (ht : r'.type ≠ 0) (hv : v.Grows v') (hown : Owned (v', r'))
    (hfresh : ∀ k, r'.blocks k ≠ 0 → r'.blocks k = r.blocks k ∨
      Bits.test v.blockMap ((r'.blocks k).toNat - 1) = false) :
    Table v' (Function.update last i (some r')) := by
  have hg := h.grows hv
  -- the new record against an old one
  have hother : ∀ j r'' k l, j ≠ i → last j = some r'' → r'.blocks k ≠ 0 → r'.blocks k ≠ r''.blocks l := by
    intro j r'' k l hj hr'' hk heq
    rcases hfresh k hk with hold | hclear
    · exact hj (h.apart i j r r'' k l hr hr'' (hold ▸ hk) (hold ▸ heq)).symm
    · have hset := ((h.owned j r'' hr'').marked l (heq ▸ hk)).test
      dsimp only at hset
      rw [← heq, hclear] at hset
      exact absurd hset (by decide)
  refine ⟨hg.border, hg.few, fun j r'' hr'' => ?_, fun j r'' hr'' => ?_, fun j r'' hr'' => ?_,
    fun j j' r₁ r₂ k l h₁ h₂ hk heq => ?_⟩
  · by_cases hj : j = i
    · subst hj
      rw [Function.update_self, Option.some_inj] at hr''
      exact hr'' ▸ ⟨hi, ht⟩
    · rw [Function.update_of_ne hj] at hr''
      exact h.record j r'' hr''
  · by_cases hj : j = i
    · subst hj
      exact hg.number j r hr
    · rw [Function.update_of_ne hj] at hr''
      exact hg.number j r'' hr''
  · by_cases hj : j = i
    · subst hj
      rw [Function.update_self, Option.some_inj] at hr''
      exact hr'' ▸ hown
    · rw [Function.update_of_ne hj] at hr''
      exact hg.owned j r'' hr''
  · by_cases hj : j = i
    · by_cases hj' : j' = i
      · rw [hj, hj']
      · rw [hj, Function.update_self, Option.some_inj] at h₁
        rw [Function.update_of_ne hj'] at h₂
        exact absurd (h₁ ▸ heq) (hother j' r₂ k l hj' h₂ (h₁ ▸ hk))
    · by_cases hj' : j' = i
      · rw [Function.update_of_ne hj] at h₁
        rw [hj', Function.update_self, Option.some_inj] at h₂
        have hk' : r'.blocks l ≠ 0 := by
          rw [h₂, ← heq]
          exact hk
        exact absurd (h₂ ▸ heq.symm) (hother j r₁ l k hj h₁ hk')
      · rw [Function.update_of_ne hj] at h₁
        rw [Function.update_of_ne hj'] at h₂
        exact h.apart j j' r₁ r₂ k l h₁ h₂ hk heq

/-- A new inode has no blocks. -/
theorem alloc (h : Table v last) {i : BitVec 16} {type : UInt8} (hv : v.Grows v') (h0 : i ≠ 0)
    (hle : i.toNat ≤ v.ninodes) (hset : Bits.test v'.inodeMap (i.toNat - 1) = true) (ht : type ≠ 0) :
    Table v' (Function.update last i (some (ExtFs.newRecord i type))) := by
  have hg := h.grows hv
  have hn : v'.ninodes = v.ninodes := by rw [hv.geometry]
  have hnone : ∀ k, (ExtFs.newRecord i type).blocks k = 0 := fun _ => rfl
  have hcases : ∀ j r, Function.update last i (some (ExtFs.newRecord i type)) j = some r →
      (j = i ∧ r = ExtFs.newRecord i type) ∨ last j = some r := by
    intro j r hr
    by_cases hj : j = i
    · rw [hj, Function.update_self, Option.some_inj] at hr
      exact .inl ⟨hj, hr.symm⟩
    · rw [Function.update_of_ne hj] at hr
      exact .inr hr
  refine ⟨hg.border, hg.few, fun j r hr => ?_, fun j r hr => ?_, fun j r hr => ?_,
    fun j j' r r' k l hr hr' hk heq => ?_⟩
  · obtain ⟨rfl, rfl⟩ | hold := hcases j r hr
    · exact ⟨rfl, ht⟩
    · exact h.record j r hold
  · obtain ⟨rfl, rfl⟩ | hold := hcases j r hr
    · exact ⟨h0, by rw [hn]; exact hle, hset⟩
    · exact hg.number j r hold
  · obtain ⟨rfl, rfl⟩ | hold := hcases j r hr
    · exact ⟨fun k hk => absurd (hnone k) hk, fun k _ hk => absurd (hnone k) hk⟩
    · exact hg.owned j r hold
  · obtain ⟨rfl, rfl⟩ | hold := hcases j r hr
    · exact absurd (hnone k) hk
    · obtain ⟨rfl, rfl⟩ | hold' := hcases j' r' hr'
      · exact absurd (heq.trans (hnone l)) hk
      · exact h.apart j j' r r' k l hold hold' hk heq

end Table

/-! ## The cache above the disk -/

/-- Slots in use hold the last records, each number once; what is not in the cache is on the disk. -/
structure Cached (e : ExtFs) (last : BitVec 16 → Option Inode) : Prop where
  vacant : ∀ k, (e.cache k).type = 0 → (e.cache k).inode = 0
  used : ∀ k, (e.cache k).inode ≠ 0 → ∃ r, last (e.cache k).inode = some r ∧ (e.cache k).SameFile r
  distinct : ∀ k l, (e.cache k).type ≠ 0 → (e.cache l).type ≠ 0 → (e.cache k).inode = (e.cache l).inode → k = l
  stored : ∀ i r, last i = some r → (∀ k, (e.cache k).inode ≠ i) → (e.diskInode i).SameFile r

namespace Cached
variable {e e' : ExtFs} {last : BitVec 16 → Option Inode}

theorem of_disk (h : Cached e last) (hcache : e'.cache = e.cache) (hdisk : ∀ i, e'.diskInode i = e.diskInode i) :
    Cached e' last := by
  refine ⟨?_, ?_, ?_, fun i r hr hout => ?_⟩
  · rw [hcache]
    exact h.vacant
  · rw [hcache]
    exact h.used
  · rw [hcache]
    exact h.distinct
  · rw [hdisk]
    exact h.stored i r hr fun k => by rw [← hcache]; exact hout k

/-- A record replaces a free slot, or one that is synchronized first. -/
theorem place {last' : BitVec 16 → Option Inode} (h : Cached e last) {r : Inode} {k : Slot} (h0 : last' 0 = none)
    (hlast : ∀ j, j ≠ r.inode → last' j = last j)
    (hvac : r.type = 0 → r.inode = 0) (hused : r.inode ≠ 0 → ∃ r', last' r.inode = some r' ∧ r.SameFile r')
    (hnew : r.type ≠ 0 → ∀ l, (e.cache l).type ≠ 0 → (e.cache l).inode ≠ r.inode)
    (hcache : e'.cache = Function.update e.cache k r)
    (hdisk : ((e.cache k).type = 0 ∧ e'.volume = e.volume) ∨ e'.volume = e.volume.inodeSync (e.cache k)) :
    Cached e' last' := by
  have hself : e'.cache k = r := by rw [hcache, Function.update_self]
  have hother : ∀ l, l ≠ k → e'.cache l = e.cache l := fun l hl => by rw [hcache, Function.update_of_ne hl]
  have hne0 : ∀ l, (e.cache l).inode ≠ 0 → (e.cache l).type ≠ 0 := fun l hl ht => hl (h.vacant l ht)
  refine ⟨fun l ht => ?_, fun l hl => ?_, fun l m hl hm heq => ?_, fun i r' hr' hout => ?_⟩
  · by_cases hlk : l = k
    · rw [hlk, hself] at ht ⊢
      exact hvac ht
    · rw [hother l hlk] at ht ⊢
      exact h.vacant l ht
  · by_cases hlk : l = k
    · rw [hlk, hself] at hl ⊢
      exact hused hl
    · rw [hother l hlk] at hl ⊢
      have hne : (e.cache l).inode ≠ r.inode := by
        by_cases ht : r.type = 0
        · rwa [hvac ht]
        · exact hnew ht l (hne0 l hl)
      rw [hlast _ hne]
      exact h.used l hl
  · by_cases hlk : l = k
    · by_cases hmk : m = k
      · rw [hlk, hmk]
      · rw [hlk, hself] at hl heq
        rw [hother m hmk] at hm heq
        exact absurd heq.symm (hnew hl m hm)
    · by_cases hmk : m = k
      · rw [hmk, hself] at hm heq
        rw [hother l hlk] at hl heq
        exact absurd heq (hnew hm l hl)
      · rw [hother l hlk] at hl heq
        rw [hother m hmk] at hm heq
        exact h.distinct l m hl hm heq
  · have hi : i ≠ r.inode := fun hi => hout k (by rw [hself, hi])
    have hi0 : i ≠ 0 := by
      rintro rfl
      rw [h0] at hr'
      exact absurd hr' (by simp)
    rw [hlast i hi] at hr'
    have he' : e'.diskInode i = { e with volume := e'.volume }.diskInode i := rfl
    by_cases hk : (e.cache k).inode = i
    · -- the evicted inode is on the disk now
      rcases hdisk with ⟨hfree, -⟩ | hsync
      · exact absurd hfree (hne0 k (by rwa [hk]))
      · obtain ⟨r'', hr'', hsame⟩ := h.used k (by rwa [hk])
        rw [hk, hr', Option.some_inj] at hr''
        subst hr''
        rw [he', hsync, ← hk, ExtFs.diskInode_inodeSync]
        exact ⟨hsame.inode, hsame.type, hsame.size, hsame.blocks, hsame.pos⟩
    · have hout' : ∀ l, (e.cache l).inode ≠ i := by
        intro l
        by_cases hlk : l = k
        · rwa [hlk]
        · rw [← hother l hlk]
          exact hout l
      rcases hdisk with ⟨-, hsame⟩ | hsync
      · rw [he', hsame]
        exact h.stored i r' hr' hout'
      · rw [he', hsync, ExtFs.diskInode_inodeSync_of_ne e (Ne.symm hk)]
        exact h.stored i r' hr' hout'

/-- `__inode_cache_insert` finds a place for the record, or every slot is in use and open. -/
theorem insert (last' : BitVec 16 → Option Inode) (h : Cached e last) {r : Inode} (h0 : last' 0 = none)
    (hlast : ∀ j, j ≠ r.inode → last' j = last j)
    (hvac : r.type = 0 → r.inode = 0) (hused : r.inode ≠ 0 → ∃ r', last' r.inode = some r' ∧ r.SameFile r')
    (hnew : r.type ≠ 0 → ∀ l, (e.cache l).type ≠ 0 → (e.cache l).inode ≠ r.inode) :
    (∃ k e', e.inodeCacheInsert r = (some k, e') ∧ e'.cache k = r ∧ e.volume.Grows e'.volume ∧ Cached e' last') ∨
    (e.inodeCacheInsert r = (none, e) ∧ ∀ k, (e.cache k).type ≠ 0 ∧ (e.cache k).nlink ≠ 0) := by
  obtain ⟨k, hfree, hins⟩ | ⟨k, -, -, hins⟩ | ⟨hfull, hins⟩ := e.inodeCacheInsert_cases r
  · exact .inl ⟨k, _, hins, ExtFs.setInode_self .., .refl _,
      h.place h0 hlast hvac hused hnew rfl (.inl ⟨hfree, rfl⟩)⟩
  · exact .inl ⟨k, _, hins, ExtFs.setInode_self .., .sync _ _, h.place h0 hlast hvac hused hnew rfl (.inr rfl)⟩
  · exact .inr ⟨hins, hfull⟩

/-- Another record in the slot of `i`. -/
theorem modify (h : Cached e last) {i : BitVec 16} {k : Slot} {r : Inode} (hr : last i = some r) (h0 : i ≠ 0)
    (hk : (e.cache k).inode = i) (hother : ∀ l, l ≠ k → e'.cache l = e.cache l) (hi : (e'.cache k).inode = i)
    (ht : (e'.cache k).type = (e.cache k).type)
    (hdisk : ∀ j r', j ≠ i → last j = some r' → e'.diskInode j = e.diskInode j) :
    Cached e' (Function.update last i (some (e'.cache k))) := by
  have htype : (e.cache k).type ≠ 0 := fun ht => h0 (hk ▸ h.vacant k ht)
  have hnumber : ∀ l, (e'.cache l).inode = (e.cache l).inode := by
    intro l
    by_cases hlk : l = k
    · rw [hlk, hi, hk]
    · rw [hother l hlk]
  have htypes : ∀ l, (e'.cache l).type = (e.cache l).type := by
    intro l
    by_cases hlk : l = k
    · rw [hlk, ht]
    · rw [hother l hlk]
  refine ⟨fun l hl => ?_, fun l hl => ?_, fun l m hl hm heq => ?_, fun j r' hr' hout => ?_⟩
  · rw [hnumber]
    exact h.vacant l (by rwa [← htypes])
  · by_cases hlk : l = k
    · rw [hlk, hi, Function.update_self]
      exact ⟨_, rfl, .refl _⟩
    · have hne : (e.cache l).inode ≠ i := by
        intro heq
        rw [hnumber] at hl
        have htl : (e.cache l).type ≠ 0 := fun ht => hl (h.vacant l ht)
        exact hlk (h.distinct l k htl htype (heq.trans hk.symm))
      rw [hother l hlk] at hl ⊢
      rw [Function.update_of_ne hne]
      exact h.used l hl
  · rw [htypes] at hl hm
    rw [hnumber, hnumber] at heq
    exact h.distinct l m hl hm heq
  · have hj : j ≠ i := by
      rintro rfl
      exact hout k hi
    rw [Function.update_of_ne hj] at hr'
    rw [hdisk j r' hj hr']
    exact h.stored j r' hr' fun l => by rw [← hnumber]; exact hout l

end Cached

end RetrOS.Ext
