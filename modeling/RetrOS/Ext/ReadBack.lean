import RetrOS.Ext.Blocks

/-!
# A file that is written reads back

* `readLoop_content`, `inodeRead_content` : what a read from the start copies;
* `WriteReads` : a write, a seek to the start, a read of the same length and the size;
* `trackedRun_writeReads_iff` : all of it works for lengths below 65536.

The size of an inode has 16 bits, `MAX_FILE_SIZE` is 102400.
-/

namespace RetrOS.Ext
open RetrOS.Lib Writing

/-! ## Reading -/

section Read
variable {v : Volume} {inode : Inode} {data : List UInt8}

theorem byteAt_setPos (v : Volume) (inode : Inode) (p q : BitVec 16) :
    byteAt (v, { inode with pos := p }) q = byteAt (v, inode) q := rfl

/-- A record is not stored over the byte. -/
theorem byteAt_inodeSync (v : Volume) (inode r : Inode) (p : BitVec 16)
    (h : v.dataAddr (r.blocks (blockAt p)) ≠ v.inodeAddr inode.inode) :
    byteAt (v.inodeSync inode, r) p = byteAt (v, r) p := by
  unfold byteAt
  exact congrFun (Function.update_of_ne h _ _) _

/-- A piece inside the block of the position. -/
theorem readBlockOffset_content (v : Volume) (data : List UInt8) (hlen : inode.inBlock + data.length ≤ 512)
    (hbyte : ∀ x (h : x < data.length), byteAt (v, inode) (inode.pos + BitVec.ofNat 16 x) = data[x]) :
    v.readBlockOffset data.length inode.inBlock (v.dataAddr (inode.blocks inode.block)) = data := by
  refine List.ext_getElem (Slice.length_read ..) fun x h1 h2 => ?_
  have hin : inode.pos.toNat % 512 + x < 512 := by
    have hlen' : inode.pos.toNat % 512 + data.length ≤ 512 := hlen
    omega
  have hx := hbyte x h2
  rw [byteAt, blockAt_add hin, offset_add hin] at hx
  rw [← hx]
  exact Slice.getElem_read ..

theorem readLoop_content (v : Volume) (inode : Inode) (left : Nat) (progress data : List UInt8)
    (hlen : data.length = left) (hfit : inode.inBlock = 0 ∨ inode.inBlock + left ≤ 512)
    (hblocks : ∀ x < left, inode.blocks (blockAt (inode.pos + BitVec.ofNat 16 x)) ≠ 0)
    (hbyte : ∀ x (h : x < data.length), byteAt (v, inode) (inode.pos + BitVec.ofNat 16 x) = data[x]) :
    ∃ inode', v.readLoop inode left progress = (true, inode', progress ++ data) := by
  fun_induction Volume.readLoop v inode left progress generalizing data with
  | case1 inode left progress hlt hzero =>
    have hne := hblocks 0 (by omega)
    rw [BitVec.add_zero] at hne
    exact absurd hzero hne
  | case2 inode left progress hlt hzero ih =>
    have hin : inode.inBlock = 0 := by omega
    have htake : (data.take 512).length = 512 := List.length_take_of_le (by omega)
    have hpiece : v.readBlockOffset 512 0 (v.dataAddr (inode.blocks inode.block)) = data.take 512 := by
      have hread := readBlockOffset_content v (data.take 512) (by rw [hin, htake]) fun x hx => by
        rw [hbyte x (by rw [htake] at hx; omega), List.getElem_take]
      rwa [htake, hin] at hread
    have hpos : inode.pos + 512 = inode.pos + BitVec.ofNat 16 512 := rfl
    have hin' : Inode.inBlock { inode with pos := inode.pos + 512 } = 0 := by
      have hmod : inode.pos.toNat % 512 = 0 := hin
      have hp := inode.pos.isLt
      show (inode.pos + 512).toNat % 512 = 0
      rw [hpos, BitVec.toNat_add, BitVec.toNat_ofNat]
      omega
    obtain ⟨inode', hrest⟩ := ih (data.drop 512) (by rw [List.length_drop, hlen]) (.inl hin')
      (fun x hx => by
        dsimp only
        rw [hpos, pos_add]
        exact hblocks _ (by omega))
      (fun x hx => by
        rw [List.length_drop] at hx
        rw [byteAt_setPos, hpos, pos_add, List.getElem_drop]
        exact hbyte (512 + x) (by omega))
    rw [hpiece] at hrest
    refine ⟨inode', ?_⟩
    rw [hpiece, hrest, List.append_assoc, List.take_append_drop]
  | case3 inode left progress hle =>
    refine ⟨inode, ?_⟩
    rw [← hlen, readBlockOffset_content v data (by omega) hbyte]

/-- A read of the whole file from its start. -/
theorem inodeRead_content (v : Volume) (inode : Inode) (hpos : inode.pos = 0)
    (hsize : inode.size.toNat = data.length) (hne : data ≠ [])
    (hblocks : ∀ x < data.length, inode.blocks (blockAt (BitVec.ofNat 16 x)) ≠ 0)
    (hbyte : ∀ x (h : x < data.length), byteAt (v, inode) (BitVec.ofNat 16 x) = data[x]) :
    ∃ inode', v.inodeRead inode data.length = some (.bytes data.length, inode', data) := by
  have hlt := inode.size.isLt
  have hlen := List.length_pos_of_ne_nil hne
  have hin : inode.inBlock = 0 := by
    rw [Inode.inBlock, hpos]
    rfl
  have hstart : ¬ inode.size ≤ inode.pos := by
    rw [hpos, BitVec.le_def, hsize]
    exact Nat.not_le_of_lt hlen
  obtain ⟨inode', hloop⟩ := readLoop_content v inode data.length [] data rfl (.inl hin)
    (by rw [hpos]; simpa using hblocks) (by rw [hpos]; simpa using hbyte)
  have hpart : ¬ (inode.inBlock ≠ 0 ∧ 512 < inode.inBlock + data.length) := fun h => h.1 hin
  unfold Volume.inodeRead
  rw [if_neg hstart, if_neg (by omega)]
  dsimp only
  rw [if_neg (fun h => hpart h.1), if_neg hpart, hsize, Nat.min_self]
  dsimp only
  rw [hloop]
  exact ⟨_, rfl⟩

end Read

/-! ## By number -/

/-- Slot `k`, and no other, has inode `i`. -/
def ExtFs.Only (e : ExtFs) (i : BitVec 16) (k : Slot) : Prop :=
  (e.cache k).inode = i ∧ ∀ l, (e.cache l).inode = i → l = k

namespace ExtFs
variable {e : ExtFs} {i : BitVec 16} {k : Slot}

theorem Only.inodeGet (h : e.Only i k) : e.inodeGet i = (some k, e) := by
  obtain ⟨l, hl, hget⟩ | ⟨hout, -⟩ := e.inodeGet_cases i
  · rw [hget, h.2 l hl]
  · exact absurd h.1 (hout k)

/-- Another record of the same inode in the slot. -/
theorem Only.of_cache (h : e.Only i k) {e' : ExtFs} {inode : Inode}
    (hcache : e'.cache = Function.update e.cache k inode) (hi : inode.inode = i) : e'.Only i k := by
  refine ⟨by rw [hcache, Function.update_self, hi], fun l hl => ?_⟩
  by_cases hlk : l = k
  · exact hlk
  · rw [hcache, Function.update_of_ne hlk] at hl
    exact h.2 l hl

/-- A write of `data`, a seek to the start and a read of that length: the results are the length and the data, and the
size is the length. -/
def WriteReads (e : ExtFs) (i : BitVec 16) (data : List UInt8) : Prop :=
  (e.extWrite i data).1 = .ok data.length ∧
  ((e.extWrite i data).2.extSeek i 0).1 = .ok () ∧
  ∃ e', ((e.extWrite i data).2.extSeek i 0).2.extRead i data.length = some (.ok (.bytes data.length), e', data) ∧
    (e'.extSize i).1 = .ok data.length

/-- The size of a file has 16 bits. -/
theorem extSize_lt {n : Nat} (h : (e.extSize i).1 = .ok n) : n < 65536 := by
  unfold extSize at h
  split at h
  · cases h
  · next k e' _ =>
    have hn : (e'.cache k).size.toNat = n := Except.ok.inj h
    have hlt := (e'.cache k).size.isLt
    omega

theorem WriteReads.length_lt {data : List UInt8} (h : e.WriteReads i data) : data.length < 65536 := by
  obtain ⟨-, -, _, -, hsize⟩ := h
  exact extSize_lt hsize

end ExtFs

namespace Tracked

/-- Inode `i` is allocated and open. -/
def IsOpen (s : Tracked) (i : BitVec 16) : Prop :=
  s.last i ≠ none ∧ ∃ k, (s.ext.cache k).inode = i ∧ (s.ext.cache k).nlink ≠ 0

/-- There are blocks for `n` bytes from the start of inode `i`. -/
def HasBlocks (s : Tracked) (i : BitVec 16) (n : Nat) : Prop := Room (places 0 n) (s.ext.volume, s.ext.record i)

end Tracked

namespace Simulated
variable {s : Tracked}

/-- Where an open inode is. -/
theorem only (h : Simulated s) {i : BitVec 16} (hopen : s.IsOpen i) :
    ∃ k, s.ext.Only i k ∧ (s.ext.cache k).nlink ≠ 0 ∧ s.Holds ⟨k, i⟩ ∧ s.ext.record i = s.ext.cache k := by
  obtain ⟨hlast, k, hk, hlink⟩ := hopen
  obtain ⟨r, hr⟩ := Option.ne_none_iff_exists'.mp hlast
  have h0 := h.ne_zero hr
  have htype : ∀ l, (s.ext.cache l).inode = i → (s.ext.cache l).type ≠ 0 := fun l hl ht =>
    h0 (hl ▸ h.cached.vacant l ht)
  have honly : ∀ l, (s.ext.cache l).inode = i → l = k := fun l hl =>
    h.cached.distinct l k (htype l hl) (htype k hk) (hl.trans hk.symm)
  refine ⟨k, ⟨hk, honly⟩, hlink, ⟨hk, hlast⟩, ?_⟩
  unfold ExtFs.record
  cases hfind : Fin.find? fun l => (s.ext.cache l).inode == i with
  | some l =>
    have hl : (s.ext.cache l).inode = i := eq_of_beq (Fin.find?_eq_some_iff.mp hfind).1
    rw [honly l hl]
  | none =>
    have hnone := Fin.find?_eq_none_iff.mp hfind
    exact absurd hk (ne_of_beq_false (hnone k))

/-- What `ext_write` leaves in the slot and on the disk. -/
theorem extWrite_spec (h : Simulated s) {i : BitVec 16} {k : Slot} (honly : s.ext.Only i k)
    (hlink : (s.ext.cache k).nlink ≠ 0) (hp : s.Holds ⟨k, i⟩) {data : List UInt8} (hlen : data.length < 65536)
    (hroom : Room (places 0 data.length) (s.ext.volume, s.ext.cache k)) :
    ∃ e, s.ext.extWrite i data = (.ok data.length, e) ∧ e.Only i k ∧ (e.cache k).nlink ≠ 0 ∧
      (e.cache k).size.toNat = data.length ∧
      (∀ x < data.length, (e.cache k).blocks (blockAt (BitVec.ofNat 16 x)) ≠ 0) ∧
      ∀ x (hx : x < data.length), byteAt (e.volume, e.cache k) (BitVec.ofNat 16 x) = data[x] := by
  have hself : (s.ext.setPos k 0).cache k = { s.ext.cache k with pos := 0 } := s.ext.setInode_self ..
  have honly0 : (s.ext.setPos k 0).Only i k := honly.of_cache rfl honly.1
  obtain ⟨⟨v', r'⟩, hwrote, hwrite⟩ := inodeWrite_spec s.ext.volume { s.ext.cache k with pos := 0 } data
    (by show data.length + 0 ≤ 102400; omega) ((h.owned hp).of_blocks rfl) hroom
  have hrecord := hwrote.record
  have hgrows := Volume.Grows.of_wrote hwrote
  dsimp only at hrecord
  have hnumber : (r'.grow data.length).inode = i := by
    rw [hrecord]
    exact honly.1
  have hpos : ∀ x, (Inode.restart { s.ext.cache k with pos := 0 }).pos + BitVec.ofNat 16 x = BitVec.ofNat 16 x :=
    fun x => BitVec.zero_add _
  have hcache : ({ (s.ext.setPos k 0).setInode k (r'.grow data.length) with
      volume := v'.inodeSync (r'.grow data.length) } : ExtFs).cache k = r'.grow data.length := ExtFs.setInode_self ..
  refine ⟨{ (s.ext.setPos k 0).setInode k (r'.grow data.length) with volume := v'.inodeSync (r'.grow data.length) },
    ?_, honly0.of_cache rfl hnumber, ?_, ?_, fun x hx => ?_, fun x hx => ?_⟩
  · unfold ExtFs.extWrite
    rw [honly.inodeGet]
    dsimp only
    rw [if_neg hlink]
    unfold ExtFs.inodeWrite
    rw [hself, show (s.ext.setPos k 0).volume = s.ext.volume from rfl, hwrite]
  · rw [hcache, hrecord]
    exact hlink
  · rw [hcache, hrecord]
    show (0#16 + BitVec.ofNat 16 data.length).toNat = data.length
    rw [BitVec.zero_add, BitVec.toNat_ofNat, Nat.mod_eq_of_lt hlen]
  · rw [hcache, ← hpos]
    exact hwrote.touched x hx
  · have hcontent := hwrote.content (Nat.le_of_lt hlen) x hx
    rw [hpos] at hcontent
    rw [hcache]
    obtain ⟨r, hr⟩ := Option.ne_none_iff_exists'.mp hp.2
    have hlt := h.inodeAddr_lt hr (hwrote.touched x hx)
    rw [hpos] at hlt
    have hne : v'.dataAddr (r'.blocks (blockAt (BitVec.ofNat 16 x))) ≠ v'.inodeAddr (r'.grow data.length).inode := by
      rw [hnumber, hgrows.inodeAddr_eq]
      have haddr := hwrote.dataAddr_eq (r'.blocks (blockAt (BitVec.ofNat 16 x)))
      dsimp only at haddr hlt
      omega
    exact (byteAt_inodeSync v' _ _ _ hne).trans hcontent

theorem writeReads (h : Simulated s) {i : BitVec 16} (hopen : s.IsOpen i) {data : List UInt8} (hne : data ≠ [])
    (hlen : data.length < 65536) (hroom : s.HasBlocks i data.length) : s.ext.WriteReads i data := by
  obtain ⟨k, honly, hlink, hp, hrecord⟩ := h.only hopen
  rw [Tracked.HasBlocks, hrecord] at hroom
  obtain ⟨e, hwrite, honly', hlink', hsize, hblocks, hbyte⟩ := h.extWrite_spec honly hlink hp hlen hroom
  have hseek : e.extSeek i 0 = (.ok (), e.setPos k 0) := by
    unfold ExtFs.extSeek
    rw [honly'.inodeGet]
    dsimp only
    rw [if_neg (by omega)]
    rfl
  have hself : (e.setPos k 0).cache k = { e.cache k with pos := 0 } := e.setInode_self ..
  have honly0 : (e.setPos k 0).Only i k := honly'.of_cache rfl honly'.1
  obtain ⟨inode', hread⟩ := inodeRead_content e.volume { e.cache k with pos := 0 } rfl hsize hne
    hblocks hbyte
  obtain ⟨pos, hinode⟩ := inodeRead_record hread
  dsimp only at hinode
  have hext : (e.setPos k 0).extRead i data.length =
      some (.ok (.bytes data.length), (e.setPos k 0).setInode k inode', data) := by
    unfold ExtFs.extRead
    rw [honly0.inodeGet]
    dsimp only
    rw [if_neg (by rw [hself]; exact hlink')]
    unfold ExtFs.inodeRead
    rw [hself, show (e.setPos k 0).volume = e.volume from rfl, hread]
    rfl
  have honly1 : ((e.setPos k 0).setInode k inode').Only i k :=
    honly0.of_cache rfl (by rw [hinode]; exact honly'.1)
  refine ⟨by rw [hwrite], by rw [hwrite, hseek], _, by rw [hwrite, hseek]; exact hext, ?_⟩
  unfold ExtFs.extSize
  rw [honly1.inodeGet]
  dsimp only
  rw [ExtFs.setInode_self, hinode]
  exact congrArg _ hsize

end Simulated

/-- After any run whose calls meet their condition, and with enough free blocks, the data that is written to an open
file reads back just when its length has 16 bits. -/
theorem trackedRun_writeReads_iff {fsStart sectors : Nat} (hfits : Fits fsStart sectors) {disk : Nat → Nat → UInt8}
    {as : List Action} {s : Tracked} (h : Run Tracked.Next Tracked.Meets (.create fsStart sectors disk) as s)
    {i : BitVec 16} (hopen : s.IsOpen i) {data : List UInt8} (hne : data ≠ [])
    (hroom : s.HasBlocks i data.length) : s.ext.WriteReads i data ↔ data.length < 65536 :=
  ⟨ExtFs.WriteReads.length_lt, fun hlen => (simulated_of_run hfits h).writeReads hopen hne hlen hroom⟩

/-- The first file of a new file system, open. -/
theorem exists_open : ∃ s, Run Tracked.Next Tracked.Meets (.create 2 404 fun _ _ => 0)
    [.alloc 1, .get 1, .link ⟨0, 1⟩] s ∧ s.IsOpen 1 ∧ ∀ n, s.HasBlocks 1 n :=
  ⟨_, .cons (.inr (.inl ⟨0, by decide +kernel, by decide +kernel⟩)) rfl <|
      .cons (.inl ⟨0, by decide +kernel⟩) rfl <|
      .cons ⟨by decide +kernel, Option.isSome_iff_ne_none.mp (by decide +kernel)⟩ rfl <| .nil _,
    ⟨Option.isSome_iff_ne_none.mp (by decide +kernel), 0, by decide +kernel, by decide +kernel⟩,
    fun _ => room_of_card _ (by decide +kernel)⟩

theorem trackedRun_writeReads_iff_abc :
    ∃ s : Tracked, s.IsOpen 1 ∧ (s.ext.WriteReads 1 [97, 98, 99] ↔ 3 < 65536) := by
  obtain ⟨s, hrun, hopen, hroom⟩ := exists_open
  exact ⟨s, hopen, trackedRun_writeReads_iff fits_two hrun hopen (by simp) (hroom 3)⟩

/-- 65536 bytes are fewer than `MAX_FILE_SIZE`. -/
theorem trackedRun_writeReads_long : ∃ as s, Run Tracked.Next Tracked.Meets (.create 2 404 fun _ _ => 0) as s ∧
    s.IsOpen 1 ∧ s.HasBlocks 1 65536 ∧ (List.replicate 65536 (65 : UInt8)).length ≤ 102400 ∧
    ¬ s.ext.WriteReads 1 (List.replicate 65536 65) := by
  obtain ⟨s, hrun, hopen, hroom⟩ := exists_open
  refine ⟨_, s, hrun, hopen, hroom _, by rw [List.length_replicate]; omega, fun hreads => ?_⟩
  have hlt := hreads.length_lt
  rw [List.length_replicate] at hlt
  omega

end RetrOS.Ext
