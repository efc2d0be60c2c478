import RetrOS.Ext.ReadBack
import Mathlib.Algebra.GroupWithZero.Nat

/-!
# A sequence of reads (`inode_read`)

* `bytesAt` : the bytes of a file from the position on;
* `ReadsLaw` : each call returns as many bytes as it asks for and as are left, they are those from the position on, and
  the position is behind them;
* `readLoop_eq`, `readLoop_blocks` : the loop over whole blocks;
* `ReadOk` : the calls for which this holds; `readLaw_iff`, `readsLaw_iff` : no others;
* `ReadsLaw.inodeReads` : calls that do read one piece of the file.

After the pieces that it has advanced over, `inode_read` adds the whole size to the position, and it returns the size of
the file where it should return what is left.
-/

namespace RetrOS.Ext
open RetrOS.Lib Writing

/-- The number of bytes behind the position. -/
def Inode.left (inode : Inode) : Nat := inode.size.toNat - inode.pos.toNat

/-- The inode with its position `n` further on. -/
def Inode.advance (inode : Inode) (n : Nat) : Inode := { inode with pos := inode.pos + BitVec.ofNat 16 n }

/-- The `n` bytes of the file from the position on. -/
def Volume.bytesAt (v : Volume) (inode : Inode) (n : Nat) : List UInt8 :=
  (List.range n).map fun x => byteAt (v, inode) (inode.pos + BitVec.ofNat 16 x)

/-- A call returns the smaller of its size and what is left, copies these bytes, and moves the position behind them. -/
def ReadLaw (v : Volume) (inode : Inode) (size : Nat) : Prop :=
  v.inodeRead inode size = some (.bytes (min size inode.left), inode.advance (min size inode.left),
    v.bytesAt inode (min size inode.left))

/-- The calls of a sequence do so one after another. -/
def ReadsLaw (v : Volume) : Inode → List Nat → Prop
  | _, [] => True
  | inode, size :: sizes => ∃ ret inode' data, v.inodeRead inode size = some (ret, inode', data) ∧
      ReadLaw v inode size ∧ ReadsLaw v inode' sizes

/-- What the calls of a sequence copy, one after another. -/
def Volume.inodeReads (v : Volume) : Inode → List Nat → Option (List UInt8)
  | _, [] => some []
  | inode, size :: sizes => do
    let (_, inode', data) ← v.inodeRead inode size
    let rest ← v.inodeReads inode' sizes
    some (data ++ rest)

/-- Nothing is left; or as much is left as the call asks for, and it lies in one block; or a read from the start for
more than the file has, which does not find a missing block, advances the position by a multiple of 65536 too far. -/
def ReadOk (inode : Inode) (size : Nat) : Prop :=
  inode.left = 0 ∨ (size ≤ inode.left ∧ inode.inBlock + size ≤ 512) ∨
    (inode.pos = 0 ∧ inode.left < size ∧ size ≤ 102400 ∧
      65536 ∣ 512 * ((inode.left - 1) / 512) + (size - inode.left) ∧
      ∀ k : BlockIndex, k.val < (inode.left - 1) / 512 → inode.blocks k ≠ 0)

/-- The condition on a sequence; each call is made at the position behind the one before it. -/
def ReadsOk : Inode → List Nat → Prop
  | _, [] => True
  | inode, size :: sizes => ReadOk inode size ∧ ReadsOk (inode.advance (min size inode.left)) sizes

section
variable {v : Volume} {inode inode' : Inode} {left size : Nat} {progress data : List UInt8}

@[simp] theorem length_bytesAt (v : Volume) (inode : Inode) (n : Nat) : (v.bytesAt inode n).length = n := by
  simp [Volume.bytesAt]

@[simp] theorem bytesAt_zero (v : Volume) (inode : Inode) : v.bytesAt inode 0 = [] := rfl

@[simp] theorem advance_zero (inode : Inode) : inode.advance 0 = inode := by
  rw [Inode.advance, BitVec.add_zero]

@[simp] theorem advance_blocks (inode : Inode) (n : Nat) : (inode.advance n).blocks = inode.blocks := rfl

theorem advance_advance (inode : Inode) (a b : Nat) : (inode.advance a).advance b = inode.advance (a + b) := by
  unfold Inode.advance
  dsimp only
  rw [pos_add]

theorem bytesAt_add (v : Volume) (inode : Inode) (a b : Nat) :
    v.bytesAt inode (a + b) = v.bytesAt inode a ++ v.bytesAt (inode.advance a) b := by
  unfold Volume.bytesAt
  rw [List.range_add, List.map_append, List.map_map]
  congr 1
  refine List.map_congr_left fun x _ => ?_
  show byteAt (v, inode) (inode.pos + BitVec.ofNat 16 (a + x)) =
    byteAt (v, inode) (inode.pos + BitVec.ofNat 16 a + BitVec.ofNat 16 x)
  rw [pos_add]

/-- A piece inside the block of the position. -/
theorem readBlockOffset_eq (v : Volume) {n : Nat} (h : inode.inBlock + n ≤ 512) :
    v.readBlockOffset n inode.inBlock (v.dataAddr (inode.blocks inode.block)) = v.bytesAt inode n := by
  have hread := readBlockOffset_content v (v.bytesAt inode n) (by rw [length_bytesAt]; exact h) fun x hx => by
    simp [Volume.bytesAt]
  rwa [length_bytesAt] at hread

/-! ## The loop -/

theorem inBlock_advance (h : inode.inBlock = 0) : (inode.advance 512).inBlock = 0 := by
  have hmod : inode.pos.toNat % 512 = 0 := h
  have hp := inode.pos.isLt
  show (inode.pos + BitVec.ofNat 16 512).toNat % 512 = 0
  rw [BitVec.toNat_add, BitVec.toNat_ofNat]
  omega

/-- The blocks that are read whole are there. -/
def Whole (inode : Inode) (left : Nat) : Prop :=
  ∀ j < (left - 1) / 512, inode.blocks (blockAt (inode.pos + BitVec.ofNat 16 (512 * j))) ≠ 0

theorem whole_step (hlt : 512 < left) :
    Whole inode left ↔ inode.blocks inode.block ≠ 0 ∧ Whole (inode.advance 512) (left - 512) := by
  have hrounds : (left - 1) / 512 = (left - 512 - 1) / 512 + 1 := by omega
  have hnext (j : Nat) : (inode.advance 512).pos + BitVec.ofNat 16 (512 * j) =
      inode.pos + BitVec.ofNat 16 (512 * (j + 1)) := by
    rw [Inode.advance, pos_add]
    congr 2
    omega
  unfold Whole
  rw [hrounds]
  constructor
  · intro h
    refine ⟨?_, fun j hj => ?_⟩
    · have h0 := h 0 (Nat.succ_pos _)
      rwa [Nat.mul_zero, BitVec.add_zero] at h0
    · rw [hnext, advance_blocks]
      exact h (j + 1) (Nat.succ_lt_succ hj)
  · rintro ⟨h0, h⟩ j hj
    cases j with
    | zero =>
      rw [Nat.mul_zero, BitVec.add_zero]
      exact h0
    | succ j =>
      have hrest := h j (Nat.lt_of_succ_lt_succ hj)
      rwa [hnext, advance_blocks] at hrest

theorem readLoop_eq (v : Volume) (inode : Inode) (left : Nat) (progress : List UInt8)
    (hfit : inode.inBlock = 0 ∨ inode.inBlock + left ≤ 512) (hwhole : Whole inode left) :
    v.readLoop inode left progress =
      (true, inode.advance (512 * ((left - 1) / 512)), progress ++ v.bytesAt inode left) := by
  fun_induction Volume.readLoop v inode left progress with
  | case1 inode left progress hlt hzero => exact absurd hzero ((whole_step hlt).mp hwhole).1
  | case2 inode left progress hlt hzero ih =>
    have hin : inode.inBlock = 0 := by omega
    have hrounds : 512 * ((left - 1) / 512) = 512 + 512 * ((left - 512 - 1) / 512) := by omega
    have hpiece := readBlockOffset_eq v (show inode.inBlock + 512 ≤ 512 by rw [hin])
    rw [hin] at hpiece
    have hrest := ih (.inl (inBlock_advance hin)) ((whole_step hlt).mp hwhole).2
    have hsplit : v.bytesAt inode left = v.bytesAt inode 512 ++ v.bytesAt (inode.advance 512) (left - 512) := by
      rw [← bytesAt_add, Nat.add_sub_cancel' (Nat.le_of_lt hlt)]
    have hnext : { inode with pos := inode.pos + 512 } = inode.advance 512 := rfl
    rw [hnext] at hrest ⊢
    rw [hrest, hpiece, hsplit, hrounds, advance_advance, List.append_assoc]
  | case3 inode left progress hle =>
    have hrounds : 512 * ((left - 1) / 512) = 0 := by omega
    rw [hrounds, advance_zero, readBlockOffset_eq v (by omega)]

/-- A loop that does not find a missing block. -/
theorem readLoop_whole (h : (v.readLoop inode left progress).1 = true) : Whole inode left := by
  fun_induction Volume.readLoop v inode left progress with
  | case1 inode left progress hlt hzero => cases h
  | case2 inode left progress hlt hzero ih => exact (whole_step hlt).mpr ⟨hzero, ih h⟩
  | case3 inode left progress hle =>
    intro j hj
    omega

/-- The loop moves the position by whole blocks. -/
theorem readLoop_advance (v : Volume) (inode : Inode) (left : Nat) (progress : List UInt8) :
    ∃ m, (v.readLoop inode left progress).2.1 = inode.advance (512 * m) := by
  fun_induction Volume.readLoop v inode left progress with
  | case1 inode left progress hlt hzero => exact ⟨0, (advance_zero inode).symm⟩
  | case2 inode left progress hlt hzero ih =>
    obtain ⟨m, hm⟩ := ih
    have hnext : { inode with pos := inode.pos + 512 } = inode.advance 512 := rfl
    rw [hnext, advance_advance] at hm
    refine ⟨m + 1, ?_⟩
    rw [hnext, hm]
    congr 1
    omega
  | case3 inode left progress hle => exact ⟨0, (advance_zero inode).symm⟩

/-! ## One call -/

theorem left_eq_zero_iff : inode.left = 0 ↔ inode.size ≤ inode.pos := by
  rw [Inode.left, BitVec.le_def]
  omega

theorem inodeRead_end (h : inode.left = 0) : v.inodeRead inode size = some (.bytes 0, inode, []) := by
  rw [Volume.inodeRead, if_pos (left_eq_zero_iff.mp h)]

/-- A read that does not begin with the rest of a block. -/
theorem inodeRead_aligned (h0 : inode.left ≠ 0) (hsize : size ≤ 102400)
    (hfit : inode.inBlock = 0 ∨ inode.inBlock + size ≤ 512) (hwhole : Whole inode (min size inode.size.toNat)) :
    v.inodeRead inode size =
      some (.bytes (min size inode.size.toNat),
        inode.advance (512 * ((min size inode.size.toNat - 1) / 512) + size),
        v.bytesAt inode (min size inode.size.toNat)) := by
  have hpart : ¬ (inode.inBlock ≠ 0 ∧ 512 < inode.inBlock + size) := by omega
  have hloop := readLoop_eq v inode (min size inode.size.toNat) [] (by omega) hwhole
  rw [List.nil_append] at hloop
  unfold Volume.inodeRead
  rw [if_neg (mt left_eq_zero_iff.mpr h0), if_neg (by omega)]
  dsimp only
  rw [if_neg (fun h => hpart h.1), if_neg hpart]
  dsimp only
  rw [hloop, ← advance_advance]
  rfl

/-- A short read over the border of a block: the position is counted twice up to the border. -/
theorem inodeRead_crossing (h0 : inode.left ≠ 0) (hin : inode.inBlock ≠ 0) (hborder : 512 < inode.inBlock + size)
    (hshort : size ≤ 512) (hsize : size ≤ inode.size.toNat) : v.inodeRead inode size =
      some (.bytes size, inode.advance (512 - inode.inBlock + size), v.bytesAt inode size) := by
  have hlt := inode.inBlock_lt
  have hleft : min size inode.size.toNat = size := Nat.min_eq_left hsize
  have hnext : (inode.advance (512 - inode.inBlock)).inBlock = 0 := by
    have hmod : inode.pos.toNat % 512 = inode.inBlock := rfl
    have hp := inode.pos.isLt
    show (inode.pos + BitVec.ofNat 16 (512 - inode.inBlock)).toNat % 512 = 0
    rw [BitVec.toNat_add, BitVec.toNat_ofNat]
    omega
  have hrounds : 512 * ((size - (512 - inode.inBlock) - 1) / 512) = 0 := by omega
  have hloop := readLoop_eq v (inode.advance (512 - inode.inBlock)) (size - (512 - inode.inBlock))
    (v.bytesAt inode (512 - inode.inBlock)) (.inl hnext) fun j hj => by omega
  have hfirst := readBlockOffset_eq v (show inode.inBlock + (512 - inode.inBlock) ≤ 512 by omega)
  have hsplit : v.bytesAt inode size = v.bytesAt inode (512 - inode.inBlock) ++
      v.bytesAt (inode.advance (512 - inode.inBlock)) (size - (512 - inode.inBlock)) := by
    rw [← bytesAt_add, Nat.add_sub_cancel' (by omega)]
  rw [hrounds, advance_zero, ← hsplit] at hloop
  unfold Volume.inodeRead
  rw [if_neg (mt left_eq_zero_iff.mpr h0), if_neg (by omega)]
  dsimp only
  rw [if_neg (by omega), if_pos ⟨hin, hborder⟩, hleft, hfirst]
  dsimp only
  rw [← advance_advance]
  unfold Inode.advance at hloop ⊢
  rw [hloop]

/-- What a read has done that returns a number of bytes. -/
theorem inodeRead_bytes {n : Nat} (h0 : inode.left ≠ 0) (h : v.inodeRead inode size = some (.bytes n, inode', data)) :
    size ≤ 102400 ∧ n = min size inode.size.toNat ∧
      ((inode.inBlock ≠ 0 ∧ 512 < inode.inBlock + size ∧
          ∃ m, inode' = inode.advance (512 - inode.inBlock + 512 * m + size)) ∨
        (inode.inBlock = 0 ∨ inode.inBlock + size ≤ 512) ∧ Whole inode (min size inode.size.toNat)) := by
  unfold Volume.inodeRead at h
  rw [if_neg (mt left_eq_zero_iff.mpr h0)] at h
  split at h
  · cases h
  · next hsize =>
    refine ⟨Nat.le_of_not_lt hsize, ?_⟩
    dsimp only at h
    split at h
    · cases h
    · by_cases hpart : inode.inBlock ≠ 0 ∧ 512 < inode.inBlock + size
      · rw [if_pos hpart] at h
        obtain ⟨m, hm⟩ := readLoop_advance v (inode.advance (512 - inode.inBlock))
          (min size inode.size.toNat - (512 - inode.inBlock))
          (v.readBlockOffset (512 - inode.inBlock) inode.inBlock (v.dataAddr (inode.blocks inode.block)))
        split at h
        · cases h
        · next inode'' data' hloop =>
          have hstart : v.readLoop (inode.advance (512 - inode.inBlock))
              (min size inode.size.toNat - (512 - inode.inBlock))
              (v.readBlockOffset (512 - inode.inBlock) inode.inBlock (v.dataAddr (inode.blocks inode.block))) =
                (true, inode'', data') := hloop
          rw [hstart, advance_advance] at hm
          cases h
          refine ⟨rfl, .inl ⟨hpart.1, hpart.2, m, ?_⟩⟩
          rw [← advance_advance, ← hm]
          rfl
      · rw [if_neg hpart] at h
        split at h
        · cases h
        · next inode'' data' hloop =>
          cases h
          refine ⟨rfl, .inr ⟨by omega, ?_⟩⟩
          have hwhole : (v.readLoop inode (min size inode.size.toNat) []).1 = true → _ := readLoop_whole
          dsimp only at hloop
          rw [hloop] at hwhole
          exact hwhole rfl

theorem advance_inj {a b : Nat} (h : inode.advance a = inode.advance b) : a % 65536 = b % 65536 := by
  have hpos := congrArg BitVec.toNat ((BitVec.add_right_inj _).mp (congrArg Inode.pos h))
  rwa [BitVec.toNat_ofNat, BitVec.toNat_ofNat] at hpos

theorem advance_congr {a b : Nat} (h : a % 65536 = b % 65536) : inode.advance a = inode.advance b := by
  unfold Inode.advance
  have hpos : BitVec.ofNat 16 a = BitVec.ofNat 16 b := by
    apply BitVec.eq_of_toNat_eq
    rw [BitVec.toNat_ofNat, BitVec.toNat_ofNat]
    exact h
  rw [hpos]

/-- From the start the whole blocks are the first ones. -/
theorem whole_start (hpos : inode.pos = 0) (hleft : left ≤ 65536) :
    Whole inode left ↔ ∀ k : BlockIndex, k.val < (left - 1) / 512 → inode.blocks k ≠ 0 := by
  have hblock (j : Nat) (hj : j < (left - 1) / 512) (hk : j < 200) :
      blockAt (inode.pos + BitVec.ofNat 16 (512 * j)) = ⟨j, hk⟩ := by
    apply Fin.ext
    show (inode.pos + BitVec.ofNat 16 (512 * j)).toNat / 512 = j
    have hzero : inode.pos.toNat = 0 := by rw [hpos]; rfl
    rw [BitVec.toNat_add, BitVec.toNat_ofNat]
    omega
  constructor
  · intro h k hk
    have hne := h k hk
    rwa [hblock k hk k.isLt] at hne
  · intro h j hj
    rw [hblock j hj (by omega)]
    exact h ⟨j, by omega⟩ hj

/-- **A call reads as it should exactly when** it is one of `ReadOk`. -/
theorem readLaw_iff (v : Volume) (inode : Inode) (size : Nat) : ReadLaw v inode size ↔ ReadOk inode size := by
  have hp := inode.pos.isLt
  have hs := inode.size.isLt
  have hleft : inode.left = inode.size.toNat - inode.pos.toNat := rfl
  have hin : inode.inBlock = inode.pos.toNat % 512 := rfl
  by_cases h0 : inode.left = 0
  · refine iff_of_true ?_ (.inl h0)
    rw [ReadLaw, h0, Nat.min_zero, inodeRead_end h0, advance_zero, bytesAt_zero]
  constructor
  · intro h
    obtain ⟨hsize, hret, hcase⟩ := inodeRead_bytes h0 h
    rcases hcase with ⟨hne, hborder, m, hm⟩ | ⟨hfit, hwhole⟩
    · -- the rest of the first block is counted twice
      have hmod := advance_inj hm
      omega
    · rw [ReadLaw, inodeRead_aligned h0 hsize hfit hwhole] at h
      have hmod := advance_inj (Prod.mk.inj (Prod.mk.inj (Option.some.inj h)).2).1
      by_cases hle : size ≤ inode.left
      · refine .inr (.inl ⟨hle, ?_⟩)
        omega
      · have hzero : inode.pos = 0 := BitVec.eq_of_toNat_eq (show inode.pos.toNat = 0 by omega)
        have hall : min size inode.size.toNat = inode.left := by omega
        rw [hall] at hwhole hmod
        refine .inr (.inr ⟨hzero, by omega, hsize, by omega, ?_⟩)
        exact (whole_start hzero (by omega)).mp hwhole
  · rintro (hzero | ⟨hle, hfit⟩ | ⟨hzero, hlt, hsize, hdvd, hblocks⟩)
    · exact absurd hzero h0
    · have hall : min size inode.size.toNat = size := by omega
      have hwhole : Whole inode (min size inode.size.toNat) := by
        intro j hj
        omega
      have hrounds : 512 * ((size - 1) / 512) + size = size := by omega
      have hread := inodeRead_aligned (v := v) h0 (by omega) (.inr hfit) hwhole
      rw [hall, hrounds] at hread
      rwa [ReadLaw, Nat.min_eq_left hle]
    · have hpos : inode.pos.toNat = 0 := by rw [hzero]; rfl
      have hall : min size inode.size.toNat = inode.left := by omega
      have hwhole : Whole inode inode.left := (whole_start hzero (by omega)).mpr hblocks
      have hread := inodeRead_aligned (v := v) h0 hsize (.inl (by omega)) (by rw [hall]; exact hwhole)
      have hmin : min size inode.left = inode.left := by omega
      rw [hall, advance_congr (b := inode.left) (by omega)] at hread
      rw [ReadLaw, hmin]
      exact hread

/-! ## A sequence of calls -/

/-- **For every sequence of calls** from any position: consecutive bytes are read, as many as are asked for and left,
exactly when each call meets the condition at the position behind the one before. -/
theorem readsLaw_iff (v : Volume) (inode : Inode) (sizes : List Nat) :
    ReadsLaw v inode sizes ↔ ReadsOk inode sizes := by
  induction sizes generalizing inode with
  | nil => exact Iff.rfl
  | cons size sizes ih =>
    rw [ReadsOk, ← readLaw_iff v, ← ih]
    constructor
    · rintro ⟨ret, inode', data, hread, hlaw, hrest⟩
      refine ⟨hlaw, ?_⟩
      rw [ReadLaw, hread] at hlaw
      rwa [(Prod.mk.inj (Prod.mk.inj (Option.some.inj hlaw)).2).1] at hrest
    · rintro ⟨hlaw, hrest⟩
      exact ⟨_, _, _, hlaw, hlaw, hrest⟩

theorem left_advance {n : Nat} (h : n ≤ inode.left) : (inode.advance n).left = inode.left - n := by
  have hp := inode.pos.isLt
  have hs := inode.size.isLt
  have hleft : inode.left = inode.size.toNat - inode.pos.toNat := rfl
  show inode.size.toNat - (inode.pos + BitVec.ofNat 16 n).toNat = inode.left - n
  rw [BitVec.toNat_add, BitVec.toNat_ofNat]
  omega

/-- Calls that obey the law read one piece of the file. -/
theorem ReadsLaw.inodeReads {sizes : List Nat} (h : ReadsLaw v inode sizes) :
    v.inodeReads inode sizes = some (v.bytesAt inode (min sizes.sum inode.left)) := by
  induction sizes generalizing inode with
  | nil => rfl
  | cons size sizes ih =>
    obtain ⟨ret, inode', data, hread, hlaw, hrest⟩ := h
    rw [ReadLaw] at hlaw
    have hnext : inode' = inode.advance (min size inode.left) := by
      rw [hread] at hlaw
      exact (Prod.mk.inj (Prod.mk.inj (Option.some.inj hlaw)).2).1
    have hsum : min (size :: sizes).sum inode.left =
        min size inode.left + min sizes.sum (inode.advance (min size inode.left)).left := by
      rw [left_advance (Nat.min_le_right ..), List.sum_cons]
      omega
    rw [hnext] at hrest
    rw [Volume.inodeReads, hlaw, hsum, bytesAt_add]
    simp only [Option.bind_eq_bind, Option.bind_some, ih hrest]

end

/-- A file of 1000 bytes, in the blocks 1 and 2. -/
def thousand : Inode :=
  { Inode.zero with
    inode := 1
    type := fsTypeFile
    size := 1000
    blocks := fun k => if k.val < 2 then BitVec.ofNat 16 (k.val + 1) else 0 }

/-- A read of 600 bytes moves the position by 512 bytes too many, behind the end. -/
theorem readsLaw_overshoot : ¬ ReadsLaw (.createFileSystem 2 404 fun _ _ => 0) thousand [600, 400] := by
  rintro ⟨ret, inode', data, -, hlaw, -⟩
  have hwhole : Whole thousand (min 600 thousand.size.toNat) := by
    intro j hj
    have hrounds : (min 600 thousand.size.toNat - 1) / 512 = 1 := by decide
    obtain rfl : j = 0 := by omega
    decide
  rw [ReadLaw, inodeRead_aligned (by decide) (by decide) (.inl rfl) hwhole] at hlaw
  exact absurd (advance_inj (Prod.mk.inj (Prod.mk.inj (Option.some.inj hlaw)).2).1) (by decide)

end RetrOS.Ext