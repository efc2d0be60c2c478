import RetrOS.Kernel.Kmem
import RetrOS.Lib.Run

/-!
# Runs of the kernel heap

`HeapStep` interleaves `kalloc`, `kfree` of live results and arbitrary stores of the callers that
leave the metadata words of live allocations alone. `HeapOk` is what holds in every state of such a
run: the live allocations are disjoint runs of blocks of the region, exactly their bits are set,
their metadata words hold their lengths, and `__kmemory_used` counts the set bits.

* `HeapOk.kalloc`, `HeapOk.kfree`, `HeapOk.store` : what one step preserves;
* `heapRun_ok` : every run;
* `HeapOk.kalloc_fails` : `kalloc` panics only when every run of the needed length is in use.
-/

namespace RetrOS.Kmem

open RetrOS.Lib

/-- A result of `kalloc` not yet given to `kfree`. -/
structure Live where
  ptr : Nat
  size : BitVec 32
  deriving DecidableEq

/-- The run of blocks of a live allocation, counted from the start of the region. -/
def Live.span (R : Region) (a : Live) : Span := ⟨(a.ptr - 4 - R.start) / blockSize, numBlocks a.size⟩

/-- The kernel heap together with the live allocations. -/
structure HeapRun where
  heap : Heap
  live : List Live

inductive HeapOp
  | kalloc (size : BitVec 32)
  | kfree (ptr : Nat)
  | store (mem : Nat → Int)

/-- One step. The callers may write anything except the metadata word in front of a live block. -/
inductive HeapStep (R : Region) : HeapRun → HeapOp → HeapRun → Prop
  | kalloc {s : HeapRun} {size : BitVec 32} {ptr : Nat} {heap : Heap} :
      0 < size.toInt → Kmem.kalloc R s.heap size = .ok (some ptr, heap) →
      HeapStep R s (.kalloc size) ⟨heap, ⟨ptr, size⟩ :: s.live⟩
  | kfree {s : HeapRun} {a : Live} :
      a ∈ s.live → HeapStep R s (.kfree a.ptr) ⟨Kmem.kfree R s.heap a.ptr, s.live.erase a⟩
  | store {s : HeapRun} {mem : Nat → Int} :
      (∀ a ∈ s.live, mem (a.ptr - 4) = s.heap.mem (a.ptr - 4)) →
      HeapStep R s (.store mem) ⟨{ s.heap with mem := mem }, s.live⟩

/-- The invariant of the kernel heap. -/
structure HeapOk (R : Region) (s : HeapRun) : Prop where
  /-- The live allocations occupy pairwise disjoint runs of blocks. -/
  apart : s.live.Pairwise fun a b => (a.span R).Apart (b.span R)
  /-- The pointer is four bytes into the first block of the run. -/
  ptr : ∀ a ∈ s.live, a.ptr = R.blockAddr (a.span R).base + 4
  /-- The run lies inside the region. -/
  inside : ∀ a ∈ s.live, (a.span R).stop ≤ R.totalBlocks
  /-- The run holds the requested size and the metadata word. -/
  room : ∀ a ∈ s.live, 0 < (a.span R).len ∧ a.size.toNat + 4 ≤ (a.span R).len * blockSize
  /-- A bit is set exactly when its block belongs to a live allocation. -/
  bits : ∀ i < R.totalBlocks, Bits.test s.heap.bitmap i = true ↔ ∃ a ∈ s.live, (a.span R).Has i
  /-- The metadata word holds the number of blocks. -/
  metadata : ∀ a ∈ s.live, s.heap.mem (a.ptr - 4) = (a.span R).len
  /-- `__kmemory_used` is the block size times the number of set bits. -/
  used : s.heap.used.toNat = blockSize * (Bits.ones s.heap.bitmap R.totalBlocks).card

theorem card_ones_le (R : Region) (b : Nat → BitVec 8) : (Bits.ones b R.totalBlocks).card ≤ R.totalBlocks := by
  have := Finset.card_filter_le (Finset.range R.totalBlocks) fun i => Bits.test b i = true
  rwa [Finset.card_range] at this

theorem blocks_lt (R : Region) : blockSize * R.totalBlocks ≤ R.stop - R.start ∧ R.stop - R.start < 2 ^ 32 := by
  have := R.stop_lt
  refine ⟨?_, by omega⟩
  rw [Region.totalBlocks, Nat.mul_comm]
  exact Nat.div_mul_le_self _ _

theorem span_of_ptr (R : Region) (i : Nat) (size : BitVec 32) :
    Live.span R ⟨R.blockAddr i + 4, size⟩ = ⟨i, numBlocks size⟩ := by
  have : (R.blockAddr i + 4 - 4 - R.start) / blockSize = i := by
    simp only [Region.blockAddr, blockSize]
    omega
  simp only [Live.span, this]

section Steps
variable {R : Region} {s : HeapRun}

theorem kalloc_ok {k k' : Heap} {size : BitVec 32} {ptr : Nat} (hsize : 0 < size.toInt)
    (h : kalloc R k size = .ok (some ptr, k')) :
    ∃ i, ptr = R.blockAddr i + 4 ∧ i + numBlocks size ≤ R.totalBlocks ∧
      (∀ j, i ≤ j → j < i + numBlocks size → Bits.test k.bitmap j = false) ∧
      k'.bitmap = Bits.setRange k.bitmap i (numBlocks size) ∧
      k'.used = k.used + BitVec.ofNat 32 (numBlocks size * blockSize) ∧
      k'.mem = Function.update k.mem (R.blockAddr i) (numBlocks size) := by
  rw [kalloc, if_neg (by omega)] at h
  dsimp only at h
  split at h
  · cases h
  · next i hi =>
    obtain ⟨hle, hfree⟩ := kmemoryFindBlocks_some hi
    split at h
    · cases h
    · cases h
      exact ⟨i, rfl, hle, hfree, kmemoryMarkBlocks_eq R _ _ _, rfl, rfl⟩

theorem HeapOk.used_add (hs : HeapOk R s) {b : Nat → BitVec 8} {n : Nat}
    (hcard : (Bits.ones b R.totalBlocks).card = (Bits.ones s.heap.bitmap R.totalBlocks).card + n) :
    (s.heap.used + BitVec.ofNat 32 (n * blockSize)).toNat = blockSize * (Bits.ones b R.totalBlocks).card := by
  have h1 := card_ones_le R b
  obtain ⟨h2, h3⟩ := blocks_lt R
  have h4 := Nat.mul_le_mul_left blockSize h1
  rw [BitVec.toNat_add, BitVec.toNat_ofNat, hs.used, hcard] at *
  simp only [blockSize] at *
  omega

theorem HeapOk.kalloc (hs : HeapOk R s) {size : BitVec 32} {ptr : Nat} {heap : Heap}
    (hsize : 0 < size.toInt) (h : kalloc R s.heap size = .ok (some ptr, heap)) :
    HeapOk R ⟨heap, ⟨ptr, size⟩ :: s.live⟩ := by
  obtain ⟨i, rfl, hle, hfree, hbits, hused, hmem⟩ := kalloc_ok hsize h
  have hspan := span_of_ptr R i size
  have hpos := numBlocks_pos hsize
  -- the new run is free, the runs of the live allocations are not
  have hnew : ∀ a ∈ s.live, (Live.span R ⟨R.blockAddr i + 4, size⟩).Apart (a.span R) := by
    intro a ha
    have hin := hs.inside a ha
    have hlen := (hs.room a ha).1
    by_contra hcon
    rw [hspan] at hcon
    have hj : ∃ j, i ≤ j ∧ j < i + numBlocks size ∧ (a.span R).Has j := by
      simp only [Span.Apart, Span.Before, Span.stop, not_or, Nat.not_le] at hcon
      refine ⟨max i (a.span R).base, by omega, by omega, ?_⟩
      simp only [Span.Has, Span.stop]
      omega
    obtain ⟨j, h1, h2, h3⟩ := hj
    have := (hs.bits j (by omega)).2 ⟨a, ha, h3⟩
    rw [hfree j h1 h2] at this
    cases this
  refine ⟨List.pairwise_cons.mpr ⟨hnew, hs.apart⟩, ?_, ?_, ?_, ?_, ?_, ?_⟩
  · rintro a (_ | ⟨_, ha⟩)
    · rw [hspan]
    · exact hs.ptr a ha
  · rintro a (_ | ⟨_, ha⟩)
    · rw [hspan]
      exact hle
    · exact hs.inside a ha
  · rintro a (_ | ⟨_, ha⟩)
    · rw [hspan]
      exact ⟨hpos, le_numBlocks hsize⟩
    · exact hs.room a ha
  · intro j hj
    rw [hbits, Bits.test_setRange, Bool.or_eq_true, decide_eq_true_eq, hs.bits j hj, List.exists_mem_cons_iff,
      hspan]
    rfl
  · rintro a (_ | ⟨_, ha⟩)
    · rw [hspan, hmem, Nat.add_sub_cancel, Function.update_self]
    · have hne : a.ptr - 4 ≠ R.blockAddr i := by
        have := (hnew a ha)
        have hlen := (hs.room a ha).1
        rw [hs.ptr a ha]
        rw [hspan] at this
        simp only [Span.Apart, Span.Before, Span.stop] at this
        simp only [Region.blockAddr, blockSize]
        omega
      rw [hmem, Function.update_of_ne hne]
      exact hs.metadata a ha
  · have hcard := Bits.card_ones_setRange hle hfree
    rw [← hbits] at hcard
    rw [hused]
    exact hs.used_add hcard

theorem HeapOk.kfree_eq (hs : HeapOk R s) {a : Live} (ha : a ∈ s.live) :
    Kmem.kfree R s.heap a.ptr =
      { s.heap with
        bitmap := Bits.clearRange s.heap.bitmap (a.span R).base (a.span R).len
        used := s.heap.used - BitVec.ofNat 32 ((a.span R).len * blockSize) } := by
  have hptr := hs.ptr a ha
  have hin := hs.inside a ha
  have hlen := (hs.room a ha).1
  have hmeta := hs.metadata a ha
  rw [hptr, Nat.add_sub_cancel] at hmeta
  rw [hptr]
  exact kfree_blockAddr R s.heap (by unfold Span.stop at hin; omega) hmeta

theorem HeapOk.kfree (hs : HeapOk R s) {a : Live} (ha : a ∈ s.live) :
    HeapOk R ⟨Kmem.kfree R s.heap a.ptr, s.live.erase a⟩ := by
  rw [hs.kfree_eq ha]
  have hperm := List.perm_cons_erase ha
  have hapart := (hperm.pairwise_iff fun h => Span.Apart.symm h).mp hs.apart
  rw [List.pairwise_cons] at hapart
  obtain ⟨hother, hrest⟩ := hapart
  have hmem : ∀ b ∈ s.live.erase a, b ∈ s.live := fun b hb => List.mem_of_mem_erase hb
  have hin := hs.inside a ha
  refine ⟨hrest, fun b hb => hs.ptr b (hmem b hb), fun b hb => hs.inside b (hmem b hb),
    fun b hb => hs.room b (hmem b hb), ?_, fun b hb => hs.metadata b (hmem b hb), ?_⟩
  · intro i hi
    simp only [Bits.test_clearRange, Bool.and_eq_true, Bool.not_eq_true', decide_eq_false_iff_not, hs.bits i hi]
    constructor
    · rintro ⟨hno, b, hb, hhas⟩
      rcases List.mem_cons.mp (hperm.mem_iff.mp hb) with rfl | hb'
      · exact absurd hhas hno
      · exact ⟨b, hb', hhas⟩
    · rintro ⟨b, hb, hhas⟩
      exact ⟨(hother b hb).symm.not_has hhas, b, hmem b hb, hhas⟩
  · have hset : ∀ i, (a.span R).base ≤ i → i < (a.span R).base + (a.span R).len →
        Bits.test s.heap.bitmap i = true := fun i h1 h2 =>
      (hs.bits i (by unfold Span.stop at hin; omega)).2 ⟨a, ha, h1, h2⟩
    have hcard := Bits.card_ones_clearRange hin hset
    have h1 := card_ones_le R s.heap.bitmap
    obtain ⟨h2, h3⟩ := blocks_lt R
    have h4 := Nat.mul_le_mul_left blockSize h1
    have hused := hs.used
    dsimp only
    rw [BitVec.toNat_sub, BitVec.toNat_ofNat, hused, hcard] at *
    simp only [blockSize] at *
    omega

theorem HeapOk.store (hs : HeapOk R s) {mem : Nat → Int}
    (h : ∀ a ∈ s.live, mem (a.ptr - 4) = s.heap.mem (a.ptr - 4)) :
    HeapOk R ⟨{ s.heap with mem := mem }, s.live⟩ :=
  ⟨hs.apart, hs.ptr, hs.inside, hs.room, hs.bits, fun a ha => (h a ha).trans (hs.metadata a ha), hs.used⟩

theorem HeapOk.step (hs : HeapOk R s) {op : HeapOp} {t : HeapRun} (h : HeapStep R s op t) : HeapOk R t := by
  cases h with
  | kalloc hsize hk => exact hs.kalloc hsize hk
  | kfree ha => exact hs.kfree ha
  | store hw => exact hs.store hw

/-- `kalloc` returns a block unless every run of the needed length has a used block. -/
theorem HeapOk.kalloc_fails (hs : HeapOk R s) {size : BitVec 32} (hsize : 0 < size.toInt)
    (h : ∀ ptr heap, Kmem.kalloc R s.heap size ≠ .ok (some ptr, heap)) (i : Nat)
    (hi : i + numBlocks size ≤ R.totalBlocks) :
    ∃ j, i ≤ j ∧ j < i + numBlocks size ∧ Bits.test s.heap.bitmap j = true := by
  rw [Kmem.kalloc, if_neg (by omega)] at h
  dsimp only at h
  split at h
  · next hnone => exact kmemoryFindBlocks_none (numBlocks_pos hsize) hnone i hi
  · next j hj =>
    -- a run was found, and the sanity check cannot fail
    exfalso
    obtain ⟨hle, hfree⟩ := kmemoryFindBlocks_some hj
    have hcard := Bits.card_ones_setRange hle hfree
    have hused := hs.used_add hcard
    have h1 := Nat.mul_le_mul_left blockSize (card_ones_le R (Bits.setRange s.heap.bitmap j (numBlocks size)))
    obtain ⟨h2, -⟩ := blocks_lt R
    rw [if_neg (by omega)] at h
    exact h _ _ rfl

end Steps

theorem heapOk_init (R : Region) (mem : Nat → Int) : HeapOk R ⟨kmemInit mem, []⟩ := by
  have hempty : Bits.ones (fun _ => 0#8) R.totalBlocks = ∅ := by
    ext i
    simp [Bits.test]
  refine ⟨.nil, ?_, ?_, ?_, ?_, ?_, ?_⟩
  all_goals simp [kmemInit, Bits.test, hempty]

/-- **Every run of `kalloc` and `kfree`** keeps the live allocations disjoint and inside the region,
with exactly their bits set, their lengths in their metadata words and the counter exact, and fails
only for want of a free run. -/
theorem heapRun_ok (R : Region) (mem : Nat → Int) {ops : List HeapOp} {s : HeapRun}
    (h : AnyRun (HeapStep R) ⟨kmemInit mem, []⟩ ops s) :
    HeapOk R s ∧ ∀ size : BitVec 32, 0 < size.toInt →
      (∀ ptr heap, kalloc R s.heap size ≠ .ok (some ptr, heap)) →
      ∀ i, i + numBlocks size ≤ R.totalBlocks →
        ∃ j, i ≤ j ∧ j < i + numBlocks size ∧ Bits.test s.heap.bitmap j = true := by
  have hs : HeapOk R s := h.invariant (fun s a t hs _ hst => HeapOk.step hs hst) (heapOk_init R mem)
  exact ⟨hs, fun size hsize hfail => hs.kalloc_fails hsize hfail⟩

/-- A region of eight blocks. -/
def smallRegion : Region where
  start := 0x100000
  stop := 0x100800
  start_le := by decide
  stop_lt := by decide
  aligned := by decide

theorem heapRun_ok_small :
    ∃ s, AnyRun (HeapStep smallRegion) ⟨kmemInit fun _ => 0, []⟩
        [.kalloc 300#32, .kalloc 100#32, .kfree 0x100004] s ∧
      s.live = [⟨0x100204, 100#32⟩] ∧ HeapOk smallRegion s := by
  have hrun : AnyRun (HeapStep smallRegion) ⟨kmemInit fun _ => 0, []⟩
      [.kalloc 300#32, .kalloc 100#32, .kfree 0x100004] _ :=
    .cons trivial (.kalloc (by decide) rfl) <| .cons trivial (.kalloc (by decide) rfl) <|
      .single trivial (@HeapStep.kfree smallRegion _ ⟨0x100004, 300#32⟩ (.tail _ (.head _)))
  exact ⟨_, hrun, by decide, (heapRun_ok smallRegion (fun _ => 0) hrun).1⟩

end RetrOS.Kmem
