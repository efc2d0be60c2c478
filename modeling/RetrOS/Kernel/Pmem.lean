import RetrOS.Kernel.Kmem
import RetrOS.Lib.Run

/-!
# Permanent memory (`kernel/kmem.c`)

`palloc` moves the start of the region behind a chunk of the rounded size, and returns the new start: the end of the
chunk, not its beginning. What it hands out lies one chunk further on.

* `PermanentRegion` : the region of the memory map, `palloc` : the source;
* `Kept` : a call hands out memory of the region that nobody has, and fails only if too little remains;
* `Allowed` : the sizes for which it does (`kept_iff`): not smaller than the one before, fitting twice;
* `palloc_run` : the runs of such calls, after which all that was handed out is apart and inside the region.
-/

namespace RetrOS.Pmem
open RetrOS.Lib RetrOS.Kmem

/-- `memory_map.permanent`. `memory_map_init` lets it begin behind the kernel's memory and end in the first half of the
address space, both at a whole number of megabytes. -/
structure PermanentRegion where
  start : Nat
  stop : Nat
  start_pos : 0 < start
  start_le : start ≤ stop
  stop_lt : stop < 2147483648
  aligned : 4 ∣ start ∧ 4 ∣ stop

/-- `memory_permanent_start` and `memory_permanent_end`. -/
structure Permanent where
  start : BitVec 32
  stop : BitVec 32

/-- What `kmem_init` does to them, before it allocates the bitmap. -/
def kmemInitPermanent (R : PermanentRegion) : Permanent := ⟨BitVec.ofNat 32 R.start, BitVec.ofNat 32 R.stop⟩

/-- `palloc`; `NULL` is `none`. -/
def palloc (m : Permanent) (size : BitVec 32) : Option (BitVec 32) × Permanent :=
  if size.toInt ≤ 0 then (none, m)
  else if m.start = 0 ∨ m.stop = 0 then (none, m)
  else
    let size := alignPtr size
    if m.stop ≤ m.start + size then (none, m)
    else
      let new := m.start + size
      (some new, { m with start := m.start + size })

/-- A size rounded up to whole words. -/
def rounded (size : BitVec 32) : Nat := (size.toNat + 3) / 4 * 4

/-! ## Runs -/

/-- The state, and the ranges handed out so far, the last one first. -/
structure PallocRun where
  mem : Permanent
  ranges : List Span

def pallocStart (R : PermanentRegion) : PallocRun := ⟨kmemInitPermanent R, []⟩

def pallocStep (s : PallocRun) (size : BitVec 32) : PallocRun :=
  match palloc s.mem size with
  | (some p, mem) => ⟨mem, ⟨p.toNat, size.toNat⟩ :: s.ranges⟩
  | (none, mem) => { s with mem := mem }

/-- The calls are for a positive size. -/
abbrev Size := {size : BitVec 32 // 0 < size.toInt}

def PallocStep (s : PallocRun) (size : Size) (t : PallocRun) : Prop := pallocStep s size.1 = t

/-- A call hands out memory that lies in the region and apart from all that was handed out; it fails only if less than
that remains. -/
def Kept (R : PermanentRegion) (s : PallocRun) (size : BitVec 32) : Prop :=
  match (palloc s.mem size).1 with
  | some p => Span.Within ⟨p.toNat, size.toNat⟩ ⟨R.start, R.stop - R.start⟩ ∧
      ∀ r ∈ s.ranges, Span.Apart ⟨p.toNat, size.toNat⟩ r
  | none => R.stop - s.mem.start.toNat < size.toNat

/-- The chunk is not exactly what remains. If it fits, the memory behind it does too, and the last one that was handed
out is not longer. -/
def Allowed (R : PermanentRegion) (s : PallocRun) (size : BitVec 32) : Prop :=
  s.mem.start.toNat + rounded size ≠ R.stop ∧
    (s.mem.start.toNat + rounded size < R.stop →
      s.mem.start.toNat + rounded size + size.toNat ≤ R.stop ∧ ∀ r, s.ranges.head? = some r → r.len ≤ rounded size)

/-- What holds after calls that did what they should. -/
structure PallocInv (R : PermanentRegion) (s : PallocRun) : Prop where
  stop : s.mem.stop.toNat = R.stop
  le : R.start ≤ s.mem.start.toNat ∧ s.mem.start.toNat ≤ R.stop
  aligned : 4 ∣ s.mem.start.toNat
  last : ∀ r, s.ranges.head? = some r → r.base = s.mem.start.toNat
  older : ∀ r ∈ s.ranges.tail, r.stop ≤ s.mem.start.toNat
  apart : s.ranges.Pairwise Span.Apart
  within : ∀ r ∈ s.ranges, r.Within ⟨R.start, R.stop - R.start⟩

section
variable {R : PermanentRegion} {s : PallocRun} {size : BitVec 32}

theorem pallocInv_start (R : PermanentRegion) : PallocInv R (pallocStart R) := by
  have h1 := R.start_le
  have h2 := R.stop_lt
  have hstart : (BitVec.ofNat 32 R.start).toNat = R.start := by
    rw [BitVec.toNat_ofNat]
    omega
  have hstop : (BitVec.ofNat 32 R.stop).toNat = R.stop := by
    rw [BitVec.toNat_ofNat]
    omega
  have hnil : ∀ r, r ∉ (pallocStart R).ranges := fun r => List.not_mem_nil
  refine ⟨hstop, ?_, ?_, fun r hr => absurd (List.mem_of_mem_head? hr) (hnil r), fun r => ?_, List.Pairwise.nil,
    fun r hr => absurd hr (hnil r)⟩
  · simp only [pallocStart, kmemInitPermanent, hstart]
    exact ⟨Nat.le_refl _, h1⟩
  · simp only [pallocStart, kmemInitPermanent, hstart]
    exact R.aligned.1
  · exact fun hr => absurd (List.mem_of_mem_tail hr) (hnil r)

theorem size_le_rounded (size : BitVec 32) : size.toNat ≤ rounded size ∧ rounded size < size.toNat + 4 := by
  unfold rounded
  omega

theorem four_dvd_rounded (size : BitVec 32) : 4 ∣ rounded size := Dvd.intro_left _ rfl

/-- The start does not wrap around. -/
theorem PallocInv.toNat_add (h : PallocInv R s) (hsize : 0 < size.toInt) :
    (s.mem.start + alignPtr size).toNat = s.mem.start.toNat + rounded size := by
  obtain ⟨-, hlt⟩ := toNat_lt_of_toInt_pos hsize
  have h1 := h.le.2
  have h2 := R.stop_lt
  rw [BitVec.toNat_add, alignPtr_toNat hsize]
  unfold rounded
  omega

/-- Where a call for a positive size comes to the test. -/
theorem PallocInv.palloc_eq (h : PallocInv R s) (hsize : 0 < size.toInt) : palloc s.mem size =
    if R.stop ≤ s.mem.start.toNat + rounded size then (none, s.mem)
    else (some (s.mem.start + alignPtr size), { s.mem with start := s.mem.start + alignPtr size }) := by
  have h1 := R.start_pos
  have hnot : ¬ (s.mem.start = 0 ∨ s.mem.stop = 0) := by
    rintro (h0 | h0)
    · have hle := h.le.1
      rw [h0] at hle
      exact absurd hle (Nat.not_le.mpr h1)
    · have hstop : (0 : BitVec 32).toNat = R.stop := h0 ▸ h.stop
      have hle := h.le
      rw [← hstop] at hle
      exact absurd (hle.1.trans hle.2) (Nat.not_le.mpr h1)
  rw [palloc, if_neg (Int.not_le.mpr hsize), if_neg hnot]
  simp only [BitVec.le_def, h.toNat_add hsize, h.stop]

/-- All that was handed out ends by `n` bytes from the start, if the last one is not longer. -/
theorem PallocInv.stop_le (h : PallocInv R s) {n : Nat} (hlast : ∀ r, s.ranges.head? = some r → r.len ≤ n) {r : Span}
    (hr : r ∈ s.ranges) : r.stop ≤ s.mem.start.toNat + n := by
  rcases hranges : s.ranges with _ | ⟨r', rest⟩
  · rw [hranges] at hr
    exact absurd hr List.not_mem_nil
  · rw [hranges] at hr
    have hhead : s.ranges.head? = some r' := by rw [hranges, List.head?_cons]
    rcases List.mem_cons.mp hr with rfl | hr
    · have hbase := h.last r hhead
      have hlen := hlast r hhead
      unfold Span.stop
      omega
    · have holder := h.older r (by rw [hranges]; exact hr)
      omega

/-- **One call** does what it should exactly for such a size. -/
theorem PallocInv.kept_iff (h : PallocInv R s) (hsize : 0 < size.toInt) : Kept R s size ↔ Allowed R s size := by
  obtain ⟨hle, hlt⟩ := size_le_rounded size
  obtain ⟨hpos, -⟩ := toNat_lt_of_toInt_pos hsize
  obtain ⟨hstart, hstop⟩ := h.le
  have hdvd := h.aligned
  have hdvd' := four_dvd_rounded size
  have hdvd'' := R.aligned.2
  unfold Kept Allowed
  rw [h.palloc_eq hsize]
  by_cases hfail : R.stop ≤ s.mem.start.toNat + rounded size
  · rw [if_pos hfail]
    dsimp only
    constructor
    · intro hkept
      exact ⟨by omega, fun hfits => absurd hfail (Nat.not_le.mpr hfits)⟩
    · rintro ⟨hne, -⟩
      omega
  · rw [if_neg hfail]
    simp only [h.toNat_add hsize, Span.Within, Span.Apart, Span.Before, Span.stop]
    constructor
    · rintro ⟨⟨-, hend⟩, hapart⟩
      refine ⟨by omega, fun _ => ⟨by omega, fun r hr => ?_⟩⟩
      have hbase := h.last r hr
      rcases hapart r (List.mem_of_mem_head? hr) with hbefore | hbefore <;> omega
    · rintro ⟨hne, hfits⟩
      obtain ⟨hend, hlen⟩ := hfits (by omega)
      exact ⟨⟨by omega, by omega⟩, fun r hr => .inr (h.stop_le hlen hr)⟩

theorem PallocInv.step (h : PallocInv R s) (hsize : 0 < size.toInt) (hok : Allowed R s size) :
    PallocInv R (pallocStep s size) := by
  have hkept := (h.kept_iff hsize).mpr hok
  unfold Kept at hkept
  unfold pallocStep
  rw [h.palloc_eq hsize] at hkept ⊢
  by_cases hfail : R.stop ≤ s.mem.start.toNat + rounded size
  · rw [if_pos hfail]
    exact ⟨h.stop, h.le, h.aligned, h.last, h.older, h.apart, h.within⟩
  · rw [if_neg hfail] at hkept ⊢
    obtain ⟨hwithin, hapart⟩ := hkept
    obtain ⟨-, hlast⟩ := hok.2 (Nat.not_le.mp hfail)
    have hadd := h.toNat_add hsize
    refine ⟨h.stop, ?_, ?_, fun r hr => ?_, fun r hr => ?_, List.pairwise_cons.mpr ⟨hapart, h.apart⟩, fun r hr => ?_⟩
    · have hle := h.le
      dsimp only
      omega
    · dsimp only
      rw [hadd]
      exact Nat.dvd_add h.aligned (four_dvd_rounded size)
    · rw [List.head?_cons] at hr
      cases hr
      rfl
    · dsimp only
      rw [hadd]
      exact h.stop_le hlast hr
    · rcases List.mem_cons.mp hr with rfl | hr
      · exact hwithin
      · exact h.within r hr

end

/-- **The runs** whose calls all do what they should are those of such sizes, and all that they hand out is pairwise
apart and inside the region. -/
theorem palloc_run (R : PermanentRegion) (sizes : List Size) (s : PallocRun) :
    (Run PallocStep (fun s size => Kept R s size.1) (pallocStart R) sizes s ↔
      Run PallocStep (fun s size => Allowed R s size.1) (pallocStart R) sizes s) ∧
    (Run PallocStep (fun s size => Allowed R s size.1) (pallocStart R) sizes s →
      s.ranges.Pairwise Span.Apart ∧ ∀ r ∈ s.ranges, r.Within ⟨R.start, R.stop - R.start⟩) := by
  have hstep : ∀ s (size : Size) t, PallocInv R s → Allowed R s size.1 → PallocStep s size t → PallocInv R t := by
    rintro s size t hs hok rfl
    exact hs.step size.2 hok
  have hiff : ∀ s (size : Size), PallocInv R s → (Allowed R s size.1 ↔ Kept R s size.1) := fun s size hs =>
    (hs.kept_iff size.2).symm
  refine ⟨(Run.congr hstep hiff (pallocInv_start R)).symm, fun h => ?_⟩
  have hinv : PallocInv R s := h.invariant hstep (pallocInv_start R)
  exact ⟨hinv.apart, hinv.within⟩

/-- A megabyte. -/
def oneMegabyte : PermanentRegion where
  start := 0x400000
  stop := 0x500000
  start_pos := by decide
  start_le := by decide
  stop_lt := by decide
  aligned := by decide

/-- The second of two calls hands out memory of the first: a word behind eight bytes. -/
theorem palloc_overlap : ¬ ∃ s, Run PallocStep (fun s size => Kept oneMegabyte s size.1) (pallocStart oneMegabyte)
    [⟨8, by decide⟩, ⟨4, by decide⟩] s := by
  rintro ⟨s, _ | ⟨-, hst, _ | ⟨hkept, -, -⟩⟩⟩
  cases hst
  have hapart : Span.Apart ⟨0x40000c, 4⟩ ⟨0x400008, 8⟩ := And.right hkept _ (List.mem_cons_self ..)
  revert hapart
  unfold Span.Apart Span.Before Span.stop
  decide

end RetrOS.Pmem
