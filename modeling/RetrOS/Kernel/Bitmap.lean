import RetrOS.Lib.Bits

/-!
# `lib/bitmap.c`

The bitmap of the page allocator and of the other tables of the kernel: `get_bitmap`, `set_bitmap`
and `unset_bitmap` are bit `i & 7` of byte `i / 8`, `get_free_bitmap` takes the first clear bit.

`bitmap_get_continous` gives up at the first clear bit that does not start a run, and looks at the bits behind the
bitmap, too (`bitmapGetContinous_iff`).
-/

namespace RetrOS.Bitmap

open RetrOS.Lib

def getBitmap (b : Nat → BitVec 8) (i : Nat) : Bool := Bits.test b i

def setBitmap (b : Nat → BitVec 8) (i : Nat) : Nat → BitVec 8 := Bits.set b i

def unsetBitmap (b : Nat → BitVec 8) (i : Nat) : Nat → BitVec 8 := Bits.clear b i

/-- `get_free_bitmap`; `none` is the result `-1`. -/
def getFreeBitmap (b : Nat → BitVec 8) (n : Nat) : Option (Nat × (Nat → BitVec 8)) :=
  (Bits.findClear b n 0).map fun i => (i, setBitmap b i)

theorem getFreeBitmap_some {b b' : Nat → BitVec 8} {n i : Nat} (h : getFreeBitmap b n = some (i, b')) :
    i < n ∧ Bits.test b i = false ∧ b' = Bits.set b i := by
  rw [getFreeBitmap, Option.map_eq_some_iff] at h
  obtain ⟨j, hj, he⟩ := h
  cases he
  obtain ⟨-, h1, h2⟩ := Bits.findClear_some hj
  exact ⟨by omega, h2, rfl⟩

theorem getFreeBitmap_of_clear {b : Nat → BitVec 8} {n j : Nat} (hj : j < n) (hc : Bits.test b j = false) :
    ∃ i ≤ j, getFreeBitmap b n = some (i, Bits.set b i) := by
  obtain ⟨i, hi, hfind⟩ := Bits.findClear_of_clear hc (Nat.zero_le j) (by omega : j < 0 + n)
  exact ⟨i, hi, by rw [getFreeBitmap, hfind]; rfl⟩

/-! ## A run of clear bits -/

/-- `__continous_helper` -/
def continousHelper (b : Nat → BitVec 8) (start size : Nat) : Int :=
  if (List.range size).any fun j => getBitmap b (start + j) then -1 else 0

/-- `bitmap_get_continous`; `none` is the result `-1`. At the first clear bit the loop is left in any case. -/
def bitmapGetContinous (b : Nat → BitVec 8) (n size : Nat) : Option (Nat × (Nat → BitVec 8)) :=
  match Bits.findClear b n 0 with
  | none => none
  | some i => if continousHelper b i size < 0 then none else some (i, Bits.setRange b i size)

section Runs
variable {b : Nat → BitVec 8} {n size i : Nat}

/-- The `size` bits from `i` on are clear. -/
def Clear (b : Nat → BitVec 8) (size i : Nat) : Prop := ∀ j < size, getBitmap b (i + j) = false

/-- They lie inside the first `n` bits. -/
def IsRun (b : Nat → BitVec 8) (n size i : Nat) : Prop := i + size ≤ n ∧ Clear b size i

/-- A run is found and exactly its bits are set, if there is one. -/
structure FindsRun (b : Nat → BitVec 8) (n size : Nat) : Prop where
  found : (∃ i, IsRun b n size i) → ∃ i b', bitmapGetContinous b n size = some (i, b') ∧ IsRun b n size i ∧
    ∀ j, getBitmap b' j = (decide (i ≤ j ∧ j < i + size) || getBitmap b j)
  none : (∀ i, ¬ IsRun b n size i) → bitmapGetContinous b n size = none

def IsFirstClear (b : Nat → BitVec 8) (n i : Nat) : Prop :=
  i < n ∧ getBitmap b i = false ∧ ∀ j < i, getBitmap b j = true

/-- The first clear bit starts a run, or else there is no run and a bit is set among the `size` bits from it on. -/
def FirstFits (b : Nat → BitVec 8) (n size : Nat) : Prop :=
  ∀ i, IsFirstClear b n i → IsRun b n size i ∨ ¬ Clear b size i ∧ ∀ k, ¬ IsRun b n size k

theorem continousHelper_lt_iff : continousHelper b i size < 0 ↔ ¬ Clear b size i := by
  have hany : ((List.range size).any fun j => getBitmap b (i + j)) = true ↔ ¬ Clear b size i := by
    simp [Clear]
  unfold continousHelper
  split
  · next h => exact iff_of_true (by decide) (hany.mp h)
  · next h => exact iff_of_false (by decide) (mt hany.mpr h)

theorem findClear_eq_some (h : Bits.findClear b n 0 = some i) : IsFirstClear b n i := by
  obtain ⟨-, hlt, hclear⟩ := Bits.findClear_some h
  refine ⟨by omega, hclear, ?_⟩
  intro j hj
  by_contra hset
  obtain ⟨k, hk, hfind⟩ := Bits.findClear_of_clear (Bool.not_eq_true _ ▸ hset) (Nat.zero_le j) (by omega : j < 0 + n)
  rw [h] at hfind
  cases hfind
  omega

theorem findClear_of_first (h : IsFirstClear b n i) : Bits.findClear b n 0 = some i := by
  obtain ⟨hlt, hclear, hset⟩ := h
  obtain ⟨k, hk, hfind⟩ := Bits.findClear_of_clear hclear (Nat.zero_le i) (by omega : i < 0 + n)
  rcases Nat.lt_or_eq_of_le hk with hki | rfl
  · have hk' := (findClear_eq_some hfind).2.1
    rw [hset k hki] at hk'
    cases hk'
  · exact hfind

open Classical in
/-- The result depends on the bits behind the first clear one alone. -/
theorem bitmapGetContinous_of_first (size : Nat) (h : IsFirstClear b n i) :
    bitmapGetContinous b n size = if Clear b size i then some (i, Bits.setRange b i size) else none := by
  rw [bitmapGetContinous, findClear_of_first h]
  simp only [continousHelper_lt_iff, ite_not]

/-- Where there is a run, there is a first clear bit. -/
theorem exists_isFirstClear {k : Nat} (hk : IsRun b n size k) (hsize : 1 ≤ size) : ∃ i, IsFirstClear b n i := by
  have hlt := hk.1
  obtain ⟨i, -, hfind⟩ := Bits.findClear_of_clear (hk.2 0 hsize) (Nat.zero_le _) (by omega : k + 0 < 0 + n)
  exact ⟨i, findClear_eq_some hfind⟩

/-- **When the search is right**: exactly if the first clear bit starts a run inside of the bitmap, or no bit is clear,
or there is no run and a bit that is set keeps the search from the bits behind the bitmap. -/
theorem bitmapGetContinous_iff (b : Nat → BitVec 8) (n size : Nat) (hsize : 1 ≤ size) :
    FindsRun b n size ↔ FirstFits b n size := by
  constructor
  · intro h i hi
    have hget := bitmapGetContinous_of_first size hi
    by_cases hclear : Clear b size i
    · rw [if_pos hclear] at hget
      by_cases hrun : ∃ k, IsRun b n size k
      · -- the run that is found is the one at `i`
        obtain ⟨k, b', hk, hin, -⟩ := h.found hrun
        rw [hget] at hk
        cases hk
        exact .inl hin
      · rw [h.none (not_exists.mp hrun)] at hget
        cases hget
    · rw [if_neg hclear] at hget
      refine .inr ⟨hclear, ?_⟩
      intro k hk
      obtain ⟨j, b', hj, -⟩ := h.found ⟨k, hk⟩
      rw [hget] at hj
      cases hj
  · intro h
    constructor
    · rintro ⟨k, hk⟩
      obtain ⟨i, hi⟩ := exists_isFirstClear hk hsize
      rcases h i hi with hrun | ⟨-, hnone⟩
      · have hget := bitmapGetContinous_of_first size hi
        rw [if_pos hrun.2] at hget
        exact ⟨i, _, hget, hrun, fun j => Bits.test_setRange ..⟩
      · exact absurd hk (hnone k)
    · intro hnone
      cases hfind : Bits.findClear b n 0 with
      | none => rw [bitmapGetContinous, hfind]
      | some i =>
        have hi := findClear_eq_some hfind
        rw [bitmapGetContinous_of_first size hi, if_neg]
        exact ((h i hi).resolve_left (hnone i)).1

/-- Bit 1 is set, bits 2 and 3 are clear. -/
theorem bitmapGetContinous_iff_pair : FindsRun (fun _ => 2#8) 4 2 ↔ FirstFits (fun _ => 2#8) 4 2 :=
  bitmapGetContinous_iff _ 4 2 (by decide)

theorem not_findsRun_pair : ¬ FindsRun (fun _ => 2#8) 4 2 := by
  have hrun : IsRun (fun _ => 2#8) 4 2 2 := by
    unfold IsRun Clear
    decide
  have hnone : bitmapGetContinous (fun _ => 2#8) 4 2 = none := rfl
  intro h
  obtain ⟨i, b', hget, -⟩ := h.found ⟨2, hrun⟩
  rw [hnone] at hget
  cases hget

end Runs

end RetrOS.Bitmap
