import RetrOS.Kernel.Vmem

/-!
# Pages taken and given back

* `pagesSet v` : the number of pages in use; `Taken v p` : the page at `p` is in use;
* `Takes n v v'` : from `v` to `v'` exactly `n` pages were taken and none was given back;
* `Gives n v v'` : at most `n` pages were given back (`Gives.trans`, `Takes.trans` add up);
* `vmemAlloc_takes`, `vmemFree_gives`, `vmemCreatePageRegion_takes`, `freePages_gives` : what the
  functions of the allocator and of the page regions do.
-/

namespace RetrOS.Vmem

open RetrOS.Lib RetrOS.Bitmap

/-- The number of pages in use. -/
def pagesSet (v : VirtualMemoryAllocator) : Nat := (Bits.ones v.pages v.totalPages).card

/-- The page at `p` is in use. -/
def Taken (v : VirtualMemoryAllocator) (p : Nat) : Prop :=
  ∃ i, p = v.start + i * pageSize ∧ Bits.test v.pages i = true

/-- `n` pages were taken. -/
structure Takes (n : Nat) (v v' : VirtualMemoryAllocator) : Prop where
  start : v'.start = v.start
  totalPages : v'.totalPages = v.totalPages
  stays : ∀ i, Bits.test v.pages i = true → Bits.test v'.pages i = true
  card : pagesSet v' = pagesSet v + n

/-- At most `n` pages were given back. -/
structure Gives (n : Nat) (v v' : VirtualMemoryAllocator) : Prop where
  start : v'.start = v.start
  totalPages : v'.totalPages = v.totalPages
  card : pagesSet v ≤ pagesSet v' + n

section Rules
variable {v v' v'' : VirtualMemoryAllocator} {m n p q : Nat}

theorem Takes.refl (v : VirtualMemoryAllocator) : Takes 0 v v := ⟨rfl, rfl, fun _ h => h, rfl⟩

theorem Takes.trans (h : Takes m v v') (h' : Takes n v' v'') : Takes (m + n) v v'' :=
  ⟨by rw [h'.start, h.start], by rw [h'.totalPages, h.totalPages], fun i hi => h'.stays i (h.stays i hi),
    by rw [h'.card, h.card, Nat.add_assoc]⟩

theorem Gives.refl (v : VirtualMemoryAllocator) : Gives 0 v v := ⟨rfl, rfl, Nat.le_refl _⟩

theorem Gives.trans (h : Gives m v v') (h' : Gives n v' v'') : Gives (m + n) v v'' := by
  refine ⟨by rw [h'.start, h.start], by rw [h'.totalPages, h.totalPages], ?_⟩
  have := h.card
  have := h'.card
  omega

theorem Gives.mono (h : Gives m v v') (hmn : m ≤ n) : Gives n v v' :=
  ⟨h.start, h.totalPages, by have := h.card; omega⟩

theorem Taken.mono (hq : Taken v q) (h : Takes n v v') : Taken v' q := by
  obtain ⟨i, rfl, hi⟩ := hq
  exact ⟨i, by rw [h.start], h.stays i hi⟩

theorem vmemAlloc_some (h : vmemAlloc v = some (p, v')) :
    ∃ i < v.totalPages, Bits.test v.pages i = false ∧ p = v.start + i * pageSize ∧
      v' = { v with pages := Bits.set v.pages i, usedPages := v.usedPages + 1 } := by
  rw [vmemAlloc, Option.map_eq_some_iff] at h
  obtain ⟨⟨i, b⟩, hb, he⟩ := h
  cases he
  obtain ⟨h1, h2, rfl⟩ := getFreeBitmap_some hb
  exact ⟨i, h1, h2, rfl, rfl⟩

theorem vmemAlloc_takes (h : vmemAlloc v = some (p, v')) : Takes 1 v v' := by
  obtain ⟨i, hi, hfree, rfl, rfl⟩ := vmemAlloc_some h
  exact ⟨rfl, rfl, fun j hj => by simp [Bits.test_set, hj], Bits.card_ones_set hi hfree⟩

theorem vmemAlloc_taken (h : vmemAlloc v = some (p, v')) : Taken v' p := by
  obtain ⟨i, -, -, rfl, rfl⟩ := vmemAlloc_some h
  exact ⟨i, rfl, Bits.test_set_self _ _⟩

theorem Taken.ne_alloc (hq : Taken v q) (h : vmemAlloc v = some (p, v')) : q ≠ p := by
  obtain ⟨i, -, hfree, rfl, rfl⟩ := vmemAlloc_some h
  obtain ⟨j, rfl, hj⟩ := hq
  intro he
  obtain rfl : j = i := by
    simp only [pageSize] at he
    omega
  rw [hj] at hfree
  cases hfree

theorem vmemAlloc_aligned (hv : v.start % pageSize = 0) (h : vmemAlloc v = some (p, v')) :
    p % pageSize = 0 := by
  obtain ⟨i, -, -, rfl, rfl⟩ := vmemAlloc_some h
  simp only [pageSize] at hv ⊢
  omega

theorem vmemFree_gives (v : VirtualMemoryAllocator) (addr : Nat) : Gives 1 v (vmemFree v addr) := by
  unfold vmemFree
  split
  · exact (Gives.refl v).mono (by decide)
  · split
    · exact (Gives.refl v).mono (by decide)
    · exact ⟨rfl, rfl, Bits.card_ones_le_clear _ _ _⟩

/-- Freeing a page a second time gives nothing back. -/
theorem vmemFree_twice_gives (v : VirtualMemoryAllocator) (addr : Nat) :
    Gives 1 v (vmemFree (vmemFree v addr) addr) := by
  by_cases h1 : v.stop < addr ∨ addr < v.start
  · have h : vmemFree v addr = v := by rw [vmemFree, if_pos h1]
    rw [h, h]
    exact (Gives.refl v).mono (by decide)
  · by_cases h2 : v.totalPages < (addr - v.start) / pageSize
    · have h : vmemFree v addr = v := by rw [vmemFree, if_neg h1, if_pos h2]
      rw [h, h]
      exact (Gives.refl v).mono (by decide)
    · simp only [vmemFree, if_neg h1, if_neg h2]
      refine ⟨rfl, rfl, ?_⟩
      simp only [pagesSet, unsetBitmap, Bits.ones_clear, Finset.erase_idem]
      rw [← Bits.ones_clear]
      exact Bits.card_ones_le_clear _ _ _

theorem foldl_vmemFree_gives (bits : List Nat) (v : VirtualMemoryAllocator) :
    Gives bits.length v (bits.foldl (fun v b => vmemFree v (v.start + b * pageSize)) v) := by
  induction bits generalizing v with
  | nil => exact .refl v
  | cons b bits ih =>
    rw [List.length_cons, Nat.add_comm]
    exact (vmemFree_gives v _).trans (ih _)

end Rules

/-! ## Page regions -/

theorem createPages_takes {t base access n i : Nat} {bits bits' : List Nat} {s s' : Vm}
    (h : createPages t base access n i bits s = some (some bits', s')) : Takes n s.default s'.default := by
  induction n generalizing i bits s with
  | zero =>
    cases h
    exact .refl _
  | succ n ih =>
    rw [createPages] at h
    split at h
    · cases h
    · next paddr v hv =>
      split at h
      · cases h
      · rw [Nat.add_comm]
        exact (vmemAlloc_takes hv).trans (ih h)

/-- When `createPages` gives up, the pages it took itself make up for those it gives back. -/
theorem createPages_gives {t base access n i : Nat} {bits : List Nat} {s s' : Vm}
    (h : createPages t base access n i bits s = some (none, s')) : Gives bits.length s.default s'.default := by
  induction n generalizing i bits s with
  | zero => cases h
  | succ n ih =>
    rw [createPages] at h
    split at h
    · cases h
    · next paddr v hv =>
      have htake := vmemAlloc_takes hv
      have hcard := htake.card
      split at h
      · cases h
        have hgive := foldl_vmemFree_gives bits v
        have := hgive.card
        exact ⟨hgive.start.trans htake.start, hgive.totalPages.trans htake.totalPages, by dsimp only; omega⟩
      · have hgive := ih h
        have h1 := hgive.card
        rw [List.length_append, List.length_singleton] at h1
        dsimp only at h1
        exact ⟨hgive.start.trans htake.start, hgive.totalPages.trans htake.totalPages, by omega⟩

theorem vmemCreatePageRegion_takes {s s' : Vm} {rp base access p : Nat} {num : Int}
    (h : vmemCreatePageRegion s rp base num access = some (some p, s')) :
    Takes num.toNat s.default s'.default := by
  unfold vmemCreatePageRegion at h
  split at h
  · cases h
  · split at h
    · cases h
    · cases h
    · next bits s1 hc =>
      cases h
      have htake := createPages_takes hc
      exact htake

theorem vmemCreatePageRegion_gives {s s' : Vm} {rp base access : Nat} {num : Int}
    (h : vmemCreatePageRegion s rp base num access = some (none, s')) : Gives 0 s.default s'.default := by
  unfold vmemCreatePageRegion at h
  split at h
  · cases h
    exact .refl _
  · split at h
    · cases h
    · next s1 hc =>
      cases h
      exact createPages_gives hc
    · cases h

theorem freePages_gives (r : VmemPageRegion) (n i : Nat) (s : Vm) :
    Gives n s.default (freePages r n i s).default := by
  induction n generalizing i s with
  | zero => exact .refl _
  | succ n ih =>
    rw [freePages]
    split
    · exact (ih _ _).mono (by omega)
    · rw [Nat.add_comm]
      refine (vmemFree_gives s.default (s.default.start + r.bits.getD i 0 * pageSize)).trans ?_
      exact ih (i + 1) { s with default := _, mem := _ }

/-- `vmem_free_page_region` gives back at most the pages of the region, and nothing while the region
has other references. -/
theorem vmemFreePageRegion_gives (s : Vm) (rp size : Nat) :
    Gives (if 1 < (s.regions rp).refs then 0 else (s.regions rp).size / pageSize) s.default
      (vmemFreePageRegion s rp size).default := by
  unfold vmemFreePageRegion
  dsimp only
  split
  · exact .refl _
  · exact freePages_gives _ _ _ _

end RetrOS.Vmem
