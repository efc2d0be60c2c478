import RetrOS.Kernel.VmemPages
import RetrOS.Lib.Run

/-!
# The page allocator over a whole run (`kernel/vmem.c`)

Pages are allocated and freed at arbitrary addresses. `vmem_free` lets pass the address `end`, and clears the bit of a
page and counts it without a look at whether it is set.

* `PageRun` : the allocator and the pages that are handed out;
* `Kept` : a call does what it should, `Allowed` : it is an allocation, or frees an address outside the region or in a
  page that is in use (`PageInv.kept_iff`);
* `vmemAllocator_run` : the runs of such calls; after them the counter is exact and the pages handed out are those in
  use.
-/

namespace RetrOS.Vmem
open RetrOS.Lib RetrOS.Bitmap

structure PageRun where
  vmem : VirtualMemoryAllocator
  /-- the pages handed out and not yet freed -/
  handed : Finset Nat

inductive PageOp
  | alloc
  | free (addr : Nat)

/-- The page of an address. -/
def pageOf (v : VirtualMemoryAllocator) (addr : Nat) : Nat := v.start + (addr - v.start) / pageSize * pageSize

/-- The address is one of `[start, end)`. -/
def Inside (v : VirtualMemoryAllocator) (addr : Nat) : Prop := v.start ≤ addr ∧ addr < v.stop

instance (v : VirtualMemoryAllocator) (addr : Nat) : Decidable (Inside v addr) := inferInstanceAs (Decidable (_ ∧ _))

/-- A call; an allocation that finds no page halts the machine. -/
def pageStep (s : PageRun) : PageOp → Option PageRun
  | .alloc => (vmemAlloc s.vmem).map fun (page, v) => ⟨v, insert page s.handed⟩
  | .free addr =>
    some ⟨vmemFree s.vmem addr, if Inside s.vmem addr then s.handed.erase (pageOf s.vmem addr) else s.handed⟩

/-- A page that is allocated lies in the region and was not handed out. Nothing changes if an address is freed that is
outside, or whose page is not handed out. The counter is exact afterwards. -/
def Kept (s : PageRun) : PageOp → Prop
  | .alloc => ∀ page v, vmemAlloc s.vmem = some (page, v) →
    Inside s.vmem page ∧ page ∉ s.handed ∧ v.usedPages = pagesSet v
  | .free addr => (¬ Inside s.vmem addr ∨ pageOf s.vmem addr ∉ s.handed → vmemFree s.vmem addr = s.vmem) ∧
    (vmemFree s.vmem addr).usedPages = pagesSet (vmemFree s.vmem addr)

def Allowed (s : PageRun) : PageOp → Prop
  | .alloc => True
  | .free addr => addr < s.vmem.start ∨ s.vmem.stop < addr ∨
    getBitmap s.vmem.pages ((addr - s.vmem.start) / pageSize) = true

/-- The counter is exact, and the bits set are those of the pages handed out. -/
structure PageInv (s : PageRun) : Prop where
  size : s.vmem.totalPages = (s.vmem.stop - s.vmem.start) / pageSize
  used : s.vmem.usedPages = pagesSet s.vmem
  bits : ∀ i, Bits.test s.vmem.pages i = true ↔ s.vmem.start + i * pageSize ∈ s.handed
  handed : ∀ page ∈ s.handed, ∃ i < s.vmem.totalPages, page = s.vmem.start + i * pageSize

section
variable {s : PageRun} {page addr i : Nat} {v : VirtualMemoryAllocator}

theorem pageInv_create (start stop : Nat) : PageInv ⟨vmemAllocatorCreate start stop, ∅⟩ where
  size := rfl
  used := by
    have hnone : Bits.ones (fun _ => 0#8) ((stop - start) / pageSize) = ∅ := by
      refine Finset.eq_empty_of_forall_notMem fun i hi => ?_
      have htest := (Bits.mem_ones.mp hi).2
      simp [Bits.test] at htest
    simp only [pagesSet, vmemAllocatorCreate, hnone, Finset.card_empty, Int.ofNat_zero]
  bits i := by simp [vmemAllocatorCreate, Bits.test]
  handed page h := absurd h (Finset.notMem_empty page)

theorem page_inj {start i j : Nat} (h : start + i * pageSize = start + j * pageSize) : i = j := by
  unfold pageSize at h
  omega

/-- No bit is set behind the last page. -/
theorem PageInv.lt_of_test (h : PageInv s) (hi : Bits.test s.vmem.pages i = true) : i < s.vmem.totalPages := by
  obtain ⟨j, hj, heq⟩ := h.handed _ ((h.bits i).mp hi)
  exact page_inj heq ▸ hj

/-- The pages lie in the region. -/
theorem PageInv.inside (h : PageInv s) (hi : i < s.vmem.totalPages) : Inside s.vmem (s.vmem.start + i * pageSize) := by
  have hsize := h.size
  unfold Inside pageSize at *
  omega

theorem PageInv.kept_alloc (h : PageInv s) : Kept s .alloc := by
  intro page v halloc
  obtain ⟨i, hi, hfree, rfl, rfl⟩ := vmemAlloc_some halloc
  refine ⟨h.inside hi, fun hm => ?_, ?_⟩
  · have hset := (h.bits i).mpr hm
    rw [hfree] at hset
    cases hset
  · have hcard := (vmemAlloc_takes halloc).card
    rw [hcard]
    dsimp only
    rw [h.used]
    rfl

/-- What `vmem_free` does to an address that it lets pass. -/
theorem vmemFree_pass (hge : s.vmem.start ≤ addr) (hle : addr ≤ s.vmem.stop) (h : PageInv s) :
    vmemFree s.vmem addr = { s.vmem with
      pages := unsetBitmap s.vmem.pages ((addr - s.vmem.start) / pageSize)
      usedPages := s.vmem.usedPages - 1 } := by
  have hsize := h.size
  have hbit : (addr - s.vmem.start) / pageSize ≤ s.vmem.totalPages := by
    rw [hsize]
    exact Nat.div_le_div_right (Nat.sub_le_sub_right hle _)
  rw [vmemFree, if_neg (by omega), if_neg (Nat.not_lt.mpr hbit)]

theorem vmemFree_outside (h : addr < v.start ∨ v.stop < addr) : vmemFree v addr = v := if_pos h.symm

/-- **One call** does what it should exactly if it is such a call. -/
theorem PageInv.kept_iff (h : PageInv s) (op : PageOp) : Kept s op ↔ Allowed s op := by
  cases op with
  | alloc => exact iff_of_true h.kept_alloc trivial
  | free addr =>
    by_cases hout : addr < s.vmem.start ∨ s.vmem.stop < addr
    · refine iff_of_true ⟨fun _ => vmemFree_outside hout, ?_⟩ (or_assoc.mp (.inl hout))
      rw [vmemFree_outside hout]
      exact h.used
    · obtain ⟨hge, hle⟩ : s.vmem.start ≤ addr ∧ addr ≤ s.vmem.stop := by omega
      have hpass := vmemFree_pass hge hle h
      cases hbit : Bits.test s.vmem.pages ((addr - s.vmem.start) / pageSize) with
      | true =>
        have hi := h.lt_of_test hbit
        have hm := (h.bits _).mp hbit
        have hsize := h.size
        have hin : Inside s.vmem addr := by
          unfold Inside pageSize at *
          omega
        refine iff_of_true ⟨fun hnot => ?_, ?_⟩ (.inr (.inr hbit))
        · exact absurd hnot (not_or.mpr ⟨not_not_intro hin, not_not_intro hm⟩)
        · have hcard := Finset.card_erase_add_one (Bits.mem_ones.mpr ⟨hi, hbit⟩)
          have hused := h.used
          unfold pagesSet at *
          rw [hpass, unsetBitmap, Bits.ones_clear]
          dsimp only
          omega
      | false =>
        refine iff_of_false (fun hkept => ?_) (fun hok => ?_)
        · have hnot : pageOf s.vmem addr ∉ s.handed := fun hm =>
            absurd (hbit.symm.trans ((h.bits _).mpr hm)) (by decide)
          have hused := congrArg VirtualMemoryAllocator.usedPages (hpass.symm.trans (hkept.1 (.inr hnot)))
          dsimp only at hused
          omega
        · rcases hok with hlt | hlt | hset
          · omega
          · omega
          · exact absurd (hbit.symm.trans hset) (by decide)

theorem PageInv.alloc (h : PageInv s) (halloc : vmemAlloc s.vmem = some (page, v)) :
    PageInv ⟨v, insert page s.handed⟩ := by
  have hused := (h.kept_alloc page v halloc).2.2
  obtain ⟨i, hi, -, rfl, rfl⟩ := vmemAlloc_some halloc
  refine ⟨h.size, hused, fun j => ?_, fun p hp => ?_⟩
  · rw [Finset.mem_insert, Bits.test_set, Bool.or_eq_true, h.bits j, decide_eq_true_iff]
    exact or_congr_left ⟨fun heq => by rw [heq], page_inj⟩
  · rcases Finset.mem_insert.mp hp with rfl | hp
    · exact ⟨i, hi, rfl⟩
    · exact h.handed p hp

theorem PageInv.free (h : PageInv s) (hok : Allowed s (.free addr)) :
    PageInv ⟨vmemFree s.vmem addr, if Inside s.vmem addr then s.handed.erase (pageOf s.vmem addr) else s.handed⟩ := by
  have hkept := (h.kept_iff (.free addr)).mpr hok
  by_cases hin : Inside s.vmem addr
  · have hpass := vmemFree_pass hin.1 (Nat.le_of_lt hin.2) h
    rw [if_pos hin]
    refine ⟨?_, hkept.2, fun j => ?_, fun p hp => ?_⟩
    · rw [hpass]
      exact h.size
    · rw [hpass, Finset.mem_erase, ← h.bits j]
      dsimp only
      rw [unsetBitmap, Bits.test_clear, Bool.and_eq_true, Bool.not_eq_true', decide_eq_false_iff_not]
      exact and_congr_left fun _ => not_congr ⟨fun heq => by rw [heq, pageOf], page_inj⟩
    · rw [hpass]
      exact h.handed p (Finset.mem_of_mem_erase hp)
  · rw [if_neg hin, hkept.1 (.inl hin)]
    exact h

end

/-- **The runs** whose calls all do what they should are those that free what lies outside the region or is in use; in
the end the counter is the number of set bits, which are those of the pages handed out. -/
theorem vmemAllocator_run (start stop : Nat) (ops : List PageOp) (s : PageRun) :
    (Run (fun s op t => pageStep s op = some t) Kept ⟨vmemAllocatorCreate start stop, ∅⟩ ops s ↔
      Run (fun s op t => pageStep s op = some t) Allowed ⟨vmemAllocatorCreate start stop, ∅⟩ ops s) ∧
    (Run (fun s op t => pageStep s op = some t) Allowed ⟨vmemAllocatorCreate start stop, ∅⟩ ops s → PageInv s) := by
  have hstep : ∀ s op t, PageInv s → Allowed s op → pageStep s op = some t → PageInv t := by
    intro s op t hs hok hst
    cases op with
    | alloc =>
      obtain ⟨⟨page, v⟩, halloc, rfl⟩ := Option.map_eq_some_iff.mp hst
      exact hs.alloc halloc
    | free addr =>
      cases hst
      exact hs.free hok
  have hiff : ∀ s op, PageInv s → (Allowed s op ↔ Kept s op) := fun s op hs => (hs.kept_iff op).symm
  exact ⟨(Run.congr hstep hiff (pageInv_create start stop)).symm, fun h => h.invariant hstep (pageInv_create start stop)⟩

/-- A page that is freed twice. -/
theorem vmemAllocator_twice : ¬ ∃ s, Run (fun s op t => pageStep s op = some t) Kept
    ⟨vmemAllocatorCreate 0x400000 0x410000, ∅⟩ [.alloc, .free 0x400000, .free 0x400000] s := by
  rintro ⟨s, _ | ⟨-, hst, _ | ⟨-, hst', _ | ⟨hkept, -, -⟩⟩⟩⟩
  cases hst
  cases hst'
  have hused : (-1 : Int) = _ := And.right hkept
  omega

end RetrOS.Vmem
