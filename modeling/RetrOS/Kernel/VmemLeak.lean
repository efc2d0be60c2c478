import RetrOS.Kernel.VmemRun
import Mathlib.Algebra.Order.BigOperators.Group.Finset

/-!
# What a process leaves behind

`vmem_cleanup_process` looks both stack pages up at the index of `VMEM_STACK`, so it frees the first
one twice and the second one never; `vmem_cleanup_process_thead` does the same. The pages in use are
counted through the whole life of a process: it takes `dataPages size + 6` pages and those of its heap,
and its end gives back at least one page less (`HeapCount`, `heapStep_count`).

* `freeAllocations_gives` : `vmem_free_allocations` gives back at most the pages of the listed regions;
* `cleanup_never_restores` : **no process and no thread leaves the page allocator as it found it**.
-/

namespace RetrOS.Vmem

open RetrOS.Lib RetrOS.Bitmap

/-- The allocator is back in its state: the same bits are set, `used_pages` is the same. -/
def Restored (v v' : VirtualMemoryAllocator) : Prop :=
  (∀ i < v.totalPages, getBitmap v'.pages i = getBitmap v.pages i) ∧ v'.usedPages = v.usedPages

theorem Restored.card {v v' : VirtualMemoryAllocator} (h : Restored v v') (ht : v'.totalPages = v.totalPages) :
    pagesSet v' = pagesSet v := by
  rw [pagesSet, pagesSet, ht, Bits.ones_congr h.1]

/-! ## The pages of the listed regions -/

/-- The pages of the regions of a list of allocations. -/
def heldPages (regions : Nat → VmemPageRegion) (l : List Allocation) : Nat :=
  ∑ r ∈ (l.map Allocation.region).toFinset, (regions r).size / pageSize

section HeldPages
variable {regions regions' : Nat → VmemPageRegion} {l l' : List Allocation} {a : Allocation}

theorem heldPages_perm (h : l.Perm l') : heldPages regions l = heldPages regions l' := by
  rw [heldPages, List.toFinset_eq_of_perm _ _ (h.map _), heldPages]

theorem heldPages_congr (h : ∀ a ∈ l, (regions a.region).size = (regions' a.region).size) :
    heldPages regions l = heldPages regions' l := by
  refine Finset.sum_congr rfl fun r hr => ?_
  rw [List.mem_toFinset] at hr
  obtain ⟨a, ha, rfl⟩ := List.mem_map.mp hr
  rw [h a ha]

theorem heldPages_le_cons : heldPages regions l ≤ heldPages regions (a :: l) := by
  rw [heldPages, heldPages, List.map_cons, List.toFinset_cons]
  exact Finset.sum_le_sum_of_subset (Finset.subset_insert _ _)

theorem heldPages_cons_mem (h : a.region ∈ l.map Allocation.region) :
    heldPages regions (a :: l) = heldPages regions l := by
  rw [heldPages, List.map_cons, List.toFinset_cons, Finset.insert_eq_of_mem (List.mem_toFinset.mpr h), heldPages]

theorem heldPages_cons_new (h : listed l a.region = 0) :
    heldPages regions (a :: l) = (regions a.region).size / pageSize + heldPages regions l := by
  rw [heldPages, List.map_cons, List.toFinset_cons, Finset.sum_insert, heldPages]
  rw [List.mem_toFinset]
  exact List.count_eq_zero.mp h

theorem heldPages_cons_le :
    heldPages regions (a :: l) ≤ (regions a.region).size / pageSize + heldPages regions l := by
  by_cases h : listed l a.region = 0
  · rw [heldPages_cons_new h]
  · rw [heldPages_cons_mem (List.count_pos_iff.mp (Nat.pos_of_ne_zero h))]
    exact Nat.le_add_left _ _

end HeldPages

theorem vmemFreePageRegion_regions (s : Vm) (rp size r : Nat) :
    ((vmemFreePageRegion s rp size).regions r).size = (s.regions r).size ∧
      (s.regions r).refs ≤ ((vmemFreePageRegion s rp size).regions r).refs + if r = rp then 1 else 0 := by
  unfold vmemFreePageRegion
  dsimp only
  split
  · by_cases h : r = rp
    · subst h
      simp only [Function.update_self]
      exact ⟨trivial, by rw [if_pos trivial]; omega⟩
    · simp [Function.update_of_ne h]
  · simp

/-- The loop of `vmem_free_allocations` gives back at most the pages of the listed regions: the last
listed reference to a region is the only one to give them back. -/
theorem freeAllocations_gives :
    ∀ {l : List Allocation} {s : Vm}, (∀ r, listed l r ≤ (s.regions r).refs) →
      Gives (heldPages s.regions l) s.default (freeAllocations l s).default
  | [], s, _ => .refl _
  | a :: rest, s, hrefs => by
    rw [freeAllocations]
    split
    · exact (Gives.refl _).mono (Nat.zero_le _)
    · have hregions := vmemFreePageRegion_regions s a.region a.size
      have hsize : heldPages (vmemFreePageRegion s a.region a.size).regions rest = heldPages s.regions rest :=
        heldPages_congr fun b _ => (hregions b.region).1
      have hrefs' : ∀ r, listed rest r ≤ ((vmemFreePageRegion s a.region a.size).regions r).refs := by
        intro r
        have h1 := hrefs r
        have h2 := (hregions r).2
        rw [listed_cons] at h1
        by_cases hr : r = a.region
        · subst hr
          rw [if_pos rfl] at h1 h2
          omega
        · rw [if_neg (Ne.symm hr)] at h1
          rw [if_neg hr] at h2
          omega
      have htail := freeAllocations_gives hrefs'
      rw [hsize] at htail
      have hhead := vmemFreePageRegion_gives s a.region a.size
      refine (hhead.trans htail).mono ?_
      split
      · rw [Nat.zero_add]
        exact heldPages_le_cons
      · rw [heldPages_cons_new]
        have h1 := hrefs a.region
        rw [listed_cons, if_pos rfl] at h1
        omega

/-! ## The life of a process -/

/-- At least `n` pages are in use beyond those of the listed regions. -/
structure HeapCount (n total dataSize : Nat) (s : Vm) : Prop where
  counted : Counted s
  totalPages : s.default.totalPages = total
  dataSize : s.pcb.dataSize = dataSize
  card : n + heldPages s.regions s.pcb.allocations ≤ pagesSet s.default

section Life
variable {n total dataSize : Nat} {s s' : Vm}

theorem numPages_toNat (size : Nat) : (numPages size).toNat * pageSize / pageSize = (numPages size).toNat :=
  Nat.mul_div_cancel _ (by decide)

theorem AllocCase.count {node rp size : Nat} {o : Option Nat} (h : AllocCase s node rp size o s')
    (hs : HeapCount n total dataSize s) (hrp : rp ∉ s.held) : HeapCount n total dataSize s' := by
  have hcounted := h.counted hs.counted hrp
  have hne : ∀ a ∈ s.pcb.allocations, a.region ≠ rp := fun a ha he => hrp (he ▸ hs.counted.held a ha)
  have hcard := hs.card
  cases h with
  | null _ hc =>
    obtain ⟨h1, h2, -⟩ := vmemCreatePageRegion_null hc
    have hg := vmemCreatePageRegion_gives hc
    refine ⟨hcounted, by rw [hg.totalPages, hs.totalPages], by rw [h1, hs.dataSize], ?_⟩
    rw [h1, h2]
    exact hcard.trans hg.card
  | @unlinked s₁ _ hc =>
    obtain ⟨-, -, h1, -, ⟨bits, h3⟩, -⟩ := vmemCreatePageRegion_some hc
    have ht := vmemCreatePageRegion_takes hc
    refine ⟨hcounted, by rw [vmemPageRegionAlloc_default, ht.totalPages, hs.totalPages],
      by rw [vmemPageRegionAlloc_pcb, h1, hs.dataSize], ?_⟩
    have hheld : heldPages (vmemPageRegionAlloc s₁ rp size).regions s.pcb.allocations =
        heldPages s.regions s.pcb.allocations :=
      heldPages_congr fun a ha => by simp only [vmemPageRegionAlloc, Function.update_of_ne (hne a ha), h3]
    rw [vmemPageRegionAlloc_pcb, vmemPageRegionAlloc_default, h1, hheld, ht.card]
    omega
  | @spot a l _ hspot =>
    obtain ⟨l₁, iter, l₂, h1, h2, -⟩ := findSpot_some hspot
    have hmem : a.region ∈ s.pcb.allocations.map Allocation.region := by
      rw [h2, h1]
      simp [nodeBehind]
    refine ⟨hcounted, hs.totalPages, hs.dataSize, ?_⟩
    have hheld : heldPages (vmemPageRegionAlloc s a.region size).regions l =
        heldPages s.regions s.pcb.allocations := by
      rw [heldPages_perm (findSpot_perm hspot), heldPages_cons_mem hmem]
      refine heldPages_congr fun b _ => ?_
      by_cases hb : b.region = a.region
      · simp only [vmemPageRegionAlloc, hb, Function.update_self]
      · simp only [vmemPageRegionAlloc, Function.update_of_ne hb]
    rw [← hheld] at hcard
    exact hcard
  | @region s₁ _ _ hc =>
    obtain ⟨-, -, h1, -, ⟨bits, h3⟩, -⟩ := vmemCreatePageRegion_some hc
    have ht := vmemCreatePageRegion_takes hc
    refine ⟨hcounted, ht.totalPages.trans hs.totalPages, hs.dataSize, ?_⟩
    have hheld : heldPages (vmemPageRegionAlloc s₁ rp size).regions s.pcb.allocations =
        heldPages s.regions s.pcb.allocations :=
      heldPages_congr fun a ha => by simp only [vmemPageRegionAlloc, Function.update_of_ne (hne a ha), h3]
    have hsize : ((vmemPageRegionAlloc s₁ rp size).regions rp).size / pageSize = (numPages size).toNat := by
      simp only [vmemPageRegionAlloc, Function.update_self, h3, numPages_toNat]
    have hle : heldPages (vmemPageRegionAlloc s₁ rp size).regions
        (s.pcb.allocations ++ [⟨node, newBase s, size, size, rp⟩]) ≤
          (numPages size).toNat + heldPages s.regions s.pcb.allocations := by
      rw [heldPages_perm (List.perm_append_singleton _ _), ← hsize, ← hheld]
      exact heldPages_cons_le
    have hset : pagesSet (vmemPageRegionAlloc s₁ rp size).default = pagesSet s.default + (numPages size).toNat :=
      ht.card
    dsimp only
    omega

theorem HeapCount.free (hs : HeapCount n total dataSize s) (ptr : Nat) :
    HeapCount n total dataSize (vmemStackFree s ptr) := by
  have hcounted := hs.counted.free ptr
  cases hu : unlink ptr s.pcb.allocations with
  | none =>
    rw [vmemStackFree_none hu]
    exact hs
  | some x =>
    obtain ⟨old, l⟩ := x
    have hperm := unlink_perm hu
    have hcard := hs.card
    rw [heldPages_perm hperm] at hcard
    obtain ⟨hl, -, hd, hcase⟩ := vmemStackFree_some hu
    rcases hcase with ⟨-, he⟩ | ⟨hr, he⟩
    · refine ⟨hcounted, by rw [he]; exact hs.totalPages, hd.trans hs.dataSize, ?_⟩
      have hheld : heldPages (vmemStackFree s ptr).regions l = heldPages s.regions l := by
        refine heldPages_congr fun b _ => ?_
        rw [he]
        by_cases hb : b.region = old.region
        · simp only [hb, Function.update_self]
        · simp only [Function.update_of_ne hb]
      have hle : heldPages s.regions l ≤ heldPages s.regions (old :: l) := heldPages_le_cons
      rw [hl, hheld, he]
      dsimp only
      omega
    · have hg := freePages_gives (s.regions old.region) ((s.regions old.region).size / pageSize) 0
        { s with pcb := { s.pcb with allocations := l, usedMemory := s.pcb.usedMemory - old.size } }
      have hzero : listed l old.region = 0 := by
        have := hs.counted.refs old.region
        rw [listed_perm hperm, listed_cons, if_pos rfl] at this
        omega
      rw [heldPages_cons_new hzero] at hcard
      refine ⟨hcounted, by rw [he]; exact hg.totalPages.trans hs.totalPages, hd.trans hs.dataSize, ?_⟩
      have := hg.card
      rw [hl, he]
      simp only [freePages_regions]
      dsimp only at this ⊢
      omega

theorem heapStep_count {s t : HeapRun} {op : HeapOp} (hs : HeapCount n total dataSize s.vm)
    (h : heapStep s op = some t) : HeapCount n total dataSize t.vm := by
  cases op with
  | alloc node rp size =>
    obtain ⟨-, -, hrp, o, hcase, -⟩ := heapStep_alloc h
    exact hcase.count hs hrp
  | free ptr =>
    obtain ⟨-, hvm, -⟩ := heapStep_free h
    rw [hvm]
    exact hs.free ptr

theorem vmemInitProcess_count {kernelPageDir size : Nat} {data : Nat → Nat} (hsize : s.pcb.dataSize = size)
    (h : vmemInitProcess s kernelPageDir data size = some s') :
    HeapCount (pagesSet s.default + dataPages size + 6) s.default.totalPages size s' := by
  obtain ⟨ht, hnil, hd⟩ := vmemInitProcess_some h
  refine ⟨⟨by simp [hnil], by simp [hnil, listed]⟩, ht.totalPages, hd.trans hsize, ?_⟩
  rw [hnil, ht.card]
  simp only [heldPages, List.map_nil, List.toFinset_nil, Finset.sum_empty]
  omega

theorem vmemFreeAllocations_gives (hs : Counted s) (h : vmemFreeAllocations s = some s') :
    Gives (heldPages s.regions s.pcb.allocations + 1) s.default s'.default := by
  unfold vmemFreeAllocations at h
  dsimp only at h
  split at h
  · cases h
  · split at h
    · cases h
      exact (Gives.refl _).mono (Nat.zero_le _)
    · cases h
      exact (freeAllocations_gives hs.refs).trans (vmemFree_gives _ _)

/-- The end of a process gives back at most `dataPages` pages of its program, two of its stack, the
directory, the three tables and the pages of the listed regions. -/
theorem vmemCleanupProcess_gives (hs : Counted s) (h : vmemCleanupProcess s = some s') :
    Gives (dataPages s.pcb.dataSize + 5 + heldPages s.regions s.pcb.allocations) s.default s'.default := by
  unfold vmemCleanupProcess at h
  dsimp only at h
  split at h
  · cases h
  · rw [Option.map_eq_some_iff] at h
    obtain ⟨s₁, h₁, rfl⟩ := h
    have hg := vmemFreeAllocations_gives (by exact ⟨hs.held, hs.refs⟩) h₁
    have hall := ((((freeData_gives s.mem s.pcb.pageDir 0 s.pcb.dataSize s.default).trans
      (vmemFree_gives _ (vmemGetPageTable s.mem s.pcb.pageDir vmemData))).trans
      (freeStack_gives s.mem s.pcb.pageDir _)).trans hg).trans (vmemFree_gives _ s.pcb.pageDir)
    refine hall.mono ?_
    dsimp only
    omega

theorem process_not_restored {s s₁ u : Vm} {t : HeapRun} {kernelPageDir size : Nat} {data : Nat → Nat}
    {ops : List HeapOp} (hsize : s.pcb.dataSize = size)
    (hinit : vmemInitProcess s kernelPageDir data size = some s₁)
    (hrun : AnyRun (fun s op t => heapStep s op = some t) ⟨s₁, []⟩ ops t)
    (hend : vmemCleanupProcess t.vm = some u) : ¬ Restored s.default u.default := by
  intro hres
  have ht : HeapCount (pagesSet s.default + dataPages size + 6) s.default.totalPages size t.vm :=
    Run.invariant (P := fun s' : HeapRun => HeapCount _ _ size s'.vm)
      (fun _ _ _ hs _ hstep => heapStep_count hs hstep) hrun (vmemInitProcess_count hsize hinit)
  have hg := vmemCleanupProcess_gives ht.counted hend
  have h1 := hres.card (hg.totalPages.trans ht.totalPages)
  have h2 := hg.card
  have h3 := ht.card
  rw [ht.dataSize] at h2
  omega

theorem thread_not_restored {s s₁ : Vm} {pageDir : Nat} (hinit : vmemInitProcessThread s = some (pageDir, s₁)) :
    ¬ Restored s.default (vmemCleanupProcessThead s₁ pageDir).default := by
  intro hres
  have ht := vmemInitProcessThread_takes hinit
  have hg := vmemCleanupProcessThead_gives s₁ pageDir
  have h1 := hres.card (hg.totalPages.trans ht.totalPages)
  have h2 := hg.card
  have h3 := ht.card
  omega

theorem process_cleaned {s s₁ : Vm} {kernelPageDir size : Nat} {data : Nat → Nat} (hpos : 0 < s.default.start)
    (hstart : s.default.start % pageSize = 0)
    (hinit : vmemInitProcess s kernelPageDir data size = some s₁) : ∃ u, vmemCleanupProcess s₁ = some u := by
  obtain ⟨-, hdata, hheap⟩ := vmemInitProcess_ready hstart hinit
  exact Option.isSome_iff_exists.mp (vmemCleanupProcess_isSome (by omega) (by omega))

end Life

/-- **No life of a process, whatever its program and its heap allocations, and no life of a thread leaves
the page allocator in the state it found.** -/
theorem cleanup_never_restores (s : Vm) :
    (∀ (s₁ u : Vm) (t : HeapRun) (kernelPageDir size : Nat) (data : Nat → Nat) (ops : List HeapOp),
      s.pcb.dataSize = size → vmemInitProcess s kernelPageDir data size = some s₁ →
      AnyRun (fun s op t => heapStep s op = some t) ⟨s₁, []⟩ ops t → vmemCleanupProcess t.vm = some u →
      ¬ Restored s.default u.default) ∧
    ∀ (s₁ : Vm) (pageDir : Nat), vmemInitProcessThread s = some (pageDir, s₁) →
      ¬ Restored s.default (vmemCleanupProcessThead s₁ pageDir).default :=
  ⟨fun _ _ _ _ _ _ _ hsize hinit hrun hend => process_not_restored hsize hinit hrun hend,
    fun _ _ hinit => thread_not_restored hinit⟩

/-- A machine with sixteen pages, the first 4 MB mapped by the kernel's directory at `0x300000`. -/
def bootVm : Vm where
  default := vmemAllocatorCreate 0x400000 0x410000
  mem := fun a => if a = 0x300000 then 0x301003 else 0
  regions := fun _ => default
  held := ∅
  pcb := { pageDir := 0x300000, allocations := [], usedMemory := 0, dataSize := 100 }

theorem bootVm_init : ∃ s₁, vmemInitProcess bootVm 0x300000 (fun _ => 0) 100 = some s₁ := by
  simp only [vmemInitProcess, mapData_last (show ¬ pageSize < 100 by decide)]
  exact ⟨_, rfl⟩

theorem bootVm_thread : ∃ x, vmemInitProcessThread bootVm = some x := ⟨_, rfl⟩

theorem cleanup_never_restores_boot :
    (∃ s₁ u, vmemInitProcess bootVm 0x300000 (fun _ => 0) 100 = some s₁ ∧ vmemCleanupProcess s₁ = some u ∧
      ¬ Restored bootVm.default u.default) ∧
    ∃ pageDir s₁, vmemInitProcessThread bootVm = some (pageDir, s₁) ∧
      ¬ Restored bootVm.default (vmemCleanupProcessThead s₁ pageDir).default := by
  obtain ⟨s₁, h₁⟩ := bootVm_init
  obtain ⟨u, hu⟩ := process_cleaned (by decide) (by decide) h₁
  obtain ⟨⟨pageDir, s₂⟩, h₂⟩ := bootVm_thread
  obtain ⟨hprocess, hthread⟩ := cleanup_never_restores bootVm
  exact ⟨⟨s₁, u, h₁, hu, hprocess s₁ u ⟨s₁, []⟩ 0x300000 100 (fun _ => 0) [] rfl h₁ (.nil _) hu⟩,
    pageDir, s₂, h₂, hthread _ _ h₂⟩

/-- A process of one page that allocates nothing leaks pages. -/
theorem process_leaks : ¬ ∀ (s s₁ u : Vm) (t : HeapRun) (kernelPageDir size : Nat) (data : Nat → Nat)
    (ops : List HeapOp), s.pcb.dataSize = size → vmemInitProcess s kernelPageDir data size = some s₁ →
      AnyRun (fun s op t => heapStep s op = some t) ⟨s₁, []⟩ ops t → vmemCleanupProcess t.vm = some u →
      Restored s.default u.default := by
  intro hclaim
  obtain ⟨s₁, h₁⟩ := bootVm_init
  obtain ⟨u, hu⟩ := process_cleaned (by decide) (by decide) h₁
  have hres := hclaim bootVm s₁ u ⟨s₁, []⟩ 0x300000 100 (fun _ => 0) [] rfl h₁ (.nil _) hu
  have hsize : bootVm.pcb.dataSize = 100 := rfl
  exact process_not_restored (t := ⟨s₁, []⟩) hsize h₁ (.nil _) hu hres

end RetrOS.Vmem
