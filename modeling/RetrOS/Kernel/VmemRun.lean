import RetrOS.Kernel.VmemProcess
import RetrOS.Lib.Run
import RetrOS.Lib.Span

/-!
# Runs of the process heap

`heapStep` interleaves `vmem_stack_alloc` and `vmem_stack_free` of one process, keeping the live
allocations: their ranges, and the page-table entries they had when they were made.

* `AllocCase.counted`, `Counted.free`, `heapStep_counted` : every listed allocation counts as a reference
  to its region, and its region is in use.
-/

namespace RetrOS.Vmem

open RetrOS.Lib

/-- The page-table entry of a virtual address. -/
def heapPte (s : Vm) (v : Nat) : Nat := s.mem (vmemGetPageTable s.mem s.pcb.pageDir v + 4 * tableIndex v)

/-- An address returned by `vmem_stack_alloc` and not yet freed: its range, and the page-table entries
when it was returned. -/
structure Live where
  span : Span
  pte : Nat → Nat

/-- A process and its live allocations. -/
structure HeapRun where
  vm : Vm
  live : List Live

inductive HeapOp
  | alloc (node rp size : Nat)
  | free (ptr : Nat)

/-- One step. An allocation has a positive size, and `create` returns a structure not in use; only a
live address is freed. No step is possible where an assertion fails. -/
def heapStep (s : HeapRun) : HeapOp → Option HeapRun
  | .alloc node rp size =>
    if 0 < size ∧ size < 2 ^ 31 ∧ rp ∉ s.vm.held then
      (vmemStackAlloc s.vm node rp size).map fun (o, vm) =>
        match o with
        | none => ⟨vm, s.live⟩
        | some p => ⟨vm, ⟨⟨p, size⟩, heapPte vm⟩ :: s.live⟩
    else none
  | .free ptr =>
    if ptr ∈ s.live.map fun a => a.span.base then
      some ⟨vmemStackFree s.vm ptr, s.live.eraseP fun a => a.span.base = ptr⟩
    else none

theorem heapStep_alloc {s t : HeapRun} {node rp size : Nat} (h : heapStep s (.alloc node rp size) = some t) :
    0 < size ∧ size < 2 ^ 31 ∧ rp ∉ s.vm.held ∧ ∃ o, AllocCase s.vm node rp size o t.vm ∧
      match o with
      | none => t.live = s.live
      | some p => t.live = ⟨⟨p, size⟩, heapPte t.vm⟩ :: s.live := by
  rw [heapStep] at h
  split at h
  · next hc =>
    rw [Option.map_eq_some_iff] at h
    obtain ⟨⟨o, vm⟩, hv, he⟩ := h
    refine ⟨hc.1, hc.2.1, hc.2.2, o, ?_⟩
    cases o with
    | none =>
      cases he
      exact ⟨vmemStackAlloc_cases hv, rfl⟩
    | some p =>
      cases he
      exact ⟨vmemStackAlloc_cases hv, rfl⟩
  · cases h

theorem heapStep_free {s t : HeapRun} {ptr : Nat} (h : heapStep s (.free ptr) = some t) :
    ptr ∈ (s.live.map fun a => a.span.base) ∧ t.vm = vmemStackFree s.vm ptr ∧
      t.live = s.live.eraseP fun a => a.span.base = ptr := by
  rw [heapStep] at h
  split at h
  · next hm =>
    cases h
    exact ⟨hm, rfl, rfl⟩
  · cases h

/-! ## References -/

/-- The number of listed allocations in a region. -/
def listed (l : List Allocation) (r : Nat) : Nat := (l.map Allocation.region).count r

/-- Every listed allocation is counted by its region, and its region is in use. -/
structure Counted (s : Vm) : Prop where
  held : ∀ a ∈ s.pcb.allocations, a.region ∈ s.held
  refs : ∀ r, listed s.pcb.allocations r ≤ (s.regions r).refs

theorem listed_cons (a : Allocation) (l : List Allocation) (r : Nat) :
    listed (a :: l) r = listed l r + if a.region = r then 1 else 0 := by
  simp [listed, List.count_cons]

theorem listed_perm {l l' : List Allocation} (h : l.Perm l') (r : Nat) : listed l r = listed l' r :=
  (h.map _).count_eq r

theorem listed_eq_zero {l : List Allocation} {r : Nat} (h : ∀ a ∈ l, a.region ≠ r) : listed l r = 0 := by
  rw [listed, List.count_eq_zero]
  intro hm
  obtain ⟨a, ha, he⟩ := List.mem_map.mp hm
  exact h a ha he

theorem region_ne_of_listed {l : List Allocation} {r : Nat} (h : listed l r = 0) :
    ∀ a ∈ l, a.region ≠ r := by
  intro a ha he
  rw [listed, List.count_eq_zero] at h
  exact h (he ▸ List.mem_map_of_mem ha)

section Steps
variable {s s' : Vm}

theorem Counted.add {a : Allocation} (hs : Counted s)
    (hperm : s'.pcb.allocations.Perm (a :: s.pcb.allocations)) (hheld : s.held ⊆ s'.held)
    (ha : a.region ∈ s'.held) (hrefs : ∀ r ≠ a.region, (s'.regions r).refs = (s.regions r).refs)
    (hra : listed s.pcb.allocations a.region + 1 ≤ (s'.regions a.region).refs) : Counted s' := by
  constructor
  · intro b hb
    rcases List.mem_cons.mp (hperm.mem_iff.mp hb) with rfl | hb
    · exact ha
    · exact hheld (hs.held b hb)
  · intro r
    rw [listed_perm hperm, listed_cons]
    split
    · next he =>
      subst he
      exact hra
    · next he =>
      rw [hrefs r (Ne.symm he)]
      exact hs.refs r

/-- Every call of `vmem_stack_alloc` with a new structure keeps the references counted. -/
theorem AllocCase.counted {node rp size : Nat} {o : Option Nat} (h : AllocCase s node rp size o s')
    (hs : Counted s) (hrp : rp ∉ s.held) : Counted s' := by
  have hfresh : listed s.pcb.allocations rp = 0 := listed_eq_zero fun a ha he => hrp (he ▸ hs.held a ha)
  cases h with
  | null _ hc =>
    obtain ⟨h1, h2, h3, -⟩ := vmemCreatePageRegion_null hc
    exact ⟨by rw [h1]; exact fun a ha => h3 (hs.held a ha), by rw [h1, h2]; exact hs.refs⟩
  | unlinked _ hc =>
    obtain ⟨-, -, h1, h2, ⟨bits, h3⟩, -⟩ := vmemCreatePageRegion_some hc
    constructor
    · intro a ha
      rw [vmemPageRegionAlloc_pcb, h1] at ha
      rw [vmemPageRegionAlloc_held, h2]
      exact Finset.mem_insert_of_mem (hs.held a ha)
    · intro r
      rw [vmemPageRegionAlloc_pcb, h1]
      by_cases hr : r = rp
      · subst hr
        rw [hfresh]
        exact Nat.zero_le _
      · rw [vmemPageRegionAlloc, h3]
        simp only [Function.update_of_ne hr]
        exact hs.refs r
  | @spot a l _ hspot =>
    obtain ⟨l₁, iter, l₂, h1, h2, -⟩ := findSpot_some hspot
    have hreg : a.region = iter.region := by rw [h2]; rfl
    have hiter : iter ∈ s.pcb.allocations := by rw [h1]; simp
    refine hs.add (findSpot_perm hspot) (Finset.Subset.refl _) ?_ (fun r hr => ?_) ?_
    · rw [hreg]
      exact hs.held iter hiter
    · simp only [vmemPageRegionAlloc, Function.update_of_ne hr]
    · simp only [vmemPageRegionAlloc, Function.update_self]
      exact Nat.succ_le_succ (hs.refs _)
  | region _ _ hc =>
    obtain ⟨-, -, h1, h2, ⟨bits, h3⟩, -⟩ := vmemCreatePageRegion_some hc
    refine hs.add (List.perm_append_singleton _ _) ?_ ?_ (fun r hr => ?_) ?_
    · simp [h2]
    · simp [h2]
    · simp only [vmemPageRegionAlloc, Function.update_of_ne hr, h3]
    · simp only [vmemPageRegionAlloc, Function.update_self, h3, hfresh]
      exact Nat.le_refl _

theorem Counted.free (hs : Counted s) (ptr : Nat) : Counted (vmemStackFree s ptr) := by
  cases hu : unlink ptr s.pcb.allocations with
  | none =>
    rw [vmemStackFree_none hu]
    exact hs
  | some x =>
    obtain ⟨old, l⟩ := x
    have hperm := unlink_perm hu
    have hrefs := hs.refs
    simp only [listed_perm hperm, listed_cons] at hrefs
    obtain ⟨hl, -, -, hcase⟩ := vmemStackFree_some hu
    have hheld : ∀ a ∈ l, a.region ∈ s.held := fun a ha =>
      hs.held a (hperm.mem_iff.mpr (List.mem_cons_of_mem _ ha))
    rcases hcase with ⟨hr, he⟩ | ⟨hr, he⟩
    · refine ⟨fun a ha => ?_, fun r => ?_⟩
      · rw [hl] at ha
        rw [he]
        exact hheld a ha
      · rw [hl, he]
        have := hrefs r
        by_cases hrr : r = old.region
        · subst hrr
          rw [if_pos rfl] at this
          simp only [Function.update_self]
          omega
        · simp only [Function.update_of_ne hrr]
          omega
    · have hzero : listed l old.region = 0 := by
        have := hrefs old.region
        rw [if_pos rfl] at this
        omega
      refine ⟨fun a ha => ?_, fun r => ?_⟩
      · rw [hl] at ha
        rw [he]
        exact Finset.mem_erase.mpr ⟨region_ne_of_listed hzero a ha, hheld a ha⟩
      · rw [hl, he]
        have := hrefs r
        simp only [freePages_regions]
        omega

theorem heapStep_counted {s t : HeapRun} {op : HeapOp} (hs : Counted s.vm) (h : heapStep s op = some t) :
    Counted t.vm := by
  cases op with
  | alloc node rp size =>
    obtain ⟨-, -, hrp, o, hcase, -⟩ := heapStep_alloc h
    exact hcase.counted hs hrp
  | free ptr =>
    obtain ⟨-, hvm, -⟩ := heapStep_free h
    rw [hvm]
    exact hs.free ptr

end Steps

end RetrOS.Vmem
