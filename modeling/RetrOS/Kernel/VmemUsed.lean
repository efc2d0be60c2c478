import Mathlib.Algebra.BigOperators.Group.List.Basic
import Mathlib.Algebra.Ring.Int.Defs
import RetrOS.Kernel.VmemHeap

/-!
# The memory a process uses (`kernel/vmem.c`)

`vmem_stack_alloc` charges a process only for an allocation that gets a page region of its own, and by whole pages;
`vmem_stack_free` always credits the size that was asked for.

* `charge` : what the live allocations are charged with;
* `Charged` : `used_memory` is that sum;
* `UsedOk` : an allocation is not made by part 1.5, and what is freed begins a region and fills its pages
  (`UsedInv.kept_iff`);
* `usedMemory_run` : the runs that keep `used_memory` so.
-/

namespace RetrOS.Vmem
open RetrOS.Lib

/-- What an allocation is charged with: its pages if it begins a page region, nothing if it lies behind another
allocation in one. -/
def chargeOf (a : Span) : Int := if a.base % pageSize = 0 then vmemPageAlignSize a.len else 0

def charge (live : List Live) : Int := ((live.map Live.span).map chargeOf).sum

/-- `used_memory` is what the live allocations are charged with. -/
structure Charged (s : HeapRun) : Prop where
  used : s.vm.pcb.usedMemory = charge s.live
  nonneg : 0 ≤ s.vm.pcb.usedMemory
  zero : s.live = [] → s.vm.pcb.usedMemory = 0

/-- The heap of a process that has been created. -/
def newHeap (s : Vm) : HeapRun := ⟨{ s with pcb := { s.pcb with allocations := [], usedMemory := 0 } }, []⟩

/-- A call; any address may be freed. -/
def usedStep (s : HeapRun) : HeapOp → Option HeapRun
  | .alloc node rp size => heapStep s (.alloc node rp size)
  | .free ptr => some ⟨vmemStackFree s.vm ptr, s.live.eraseP fun a => a.span.base = ptr⟩

def UsedKept (s : HeapRun) (op : HeapOp) : Prop := ∀ t, usedStep s op = some t → Charged t

def UsedOk (s : HeapRun) : HeapOp → Prop
  | .alloc _ rp size => HeadFreed s.vm size →
    ∀ p s', vmemCreatePageRegion s.vm rp vmemHeap (numPages size) user ≠ some (some p, s')
  | .free ptr => ∀ a ∈ s.live, a.span.base = ptr → ptr % pageSize = 0 ∧ a.span.len % pageSize = 0

/-! ## Charges -/

section Charge
variable {size n : Nat} {a : Span} {live : List Live}

theorem vmemPageAlignSize_lt (hlt : size < 2 ^ 31) : vmemPageAlignSize size < size + pageSize := by
  have hpage : ((pageSize : Nat) : Int) = 4096 := rfl
  rw [vmemPageAlignSize, wrapInt, Int.bmod_def, hpage]
  simp only [pageSize]
  split <;> split <;> omega

theorem vmemPageAlignSize_eq_iff (hlt : size < 2 ^ 31) : vmemPageAlignSize size = size ↔ size % pageSize = 0 := by
  constructor
  · intro h
    rcases vmemPageAlignSize_cases hlt with hneg | ⟨n, hn, -⟩
    · omega
    · have heq : size = n * pageSize := by omega
      rw [heq]
      exact Nat.mul_mod_left _ _
  · intro h
    have hpage : ((pageSize : Nat) : Int) = 4096 := rfl
    rw [vmemPageAlignSize, if_neg (by omega), wrapInt, Int.bmod_def, hpage]
    simp only [pageSize] at h
    split <;> omega

/-- What `vmem_stack_free` credits is what was charged exactly for whole pages at the beginning of a region. -/
theorem chargeOf_eq_len_iff (hpos : 0 < a.len) (hlt : a.len < 2 ^ 31) :
    chargeOf a = a.len ↔ a.base % pageSize = 0 ∧ a.len % pageSize = 0 := by
  rw [chargeOf]
  split
  · next hbase => rw [vmemPageAlignSize_eq_iff hlt, and_iff_right hbase]
  · next hbase => exact iff_of_false (by omega) (fun h => hbase h.1)

theorem charge_cons (x : Live) : charge (x :: live) = chargeOf x.span + charge live := by
  simp only [charge, List.map_cons, List.sum_cons]

theorem charge_eq_of_perm {l : List Span} (h : l.Perm (live.map Live.span)) : (l.map chargeOf).sum = charge live :=
  (h.map chargeOf).sum_eq

theorem charge_nonneg (h : ∀ x ∈ live, 0 ≤ chargeOf x.span) : 0 ≤ charge live := by
  induction live with
  | nil => exact Int.le_refl 0
  | cons x live ih =>
    rw [charge_cons]
    exact Int.add_nonneg (h x (List.mem_cons_self ..)) (ih fun y hy => h y (List.mem_cons_of_mem _ hy))

end Charge

/-! ## The invariant -/

/-- The allocation lies in the region and ends in its last page. -/
structure Placed (r : VmemPageRegion) (a : Allocation) : Prop where
  pos : 0 < a.size
  small : a.size < 2 ^ 31
  base : r.basevaddr % pageSize = 0
  size : r.size % pageSize = 0
  within : a.span.Within r.span
  last : r.basevaddr + r.size < a.address + a.size + pageSize

structure UsedInv (s : HeapRun) : Prop where
  counted : Counted s.vm
  ordered : s.vm.pcb.allocations.Pairwise (Ordered s.vm.regions)
  placed : ∀ a ∈ s.vm.pcb.allocations, Placed (s.vm.regions a.region) a
  listed : (s.vm.pcb.allocations.map Allocation.span).Perm (s.live.map Live.span)
  nonneg : ∀ x ∈ s.live, 0 ≤ chargeOf x.span
  used : s.vm.pcb.usedMemory = charge s.live

section Inv
variable {s t : HeapRun} {regions : Nat → VmemPageRegion} {r r' : VmemPageRegion} {a b : Allocation}
  {l : List Allocation} {node r₁ size ptr : Nat}

theorem UsedInv.charged (h : UsedInv s) : Charged s := by
  refine ⟨h.used, ?_, fun hnil => ?_⟩
  · rw [h.used]
    exact charge_nonneg h.nonneg
  · rw [h.used, hnil]
    rfl

theorem usedInv_newHeap (s : Vm) : UsedInv (newHeap s) where
  counted := ⟨fun _ ha => absurd ha List.not_mem_nil, fun _ => Nat.zero_le _⟩
  ordered := List.Pairwise.nil
  placed _ ha := absurd ha List.not_mem_nil
  listed := List.Perm.refl _
  nonneg _ ha := absurd ha List.not_mem_nil
  used := rfl

theorem Placed.congr (h : Placed r a) (hbase : r'.basevaddr = r.basevaddr) (hsize : r'.size = r.size) :
    Placed r' a := by
  refine ⟨h.pos, h.small, by rw [hbase, h.base], by rw [hsize, h.size], ?_, by rw [hbase, hsize]; exact h.last⟩
  rw [VmemPageRegion.span, hbase, hsize]
  exact h.within

theorem Placed.range (h : Placed r a) :
    r.basevaddr ≤ a.address ∧ a.address + a.size ≤ r.basevaddr + r.size := h.within

theorem Placed.spaceAtEnd (h : Placed (regions a.region) a) :
    spaceAtEnd regions a = (regionEnd regions a : Int) - (a.address + a.size : Nat) := by
  obtain ⟨-, h2⟩ := h.range
  have h3 := h.last
  rw [Vmem.spaceAtEnd, wrapInt, regionEnd]
  simp only [pageSize] at h3
  refine Int.bmod_eq_of_le ?_ ?_ <;> omega

theorem Placed.gapBetween (ha : Placed r a) (hb : Placed r b) (hab : a.span.Before b.span) :
    gapBetween a b = b.address - (a.address + a.size) := by
  obtain ⟨-, h2⟩ := hb.range
  have h3 := ha.last
  unfold Span.Before Span.stop Allocation.span at hab
  simp only [Vmem.gapBetween, pageSize] at *
  omega

/-- Behind another allocation of a region no page begins. -/
theorem Placed.behind (h : Placed r a) (hsize : 0 < size) (hend : a.address + a.size + size ≤ r.basevaddr + r.size) :
    chargeOf ⟨a.address + a.size, size⟩ = 0 := by
  have h1 := h.base
  have h2 := h.size
  have h3 := h.last
  simp only [pageSize] at h1 h2 h3
  exact if_neg (by simp only [pageSize]; omega)

theorem UsedInv.increasing (h : UsedInv s) : (s.vm.pcb.allocations.map Allocation.address).Pairwise (· < ·) := by
  rw [List.pairwise_map]
  exact h.ordered.imp_of_mem fun ha _ hab => hab.1.base_lt (h.placed _ ha).pos

/-- Parts 2 and 2.5 charge nothing. -/
theorem UsedInv.spot {vm : Vm} (h : UsedInv s) (hpos : 0 < size) (hlt : size < 2 ^ 31)
    (hspot : findSpot s.vm.regions node size s.vm.pcb.allocations = some (a, l))
    (hvm : vm = { vmemPageRegionAlloc s.vm a.region size with pcb := { s.vm.pcb with allocations := l } })
    (hcounted : Counted vm) : UsedInv ⟨vm, ⟨⟨a.address, size⟩, heapPte vm⟩ :: s.live⟩ := by
  subst hvm
  obtain ⟨iter, hiter, rfl, hend, hord⟩ := ordered_findSpot h.ordered (fun b hb => (h.placed b hb).within)
    (fun b hb => (h.placed b hb).spaceAtEnd)
    (fun b hb c hc hreg hbc => (h.placed b hb).gapBetween (hreg ▸ h.placed c hc) hbc) hspot
  have hold := h.placed iter hiter
  have hperm := findSpot_perm hspot
  have hzero := hold.behind hpos hend
  have hregion : ∀ p, ((vmemPageRegionAlloc s.vm iter.region size).regions p).basevaddr = (s.vm.regions p).basevaddr ∧
      ((vmemPageRegionAlloc s.vm iter.region size).regions p).size = (s.vm.regions p).size := by
    intro p
    simp only [vmemPageRegionAlloc, Function.update_apply]
    split <;> simp [*]
  refine ⟨hcounted, ordered_congr hord (fun b _ => (hregion _).1) (fun b _ => (hregion _).2), ?_, ?_, ?_, ?_⟩
  · intro b hb
    refine Placed.congr ?_ (hregion _).1 (hregion _).2
    rcases List.mem_cons.mp (hperm.mem_iff.mp hb) with rfl | hb
    · obtain ⟨h1, -⟩ := hold.range
      have h2 := hold.last
      refine ⟨hpos, hlt, hold.base, hold.size, ⟨?_, hend⟩, ?_⟩
      · exact Nat.le_trans h1 (Nat.le_add_right _ _)
      · dsimp only [nodeBehind]
        omega
    · exact h.placed b hb
  · exact (hperm.map Allocation.span).trans (h.listed.cons _)
  · intro x hx
    rcases List.mem_cons.mp hx with rfl | hx
    · exact hzero.ge
    · exact h.nonneg x hx
  · rw [charge_cons]
    dsimp only
    rw [show (nodeBehind node size iter).address = iter.address + iter.size from rfl, hzero, Int.zero_add]
    exact h.used

theorem UsedInv.newBase_aligned (h : UsedInv s) : newBase s.vm % pageSize = 0 := by
  unfold newBase
  split
  · rfl
  · next a ha =>
    have hplaced := h.placed a (List.mem_of_getLast? ha)
    have h1 := hplaced.base
    have h2 := hplaced.size
    simp only [regionEnd, pageSize] at h1 h2 ⊢
    omega

/-- Parts 1 and 3 charge the pages of the new region. -/
theorem UsedInv.region {s₁ vm : Vm} (h : UsedInv s) (hpos : 0 < size) (hlt : size < 2 ^ 31) (hrp : r₁ ∉ s.vm.held)
    (hc : vmemCreatePageRegion s.vm r₁ (newBase s.vm) (numPages size) user = some (some r₁, s₁))
    (hvm : vm = { vmemPageRegionAlloc s₁ r₁ size with
      pcb := { s.vm.pcb with
        allocations := s.vm.pcb.allocations ++ [⟨node, newBase s.vm, size, size, r₁⟩]
        usedMemory := s.vm.pcb.usedMemory + vmemPageAlignSize size } })
    (hcounted : Counted vm) : UsedInv ⟨vm, ⟨⟨newBase s.vm, size⟩, heapPte vm⟩ :: s.live⟩ := by
  subst hvm
  have hne : ∀ a ∈ s.vm.pcb.allocations, a.region ≠ r₁ := fun a ha he => hrp (he ▸ h.counted.held a ha)
  obtain ⟨hnum, -, -, -, ⟨bits, hregions⟩, -⟩ := vmemCreatePageRegion_some hc
  obtain ⟨hpages, hle⟩ := numPages_pos hlt hnum
  have hlt' := vmemPageAlignSize_lt hlt
  have haligned := h.newBase_aligned
  have hcharge : chargeOf ⟨newBase s.vm, size⟩ = vmemPageAlignSize size := if_pos haligned
  have hregion : ∀ p, (vmemPageRegionAlloc s₁ r₁ size).regions p = if p = r₁ then
      ⟨bits, newBase s.vm, 1, (numPages size).toNat * pageSize, size⟩ else s.vm.regions p := by
    intro p
    simp only [vmemPageRegionAlloc, hregions, Function.update_apply]
    split <;> simp
  have hplaced : ∀ b ∈ s.vm.pcb.allocations, Placed ((vmemPageRegionAlloc s₁ r₁ size).regions b.region) b := by
    intro b hb
    rw [hregion, if_neg (hne b hb)]
    exact h.placed b hb
  have hnew : Placed ((vmemPageRegionAlloc s₁ r₁ size).regions r₁) ⟨node, newBase s.vm, size, size, r₁⟩ := by
    rw [hregion, if_pos rfl]
    refine ⟨hpos, hlt, haligned, Nat.mul_mod_left _ _, ⟨Nat.le_refl _, Nat.add_le_add_left hle _⟩, ?_⟩
    dsimp only
    omega
  have hord : s.vm.pcb.allocations.Pairwise (Ordered (vmemPageRegionAlloc s₁ r₁ size).regions) :=
    ordered_congr h.ordered (fun b hb => by rw [hregion, if_neg (hne b hb)])
      (fun b hb => by rw [hregion, if_neg (hne b hb)])
  refine ⟨hcounted, ordered_append hord (fun b hb => (hplaced b hb).within) hnew.within fun b hb => ?_, ?_, ?_, ?_, ?_⟩
  · dsimp only
    rw [hregion, if_pos rfl, regionEnd, hregion, if_neg (hne b hb)]
    exact ordered_le_newBase h.ordered hb
  · intro b hb
    rcases List.mem_append.mp hb with hb | hb
    · exact hplaced b hb
    · rw [List.mem_singleton.mp hb]
      exact hnew
  · rw [List.map_append, List.map_cons]
    exact (List.perm_append_singleton _ _).trans (h.listed.cons _)
  · intro x hx
    rcases List.mem_cons.mp hx with rfl | hx
    · rw [hcharge, hpages]
      exact Int.natCast_nonneg _
    · exact h.nonneg x hx
  · rw [charge_cons, hcharge]
    dsimp only
    rw [h.used, Int.add_comm]

/-- No region could be made. -/
theorem UsedInv.null {s₁ : Vm} {base : Nat} (h : UsedInv s)
    (hc : vmemCreatePageRegion s.vm r₁ base (numPages size) user = some (none, s₁)) (hcounted : Counted s₁) :
    UsedInv ⟨s₁, s.live⟩ := by
  obtain ⟨hpcb, hregions, -⟩ := vmemCreatePageRegion_null hc
  refine ⟨hcounted, ?_, ?_, ?_, h.nonneg, ?_⟩
  all_goals dsimp only
  · rw [hpcb, hregions]
    exact h.ordered
  · rw [hpcb, hregions]
    exact h.placed
  · rw [hpcb]
    exact h.listed
  · rw [hpcb]
    exact h.used

/-- Unlinking a node credits its size; the regions keep their place. -/
theorem vmemStackFree_unlinked {s : Vm} {old : Allocation} (hu : unlink ptr s.pcb.allocations = some (old, l)) :
    (vmemStackFree s ptr).pcb.usedMemory = s.pcb.usedMemory - old.size ∧
      ∀ p, ((vmemStackFree s ptr).regions p).basevaddr = (s.regions p).basevaddr ∧
        ((vmemStackFree s ptr).regions p).size = (s.regions p).size := by
  obtain ⟨-, -, -, hcase⟩ := vmemStackFree_some hu
  rcases hcase with ⟨-, heq⟩ | ⟨-, heq⟩
  · rw [heq]
    refine ⟨rfl, fun p => ?_⟩
    simp only [Function.update_apply]
    split <;> simp [*]
  · rw [heq]
    simp only [freePages_pcb, freePages_regions]
    exact ⟨trivial, fun _ => ⟨trivial, trivial⟩⟩

/-- What is freed of a live address: its node, of which there is one. -/
theorem UsedInv.unlink {x : Live} (h : UsedInv s) (hx : x ∈ s.live) :
    ∃ old l, Vmem.unlink x.span.base s.vm.pcb.allocations = some (old, l) ∧
      (l.map Allocation.span).Perm ((s.live.eraseP fun a => a.span.base = x.span.base).map Live.span) ∧
      Placed (s.vm.regions old.region) old ∧
      charge s.live = chargeOf old.span + charge (s.live.eraseP fun a => a.span.base = x.span.base) ∧
      ∀ y ∈ s.live, y.span.base = x.span.base → y.span = old.span := by
  obtain ⟨old, l, hu, hlisted⟩ := unlink_live h.listed h.increasing hx
  have hperm := unlink_perm hu
  have hold : old ∈ s.vm.pcb.allocations := hperm.mem_iff.mpr (List.mem_cons_self ..)
  refine ⟨old, l, hu, hlisted, h.placed old hold, ?_, fun y hy hbase => ?_⟩
  · rw [← charge_eq_of_perm h.listed, ← charge_eq_of_perm hlisted, ← List.sum_cons, ← List.map_cons (f := chargeOf)]
    exact ((hperm.map Allocation.span).map chargeOf).sum_eq
  · obtain ⟨c, hc, hcy⟩ := List.mem_map.mp (h.listed.mem_iff.mpr (List.mem_map_of_mem hy))
    have haddr : c.address = old.address := by
      rw [(unlink_some hu).1, ← hbase, ← hcy]
      rfl
    rw [← hcy, List.inj_on_of_nodup_map (h.increasing.imp Nat.ne_of_lt) hc hold haddr]

/-- Freeing an address that is not live does nothing. -/
theorem UsedInv.free_dead (h : UsedInv s) (hdead : ¬ ∃ x ∈ s.live, x.span.base = ptr) :
    vmemStackFree s.vm ptr = s.vm ∧ (s.live.eraseP fun a => a.span.base = ptr) = s.live := by
  refine ⟨vmemStackFree_none ?_, List.eraseP_of_forall_not fun x hx hbase => hdead ⟨x, hx, by simpa using hbase⟩⟩
  cases hu : Vmem.unlink ptr s.vm.pcb.allocations with
  | none => rfl
  | some z =>
    have hold : z.1 ∈ s.vm.pcb.allocations := (unlink_perm hu).mem_iff.mpr (List.mem_cons_self ..)
    obtain ⟨x, hx, hspan⟩ := List.mem_map.mp (h.listed.mem_iff.mp (List.mem_map_of_mem hold))
    exact absurd ⟨x, hx, (congrArg Span.base hspan).trans (unlink_some hu).1⟩ hdead

/-- A free is credited with what was charged exactly if it is such a call. -/
theorem UsedInv.free_iff (h : UsedInv s) : (vmemStackFree s.vm ptr).pcb.usedMemory =
    charge (s.live.eraseP fun a => a.span.base = ptr) ↔ UsedOk s (.free ptr) := by
  by_cases hlive : ∃ x ∈ s.live, x.span.base = ptr
  · obtain ⟨x, hx, rfl⟩ := hlive
    obtain ⟨old, l, hu, -, hplaced, hcharge, honly⟩ := h.unlink hx
    have hused := h.used
    have haddr : old.address = x.span.base := (unlink_some hu).1
    have hiff := chargeOf_eq_len_iff (a := old.span) hplaced.pos hplaced.small
    rw [(vmemStackFree_unlinked hu).1]
    constructor
    · intro heq y hy hbase
      have hlen : chargeOf old.span = old.span.len := by
        have hsize : old.span.len = old.size := rfl
        omega
      rw [← haddr, honly y hy hbase]
      exact hiff.mp hlen
    · intro hok
      have hboth := hok x hx rfl
      have hspan := honly x hx rfl
      have hlen : chargeOf old.span = old.size := hiff.mpr (by rw [← hspan]; exact hboth)
      omega
  · obtain ⟨hfree, herase⟩ := h.free_dead hlive
    rw [hfree, herase]
    exact iff_of_true h.used fun x hx hbase => absurd ⟨x, hx, hbase⟩ hlive

theorem UsedInv.free (h : UsedInv s) (hok : UsedOk s (.free ptr)) :
    UsedInv ⟨vmemStackFree s.vm ptr, s.live.eraseP fun a => a.span.base = ptr⟩ := by
  have hused := h.free_iff.mpr hok
  have hcounted := h.counted.free ptr
  have hnonneg : ∀ x ∈ s.live.eraseP fun a => a.span.base = ptr, 0 ≤ chargeOf x.span := fun x hx =>
    h.nonneg x (List.mem_of_mem_eraseP hx)
  by_cases hlive : ∃ x ∈ s.live, x.span.base = ptr
  · obtain ⟨x, hx, rfl⟩ := hlive
    obtain ⟨old, l, hu, hlisted, -⟩ := h.unlink hx
    obtain ⟨-, l₁, l₂, hl, rfl⟩ := unlink_some hu
    have hsub : (l₁ ++ l₂).Sublist s.vm.pcb.allocations := by
      rw [hl]
      exact (List.sublist_cons_self _ _).append_left _
    obtain ⟨-, hregion⟩ := vmemStackFree_unlinked hu
    obtain ⟨hnodes, -⟩ := vmemStackFree_some hu
    refine ⟨hcounted, ?_, ?_, ?_, hnonneg, hused⟩
    all_goals dsimp only
    · rw [hnodes]
      exact ordered_congr (h.ordered.sublist hsub) (fun b _ => (hregion _).1) (fun b _ => (hregion _).2)
    · rw [hnodes]
      exact fun b hb => (h.placed b (hsub.subset hb)).congr (hregion _).1 (hregion _).2
    · rw [hnodes]
      exact hlisted
  · obtain ⟨hfree, herase⟩ := h.free_dead hlive
    rw [hfree, herase]
    exact h

/-- Part 1.5 charges nothing for a region at the start of the heap. -/
theorem UsedInv.unlinked {s₁ : Vm} (h : UsedInv s) (hlt : size < 2 ^ 31)
    (hc : vmemCreatePageRegion s.vm r₁ vmemHeap (numPages size) user = some (some r₁, s₁)) :
    (vmemPageRegionAlloc s₁ r₁ size).pcb.usedMemory < chargeOf ⟨vmemHeap, size⟩ + charge s.live := by
  obtain ⟨hnum, -, hpcb, -⟩ := vmemCreatePageRegion_some hc
  obtain ⟨hpages, -⟩ := numPages_pos hlt hnum
  have hheap : vmemHeap % pageSize = 0 := by decide
  have hcharge : chargeOf ⟨vmemHeap, size⟩ = vmemPageAlignSize size := if_pos hheap
  rw [vmemPageRegionAlloc_pcb, hpcb, h.used, hcharge, hpages]
  simp only [pageSize]
  omega

/-- What part 1.5 does. -/
theorem heapStep_headFreed (hhead : HeadFreed s.vm size) (h : heapStep s (.alloc node r₁ size) = some t) :
    (∃ s₁, vmemCreatePageRegion s.vm r₁ vmemHeap (numPages size) user = some (none, s₁) ∧ t = ⟨s₁, s.live⟩) ∨
    ∃ s₁, vmemCreatePageRegion s.vm r₁ vmemHeap (numPages size) user = some (some r₁, s₁) ∧
      t.vm = vmemPageRegionAlloc s₁ r₁ size ∧ charge t.live = chargeOf ⟨vmemHeap, size⟩ + charge s.live := by
  obtain ⟨head, hmem, hfreed⟩ := hhead
  rw [heapStep] at h
  split at h
  · obtain ⟨⟨o, vm⟩, hv, rfl⟩ := Option.map_eq_some_iff.mp h
    unfold vmemStackAlloc at hv
    dsimp only at hv
    split at hv
    · next hnil => simp [hnil] at hmem
    · next head' rest hcons =>
      obtain rfl : head' = head := by simpa [hcons] using hmem
      rw [if_pos hfreed] at hv
      split at hv
      · cases hv
      · next s₁ hc =>
        cases hv
        exact .inl ⟨vm, hc, rfl⟩
      · next p s₁ hc =>
        cases hv
        obtain ⟨-, rfl, -⟩ := vmemCreatePageRegion_some hc
        exact .inr ⟨s₁, hc, rfl, charge_cons _⟩
  · cases h

/-- **One call** keeps `used_memory` exactly if it is such a call. -/
theorem UsedInv.kept_iff {op : HeapOp} (h : UsedInv s) (hst : usedStep s op = some t) :
    (t.vm.pcb.usedMemory = charge t.live ↔ UsedOk s op) ∧ (UsedOk s op → UsedInv t) := by
  cases op with
  | free ptr =>
    cases hst
    exact ⟨h.free_iff, h.free⟩
  | alloc node r₁ size =>
    have hst : heapStep s (.alloc node r₁ size) = some t := hst
    have hcounted := heapStep_counted h.counted hst
    obtain ⟨hpos, hlt, hrp, o, hcase, hlive⟩ := heapStep_alloc hst
    by_cases hhead : HeadFreed s.vm size
    · rcases heapStep_headFreed hhead hst with ⟨s₁, hc, rfl⟩ | ⟨s₁, hc, hvm, hcharge⟩
      · have hinv := h.null hc hcounted
        refine ⟨iff_of_true hinv.used fun _ p s' hsome => ?_, fun _ => hinv⟩
        cases hc.symm.trans hsome
      · have hnot : ¬ UsedOk s (.alloc node r₁ size) := fun hok => hok hhead r₁ s₁ hc
        have hless := h.unlinked hlt hc
        rw [hvm, hcharge]
        exact ⟨iff_of_false (Int.ne_of_lt hless) hnot, fun hok => absurd hok hnot⟩
    · suffices hinv : UsedInv t from ⟨iff_of_true hinv.used fun hh => absurd hh hhead, fun _ => hinv⟩
      obtain ⟨vm, live⟩ := t
      dsimp only at hcase hcounted hlive
      cases hcase with
      | null hwhy hc =>
        subst hlive
        exact h.null hc hcounted
      | unlinked hh _ => exact absurd hh hhead
      | spot _ hspot =>
        subst hlive
        exact h.spot hpos hlt hspot rfl hcounted
      | region _ hspot hc =>
        subst hlive
        exact h.region hpos hlt hrp hc rfl hcounted

end Inv

/-- **The runs** that keep `used_memory` are those in which no allocation is made by part 1.5 and every allocation that
is freed begins a region and fills its pages. -/
theorem usedMemory_run (s : Vm) (ops : List HeapOp) (t : HeapRun) :
    (Run (fun s op t => usedStep s op = some t) UsedKept (newHeap s) ops t ↔
      Run (fun s op t => usedStep s op = some t) UsedOk (newHeap s) ops t) ∧
    (Run (fun s op t => usedStep s op = some t) UsedOk (newHeap s) ops t → Charged t) := by
  have hstep : ∀ s op t, UsedInv s → UsedOk s op → usedStep s op = some t → UsedInv t :=
    fun s op t hs hok hst => (hs.kept_iff hst).2 hok
  have hiff : ∀ s op t, UsedInv s → usedStep s op = some t → (UsedOk s op ↔ UsedKept s op) := by
    intro s op t hs hst
    constructor
    · intro hok t' hst'
      exact ((hs.kept_iff hst').2 hok).charged
    · intro hkept
      exact (hs.kept_iff hst).1.mp (hkept t hst).used
  exact ⟨(Run.congr_step hstep hiff (usedInv_newHeap s)).symm,
    fun h => (h.invariant hstep (usedInv_newHeap s)).charged⟩

/-- 100 bytes are allocated and freed: nothing is allocated as in the beginning, but 3996 bytes are in use. -/
theorem usedMemory_left : ∃ s, vmemInitProcess bootVm 0x300000 (fun _ => 0) 100 = some s ∧
    ¬ ∃ f : List Span → Int, ∀ ops t, AnyRun (fun s op t => usedStep s op = some t) (newHeap s) ops t →
      t.vm.pcb.usedMemory = f (t.live.map Live.span) := by
  have hexec : ∃ s t, vmemInitProcess bootVm 0x300000 (fun _ => 0) 100 = some s ∧
      exec usedStep (newHeap s) [.alloc 1 0x10 100, .free 0xE0000000] = some t ∧
      t.live.map Live.span = [] ∧ t.vm.pcb.usedMemory = 3996 := by
    simp only [vmemInitProcess, mapData_last (show ¬ pageSize < 100 by decide)]
    exact ⟨_, _, rfl, rfl, rfl, rfl⟩
  obtain ⟨s, t, hinit, hrun, hlive, hused⟩ := hexec
  refine ⟨s, hinit, ?_⟩
  rintro ⟨f, hf⟩
  have hstart : (0 : Int) = f [] := hf [] (newHeap s) (.nil _)
  have hend := hf _ t (run_of_exec hrun)
  rw [hlive, hused, ← hstart] at hend
  omega

end RetrOS.Vmem
