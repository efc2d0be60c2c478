import RetrOS.Kernel.VmemLeak
import RetrOS.Kernel.VmemList

/-!
# The heap of a process

`HeapOk` says what the allocation list is for: the live allocations are exactly its nodes, in
increasing order, apart from each other, inside their regions, and their pages stay mapped. The code
keeps this as long as no step meets one of its slips (`StepOk`):

* part 1.5 of `vmem_stack_alloc` returns a node that is on no list, over pages that may be in use;
* a region may reach beyond the 4 MB of the one heap table;
* `vmem_free_page_region` unmaps every fourth page from the start of the region on, and so pages of
  other regions.

`HeapFrame` says which page-table entries a call writes, `HeapInv` puts it together with the invariant of
the list (`heapStep_inv`), and `processHeap_ok` is the result for every run.
-/

namespace RetrOS.Vmem

open RetrOS.Lib RetrOS.Bitmap

/-- What the heap of a process promises. -/
structure HeapOk (s : HeapRun) : Prop where
  /-- The live allocations are the nodes of the list, each once. -/
  listed : (s.vm.pcb.allocations.map Allocation.span).Perm (s.live.map Live.span)
  /-- The list is in strictly increasing address order. -/
  increasing : (s.vm.pcb.allocations.map Allocation.address).Pairwise (· < ·)
  /-- The ranges of live allocations are pairwise disjoint. -/
  apart : (s.live.map Live.span).Pairwise Span.Apart
  /-- Every allocation lies inside its region. -/
  inside : ∀ a ∈ s.vm.pcb.allocations, a.span.Within (s.vm.regions a.region).span
  /-- The page-table entries of a live allocation are those it was returned with. -/
  mapped : ∀ a ∈ s.live, ∀ v, a.span.Has v → heapPte s.vm v = a.pte v

/-! ## The condition -/

/-- The address `vmem_free_page_region` unmaps for page `i`. -/
def VmemPageRegion.unmapped (r : VmemPageRegion) (i : Nat) : Nat := r.basevaddr + 4 * (i * pageSize)

/-- Part 1.5 is not taken, and a new region ends within the pages of the heap table. -/
def AllocOk (s : Vm) (node size : Nat) : Prop :=
  ¬ HeadFreed s size ∧ (findSpot s.regions node size s.pcb.allocations = none →
    (newBase s : Int) + vmemPageAlignSize size ≤ heapEnd)

/-- If the region is given back, the entries that are cleared lie in the heap table, and none of them
belongs to a page of another allocation. -/
def FreeOk (s : Vm) (ptr : Nat) : Prop :=
  ∀ old l, unlink ptr s.pcb.allocations = some (old, l) → (s.regions old.region).refs ≤ 1 →
    ∀ i < (s.regions old.region).size / pageSize, (s.regions old.region).bits.getD i 0 ≠ 0 →
      (s.regions old.region).unmapped i < heapEnd ∧
        ∀ b ∈ l, ∀ v, b.span.Has v → tableIndex ((s.regions old.region).unmapped i) ≠ tableIndex v

/-- The condition on a step. -/
def StepOk (s : HeapRun) : HeapOp → Prop
  | .alloc node _ size => AllocOk s.vm node size
  | .free ptr => FreeOk s.vm ptr

/-! ## The page-table entries a call writes -/

/-- The heap table. -/
def heapTable (s : Vm) : Nat := vmemGetPageTable s.mem s.pcb.pageDir vmemHeap

/-- From `s` to `s'` only entries of the heap table were written, those of the addresses in `W`. -/
structure HeapFrame (W : Nat → Prop) (s s' : Vm) : Prop where
  pageDir : s'.pcb.pageDir = s.pcb.pageDir
  mem : ∀ a, (∀ w, W w → a ≠ heapTable s + 4 * tableIndex w) → s'.mem a = s.mem a

/-- The address lies in the 4 MB of the heap table. -/
def InHeap (v : Nat) : Prop := vmemHeap ≤ v ∧ v < heapEnd

theorem inHeap_iff {v : Nat} : InHeap v ↔ 0xE0000000 ≤ v ∧ v < 0xE0400000 := Iff.rfl

theorem tableIndex_lt (v : Nat) : tableIndex v < 1024 := Nat.mod_lt _ (by decide)

theorem table_of_inHeap {v : Nat} (hv : InHeap v) (s : Vm) :
    vmemGetPageTable s.mem s.pcb.pageDir v = heapTable s := by
  have hdir : directoryIndex v = directoryIndex vmemHeap := by
    unfold InHeap at hv
    simp only [directoryIndex, vmemHeap, heapEnd] at hv ⊢
    omega
  rw [heapTable, vmemGetPageTable, hdir, ← vmemGetPageTable]

theorem tableIndex_ne {v w : Nat} (hv : InHeap v) (hw : InHeap w) (h : v / pageSize ≠ w / pageSize) :
    tableIndex v ≠ tableIndex w := by
  unfold InHeap at hv hw
  simp only [tableIndex, pageSize, vmemHeap, heapEnd] at *
  omega

section Frame
variable {W W' : Nat → Prop} {s s' s'' : Vm} {v : Nat}

theorem HeapFrame.refl (W : Nat → Prop) (s : Vm) : HeapFrame W s s := ⟨rfl, fun _ _ => rfl⟩

theorem HeapFrame.table (h : HeapFrame W s s') (hs : HeapReady s) : heapTable s' = heapTable s := by
  have hmem := h.mem (s.pcb.pageDir + 4 * directoryIndex vmemHeap) fun w _ => ?_
  · rw [heapTable, vmemGetPageTable, h.pageDir, hmem, ← vmemGetPageTable, ← heapTable]
  · have h1 := hs.aligned
    have h2 : heapTable s % pageSize = 0 := pageMasked_aligned _
    have h3 : heapTable s ≠ s.pcb.pageDir := hs.apart
    have h4 := tableIndex_lt w
    rw [directoryIndex_vmemHeap]
    simp only [pageSize] at h1 h2
    omega

theorem HeapFrame.ready (h : HeapFrame W s s') (hs : HeapReady s) : HeapReady s' := by
  have ht := h.table hs
  refine ⟨by rw [h.pageDir]; exact hs.aligned, ?_⟩
  unfold heapTable at ht
  rw [ht, h.pageDir]
  exact hs.apart

theorem HeapFrame.trans (hs : HeapReady s) (h : HeapFrame W s s') (h' : HeapFrame W' s' s'') :
    HeapFrame (fun w => W w ∨ W' w) s s'' := by
  refine ⟨h'.pageDir.trans h.pageDir, fun a ha => ?_⟩
  rw [h'.mem a fun w hw => by rw [h.table hs]; exact ha w (.inr hw)]
  exact h.mem a fun w hw => ha w (.inl hw)

theorem HeapFrame.mono (h : HeapFrame W s s') (hW : ∀ w, W w → W' w) : HeapFrame W' s s' :=
  ⟨h.pageDir, fun a ha => h.mem a fun w hw => ha w (hW w hw)⟩

theorem HeapFrame.pte (h : HeapFrame W s s') (hs : HeapReady s) (hv : InHeap v)
    (hW : ∀ w, W w → tableIndex w ≠ tableIndex v) : heapPte s' v = heapPte s v := by
  rw [heapPte, heapPte, table_of_inHeap hv, table_of_inHeap hv, h.table hs]
  refine h.mem _ fun w hw => ?_
  have := hW w hw
  omega

theorem createPageRegion_frame {rp base access : Nat} {num : Int} {o : Option Nat}
    (h : vmemCreatePageRegion s rp base num access = some (o, s')) :
    HeapFrame (fun w => ∃ j < num.toNat, w = base + j * pageSize) s s' := by
  cases o with
  | none =>
    obtain ⟨h1, -, -, h4⟩ := vmemCreatePageRegion_null h
    exact ⟨by rw [h1], fun a ha => h4 a fun j hj => ha _ ⟨j, hj, rfl⟩⟩
  | some p =>
    obtain ⟨-, -, h1, -, -, h4⟩ := vmemCreatePageRegion_some h
    exact ⟨by rw [h1], fun a ha => h4 a fun j hj => ha _ ⟨j, hj, rfl⟩⟩

/-- Giving back the pages of a region clears the entries of the addresses it computes, as long as these
lie in the heap. -/
theorem freePages_heapFrame {r : VmemPageRegion} :
    ∀ {n i : Nat} {s : Vm}, HeapReady s →
      (∀ j, i ≤ j → j < i + n → r.bits.getD j 0 ≠ 0 → InHeap (r.unmapped j)) →
      HeapFrame (fun w => ∃ j, i ≤ j ∧ j < i + n ∧ r.bits.getD j 0 ≠ 0 ∧ w = r.unmapped j) s (freePages r n i s)
  | 0, _, s, _, _ => .refl _ s
  | n + 1, i, s, hs, hin => by
    rw [freePages]
    have hin' : ∀ j, i + 1 ≤ j → j < i + 1 + n → r.bits.getD j 0 ≠ 0 → InHeap (r.unmapped j) :=
      fun j h1 h2 => hin j (by omega) (by omega)
    split
    · refine (freePages_heapFrame hs hin').mono fun w hw => ?_
      obtain ⟨j, h1, h2, h3⟩ := hw
      exact ⟨j, by omega, by omega, h3⟩
    · next hbit =>
      have hi := hin i (Nat.le_refl i) (by omega) hbit
      have hone : HeapFrame (fun w => w = r.unmapped i) s
          { s with
            default := vmemFree s.default (s.default.start + r.bits.getD i 0 * pageSize)
            mem := vmemUnmap s.mem (vmemGetPageTable s.mem s.pcb.pageDir (r.unmapped i)) (r.unmapped i) } := by
        refine ⟨rfl, fun a ha => Function.update_of_ne ?_ _ _⟩
        rw [table_of_inHeap hi]
        exact ha _ rfl
      refine (hone.trans hs (freePages_heapFrame (hone.ready hs) hin')).mono fun w hw => ?_
      rcases hw with rfl | ⟨j, h1, h2, h3⟩
      · exact ⟨i, Nat.le_refl i, by omega, hbit, rfl⟩
      · exact ⟨j, by omega, by omega, h3⟩

end Frame

/-! ## One step -/

/-- The invariant of a process heap. -/
structure HeapInv (s : HeapRun) : Prop where
  counted : Counted s.vm
  ready : HeapReady s.vm
  list : ListInv s.vm.regions s.vm.pcb.allocations
  listed : (s.vm.pcb.allocations.map Allocation.span).Perm (s.live.map Live.span)
  mapped : ∀ a ∈ s.live, ∀ v, a.span.Has v → heapPte s.vm v = a.pte v

theorem HeapInv.ok {s : HeapRun} (hs : HeapInv s) : HeapOk s := by
  have hbefore : (s.vm.pcb.allocations.map Allocation.span).Pairwise Span.Before := by
    rw [List.pairwise_map]
    exact hs.list.ordered.imp fun h => h.1
  refine ⟨hs.listed, ?_, ?_, hs.list.inside, hs.mapped⟩
  · have h := Span.base_lt_of_before hbefore fun a ha => by
      obtain ⟨b, hb, rfl⟩ := List.mem_map.mp ha
      exact hs.list.nonempty b hb
    rwa [List.map_map] at h
  · exact (hs.listed.pairwise_iff fun h => h.symm).mp (Span.apart_of_before hbefore)

/-- A size is rounded up to whole pages; only a size in the last page of the `int` range overflows. -/
theorem vmemPageAlignSize_cases {size : Nat} (hlt : size < 2 ^ 31) :
    vmemPageAlignSize size < 0 ∨
      ∃ n : Nat, vmemPageAlignSize size = (n * pageSize : Nat) ∧ size ≤ n * pageSize := by
  have hclosest : ∃ n : Nat, (if 0 < size % pageSize then ((size : Int) / pageSize + 1) * pageSize
      else (size : Int) / pageSize * pageSize) = (n * pageSize : Nat) ∧ size ≤ n * pageSize ∧
        n * pageSize ≤ 2 ^ 31 := by
    have hpage : ((pageSize : Nat) : Int) = 4096 := rfl
    rw [hpage]
    simp only [pageSize]
    split
    · exact ⟨size / 4096 + 1, by omega, by omega, by omega⟩
    · exact ⟨size / 4096, by omega, by omega, by omega⟩
  obtain ⟨n, hn, hle, hmax⟩ := hclosest
  rw [vmemPageAlignSize, wrapInt, hn, Int.bmod_def]
  split
  · exact .inr ⟨n, by omega, hle⟩
  · exact .inl (by omega)

theorem numPages_pos {size : Nat} (hlt : size < 2 ^ 31) (h : 0 < numPages size) :
    vmemPageAlignSize size = ((numPages size).toNat * pageSize : Nat) ∧
      size ≤ (numPages size).toNat * pageSize := by
  rcases vmemPageAlignSize_cases hlt with hneg | ⟨n, hn, hle⟩
  · have h1 : 0 ≤ (-vmemPageAlignSize size).tdiv pageSize := Int.tdiv_nonneg (by omega) (by decide)
    rw [Int.neg_tdiv] at h1
    unfold numPages at h
    omega
  · have hnum : numPages size = n := by
      rw [numPages, hn, Int.tdiv_eq_ediv_of_nonneg (Int.natCast_nonneg _)]
      simp only [pageSize]
      omega
    rw [hnum, Int.toNat_natCast]
    exact ⟨hn, hle⟩

section Steps
variable {s t : HeapRun}

theorem HeapInv.newPages {rp size : Nat} {o : Option Nat} {s' : Vm} (hs : HeapInv s)
    (hok : (newBase s.vm : Int) + vmemPageAlignSize size ≤ heapEnd) (hlt : size < 2 ^ 31)
    (h : vmemCreatePageRegion s.vm rp (newBase s.vm) (numPages size) user = some (o, s')) :
    HeapReady s' ∧ ∀ a ∈ s.live, ∀ v, a.span.Has v → heapPte s' v = heapPte s.vm v := by
  have hframe := createPageRegion_frame h
  refine ⟨hframe.ready hs.ready, fun a ha v hv => hframe.pte hs.ready ?_ ?_⟩
  all_goals
    have hspan : a.span ∈ s.vm.pcb.allocations.map Allocation.span :=
      hs.listed.mem_iff.mpr (List.mem_map_of_mem ha)
    obtain ⟨b, hb, hba⟩ := List.mem_map.mp hspan
    obtain ⟨h1, h2, h3⟩ := hs.list.range hb
    have h4 := hs.list.le_newBase hb
    rw [← hba] at hv
    unfold Span.Has Span.stop Allocation.span at hv
    dsimp only at hv
  · exact ⟨by omega, by omega⟩
  · rintro w ⟨j, hj, rfl⟩
    obtain ⟨h5, h6⟩ := numPages_pos hlt (by omega)
    obtain ⟨h7, h8⟩ := hs.list.newBase_ok
    have h9 : j * pageSize + pageSize ≤ (numPages size).toNat * pageSize := by
      rw [← Nat.succ_mul]
      exact Nat.mul_le_mul_right _ hj
    simp only [vmemHeap, heapEnd, pageSize] at *
    refine tableIndex_ne (inHeap_iff.mpr ⟨by omega, by omega⟩) (inHeap_iff.mpr ⟨by omega, by omega⟩) ?_
    simp only [pageSize]
    omega

/-- A node in a region of the list. -/
theorem HeapInv.spot {node size : Nat} {a : Allocation} {l : List Allocation} {vm : Vm} (hs : HeapInv s)
    (hpos : 0 < size) (hspot : findSpot s.vm.regions node size s.vm.pcb.allocations = some (a, l))
    (hvm : vm = { vmemPageRegionAlloc s.vm a.region size with pcb := { s.vm.pcb with allocations := l } })
    (hcounted : Counted vm) : HeapInv ⟨vm, ⟨⟨a.address, size⟩, heapPte vm⟩ :: s.live⟩ := by
  subst hvm
  obtain ⟨l₁, iter, l₂, -, ha, -⟩ := findSpot_some hspot
  have hperm := (findSpot_perm hspot).map Allocation.span
  have hspan : a.span = ⟨a.address, size⟩ := by rw [ha]; rfl
  refine ⟨hcounted, ⟨hs.ready.aligned, hs.ready.apart⟩, (hs.list.findSpot hpos hspot).congr ?_ ?_, ?_, ?_⟩
  · intro b _
    simp only [vmemPageRegionAlloc, Function.update_apply]
    split <;> simp [*]
  · intro b _
    simp only [vmemPageRegionAlloc, Function.update_apply]
    split <;> simp [*]
  · rw [List.map_cons, ← hspan]
    exact hperm.trans (hs.listed.cons _)
  · intro b hb v hv
    rcases List.mem_cons.mp hb with rfl | hb
    · rfl
    · exact hs.mapped b hb v hv

/-- A region of its own at the end of the list. -/
theorem HeapInv.region {node rp size : Nat} {s₁ vm : Vm} (hs : HeapInv s) (hpos : 0 < size) (hlt : size < 2 ^ 31)
    (hrp : rp ∉ s.vm.held) (hfit : (newBase s.vm : Int) + vmemPageAlignSize size ≤ heapEnd)
    (hc : vmemCreatePageRegion s.vm rp (newBase s.vm) (numPages size) user = some (some rp, s₁))
    (hvm : vm = { vmemPageRegionAlloc s₁ rp size with
      pcb := { s.vm.pcb with
        allocations := s.vm.pcb.allocations ++ [⟨node, newBase s.vm, size, size, rp⟩]
        usedMemory := s.vm.pcb.usedMemory + vmemPageAlignSize size } })
    (hcounted : Counted vm) : HeapInv ⟨vm, ⟨⟨newBase s.vm, size⟩, heapPte vm⟩ :: s.live⟩ := by
  subst hvm
  have hne : ∀ a ∈ s.vm.pcb.allocations, a.region ≠ rp := fun a ha he => hrp (he ▸ hs.counted.held a ha)
  obtain ⟨hnum, -, h1, -, ⟨bits, h3⟩, -⟩ := vmemCreatePageRegion_some hc
  obtain ⟨hready, hpte⟩ := hs.newPages hfit hlt hc
  obtain ⟨hn1, hn2⟩ := numPages_pos hlt hnum
  obtain ⟨hb1, hb2⟩ := hs.list.newBase_ok
  have hregion : ∀ r, (vmemPageRegionAlloc s₁ rp size).regions r = if r = rp then
      ⟨bits, newBase s.vm, 1, (numPages size).toNat * pageSize, size⟩ else s.vm.regions r := by
    intro r
    simp only [vmemPageRegionAlloc, h3, Function.update_apply]
    split <;> simp
  have hold : ListInv (vmemPageRegionAlloc s₁ rp size).regions s.vm.pcb.allocations :=
    hs.list.congr (fun b hb => by rw [hregion, if_neg (hne b hb)])
      (fun b hb => by rw [hregion, if_neg (hne b hb)])
  refine ⟨hcounted, ?_, hold.append hpos ?_ ?_ ?_, ?_, ?_⟩
  · exact ⟨h1 ▸ hready.aligned, h1 ▸ hready.apart⟩
  · dsimp only
    rw [hregion, if_pos rfl]
    exact ⟨Nat.le_refl _, Nat.add_le_add_left hn2 _⟩
  · dsimp only
    rw [hregion, if_pos rfl]
    exact ⟨hb1, Nat.mul_mod_left _ _, hb2, by dsimp only; omega⟩
  · intro b hb
    dsimp only
    rw [hregion, if_pos rfl, regionEnd, hregion, if_neg (hne b hb)]
    exact hs.list.le_newBase hb
  · rw [List.map_append, List.map_cons]
    exact (List.perm_append_singleton _ _).trans (hs.listed.cons _)
  · intro b hb v hv
    rcases List.mem_cons.mp hb with rfl | hb
    · rfl
    · have hb' := hpte b hb v hv
      rw [heapPte, h1] at hb'
      exact hb'.trans (hs.mapped b hb v hv)

/-- **An allocation that meets the condition keeps the invariant.** -/
theorem heapStep_alloc_inv {node rp size : Nat} (hs : HeapInv s) (hok : AllocOk s.vm node size)
    (h : heapStep s (.alloc node rp size) = some t) : HeapInv t := by
  have hcounted := heapStep_counted hs.counted h
  obtain ⟨hpos, hlt, hrp, o, hcase, hlive⟩ := heapStep_alloc h
  cases o with
  | none =>
    obtain ⟨vm, live⟩ := t
    dsimp only at hcase hlive
    subst hlive
    cases hcase with
    | null hwhy hc =>
      obtain ⟨rfl, hspot⟩ := hwhy.resolve_left hok.1
      obtain ⟨h1, h2, -⟩ := vmemCreatePageRegion_null hc
      obtain ⟨hready, hpte⟩ := hs.newPages (hok.2 hspot) hlt hc
      refine ⟨hcounted, hready, by rw [h1, h2]; exact hs.list, by rw [h1]; exact hs.listed, fun a ha v hv => ?_⟩
      rw [hpte a ha v hv]
      exact hs.mapped a ha v hv
  | some p =>
    obtain ⟨vm, live⟩ := t
    dsimp only at hcase hlive hcounted
    subst hlive
    cases hcase with
    | unlinked hhead _ => exact absurd hhead hok.1
    | spot _ hspot => exact hs.spot hpos hspot rfl hcounted
    | region _ hspot hc => exact hs.region hpos hlt hrp (hok.2 hspot) hc rfl hcounted

/-- Unlinking the node of a live address takes this allocation off both lists. -/
theorem unlink_live {l : List Allocation} {live : List Live} {x : Live}
    (hlisted : (l.map Allocation.span).Perm (live.map Live.span))
    (hincreasing : (l.map Allocation.address).Pairwise (· < ·)) (hx : x ∈ live) :
    ∃ old l', unlink x.span.base l = some (old, l') ∧
      (l'.map Allocation.span).Perm ((live.eraseP fun a => a.span.base = x.span.base).map Live.span) := by
  have hnode : ∀ y ∈ live, ∃ c ∈ l, c.span = y.span := fun y hy =>
    List.mem_map.mp (hlisted.mem_iff.mpr (List.mem_map_of_mem hy))
  cases hu : unlink x.span.base l with
  | none =>
    obtain ⟨c, hc, hcx⟩ := hnode x hx
    exact absurd (by rw [← hcx]; rfl) (unlink_none hu c hc)
  | some z =>
    obtain ⟨old, l'⟩ := z
    refine ⟨old, l', rfl, ?_⟩
    have hperm := unlink_perm hu
    obtain ⟨y, m₁, m₂, -, hy, hlive, herase⟩ :=
      List.exists_of_eraseP (p := fun a : Live => a.span.base = x.span.base) hx (by simp)
    obtain ⟨c, hc, hcy⟩ := hnode y (by rw [hlive]; simp)
    -- addresses are unique, so the node that is unlinked is the one of `y`
    have hinj := List.inj_on_of_nodup_map (hincreasing.imp Nat.ne_of_lt)
    have hco : c = old := by
      refine hinj hc (hperm.mem_iff.mpr (List.mem_cons_self ..)) ?_
      rw [(unlink_some hu).1]
      rw [decide_eq_true_eq] at hy
      rw [← hy, ← hcy]
      rfl
    have hall := (hperm.map Allocation.span).symm.trans hlisted
    rw [hlive] at hall
    rw [herase]
    have hmid : (m₁ ++ y :: m₂).Perm (y :: (m₁ ++ m₂)) := List.perm_middle
    have hboth := hall.trans (hmid.map Live.span)
    rw [List.map_cons, ← hco, hcy] at hboth
    exact hboth.cons_inv

/-- **A free that meets the condition keeps the invariant.** -/
theorem heapStep_free_inv {ptr : Nat} (hs : HeapInv s) (hok : FreeOk s.vm ptr)
    (h : heapStep s (.free ptr) = some t) : HeapInv t := by
  have hcounted := heapStep_counted hs.counted h
  obtain ⟨hmem, hvm, hlive⟩ := heapStep_free h
  obtain ⟨x, hx, rfl⟩ := List.mem_map.mp hmem
  obtain ⟨old, l, hu, hlisted⟩ := unlink_live hs.listed hs.ok.increasing hx
  have hok := hok old l hu
  obtain ⟨-, l₁, l₂, hl, hl'⟩ := unlink_some hu
  have hsub : l.Sublist s.vm.pcb.allocations := by
    rw [hl, hl']
    exact (List.sublist_cons_self _ _).append_left _
  have hinv := hs.list.sublist hsub
  obtain ⟨hl, hdir, -, hcase⟩ := vmemStackFree_some hu
  obtain ⟨vm, live⟩ := t
  dsimp only at hvm hlive hcounted
  subst hvm hlive
  have hin : ∀ a ∈ s.live.eraseP fun a => a.span.base = x.span.base, a ∈ s.live ∧ ∃ b ∈ l, b.span = a.span :=
    fun a ha => ⟨List.mem_of_mem_eraseP ha, List.mem_map.mp (hlisted.mem_iff.mpr (List.mem_map_of_mem ha))⟩
  rcases hcase with ⟨-, he⟩ | ⟨hr, he⟩
  · refine ⟨hcounted, ?_, ?_, ?_, ?_⟩
    · rw [he]
      exact ⟨hs.ready.aligned, hs.ready.apart⟩
    · rw [he]
      refine hinv.congr (fun b _ => ?_) (fun b _ => ?_)
      all_goals
        simp only [Function.update_apply]
        split <;> simp [*]
    · rw [hl]
      exact hlisted
    · intro a ha v hv
      rw [he]
      exact hs.mapped a (hin a ha).1 v hv
  · have hold : old ∈ s.vm.pcb.allocations := (unlink_perm hu).mem_iff.mpr (List.mem_cons_self ..)
    have hlow := (hs.list.bounds old hold).low
    have hframe := freePages_heapFrame (r := s.vm.regions old.region)
      (n := (s.vm.regions old.region).size / pageSize) (i := 0)
      (s := { s.vm with pcb := { s.vm.pcb with allocations := l, usedMemory := s.vm.pcb.usedMemory - old.size } })
      ⟨hs.ready.aligned, hs.ready.apart⟩ (fun j _ hj hb => ⟨by
        rw [VmemPageRegion.unmapped]
        omega, (hok hr j (by omega) hb).1⟩)
    refine ⟨hcounted, ?_, ?_, ?_, ?_⟩
    · rw [he]
      have hready := hframe.ready ⟨hs.ready.aligned, hs.ready.apart⟩
      exact ⟨hready.aligned, hready.apart⟩
    · rw [he]
      simp only [freePages_regions, freePages_pcb]
      exact hinv
    · rw [hl]
      exact hlisted
    · intro a ha v hv
      obtain ⟨ha, b, hb, hba⟩ := hin a ha
      obtain ⟨h1, h2, h3⟩ := hinv.range hb
      rw [← hba] at hv
      have hvin : InHeap v := by
        unfold Span.Has Span.stop Allocation.span at hv
        dsimp only at hv
        exact ⟨by omega, by omega⟩
      have hpte := hframe.pte ⟨hs.ready.aligned, hs.ready.apart⟩ hvin (by
        rintro w ⟨j, -, hj, hbit, rfl⟩
        exact (hok hr j (by omega) hbit).2 b hb v hv)
      rw [he]
      rw [hba] at hv
      exact hpte.trans (hs.mapped a ha v hv)

theorem heapStep_inv {op : HeapOp} (hs : HeapInv s) (hok : StepOk s op) (h : heapStep s op = some t) :
    HeapInv t := by
  cases op with
  | alloc node rp size => exact heapStep_alloc_inv hs hok h
  | free ptr => exact heapStep_free_inv hs hok h

theorem vmemInitProcess_inv {s s₁ : Vm} {kernelPageDir size : Nat} {data : Nat → Nat}
    (hstart : s.default.start % pageSize = 0)
    (hinit : vmemInitProcess s kernelPageDir data size = some s₁) : HeapInv ⟨s₁, []⟩ := by
  obtain ⟨-, hnil, -⟩ := vmemInitProcess_some hinit
  refine ⟨⟨by simp [hnil], by simp [hnil, Vmem.listed]⟩, (vmemInitProcess_ready hstart hinit).1, ?_, ?_, by simp⟩
  · refine ⟨?_, ?_, ?_, ?_⟩ <;> simp [hnil]
  · simp [hnil]

end Steps

/-! ## Runs -/

/-- **In every run of a new process whose steps meet the condition, the heap keeps its promises.** -/
theorem processHeap_ok {s s₁ : Vm} {kernelPageDir size : Nat} {data : Nat → Nat} {ops : List HeapOp}
    {t : HeapRun} (hstart : s.default.start % pageSize = 0)
    (hinit : vmemInitProcess s kernelPageDir data size = some s₁)
    (hrun : Run (fun s op t => heapStep s op = some t) StepOk ⟨s₁, []⟩ ops t) : HeapOk t :=
  (hrun.invariant (fun _ _ _ hs hok h => heapStep_inv hs hok h) (vmemInitProcess_inv hstart hinit)).ok

theorem bootHeap : ∃ s₁ t₁ t₂ t₃, vmemInitProcess bootVm 0x300000 (fun _ => 0) 100 = some s₁ ∧
    heapStep ⟨s₁, []⟩ (.alloc 1 0x10 4096) = some t₁ ∧ heapStep t₁ (.alloc 2 0x20 100) = some t₂ ∧
    heapStep t₂ (.free 0xE0001000) = some t₃ ∧
    t₁.vm.pcb.allocations = [⟨1, 0xE0000000, 4096, 4096, 0x10⟩] ∧
    t₁.vm.regions 0x10 = ⟨[7], 0xE0000000, 1, 4096, 4096⟩ ∧
    t₂.vm.pcb.allocations = [⟨1, 0xE0000000, 4096, 4096, 0x10⟩, ⟨2, 0xE0001000, 100, 100, 0x20⟩] ∧
    t₂.vm.regions 0x20 = ⟨[8], 0xE0001000, 1, 4096, 100⟩ := by
  simp only [vmemInitProcess, mapData_last (show ¬ pageSize < 100 by decide)]
  exact ⟨_, _, _, _, rfl, rfl, rfl, rfl, rfl, rfl, rfl, rfl⟩

theorem processHeap_ok_boot : ∃ s₁ t, vmemInitProcess bootVm 0x300000 (fun _ => 0) 100 = some s₁ ∧
    Run (fun s op t => heapStep s op = some t) StepOk ⟨s₁, []⟩
      [.alloc 1 0x10 4096, .alloc 2 0x20 100, .free 0xE0001000] t ∧ HeapOk t := by
  obtain ⟨s₁, t₁, t₂, t₃, h₁, step₁, step₂, step₃, list₁, region₁, list₂, region₂⟩ := bootHeap
  obtain ⟨-, hnil, -⟩ := vmemInitProcess_some h₁
  have ok₁ : AllocOk s₁ 1 4096 := by
    refine ⟨by simp [HeadFreed, hnil], fun _ => ?_⟩
    rw [newBase, hnil]
    exact (by decide : (vmemHeap : Int) + vmemPageAlignSize 4096 ≤ heapEnd)
  have ok₂ : AllocOk t₁.vm 2 100 := by
    refine ⟨by simp [HeadFreed, headFreed, list₁], fun _ => ?_⟩
    simp only [newBase, list₁, List.getLast?_singleton, regionEnd, region₁]
    decide
  have ok₃ : FreeOk t₂.vm 0xE0001000 := by
    intro old l hu _ i hi _
    simp only [list₂, unlink] at hu
    cases hu
    simp only [region₂] at hi ⊢
    obtain rfl : i = 0 := Nat.lt_one_iff.mp hi
    refine ⟨by decide, fun b hb v hv => ?_⟩
    obtain rfl := List.mem_singleton.mp hb
    unfold Span.Has Span.stop Allocation.span at hv
    simp only [VmemPageRegion.unmapped, tableIndex] at hv ⊢
    omega
  have hrun : Run (fun s op t => heapStep s op = some t) StepOk ⟨s₁, []⟩
      [.alloc 1 0x10 4096, .alloc 2 0x20 100, .free 0xE0001000] t₃ :=
    .cons ok₁ step₁ (.cons ok₂ step₂ (.single ok₃ step₃))
  exact ⟨s₁, t₃, h₁, hrun, processHeap_ok (by decide) h₁ hrun⟩

/-- Without the condition the promises are broken: after the first of two allocations is freed, a new one
is returned but is on no list. -/
theorem processHeap_unlinked : ∃ s₁ t, vmemInitProcess bootVm 0x300000 (fun _ => 0) 100 = some s₁ ∧
    AnyRun (fun s op t => heapStep s op = some t) ⟨s₁, []⟩
      [.alloc 1 0x10 4096, .alloc 2 0x20 4096, .free 0xE0000000, .alloc 3 0x30 4096] t ∧ ¬ HeapOk t := by
  have hexec : ∃ s₁ t, vmemInitProcess bootVm 0x300000 (fun _ => 0) 100 = some s₁ ∧
      exec heapStep ⟨s₁, []⟩
        [.alloc 1 0x10 4096, .alloc 2 0x20 4096, .free 0xE0000000, .alloc 3 0x30 4096] = some t ∧
      t.vm.pcb.allocations.length = 1 ∧ t.live.length = 2 := by
    simp only [vmemInitProcess, mapData_last (show ¬ pageSize < 100 by decide)]
    exact ⟨_, _, rfl, rfl, rfl, rfl⟩
  obtain ⟨s₁, t, h₁, hrun, h2, h3⟩ := hexec
  refine ⟨s₁, t, h₁, run_of_exec hrun, fun hok => ?_⟩
  have hlen := hok.listed.length_eq
  rw [List.length_map, List.length_map, h2, h3] at hlen
  cases hlen

end RetrOS.Vmem
