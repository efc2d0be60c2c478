import RetrOS.Kernel.VmemRun

/-!
# The allocation list and its regions

* `Ordered` : the order of the nodes and of their regions, kept by a node behind another in its region
  (`ordered_insert`, `ordered_findSpot`) and by a region behind all others (`ordered_append`);
* `ListInv` : the nodes are ordered and lie in regions of whole pages of the heap;
* `ListInv.findSpot` : parts 2 and 2.5 of `vmem_stack_alloc` keep it, the sums and differences of
  addresses being exact on such a list (`ListInv.spaceAtEnd`, `ListInv.gapBetween`);
* `ListInv.append` : so does a new region behind all others (`ListInv.le_newBase`).
-/

namespace RetrOS.Vmem

open RetrOS.Lib

/-- The end of the 4 MB that the heap table maps. -/
abbrev heapEnd : Nat := 0xE0400000

/-- The range of an allocation. -/
def Allocation.span (a : Allocation) : Span := ⟨a.address, a.size⟩

/-- The range of a page region. -/
def VmemPageRegion.span (r : VmemPageRegion) : Span := ⟨r.basevaddr, r.size⟩

/-- The region is made of whole pages of the heap. -/
structure RegionOk (r : VmemPageRegion) : Prop where
  base : r.basevaddr % pageSize = 0
  size : r.size % pageSize = 0
  low : vmemHeap ≤ r.basevaddr
  high : r.basevaddr + r.size ≤ heapEnd

/-- The first allocation lies in front of the second, and so do their regions if they are different. -/
def Ordered (regions : Nat → VmemPageRegion) (a b : Allocation) : Prop :=
  a.span.Before b.span ∧ (a.region = b.region ∨ (regions a.region).span.Before (regions b.region).span)

/-- The allocation list is ordered, and its nodes lie in regions of the heap. -/
structure ListInv (regions : Nat → VmemPageRegion) (l : List Allocation) : Prop where
  ordered : l.Pairwise (Ordered regions)
  nonempty : ∀ a ∈ l, 0 < a.size
  inside : ∀ a ∈ l, a.span.Within (regions a.region).span
  bounds : ∀ a ∈ l, RegionOk (regions a.region)

section List
variable {regions regions' : Nat → VmemPageRegion} {l l' : List Allocation} {a iter : Allocation}

theorem ordered_congr (h : l.Pairwise (Ordered regions)) (hb : ∀ a ∈ l, (regions' a.region).basevaddr =
    (regions a.region).basevaddr) (hs : ∀ a ∈ l, (regions' a.region).size = (regions a.region).size) :
    l.Pairwise (Ordered regions') := by
  have hspan : ∀ a ∈ l, (regions' a.region).span = (regions a.region).span := by
    intro a ha
    rw [VmemPageRegion.span, hb a ha, hs a ha, VmemPageRegion.span]
  refine h.imp_of_mem fun {a b} ha hb' hab => ⟨hab.1, ?_⟩
  rw [hspan a ha, hspan b hb']
  exact hab.2

/-- A node behind `iter` in its region. -/
theorem ordered_insert {l₁ l₂ : List Allocation} (h : (l₁ ++ iter :: l₂).Pairwise (Ordered regions))
    (hreg : a.region = iter.region) (haddr : a.address = iter.address + iter.size)
    (hnext : ∀ b ∈ l₂, a.span.Before b.span) : (l₁ ++ iter :: a :: l₂).Pairwise (Ordered regions) := by
  obtain ⟨hp₁, hp₂, hp⟩ := List.pairwise_append.mp h
  obtain ⟨hi, hp₂⟩ := List.pairwise_cons.mp hp₂
  have hia : Ordered regions iter a := ⟨haddr.symm.le, .inl hreg.symm⟩
  refine List.pairwise_append.mpr ⟨hp₁, List.pairwise_cons.mpr ⟨fun b hb => ?_, List.pairwise_cons.mpr
    ⟨fun b hb => ⟨hnext b hb, ?_⟩, hp₂⟩⟩, fun x hx b hb => ?_⟩
  · rcases List.mem_cons.mp hb with rfl | hb
    · exact hia
    · exact hi b hb
  · rw [hreg]
    exact (hi b hb).2
  · rcases List.mem_cons.mp hb with rfl | hb
    · exact hp x hx _ (List.mem_cons_self ..)
    · rcases List.mem_cons.mp hb with rfl | hb
      · have hxi := hp x hx iter (List.mem_cons_self ..)
        refine ⟨?_, by rw [hreg]; exact hxi.2⟩
        have := hxi.1
        unfold Span.Before Span.stop Allocation.span at this ⊢
        dsimp only at this ⊢
        omega
      · exact hp x hx b (List.mem_cons_of_mem _ hb)

/-- A node in a region behind all others. -/
theorem ordered_append (h : l.Pairwise (Ordered regions)) (hwithin : ∀ b ∈ l, b.span.Within (regions b.region).span)
    (hin : a.span.Within (regions a.region).span)
    (hend : ∀ b ∈ l, regionEnd regions b ≤ (regions a.region).basevaddr) :
    (l ++ [a]).Pairwise (Ordered regions) := by
  refine List.pairwise_append.mpr ⟨h, List.pairwise_singleton _ _, fun b hb c hc => ?_⟩
  obtain rfl := List.mem_singleton.mp hc
  refine ⟨?_, .inr (hend b hb)⟩
  have h1 := (hwithin b hb).2
  have h2 := hend b hb
  unfold regionEnd at h2
  unfold Span.Within Span.stop VmemPageRegion.span Allocation.span at hin
  unfold Span.stop VmemPageRegion.span Allocation.span at h1
  unfold Span.Before Span.stop Allocation.span
  dsimp only at hin h1 ⊢
  omega

/-- Where parts 2 and 2.5 put a node when the differences of addresses are exact: behind a node of the list, within its
region and in front of the next node. -/
theorem ordered_findSpot {node size : Nat} (h : l.Pairwise (Ordered regions))
    (hwithin : ∀ b ∈ l, b.span.Within (regions b.region).span)
    (hspace : ∀ b ∈ l, spaceAtEnd regions b = (regionEnd regions b : Int) - (b.address + b.size : Nat))
    (hgap : ∀ b ∈ l, ∀ c ∈ l, b.region = c.region → b.span.Before c.span →
      gapBetween b c = c.address - (b.address + b.size))
    (hspot : findSpot regions node size l = some (a, l')) :
    ∃ iter ∈ l, a = nodeBehind node size iter ∧ a.address + size ≤ regionEnd regions iter ∧
      l'.Pairwise (Ordered regions) := by
  obtain ⟨l₁, iter, l₂, rfl, rfl, rfl, hcase⟩ := findSpot_some hspot
  have hiter : iter ∈ l₁ ++ iter :: l₂ := by simp
  obtain ⟨-, hp, -⟩ := List.pairwise_append.mp h
  obtain ⟨hi, hp⟩ := List.pairwise_cons.mp hp
  have hroom := hspace iter hiter
  refine ⟨iter, hiter, rfl, ?_⟩
  cases l₂ with
  | nil =>
    dsimp only [nodeBehind] at hcase ⊢
    exact ⟨by omega, ordered_insert h rfl rfl fun b hb => by cases hb⟩
  | cons next rest =>
    have hnext : next ∈ l₁ ++ iter :: next :: rest := by simp
    have hord := hi next (List.mem_cons_self ..)
    have hin := hwithin next hnext
    -- the node ends in front of the next one, and inside the region
    have hfit : (nodeBehind node size iter).address + size ≤ next.address ∧
        (nodeBehind node size iter).address + size ≤ regionEnd regions iter := by
      rcases hcase with ⟨hsize, hreg⟩ | ⟨hreg, hsize⟩
      · rw [hgap iter hiter next hnext hreg hord.1] at hsize
        have hbefore := hord.1
        rw [← hreg] at hin
        unfold Span.Within Span.stop VmemPageRegion.span Allocation.span at hin
        unfold Span.Before Span.stop Allocation.span at hbefore
        unfold regionEnd
        dsimp only [nodeBehind] at hin hbefore ⊢
        omega
      · have hbefore := hord.2.resolve_left hreg
        unfold Span.Within Span.stop VmemPageRegion.span Allocation.span at hin
        unfold Span.Before Span.stop VmemPageRegion.span at hbefore
        unfold regionEnd at hroom ⊢
        dsimp only [nodeBehind] at hin hbefore ⊢
        omega
    refine ⟨hfit.2, ordered_insert h rfl rfl fun b hb => ?_⟩
    rcases List.mem_cons.mp hb with rfl | hb
    · exact hfit.1
    · have := ((List.pairwise_cons.mp hp).1 b hb).1
      have := hfit.1
      unfold Span.Before Span.stop Allocation.span at *
      dsimp only [nodeBehind] at *
      omega

theorem ordered_le_newBase {s : Vm} (h : s.pcb.allocations.Pairwise (Ordered s.regions))
    (ha : a ∈ s.pcb.allocations) : regionEnd s.regions a ≤ newBase s := by
  have hne := List.ne_nil_of_mem ha
  rw [newBase, List.getLast?_eq_some_getLast hne]
  dsimp only
  rw [← List.dropLast_append_getLast hne] at ha
  rcases List.mem_append.mp ha with ha | ha
  · rw [← List.dropLast_append_getLast hne] at h
    have hab := ((List.pairwise_append.mp h).2.2 a ha _ (List.mem_singleton_self _)).2
    rcases hab with hab | hab
    · rw [regionEnd, hab, regionEnd]
    · exact Nat.le_trans hab (Nat.le_add_right _ _)
  · rw [List.mem_singleton] at ha
    rw [← ha]

theorem ListInv.congr (h : ListInv regions l) (hb : ∀ a ∈ l, (regions' a.region).basevaddr =
    (regions a.region).basevaddr) (hs : ∀ a ∈ l, (regions' a.region).size = (regions a.region).size) :
    ListInv regions' l := by
  refine ⟨ordered_congr h.ordered hb hs, h.nonempty, fun a ha => ?_, fun a ha => ?_⟩
  · rw [VmemPageRegion.span, hb a ha, hs a ha]
    exact h.inside a ha
  · obtain ⟨h1, h2, h3, h4⟩ := h.bounds a ha
    exact ⟨by rw [hb a ha, h1], by rw [hs a ha, h2], by rw [hb a ha]; exact h3, by rw [hb a ha, hs a ha]; exact h4⟩

theorem ListInv.sublist (h : ListInv regions l) (hl : l'.Sublist l) : ListInv regions l' :=
  ⟨h.ordered.sublist hl, fun a ha => h.nonempty a (hl.subset ha), fun a ha => h.inside a (hl.subset ha),
    fun a ha => h.bounds a (hl.subset ha)⟩

theorem ListInv.range (h : ListInv regions l) (ha : a ∈ l) :
    vmemHeap ≤ a.address ∧ a.address + a.size ≤ regionEnd regions a ∧ regionEnd regions a ≤ heapEnd := by
  have h1 := h.inside a ha
  have h2 := h.bounds a ha
  have := h2.low
  have := h2.high
  unfold Span.Within Span.stop VmemPageRegion.span Allocation.span at h1
  dsimp only at h1
  unfold regionEnd
  omega

theorem ListInv.spaceAtEnd (h : ListInv regions l) (ha : a ∈ l) :
    spaceAtEnd regions a = (regionEnd regions a : Int) - (a.address + a.size : Nat) := by
  obtain ⟨h1, h2, h3⟩ := h.range ha
  rw [Vmem.spaceAtEnd, wrapInt]
  simp only [vmemHeap, heapEnd] at h1 h3
  refine Int.bmod_eq_of_le ?_ ?_ <;> omega

theorem ListInv.gapBetween (h : ListInv regions l) {b : Allocation} (ha : a ∈ l) (hb : b ∈ l)
    (hab : a.span.Before b.span) : gapBetween a b = b.address - (a.address + a.size) := by
  obtain ⟨h1, h2, h3⟩ := h.range ha
  obtain ⟨h4, h5, h6⟩ := h.range hb
  have := h.nonempty b hb
  unfold Span.Before Span.stop Allocation.span at hab
  simp only [Vmem.gapBetween, vmemHeap, heapEnd] at *
  omega

/-- Parts 2 and 2.5 keep the list ordered. -/
theorem ListInv.findSpot (h : ListInv regions l) {node size : Nat} (hsize : 0 < size)
    (hspot : findSpot regions node size l = some (a, l')) : ListInv regions l' := by
  obtain ⟨iter, hiter, rfl, hend, hord⟩ := ordered_findSpot h.ordered h.inside (fun b hb => h.spaceAtEnd hb)
    (fun b hb c hc _ hbc => h.gapBetween hb hc hbc) hspot
  have hmem : ∀ b ∈ l', b = nodeBehind node size iter ∨ b ∈ l := fun b hb =>
    List.mem_cons.mp ((findSpot_perm hspot).mem_iff.mp hb)
  refine ⟨hord, fun b hb => ?_, fun b hb => ?_, fun b hb => ?_⟩
  · rcases hmem b hb with rfl | hb
    · exact hsize
    · exact h.nonempty b hb
  · rcases hmem b hb with rfl | hb
    · have hin := (h.inside iter hiter).1
      refine ⟨?_, hend⟩
      unfold VmemPageRegion.span Allocation.span at hin ⊢
      dsimp only [nodeBehind] at hin ⊢
      omega
    · exact h.inside b hb
  · rcases hmem b hb with rfl | hb
    · exact h.bounds iter hiter
    · exact h.bounds b hb

theorem ListInv.le_newBase {s : Vm} (h : ListInv s.regions s.pcb.allocations) (ha : a ∈ s.pcb.allocations) :
    regionEnd s.regions a ≤ newBase s :=
  ordered_le_newBase h.ordered ha

/-- Where a new region begins. -/
theorem ListInv.newBase_ok {s : Vm} (h : ListInv s.regions s.pcb.allocations) :
    newBase s % pageSize = 0 ∧ vmemHeap ≤ newBase s := by
  unfold newBase
  split
  · exact ⟨rfl, Nat.le_refl _⟩
  · next a ha =>
    have hb := h.bounds a (List.mem_of_getLast? ha)
    have h1 := hb.base
    have h2 := hb.size
    have h3 := hb.low
    simp only [regionEnd, pageSize] at h1 h2 ⊢
    omega

theorem ListInv.append (h : ListInv regions l) (hsize : 0 < a.size) (hin : a.span.Within (regions a.region).span)
    (hr : RegionOk (regions a.region)) (hend : ∀ b ∈ l, regionEnd regions b ≤ (regions a.region).basevaddr) :
    ListInv regions (l ++ [a]) := by
  have hmem : ∀ b ∈ l ++ [a], b ∈ l ∨ b = a := fun b hb => by simpa using hb
  refine ⟨ordered_append h.ordered h.inside hin hend, fun b hb => ?_, fun b hb => ?_, fun b hb => ?_⟩
  · rcases hmem b hb with hb | rfl
    · exact h.nonempty b hb
    · exact hsize
  · rcases hmem b hb with hb | rfl
    · exact h.inside b hb
    · exact hin
  · rcases hmem b hb with hb | rfl
    · exact h.bounds b hb
    · exact hr

end List

end RetrOS.Vmem
