import Mathlib.Data.Finset.Insert
import RetrOS.Kernel.KmemRun

/-!
# What the kernel knows of its heap

The callers of `kalloc` test its result for `NULL`, which is also what its comment says; the heap of `kernel/kmem.c`
panics instead. What is said here of the callers holds for both.

* `KernelHeap` : `kalloc` and `kfree`, with the blocks that are in use;
* `KernelHeap.kallocAll` : several blocks one after the other, as long as there are;
* `kmemHeap` : the heap of `kernel/kmem.c`, in any state that its callers can bring about.
-/

namespace RetrOS
open RetrOS.Lib

/-- A heap with states `H`. `kalloc` returns a pointer or NULL, or it panics (`none`). -/
structure KernelHeap (H : Type*) where
  kalloc : H → BitVec 32 → Option (Option Nat × H)
  kfree : H → Nat → H
  /-- the pointers that were returned and not freed -/
  blocks : H → Finset Nat
  kalloc_some : ∀ {h h' : H} {size : BitVec 32} {p : Nat}, kalloc h size = some (some p, h') →
    p ∉ blocks h ∧ blocks h' = insert p (blocks h)
  kalloc_null : ∀ {h h' : H} {size : BitVec 32}, kalloc h size = some (none, h') → blocks h' = blocks h
  kfree_blocks : ∀ {h : H} {p : Nat}, p ∈ blocks h → blocks (kfree h p) = (blocks h).erase p

namespace KernelHeap

variable {H : Type*} (K : KernelHeap H)

/-- One block of each size, until one is refused. -/
def kallocAll : H → List (BitVec 32) → Option (Option (List Nat) × H)
  | h, [] => some (some [], h)
  | h, size :: sizes =>
    match K.kalloc h size with
    | none => none
    | some (none, h) => some (none, h)
    | some (some p, h) => (kallocAll h sizes).map fun (ps, h) => (ps.map (p :: ·), h)

variable {K} {h h' h'' : H} {size : BitVec 32} {sizes sizes' : List (BitVec 32)} {p : Nat} {o : Option (List Nat)}

theorem kalloc_subset {o : Option Nat} (hk : K.kalloc h size = some (o, h')) : K.blocks h ⊆ K.blocks h' := by
  cases o with
  | none => rw [K.kalloc_null hk]
  | some p =>
    rw [(K.kalloc_some hk).2]
    exact Finset.subset_insert _ _

/-- A block that is freed after others were taken and freed. -/
theorem kfree_kalloc (hk : K.kalloc h size = some (some p, h')) (hsame : K.blocks h'' = K.blocks h') :
    K.blocks (K.kfree h'' p) = K.blocks h := by
  obtain ⟨hnew, hblocks⟩ := K.kalloc_some hk
  rw [K.kfree_blocks (by rw [hsame, hblocks]; exact Finset.mem_insert_self _ _), hsame, hblocks,
    Finset.erase_insert hnew]

/-- A block stays in use when one that was taken before it is freed. -/
theorem leak_of_kfree {size' : BitVec 32} {q : Nat} {h₃ : H} (hp : K.kalloc h size = some (some p, h'))
    (hq : K.kalloc h' size' = some (some q, h'')) (hsub : K.blocks h'' ⊆ K.blocks h₃) :
    q ∉ K.blocks h ∧ q ∈ K.blocks (K.kfree h₃ p) := by
  obtain ⟨-, hblocks⟩ := K.kalloc_some hp
  obtain ⟨hnew, hblocks'⟩ := K.kalloc_some hq
  have hin : p ∈ K.blocks h' := hblocks ▸ Finset.mem_insert_self _ _
  have hin' : q ∈ K.blocks h'' := hblocks' ▸ Finset.mem_insert_self _ _
  refine ⟨fun hm => hnew (kalloc_subset hp hm), ?_⟩
  rw [K.kfree_blocks (hsub (kalloc_subset hq hin))]
  exact Finset.mem_erase.mpr ⟨fun heq => hnew (heq ▸ hin), hsub hin'⟩

theorem kallocAll_cons_some (hk : K.kalloc h size = some (some p, h')) :
    K.kallocAll h (size :: sizes) = (K.kallocAll h' sizes).map fun (ps, h) => (ps.map (p :: ·), h) := by
  rw [kallocAll, hk]

theorem kallocAll_cons_null (hk : K.kalloc h size = some (none, h')) :
    K.kallocAll h (size :: sizes) = some (none, h') := by
  rw [kallocAll, hk]

/-- A block is refused behind one that is not. -/
theorem kallocAll_cons_refused (hk : K.kalloc h size = some (some p, h')) :
    K.kallocAll h (size :: sizes) = some (none, h'') ↔ K.kallocAll h' sizes = some (none, h'') := by
  rw [kallocAll_cons_some hk, Option.map_eq_some_iff]
  constructor
  · rintro ⟨⟨_ | ps, h₁⟩, hrest, heq⟩
    · cases heq
      exact hrest
    · cases heq
  · intro hrest
    exact ⟨_, hrest, rfl⟩

theorem kallocAll_subset (hk : K.kallocAll h sizes = some (o, h')) : K.blocks h ⊆ K.blocks h' := by
  induction sizes generalizing h o with
  | nil =>
    cases hk
    exact Finset.Subset.refl _
  | cons size sizes ih =>
    rw [kallocAll] at hk
    split at hk
    · cases hk
    · next hone =>
      cases hk
      exact kalloc_subset hone
    · next hone =>
      obtain ⟨⟨ps, h₁⟩, hrest, heq⟩ := Option.map_eq_some_iff.mp hk
      cases heq
      exact (kalloc_subset hone).trans (ih hrest)

end KernelHeap

/-! ## The heap of `kernel/kmem.c` -/

namespace Kmem

variable {R : Region} {s : HeapRun}

/-- No two live blocks have the same pointer. -/
theorem HeapOk.nodup (hs : HeapOk R s) : (s.live.map Live.ptr).Nodup := by
  refine List.pairwise_map.mpr (hs.apart.imp_of_mem fun {a b} ha hb hab heq => ?_)
  have hbase : (a.span R).base = (b.span R).base := by
    unfold Live.span
    rw [heq]
  have h1 := (hs.room a ha).1
  have h2 := (hs.room b hb).1
  unfold Span.Apart Span.Before Span.stop at hab
  omega

/-- `kfree` of a block in use. -/
def HeapRun.kfree (R : Region) (s : HeapRun) (ptr : Nat) : HeapRun :=
  match s.live.find? fun a => a.ptr = ptr with
  | none => s
  | some a => ⟨Kmem.kfree R s.heap ptr, s.live.erase a⟩

theorem HeapOk.kfree_run (hs : HeapOk R s) (ptr : Nat) : HeapOk R (s.kfree R ptr) := by
  unfold HeapRun.kfree
  split
  · exact hs
  · next a ha =>
    have hptr : a.ptr = ptr := by simpa using List.find?_some ha
    rw [← hptr]
    exact hs.kfree (List.mem_of_find?_eq_some ha)

theorem HeapOk.kfree_blocks (hs : HeapOk R s) {ptr : Nat} (hp : ptr ∈ s.live.map Live.ptr) :
    ((s.kfree R ptr).live.map Live.ptr).toFinset = (s.live.map Live.ptr).toFinset.erase ptr := by
  obtain ⟨a, ha, hptr⟩ := List.mem_map.mp hp
  unfold HeapRun.kfree
  split
  · next hnone => exact absurd (List.find?_eq_none.mp hnone a ha) (by simpa using hptr)
  · next b hb =>
    have hb' : b.ptr = ptr := by simpa using List.find?_some hb
    have hperm := (List.perm_cons_erase (List.mem_of_find?_eq_some hb)).map Live.ptr
    have hnodup := (hperm.nodup_iff).mp hs.nodup
    rw [List.map_cons, hb', List.nodup_cons] at hnodup
    rw [List.toFinset_eq_of_perm _ _ hperm, List.map_cons, hb', List.toFinset_cons,
      Finset.erase_insert fun hm => hnodup.1 (List.mem_toFinset.mp hm)]

end Kmem

/-- `kalloc` and `kfree` of the region `R`. -/
def kmemHeap (R : Kmem.Region) : KernelHeap { s : Kmem.HeapRun // Kmem.HeapOk R s } where
  kalloc s size :=
    match hk : Kmem.kalloc R s.1.heap size with
    | .error _ => none
    | .ok (none, _) => some (none, s)
    | .ok (some ptr, heap) =>
      some (some ptr, ⟨⟨heap, ⟨ptr, size⟩ :: s.1.live⟩, s.2.kalloc (Kmem.kalloc_some_iff.mp hk).1 hk⟩)
  kfree s ptr := ⟨s.1.kfree R ptr, s.2.kfree_run ptr⟩
  blocks s := (s.1.live.map Kmem.Live.ptr).toFinset
  kalloc_some := by
    intro s s' size p hk
    split at hk
    · cases hk
    · cases hk
    · next ptr heap hkalloc =>
      cases hk
      have hnodup := (s.2.kalloc (Kmem.kalloc_some_iff.mp hkalloc).1 hkalloc).nodup
      rw [List.map_cons, List.nodup_cons] at hnodup
      exact ⟨fun hm => hnodup.1 (List.mem_toFinset.mp hm), by rw [List.map_cons, List.toFinset_cons]⟩
  kalloc_null := by
    intro s s' size hk
    split at hk
    · cases hk
    · cases hk
      rfl
    · cases hk
  kfree_blocks {s _} hp := s.2.kfree_blocks (List.mem_toFinset.mp hp)

/-- `kalloc` returns NULL only for a size that is not positive. -/
theorem kmemHeap_null {R : Kmem.Region} {s s' : { s : Kmem.HeapRun // Kmem.HeapOk R s }} {size : BitVec 32}
    (h : (kmemHeap R).kalloc s size = some (none, s')) : size.toInt ≤ 0 := by
  simp only [kmemHeap] at h
  split at h
  · cases h
  · next hk =>
    by_contra hpos
    rw [Kmem.kalloc, if_neg hpos] at hk
    dsimp only at hk
    split at hk
    · cases hk
    · split at hk
      · cases hk
      · cases hk
  · cases h

theorem kmemHeap_kallocAll {R : Kmem.Region} {s s' : { s : Kmem.HeapRun // Kmem.HeapOk R s }}
    {sizes : List (BitVec 32)} (hpos : ∀ size ∈ sizes, 0 < size.toInt) :
    (kmemHeap R).kallocAll s sizes ≠ some (none, s') := by
  induction sizes generalizing s with
  | nil => exact fun h => by cases h
  | cons size sizes ih =>
    intro h
    cases hk : (kmemHeap R).kalloc s size with
    | none =>
      rw [KernelHeap.kallocAll, hk] at h
      cases h
    | some x =>
      obtain ⟨_ | p, s₁⟩ := x
      · exact absurd (hpos size (List.mem_cons_self ..)) (Int.not_lt.mpr (kmemHeap_null hk))
      · exact ih (fun n hn => hpos n (List.mem_cons_of_mem _ hn)) (((kmemHeap R).kallocAll_cons_refused hk).mp h)

end RetrOS
