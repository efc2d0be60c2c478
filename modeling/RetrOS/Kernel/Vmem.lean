import RetrOS.Kernel.Bitmap

/-!
# Virtual memory (`kernel/vmem.c`)

* `VirtualMemoryAllocator`, `vmemAlloc`, `vmemFree` : the pages of the default allocator;
* `Vm` : the allocator, the words of physical memory (page directories and tables), the page regions
  and one process; `vmemMap`, `vmemUnmap`, `vmemAddTable` : its page tables;
* `vmemCreatePageRegion`, `vmemFreePageRegion` : runs of heap pages;
* `vmemStackAlloc`, `vmemStackFree` : the allocation list of a process.

Functions and constants keep their names from the source, in camel case. A failed `assert` halts the
machine: such a call has the result `none`. The kernel structures come from `kcalloc`, which returns or
halts; the pointers it returns are parameters (`node`, `rp`).
-/

namespace RetrOS.Vmem

open RetrOS.Lib RetrOS.Bitmap

/-! ## Addresses -/

abbrev pageSize : Nat := 0x1000

abbrev vmemStack : Nat := 0xEFFFFFF0

abbrev vmemHeap : Nat := 0xE0000000

abbrev vmemData : Nat := 0x1000000

abbrev user : Nat := 4

def tableIndex (vaddr : Nat) : Nat := vaddr / 2 ^ 12 % 1024

def directoryIndex (vaddr : Nat) : Nat := vaddr / 2 ^ 22 % 1024

@[simp] theorem directoryIndex_vmemHeap : directoryIndex vmemHeap = 896 := rfl
@[simp] theorem directoryIndex_vmemStack : directoryIndex vmemStack = 959 := rfl
@[simp] theorem directoryIndex_vmemData : directoryIndex vmemData = 4 := rfl

/-- `x & ~PAGE_MASK`. -/
def pageMasked (x : Nat) : Nat := x / pageSize * pageSize

/-- `vmem_default_permissions` and `vmem_user_permissions`. -/
def permissions (access : Nat) : Nat := if access = 0 then 3 else 7

/-- A C `int` from the exact value of an expression. -/
def wrapInt (x : Int) : Int := x.bmod (2 ^ 32)

/-! ## The page allocator -/

/-- `struct virtual_memory_allocator`. -/
structure VirtualMemoryAllocator where
  usedPages : Int
  totalPages : Nat
  pages : Nat → BitVec 8
  start : Nat
  stop : Nat

/-- `vmem_alloc`; the assertion fails when no page is free. -/
def vmemAlloc (v : VirtualMemoryAllocator) : Option (Nat × VirtualMemoryAllocator) :=
  (getFreeBitmap v.pages v.totalPages).map fun (bit, pages) =>
    (v.start + bit * pageSize, { v with pages := pages, usedPages := v.usedPages + 1 })

def vmemFree (v : VirtualMemoryAllocator) (addr : Nat) : VirtualMemoryAllocator :=
  if v.stop < addr ∨ addr < v.start then v
  else if v.totalPages < (addr - v.start) / pageSize then v
  else
    { v with
      pages := unsetBitmap v.pages ((addr - v.start) / pageSize)
      usedPages := v.usedPages - 1 }

def vmemAllocatorCreate (start stop : Nat) : VirtualMemoryAllocator where
  usedPages := 0
  totalPages := (stop - start) / pageSize
  pages := fun _ => 0#8
  start := start
  stop := stop

/-! ## The process and its page tables -/

/-- `struct vmem_page_region`; `bits` are the page numbers of the region. -/
structure VmemPageRegion where
  bits : List Nat
  basevaddr : Nat
  refs : Nat
  size : Nat
  used : Int
  deriving DecidableEq, Inhabited

/-- `struct allocation`: the pointer to the node itself, and its fields. The list is threaded
through `next`. -/
structure Allocation where
  node : Nat
  address : Nat
  size : Nat
  used : Nat
  region : Nat
  deriving DecidableEq

/-- The fields of `struct pcb` that `vmem.c` uses; `allocations` is the list from
`pcb->allocations->head`. -/
structure Pcb where
  pageDir : Nat
  allocations : List Allocation
  usedMemory : Int
  dataSize : Nat

/-- `vmem_default`, physical memory by words, the page regions by pointer with the pointers in use,
and a process. -/
structure Vm where
  default : VirtualMemoryAllocator
  mem : Nat → Nat
  regions : Nat → VmemPageRegion
  held : Finset Nat
  pcb : Pcb

def vmemGetPageTable (mem : Nat → Nat) (pageDir vaddr : Nat) : Nat :=
  pageMasked (mem (pageDir + 4 * directoryIndex vaddr))

def vmemMap (mem : Nat → Nat) (pageTable vaddr paddr access : Nat) : Nat → Nat :=
  Function.update mem (pageTable + 4 * tableIndex vaddr) (pageMasked paddr ||| permissions access)

def vmemUnmap (mem : Nat → Nat) (pageTable vaddr : Nat) : Nat → Nat :=
  Function.update mem (pageTable + 4 * tableIndex vaddr) 0

def vmemAddTable (mem : Nat → Nat) (directory vaddr table access : Nat) : Nat → Nat :=
  Function.update mem (directory + 4 * directoryIndex vaddr) (pageMasked table ||| permissions access)

/-! ## Page regions -/

def vmemPageAlignSize (size : Nat) : Int :=
  wrapInt (if 0 < size % pageSize then (size / pageSize + 1) * pageSize else size / pageSize * pageSize)

/-- The loop of `vmem_create_page_region`: take and map the pages from index `i` on. The pages taken
before are given back when the allocator returns address `0`. -/
def createPages (heapTable base access : Nat) : Nat → Nat → List Nat → Vm → Option (Option (List Nat) × Vm)
  | 0, _, bits, s => some (some bits, s)
  | n + 1, i, bits, s =>
    match vmemAlloc s.default with
    | none => none
    | some (paddr, v) =>
      if paddr = 0 then
        some (none, { s with default := bits.foldl (fun v b => vmemFree v (v.start + b * pageSize)) v })
      else
        createPages heapTable base access n (i + 1) (bits ++ [(paddr - v.start) / pageSize])
          { s with default := v, mem := vmemMap s.mem heapTable (base + i * pageSize) paddr access }

/-- `vmem_create_page_region`: `rp` is the structure `create` returned. `kalloc` of no or of a
negative number of page numbers is `NULL`. -/
def vmemCreatePageRegion (s : Vm) (rp base : Nat) (num : Int) (access : Nat) : Option (Option Nat × Vm) :=
  if num ≤ 0 then some (none, s)
  else
    match createPages (vmemGetPageTable s.mem s.pcb.pageDir vmemHeap) base access num.toNat 0 [] s with
    | none => none
    | some (none, s') => some (none, { s' with held := insert rp s'.held })
    | some (some bits, s') =>
      let r : VmemPageRegion :=
        { bits := bits, basevaddr := base, refs := 0, size := num.toNat * pageSize, used := 0 }
      some (some rp, { s' with regions := Function.update s'.regions rp r, held := insert rp s'.held })

def vmemPageRegionAlloc (s : Vm) (rp size : Nat) : Vm :=
  let r := s.regions rp
  { s with regions := Function.update s.regions rp { r with used := r.used + size, refs := r.refs + 1 } }

/-- The loop of `vmem_free_page_region` from page index `i` on. `basevaddr` is a `uint32_t *`, so
adding `i * PAGE_SIZE` to it advances by four times as many bytes. -/
def freePages (r : VmemPageRegion) : Nat → Nat → Vm → Vm
  | 0, _, s => s
  | n + 1, i, s =>
    if r.bits.getD i 0 = 0 then freePages r n (i + 1) s
    else
      let vaddr := r.basevaddr + 4 * (i * pageSize)
      let heapTable := vmemGetPageTable s.mem s.pcb.pageDir vaddr
      freePages r n (i + 1)
        { s with
          default := vmemFree s.default (s.default.start + r.bits.getD i 0 * pageSize)
          mem := vmemUnmap s.mem heapTable vaddr }

def vmemFreePageRegion (s : Vm) (rp size : Nat) : Vm :=
  let r := s.regions rp
  if 1 < r.refs then
    { s with regions := Function.update s.regions rp { r with refs := r.refs - 1, used := r.used - size } }
  else
    let s' := freePages r (r.size / pageSize) 0 s
    { s' with held := s'.held.erase rp }

/-! ## The allocation list -/

/-- The end of the page region of an allocation. -/
def regionEnd (regions : Nat → VmemPageRegion) (a : Allocation) : Nat :=
  (regions a.region).basevaddr + (regions a.region).size

/-- `space_at_end` of `vmem_stack_alloc`. -/
def spaceAtEnd (regions : Nat → VmemPageRegion) (iter : Allocation) : Int :=
  wrapInt ((regionEnd regions iter : Int) - (iter.address + iter.size : Nat))

/-- The unsigned gap between two neighbours. -/
def gapBetween (iter next : Allocation) : Nat :=
  (next.address + 2 ^ 32 - (iter.address + iter.size) % 2 ^ 32) % 2 ^ 32

/-- The node `vmem_stack_alloc` puts behind `iter`. -/
def nodeBehind (node size : Nat) (iter : Allocation) : Allocation :=
  { node := node, address := iter.address + iter.size, size := size, used := size, region := iter.region }

/-- Parts 2 and 2.5 of `vmem_stack_alloc`: the new node and the list with it, if it fits between two
neighbours of one region, at the end of a region, or at the end of the last region. -/
def findSpot (regions : Nat → VmemPageRegion) (node size : Nat) :
    List Allocation → Option (Allocation × List Allocation)
  | [] => none
  | [iter] =>
    if (size : Int) ≤ spaceAtEnd regions iter then
      some (nodeBehind node size iter, [iter, nodeBehind node size iter])
    else none
  | iter :: next :: rest =>
    if size ≤ gapBetween iter next ∧ iter.region = next.region then
      some (nodeBehind node size iter, iter :: nodeBehind node size iter :: next :: rest)
    else if iter.region ≠ next.region ∧ (size : Int) ≤ spaceAtEnd regions iter then
      some (nodeBehind node size iter, iter :: nodeBehind node size iter :: next :: rest)
    else (findSpot regions node size (next :: rest)).map fun (a, l) => (a, iter :: l)

/-- The test of part 1.5: the first allocation has been freed. `VMEM_HEAP + size` is a sum of a
`uint32_t *` and an `int`. -/
def headFreed (head : Allocation) (size : Int) : Prop :=
  vmemHeap < head.address ∧ (head.address : Int) ≤ (vmemHeap + 4 * size) % 2 ^ 32

instance (head : Allocation) (size : Int) : Decidable (headFreed head size) :=
  inferInstanceAs (Decidable (_ ∧ _))

/-- Where `vmem_stack_alloc` puts a new page region: behind the region of the last node. -/
def newBase (s : Vm) : Nat :=
  match s.pcb.allocations.getLast? with
  | none => vmemHeap
  | some a => regionEnd s.regions a

/-- `num_pages` of `vmem_stack_alloc`. -/
def numPages (size : Nat) : Int := (vmemPageAlignSize size).tdiv pageSize

/-- `vmem_stack_alloc`: `node` and `rp` are the structures `create` returns for an allocation and for
a page region. The result is the address, `none` for `NULL`. -/
def vmemStackAlloc (s : Vm) (node rp size : Nat) : Option (Option Nat × Vm) :=
  let aligned := vmemPageAlignSize size
  match s.pcb.allocations with
  | [] =>
    match vmemCreatePageRegion s rp vmemHeap (numPages size) user with
    | none => none
    | some (none, s') => some (none, s')
    | some (some physical, s') =>
      let a : Allocation := { node := node, address := vmemHeap, size := size, used := size, region := physical }
      let s' := vmemPageRegionAlloc s' physical size
      some (some vmemHeap, { s' with
        pcb := { s'.pcb with allocations := [a], usedMemory := s'.pcb.usedMemory + aligned } })
  | head :: rest =>
    if headFreed head aligned then
      -- the node gets a region and an address, but no list points to it
      match vmemCreatePageRegion s rp vmemHeap (numPages size) user with
      | none => none
      | some (none, s') => some (none, s')
      | some (some physical, s') => some (some vmemHeap, vmemPageRegionAlloc s' physical size)
    else
      match findSpot s.regions node size (head :: rest) with
      | some (a, allocations) =>
        let s' := vmemPageRegionAlloc s a.region size
        some (some a.address, { s' with pcb := { s'.pcb with allocations := allocations } })
      | none =>
        let base := newBase s
        match vmemCreatePageRegion s rp base (numPages size) user with
        | none => none
        | some (none, s') => some (none, s')
        | some (some physical, s') =>
          let a : Allocation := { node := node, address := base, size := size, used := size, region := physical }
          let s' := vmemPageRegionAlloc s' physical size
          some (some base, { s' with
            pcb := { s'.pcb with
              allocations := (head :: rest) ++ [a]
              usedMemory := s'.pcb.usedMemory + aligned } })

/-- Unlink the first node with the given address, the head included. -/
def unlink (ptr : Nat) : List Allocation → Option (Allocation × List Allocation)
  | [] => none
  | a :: rest => if a.address = ptr then some (a, rest) else (unlink ptr rest).map fun (x, l) => (x, a :: l)

def vmemStackFree (s : Vm) (ptr : Nat) : Vm :=
  match unlink ptr s.pcb.allocations with
  | none => s
  | some (old, allocations) =>
    vmemFreePageRegion
      { s with pcb := { s.pcb with allocations := allocations, usedMemory := s.pcb.usedMemory - old.size } }
      old.region old.size

/-! ## What the parts leave alone -/

@[simp] theorem vmemPageRegionAlloc_mem (s : Vm) (rp size : Nat) : (vmemPageRegionAlloc s rp size).mem = s.mem := rfl
@[simp] theorem vmemPageRegionAlloc_pcb (s : Vm) (rp size : Nat) : (vmemPageRegionAlloc s rp size).pcb = s.pcb := rfl
@[simp] theorem vmemPageRegionAlloc_held (s : Vm) (rp size : Nat) : (vmemPageRegionAlloc s rp size).held = s.held := rfl
@[simp] theorem vmemPageRegionAlloc_default (s : Vm) (rp size : Nat) :
    (vmemPageRegionAlloc s rp size).default = s.default := rfl

@[simp] theorem freePages_pcb (r : VmemPageRegion) (n i : Nat) (s : Vm) : (freePages r n i s).pcb = s.pcb := by
  induction n generalizing i s with
  | zero => rfl
  | succ n ih =>
    rw [freePages]
    split
    · exact ih _ _
    · rw [ih]

@[simp] theorem freePages_regions (r : VmemPageRegion) (n i : Nat) (s : Vm) :
    (freePages r n i s).regions = s.regions := by
  induction n generalizing i s with
  | zero => rfl
  | succ n ih =>
    rw [freePages]
    split
    · exact ih _ _
    · rw [ih]

@[simp] theorem freePages_held (r : VmemPageRegion) (n i : Nat) (s : Vm) : (freePages r n i s).held = s.held := by
  induction n generalizing i s with
  | zero => rfl
  | succ n ih =>
    rw [freePages]
    split
    · exact ih _ _
    · rw [ih]

/-- Creating pages changes only the allocator and the page-table entries it maps. -/
theorem createPages_frame {t base access : Nat} {n i : Nat} {bits : List Nat} {s s' : Vm}
    {o : Option (List Nat)} (h : createPages t base access n i bits s = some (o, s')) :
    s'.pcb = s.pcb ∧ s'.regions = s.regions ∧ s'.held = s.held ∧
      ∀ a, (∀ j, i ≤ j → j < i + n → a ≠ t + 4 * tableIndex (base + j * pageSize)) → s'.mem a = s.mem a := by
  induction n generalizing i bits s with
  | zero =>
    cases h
    exact ⟨rfl, rfl, rfl, fun _ _ => rfl⟩
  | succ n ih =>
    rw [createPages] at h
    split at h
    · cases h
    · next paddr v hv =>
      split at h
      · cases h
        exact ⟨rfl, rfl, rfl, fun _ _ => rfl⟩
      · obtain ⟨h1, h2, h3, h4⟩ := ih h
        refine ⟨h1, h2, h3, fun a ha => ?_⟩
        rw [h4 a fun j hj1 hj2 => ha j (by omega) (by omega)]
        exact Function.update_of_ne (ha i (Nat.le_refl i) (by omega)) _ _

theorem vmemCreatePageRegion_some {s s' : Vm} {rp base access p : Nat} {num : Int}
    (h : vmemCreatePageRegion s rp base num access = some (some p, s')) :
    0 < num ∧ p = rp ∧ s'.pcb = s.pcb ∧ s'.held = insert rp s.held ∧
      (∃ bits, s'.regions = Function.update s.regions rp
        { bits := bits, basevaddr := base, refs := 0, size := num.toNat * pageSize, used := 0 }) ∧
      ∀ a, (∀ j < num.toNat, a ≠ vmemGetPageTable s.mem s.pcb.pageDir vmemHeap +
        4 * tableIndex (base + j * pageSize)) → s'.mem a = s.mem a := by
  unfold vmemCreatePageRegion at h
  split at h
  · cases h
  · next hnum =>
    split at h
    · cases h
    · cases h
    · next bits s1 hc =>
      cases h
      obtain ⟨h1, h2, h3, h4⟩ := createPages_frame hc
      refine ⟨by omega, rfl, h1, by rw [← h3], ⟨bits, by rw [← h2]⟩, fun a ha => ?_⟩
      exact h4 a fun j _ hj => ha j (by omega)

theorem vmemCreatePageRegion_null {s s' : Vm} {rp base access : Nat} {num : Int}
    (h : vmemCreatePageRegion s rp base num access = some (none, s')) :
    s'.pcb = s.pcb ∧ s'.regions = s.regions ∧ s.held ⊆ s'.held ∧
      ∀ a, (∀ j < num.toNat, a ≠ vmemGetPageTable s.mem s.pcb.pageDir vmemHeap +
        4 * tableIndex (base + j * pageSize)) → s'.mem a = s.mem a := by
  unfold vmemCreatePageRegion at h
  split at h
  · cases h
    exact ⟨rfl, rfl, Finset.Subset.refl _, fun _ _ => rfl⟩
  · split at h
    · cases h
    · next s1 hc =>
      cases h
      obtain ⟨h1, h2, h3, h4⟩ := createPages_frame hc
      refine ⟨h1, h2, ?_, fun a ha => h4 a fun j _ hj => ha j (by omega)⟩
      rw [← h3]
      exact Finset.subset_insert _ _
    · cases h

theorem unlink_some {ptr : Nat} :
    ∀ {l l' : List Allocation} {a : Allocation}, unlink ptr l = some (a, l') →
      a.address = ptr ∧ ∃ l₁ l₂, l = l₁ ++ a :: l₂ ∧ l' = l₁ ++ l₂
  | [], _, _, h => by cases h
  | b :: rest, l', a, h => by
    rw [unlink] at h
    split at h
    · next hb =>
      cases h
      exact ⟨hb, [], rest, rfl, rfl⟩
    · rw [Option.map_eq_some_iff] at h
      obtain ⟨⟨x, l⟩, hx, he⟩ := h
      cases he
      obtain ⟨h1, l₁, l₂, h2, h3⟩ := unlink_some hx
      exact ⟨h1, b :: l₁, l₂, by rw [h2]; rfl, by rw [h3]; rfl⟩

theorem unlink_none {ptr : Nat} :
    ∀ {l : List Allocation}, unlink ptr l = none → ∀ a ∈ l, a.address ≠ ptr
  | [], _, a, ha => by cases ha
  | b :: rest, h, a, ha => by
    rw [unlink] at h
    split at h
    · cases h
    · next hb =>
      rw [Option.map_eq_none_iff] at h
      rcases List.mem_cons.mp ha with rfl | ha
      · exact hb
      · exact unlink_none h a ha

/-- Where `findSpot` puts the new node: right behind some node of the list, in its region. -/
theorem findSpot_some {regions : Nat → VmemPageRegion} {node size : Nat} :
    ∀ {l l' : List Allocation} {a : Allocation}, findSpot regions node size l = some (a, l') →
      ∃ l₁ iter l₂, l = l₁ ++ iter :: l₂ ∧ a = nodeBehind node size iter ∧ l' = l₁ ++ iter :: a :: l₂ ∧
        match l₂ with
        | [] => (size : Int) ≤ spaceAtEnd regions iter
        | next :: _ => size ≤ gapBetween iter next ∧ iter.region = next.region ∨
            iter.region ≠ next.region ∧ (size : Int) ≤ spaceAtEnd regions iter
  | [], _, _, h => by cases h
  | [iter], _, _, h => by
    rw [findSpot] at h
    split at h
    · next hs =>
      cases h
      exact ⟨[], iter, [], rfl, rfl, rfl, hs⟩
    · cases h
  | iter :: next :: rest, _, _, h => by
    rw [findSpot] at h
    split at h
    · next hs =>
      cases h
      exact ⟨[], iter, next :: rest, rfl, rfl, rfl, .inl hs⟩
    · split at h
      · next hs =>
        cases h
        exact ⟨[], iter, next :: rest, rfl, rfl, rfl, .inr hs⟩
      · rw [Option.map_eq_some_iff] at h
        obtain ⟨⟨x, l⟩, hx, he⟩ := h
        cases he
        obtain ⟨l₁, it, l₂, h1, h2, h3, h4⟩ := findSpot_some hx
        exact ⟨iter :: l₁, it, l₂, by rw [h1]; rfl, h2, by rw [h3]; rfl, h4⟩

theorem findSpot_perm {regions : Nat → VmemPageRegion} {node size : Nat} {l l' : List Allocation}
    {a : Allocation} (h : findSpot regions node size l = some (a, l')) : l'.Perm (a :: l) := by
  obtain ⟨l₁, iter, l₂, rfl, -, rfl, -⟩ := findSpot_some h
  exact ((List.Perm.swap a iter l₂).append_left l₁).trans List.perm_middle

theorem unlink_perm {ptr : Nat} {l l' : List Allocation} {a : Allocation} (h : unlink ptr l = some (a, l')) :
    l.Perm (a :: l') := by
  obtain ⟨-, l₁, l₂, rfl, rfl⟩ := unlink_some h
  exact List.perm_middle

/-! ## What a call does -/

/-- The first allocation lies a little above the start of the heap: part 1.5 is taken. -/
def HeadFreed (s : Vm) (size : Nat) : Prop :=
  ∃ head ∈ s.pcb.allocations.head?, headFreed head (vmemPageAlignSize size)

/-- The outcomes of `vmem_stack_alloc`. -/
inductive AllocCase (s : Vm) (node rp size : Nat) : Option Nat → Vm → Prop
  /-- No page region could be made. -/
  | null {base : Nat} {s' : Vm} :
      HeadFreed s size ∨ base = newBase s ∧ findSpot s.regions node size s.pcb.allocations = none →
      vmemCreatePageRegion s rp base (numPages size) user = some (none, s') →
      AllocCase s node rp size none s'
  /-- Part 1.5: a region at the start of the heap, and a node that is on no list. -/
  | unlinked {s' : Vm} :
      HeadFreed s size → vmemCreatePageRegion s rp vmemHeap (numPages size) user = some (some rp, s') →
      AllocCase s node rp size (some vmemHeap) (vmemPageRegionAlloc s' rp size)
  /-- Parts 2 and 2.5: a node in a region of the list. -/
  | spot {a : Allocation} {l : List Allocation} :
      ¬ HeadFreed s size → findSpot s.regions node size s.pcb.allocations = some (a, l) →
      AllocCase s node rp size (some a.address)
        { vmemPageRegionAlloc s a.region size with pcb := { s.pcb with allocations := l } }
  /-- Parts 1 and 3: a region of its own at the end of the list. -/
  | region {s' : Vm} :
      ¬ HeadFreed s size → findSpot s.regions node size s.pcb.allocations = none →
      vmemCreatePageRegion s rp (newBase s) (numPages size) user = some (some rp, s') →
      AllocCase s node rp size (some (newBase s)) { vmemPageRegionAlloc s' rp size with
        pcb := { s.pcb with
          allocations := s.pcb.allocations ++ [⟨node, newBase s, size, size, rp⟩]
          usedMemory := s.pcb.usedMemory + vmemPageAlignSize size } }

theorem vmemStackAlloc_cases {s s' : Vm} {node rp size : Nat} {o : Option Nat}
    (h : vmemStackAlloc s node rp size = some (o, s')) : AllocCase s node rp size o s' := by
  unfold vmemStackAlloc at h
  dsimp only at h
  split at h
  · next hnil =>
    have hbase : newBase s = vmemHeap := by rw [newBase, hnil]; rfl
    have hspot : findSpot s.regions node size s.pcb.allocations = none := by rw [hnil]; rfl
    have hhead : ¬ HeadFreed s size := by simp [HeadFreed, hnil]
    split at h
    · cases h
    · next hc =>
      cases h
      exact .null (.inr ⟨hbase.symm, hspot⟩) hc
    · next s₁ hc =>
      cases h
      obtain ⟨-, rfl, hpcb, -⟩ := vmemCreatePageRegion_some hc
      rw [← hbase] at hc
      have hr := AllocCase.region hhead hspot hc
      rw [hbase, hnil, List.nil_append] at hr
      rw [vmemPageRegionAlloc_pcb, hpcb]
      exact hr
  · next head rest hcons =>
    have hhead : HeadFreed s size ↔ headFreed head (vmemPageAlignSize size) := by simp [HeadFreed, hcons]
    split at h
    · next hf =>
      split at h
      · cases h
      · next hc =>
        cases h
        exact .null (.inl (hhead.mpr hf)) hc
      · next hc =>
        cases h
        obtain ⟨-, rfl, -⟩ := vmemCreatePageRegion_some hc
        exact .unlinked (hhead.mpr hf) hc
    · next hf =>
      split at h
      · next a l hspot =>
        cases h
        rw [← hcons] at hspot
        exact .spot (fun hh => hf (hhead.mp hh)) hspot
      · next hspot =>
        rw [← hcons] at hspot h
        split at h
        · cases h
        · next hc =>
          cases h
          exact .null (.inr ⟨rfl, hspot⟩) hc
        · next hc =>
          cases h
          obtain ⟨-, rfl, hpcb, -⟩ := vmemCreatePageRegion_some hc
          rw [vmemPageRegionAlloc_pcb, hpcb]
          exact .region (fun hh => hf (hhead.mp hh)) hspot hc

theorem vmemStackFree_some {s : Vm} {ptr : Nat} {old : Allocation} {l : List Allocation}
    (h : unlink ptr s.pcb.allocations = some (old, l)) :
    (vmemStackFree s ptr).pcb.allocations = l ∧ (vmemStackFree s ptr).pcb.pageDir = s.pcb.pageDir ∧
      (vmemStackFree s ptr).pcb.dataSize = s.pcb.dataSize ∧
      let r := s.regions old.region
      let r' : VmemPageRegion := { r with refs := r.refs - 1, used := r.used - old.size }
      let pcb : Pcb := { s.pcb with allocations := l, usedMemory := s.pcb.usedMemory - old.size }
      let s' := freePages r (r.size / pageSize) 0 { s with pcb := pcb }
      (1 < r.refs ∧
          vmemStackFree s ptr = { s with pcb := pcb, regions := Function.update s.regions old.region r' } ∨
        r.refs ≤ 1 ∧ vmemStackFree s ptr = { s' with held := s.held.erase old.region }) := by
  rw [vmemStackFree, h]
  dsimp only
  unfold vmemFreePageRegion
  dsimp only
  split
  · next hr => exact ⟨rfl, rfl, rfl, .inl ⟨hr, rfl⟩⟩
  · next hr =>
    refine ⟨by simp, by simp, by simp, .inr ⟨by omega, by simp⟩⟩

theorem vmemStackFree_none {s : Vm} {ptr : Nat} (h : unlink ptr s.pcb.allocations = none) :
    vmemStackFree s ptr = s := by
  rw [vmemStackFree, h]

end RetrOS.Vmem
