import RetrOS.Kernel.VmemPages

/-!
# The address space of a process (`kernel/vmem.c`)

* `vmemInitProcess`, `vmemInitProcessThread` : the page directory, tables, program pages and stack of
  a process and of a thread;
* `vmemFreeAllocations`, `vmemCleanupProcess`, `vmemCleanupProcessThead` : what is given back;
* `HeapReady` : the page directory and the heap table of a process are two pages;
* `vmemInitProcess_some`, `vmemInitProcessThread_takes`, `freeStack_gives` : the pages they take and give
  back.
-/

namespace RetrOS.Vmem

open RetrOS.Lib RetrOS.Bitmap

/-! ## Setting up -/

/-- `memcpy` of `n` bytes to the word-aligned address `dst`; `src` gives the word at an offset. -/
def memcpy (mem : Nat → Nat) (dst : Nat) (src : Nat → Nat) (n : Nat) : Nat → Nat := fun a =>
  if dst ≤ a ∧ a < dst + n then
    let k := 256 ^ min 4 (dst + n - a)
    mem a / k * k + src (a - dst) % k
  else mem a

/-- The first `n` rounds of the loops that copy the nonzero entries of a page directory. -/
def copyDirectory (src dst : Nat) : Nat → (Nat → Nat) → Nat → Nat
  | 0, mem => mem
  | n + 1, mem =>
    let mem := copyDirectory src dst n mem
    if mem (src + 4 * n) ≠ 0 then Function.update mem (dst + 4 * n) (mem (src + 4 * n)) else mem

/-- The loop of `vmem_init_process` over the program from page `i` on, and the rest behind it. -/
def mapData (dataTable : Nat) (data : Nat → Nat) (i size : Nat) (v : VirtualMemoryAllocator)
    (mem : Nat → Nat) : Option (VirtualMemoryAllocator × (Nat → Nat)) :=
  match vmemAlloc v with
  | none => none
  | some (page, v) =>
    if pageSize < size then
      mapData dataTable data (i + 1) (size - pageSize) v
        (vmemMap (memcpy mem page (fun o => data (i * pageSize + o)) pageSize) dataTable
          (vmemData + i * pageSize) page user)
    else
      some (v, vmemMap (memcpy mem page (fun o => data (i * pageSize + o)) size) dataTable
        (vmemData + i * pageSize) page user)
termination_by size
decreasing_by
  simp only [pageSize] at *
  omega

/-- `vmem_init_process`; `data` gives the words of the program. -/
def vmemInitProcess (s : Vm) (kernelPageDir : Nat) (data : Nat → Nat) (size : Nat) : Option Vm := do
  let (directory, v) ← vmemAlloc s.default
  let (dataTable, v) ← vmemAlloc v
  let (stackTable, v) ← vmemAlloc v
  let (heapTable, v) ← vmemAlloc v
  let mem := copyDirectory kernelPageDir directory 1024 s.mem
  let (v, mem) ← mapData dataTable data 0 size v mem
  let (stackPage, v) ← vmemAlloc v
  let mem := memcpy mem stackPage (fun _ => 0) pageSize
  let mem := vmemMap mem stackTable vmemStack stackPage user
  let (stackPage2, v) ← vmemAlloc v
  let mem := memcpy mem stackPage2 (fun _ => 0) pageSize
  let mem := vmemMap mem stackTable (vmemStack - pageSize) stackPage2 user
  let mem := vmemAddTable mem directory vmemHeap heapTable user
  let mem := vmemAddTable mem directory vmemStack stackTable user
  let mem := vmemAddTable mem directory vmemData dataTable user
  some { s with default := v, mem := mem, pcb := { s.pcb with pageDir := directory, allocations := [] } }

/-- `vmem_init_process_thread` for a thread of the process of `s`: the page directory of the thread.
The thread shares the allocation list of the process. -/
def vmemInitProcessThread (s : Vm) : Option (Nat × Vm) := do
  let (directory, v) ← vmemAlloc s.default
  let mem := copyDirectory s.pcb.pageDir directory 1024 s.mem
  let (stackTable, v) ← vmemAlloc v
  let (stackPage, v) ← vmemAlloc v
  let mem := memcpy mem stackPage (fun _ => 0) pageSize
  let mem := vmemMap mem stackTable vmemStack stackPage user
  let (stackPage2, v) ← vmemAlloc v
  let mem := memcpy mem stackPage2 (fun _ => 0) pageSize
  let mem := vmemMap mem stackTable (vmemStack + pageSize) stackPage2 user
  let mem := vmemAddTable mem directory vmemStack stackTable user
  some (directory, { s with default := v, mem := mem })

/-! ## Cleaning up -/

/-- The loop of `vmem_cleanup_process` over the data pages from page `i` on, and the last page. -/
def freeData (mem : Nat → Nat) (pageDir i size : Nat) (v : VirtualMemoryAllocator) :
    VirtualMemoryAllocator :=
  let table := vmemGetPageTable mem pageDir vmemData
  let page := pageMasked (mem (table + 4 * tableIndex (vmemData + i * 4096)))
  if 4096 < size then freeData mem pageDir (i + 1) (size - 4096) (vmemFree v page) else vmemFree v page
termination_by size
decreasing_by omega

/-- The stack part of both cleanups. Both pages are looked up at the index of `VMEM_STACK`. -/
def freeStack (mem : Nat → Nat) (pageDir : Nat) (v : VirtualMemoryAllocator) : VirtualMemoryAllocator :=
  let stackTable := vmemGetPageTable mem pageDir vmemStack
  let stackPage := pageMasked (mem (vmemGetPageTable mem pageDir vmemStack + 4 * tableIndex vmemStack))
  let stackPage2 :=
    pageMasked (mem (vmemGetPageTable mem pageDir (vmemStack - pageSize) + 4 * tableIndex vmemStack))
  vmemFree (vmemFree (vmemFree v stackPage) stackPage2) stackTable

/-- The loop of `vmem_free_allocations`; it stops at a node at `0x1b0004`. -/
def freeAllocations : List Allocation → Vm → Vm
  | [], s => s
  | a :: rest, s =>
    if a.node = 0x1b0004 then s else freeAllocations rest (vmemFreePageRegion s a.region a.size)

def vmemFreeAllocations (s : Vm) : Option Vm :=
  let heapTable := vmemGetPageTable s.mem s.pcb.pageDir vmemHeap
  if heapTable = 0 then none
  else if s.pcb.allocations = [] then some s
  else
    let s' := freeAllocations s.pcb.allocations s
    some { s' with default := vmemFree s'.default heapTable }

def vmemCleanupProcess (s : Vm) : Option Vm :=
  let directory := s.pcb.pageDir
  let dataTable := vmemGetPageTable s.mem directory vmemData
  if dataTable = 0 then none
  else
    let v := freeData s.mem directory 0 s.pcb.dataSize s.default
    let v := freeStack s.mem directory (vmemFree v dataTable)
    (vmemFreeAllocations { s with default := v }).map fun s =>
      { s with default := vmemFree s.default directory }

/-- `vmem_cleanup_process_thead` for the thread with the page directory `pageDir`. -/
def vmemCleanupProcessThead (s : Vm) (pageDir : Nat) : Vm :=
  { s with default := vmemFree (freeStack s.mem pageDir s.default) pageDir }

theorem vmemCleanupProcess_isSome {s : Vm} (hdata : vmemGetPageTable s.mem s.pcb.pageDir vmemData ≠ 0)
    (hheap : vmemGetPageTable s.mem s.pcb.pageDir vmemHeap ≠ 0) : (vmemCleanupProcess s).isSome := by
  unfold vmemCleanupProcess
  dsimp only
  rw [if_neg hdata, Option.isSome_map, vmemFreeAllocations]
  dsimp only
  rw [if_neg hheap]
  split <;> rfl

theorem mapData_last {dataTable i size : Nat} {data mem : Nat → Nat} {v : VirtualMemoryAllocator}
    (h : ¬ pageSize < size) : mapData dataTable data i size v mem = (vmemAlloc v).map fun (page, v) =>
      (v, vmemMap (memcpy mem page (fun o => data (i * pageSize + o)) size) dataTable
        (vmemData + i * pageSize) page user) := by
  rw [mapData]
  cases vmemAlloc v with
  | none => rfl
  | some x => simp [h]

/-! ## Pages taken and given back -/

/-- The number of pages of a program of `size` bytes. -/
def dataPages (size : Nat) : Nat := (size - 1) / pageSize + 1

theorem dataPages_of_lt {size : Nat} (h : pageSize < size) : dataPages size = 1 + dataPages (size - pageSize) := by
  simp only [dataPages, pageSize] at h ⊢
  omega

theorem dataPages_of_le {size : Nat} (h : ¬ pageSize < size) : dataPages size = 1 := by
  simp only [dataPages, pageSize] at h ⊢
  omega

theorem mapData_takes {dataTable i size : Nat} {data mem mem' : Nat → Nat} {v v' : VirtualMemoryAllocator}
    (h : mapData dataTable data i size v mem = some (v', mem')) : Takes (dataPages size) v v' := by
  rw [mapData] at h
  split at h
  · cases h
  · next page w hw =>
    split at h
    · next hlt =>
      rw [dataPages_of_lt hlt]
      exact (vmemAlloc_takes hw).trans (mapData_takes h)
    · next hlt =>
      cases h
      rw [dataPages_of_le hlt]
      exact vmemAlloc_takes hw
termination_by size
decreasing_by
  simp only [pageSize] at *
  omega

theorem freeData_gives (mem : Nat → Nat) (pageDir i size : Nat) (v : VirtualMemoryAllocator) :
    Gives (dataPages size) v (freeData mem pageDir i size v) := by
  rw [freeData]
  split
  · next hlt =>
    rw [dataPages_of_lt hlt]
    exact (vmemFree_gives _ _).trans (freeData_gives _ _ _ _ _)
  · next hlt =>
    rw [dataPages_of_le hlt]
    exact vmemFree_gives _ _
termination_by size
decreasing_by
  simp only [pageSize] at *
  omega

/-- The stack part of the cleanups frees one page twice, and so gives back two of the three pages. -/
theorem freeStack_gives (mem : Nat → Nat) (pageDir : Nat) (v : VirtualMemoryAllocator) :
    Gives 2 v (freeStack mem pageDir v) := by
  have hdir : vmemGetPageTable mem pageDir (vmemStack - pageSize) = vmemGetPageTable mem pageDir vmemStack :=
    rfl
  rw [freeStack, hdir]
  exact (vmemFree_twice_gives _ _).trans (vmemFree_gives _ _)

/-! ## The page directory of a new process -/

/-- The page directory and the heap table of a process are two pages. -/
structure HeapReady (s : Vm) : Prop where
  aligned : s.pcb.pageDir % pageSize = 0
  apart : vmemGetPageTable s.mem s.pcb.pageDir vmemHeap ≠ s.pcb.pageDir

theorem pageMasked_of_aligned {x : Nat} (h : x % pageSize = 0) : pageMasked x = x := by
  simp only [pageMasked, pageSize] at h ⊢
  omega

theorem pageMasked_aligned (x : Nat) : pageMasked x % pageSize = 0 := by
  simp only [pageMasked, pageSize]
  omega

theorem pageMasked_entry (x access : Nat) : pageMasked (pageMasked x ||| permissions access) = pageMasked x := by
  have hlt : permissions access < 2 ^ 12 := by
    unfold permissions
    split <;> decide
  have h := Nat.two_pow_add_eq_or_of_lt hlt (x / pageSize)
  have hx : pageMasked x = 2 ^ 12 * (x / pageSize) := by
    simp only [pageMasked, pageSize]
    omega
  rw [hx, ← h]
  simp only [pageMasked, pageSize]
  omega

/-- What `vmem_init_process` takes and leaves. -/
theorem vmemInitProcess_some {s s' : Vm} {kernelPageDir size : Nat} {data : Nat → Nat}
    (h : vmemInitProcess s kernelPageDir data size = some s') :
    Takes (dataPages size + 6) s.default s'.default ∧ s'.pcb.allocations = [] ∧
      s'.pcb.dataSize = s.pcb.dataSize := by
  simp only [vmemInitProcess, Option.bind_eq_bind, Option.bind_eq_some_iff, Prod.exists,
    Option.some.injEq] at h
  obtain ⟨directory, v₁, h₁, dataTable, v₂, h₂, stackTable, v₃, h₃, heapTable, v₄, h₄, v₅, mem, h₅,
    stackPage, v₆, h₆, stackPage2, v₇, h₇, rfl⟩ := h
  have ht := ((((((vmemAlloc_takes h₁).trans (vmemAlloc_takes h₂)).trans (vmemAlloc_takes h₃)).trans
    (vmemAlloc_takes h₄)).trans (mapData_takes h₅)).trans (vmemAlloc_takes h₆)).trans (vmemAlloc_takes h₇)
  rw [show 1 + 1 + 1 + 1 + dataPages size + 1 + 1 = dataPages size + 6 by omega] at ht
  exact ⟨ht, rfl, rfl⟩

theorem vmemInitProcess_ready {s s' : Vm} {kernelPageDir size : Nat} {data : Nat → Nat}
    (hstart : s.default.start % pageSize = 0) (h : vmemInitProcess s kernelPageDir data size = some s') :
    HeapReady s' ∧ s.default.start ≤ vmemGetPageTable s'.mem s'.pcb.pageDir vmemData ∧
      s.default.start ≤ vmemGetPageTable s'.mem s'.pcb.pageDir vmemHeap := by
  simp only [vmemInitProcess, Option.bind_eq_bind, Option.bind_eq_some_iff, Prod.exists,
    Option.some.injEq] at h
  obtain ⟨directory, v₁, h₁, dataTable, v₂, h₂, stackTable, v₃, h₃, heapTable, v₄, h₄, v₅, mem, h₅,
    stackPage, v₆, h₆, stackPage2, v₇, h₇, rfl⟩ := h
  have t₁ := vmemAlloc_takes h₁
  have t₂ := vmemAlloc_takes h₂
  have t₃ := vmemAlloc_takes h₃
  have s₁ : v₁.start % pageSize = 0 := by rw [t₁.start, hstart]
  have s₃ : v₃.start % pageSize = 0 := by rw [t₃.start, t₂.start, s₁]
  have hne : directory ≠ heapTable := (((vmemAlloc_taken h₁).mono t₂).mono t₃).ne_alloc h₄
  have hdata : ∀ m : Nat → Nat, vmemGetPageTable (vmemAddTable m directory vmemData dataTable user) directory
      vmemData = dataTable := by
    intro m
    rw [vmemGetPageTable, vmemAddTable, Function.update_self, pageMasked_entry,
      pageMasked_of_aligned (vmemAlloc_aligned s₁ h₂)]
  have hheap : ∀ m : Nat → Nat, vmemGetPageTable
      (vmemAddTable (vmemAddTable (vmemAddTable m directory vmemHeap heapTable user) directory vmemStack
        stackTable user) directory vmemData dataTable user) directory vmemHeap = heapTable := by
    intro m
    rw [vmemGetPageTable, vmemAddTable, Function.update_of_ne (by simp), vmemAddTable,
      Function.update_of_ne (by simp), vmemAddTable, Function.update_self, pageMasked_entry,
      pageMasked_of_aligned (vmemAlloc_aligned s₃ h₄)]
  obtain ⟨i, -, -, hi, -⟩ := vmemAlloc_some h₂
  obtain ⟨j, -, -, hj, -⟩ := vmemAlloc_some h₄
  rw [t₁.start] at hi
  rw [t₃.start, t₂.start, t₁.start] at hj
  refine ⟨⟨vmemAlloc_aligned hstart h₁, ?_⟩, ?_, ?_⟩
  · rw [hheap]
    exact hne.symm
  · rw [hdata, hi]
    exact Nat.le_add_right _ _
  · rw [hheap, hj]
    exact Nat.le_add_right _ _

theorem vmemInitProcessThread_takes {s s' : Vm} {pageDir : Nat}
    (h : vmemInitProcessThread s = some (pageDir, s')) : Takes 4 s.default s'.default := by
  simp only [vmemInitProcessThread, Option.bind_eq_bind, Option.bind_eq_some_iff, Prod.exists,
    Option.some.injEq, Prod.mk.injEq] at h
  obtain ⟨directory, v₁, h₁, stackTable, v₂, h₂, stackPage, v₃, h₃, stackPage2, v₄, h₄, -, rfl⟩ := h
  exact (((vmemAlloc_takes h₁).trans (vmemAlloc_takes h₂)).trans (vmemAlloc_takes h₃)).trans
    (vmemAlloc_takes h₄)

theorem vmemCleanupProcessThead_gives (s : Vm) (pageDir : Nat) :
    Gives 3 s.default (vmemCleanupProcessThead s pageDir).default :=
  (freeStack_gives _ _ _).trans (vmemFree_gives _ _)

end RetrOS.Vmem
