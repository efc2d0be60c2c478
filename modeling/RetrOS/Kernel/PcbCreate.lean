import RetrOS.Admin.Users
import RetrOS.Kernel.KernelHeap
import RetrOS.Kernel.Scheduler
import RetrOS.Kernel.VmemProcess

/-!
# The creation of PCBs (`kernel/pcb.c`)

A call takes a slot of the table, a stack, a list of allocations, copies of the arguments and pages, in this order, and
has to give back what it has taken when it fails later on. A call that ends in a panic has no result.

* `Machine` : the table, the queue of the scheduler, the nesting of critical sections and the memory;
* `pcbInitProcess`, `pcbCreateKthread`, `pcbCreateThread`, `pcbCreateProcess` : the source;
* `Undone` : everything is as before the call, `Kept` : a call that fails returns a negative code and is undone;
* `CreateOk` : the caller is authorized, and no memory is refused where the code does not undo;
* `pcbCreate_iff` : the calls that are kept are these.
-/

namespace RetrOS.PcbCreate
open RetrOS.Admin RetrOS.Vmem

abbrev errorNullPointer : Int := 2

abbrev errorAlloc : Int := 5

abbrev errorFileNotFound : Int := 7

abbrev errorPcbFull : Int := 8

abbrev errorAccessDenied : Int := 25

abbrev maxNumOfPcbs : Nat := 64

abbrev Slot : Type := Fin maxNumOfPcbs

abbrev pcbStackSize : Nat := 0x2000

/-- `MAX_PROGRAM_SIZE` -/
abbrev maxProgramSize : Nat := 128 * 1024

/-- `sizeof` of `struct virtual_allocations`, `struct allocation`, `struct vmem_page_region` and `struct args`. -/
abbrev sizeVirtualAllocations : Nat := 12

abbrev sizeAllocation : Nat := 24

abbrev sizePageRegion : Nat := 20

abbrev sizeArgs : Nat := 1044

/-- `struct pcb`, without its name and its statistics. -/
structure Pcb where
  state : PcbState
  pid : Int
  isProcess : PcbType
  args : BitVec 32
  argv : Nat
  esp : Nat
  ebp : Nat
  eip : Nat
  kesp : Nat
  kebp : Nat
  cs : Nat
  ds : Nat
  threadEip : Nat
  stackptr : Nat
  pageDir : Nat
  dataSize : Int
  inKernel : Bool
  term : Nat
  user : Nat
  currentDirectory : Int
  allocations : Nat
  usedMemory : Int
  parent : Option Slot

/-- What `__pcb_free` leaves. -/
def Pcb.free : Pcb :=
  { state := .stopped, pid := -1, isProcess := .kthread, args := 0, argv := 0, esp := 0, ebp := 0, eip := 0, kesp := 0,
    kebp := 0, cs := 0, ds := 0, threadEip := 0, stackptr := 0, pageDir := 0, dataSize := 0, inKernel := false,
    term := 0, user := 0, currentDirectory := 0, allocations := 0, usedMemory := 0, parent := none }

structure Machine (H : Type*) where
  table : Slot → Pcb
  /-- the queue of the scheduler -/
  queue : List Slot
  cliCnt : Int
  pcbCount : Int
  /-- the kernel heap -/
  heap : H
  /-- `vmem_default` and the page tables -/
  pages : VirtualMemoryAllocator
  mem : Nat → Nat
  /-- `$process->current` -/
  current : Slot
  /-- the permissions of the users, by pointer -/
  permissions : Nat → UInt32
  kernelPageDir : Nat
  kthreadEntry : Nat

/-- How a call returns: with the pid of a new PCB, or with what an exit for an error returns. -/
inductive Exit
  | created (pid : Int)
  | failed (code : Int)

variable {H : Type*}

namespace Machine

/-- `IS_AUTHORIZED` -/
def authorized (m : Machine H) : Bool :=
  m.permissions (m.table m.current).user &&& (ctrlProcCreate ||| systemFullAccess ||| adminFullAccess) != 0

def enterCritical (m : Machine H) : Machine H := { m with cliCnt := m.cliCnt + 1 }

def leaveCritical (m : Machine H) : Machine H := { m with cliCnt := m.cliCnt - 1 }

def setPcb (m : Machine H) (i : Slot) (f : Pcb → Pcb) : Machine H :=
  { m with table := Function.update m.table i (f (m.table i)) }

def kalloc (K : KernelHeap H) (m : Machine H) (size : Nat) : Option (Option Nat × Machine H) :=
  (K.kalloc m.heap (BitVec.ofNat 32 size)).map fun (p, h) => (p, { m with heap := h })

def kfree (K : KernelHeap H) (m : Machine H) (ptr : Nat) : Machine H := { m with heap := K.kfree m.heap ptr }

/-- The address space of a PCB that has no allocations yet. -/
def vm (m : Machine H) (pcb : Pcb) : Vm :=
  { default := m.pages, mem := m.mem, regions := fun _ => default, held := ∅,
    pcb := { pageDir := pcb.pageDir, allocations := [], usedMemory := pcb.usedMemory, dataSize := pcb.dataSize.toNat } }

def setVm (m : Machine H) (s : Vm) : Machine H := { m with pages := s.default, mem := s.mem }

/-- `get_scheduler()->ops->add`, and `pcb_count++`. -/
def add (m : Machine H) (i : Slot) : Machine H := { m with queue := m.queue ++ [i], pcbCount := m.pcbCount + 1 }

end Machine

def pcbFree (m : Machine H) (i : Slot) : Machine H := m.setPcb i fun _ => .free

/-- The loop of `__pcb_get_free`. -/
def findFree (table : Slot → Pcb) : Option Slot :=
  (List.finRange maxNumOfPcbs).find? fun i => (table i).state = .stopped

/-- `__pcb_get_free`; it asserts that interrupts are off. -/
def pcbGetFree (m : Machine H) : Option (Option Slot × Machine H) :=
  if m.cliCnt ≤ 0 then none
  else
    match findFree m.table with
    | none => some (none, m)
    | some i => some (some i, m.setPcb i fun pcb =>
        { pcb with pid := i, state := .pcbNew, usedMemory := 0, isProcess := .kthread, args := 0, argv := 0,
                   currentDirectory := 0, inKernel := false })

/-- `__pcb_init_kernel_stack` -/
def pcbInitKernelStack (K : KernelHeap H) (m : Machine H) (i : Slot) : Option (Bool × Machine H) :=
  match m.kalloc K pcbStackSize with
  | none => none
  | some (none, m) => some (false, m)
  | some (some stack, m) =>
    let top := stack + pcbStackSize - 1
    some (true, m.setPcb i fun pcb =>
      { pcb with ebp := top, esp := top, kesp := top, kebp := top, stackptr := stack })

/-- The blocks that `pcb_kthread_init_args` takes; `sizeof(char*)*argc` is unsigned. -/
def argSizes (argc : BitVec 32) : List (BitVec 32) :=
  if argc = 0 then [] else 4#32 * argc :: List.replicate argc.toInt.toNat 100#32

def pcbKthreadInitArgs (K : KernelHeap H) (m : Machine H) (i : Slot) (argc : BitVec 32) : Option (Bool × Machine H) :=
  if argc = 0 then some (true, m)
  else
    match K.kallocAll m.heap (argSizes argc) with
    | none => none
    | some (none, h) => some (false, { m with heap := h })
    | some (some ptrs, h) => some (true, { m with heap := h }.setPcb i fun pcb =>
        { pcb with argv := ptrs.headD 0, args := argc })

/-- `__pcb_init_process` -/
def pcbInitProcess (K : KernelHeap H) (m : Machine H) (flags : BitVec 8) (entryPoint : Nat) :
    Option (Option Slot × Machine H) :=
  match pcbGetFree m.enterCritical with
  | none => none
  | some (none, m) => some (none, m.leaveCritical)
  | some (some i, m) =>
    match pcbInitKernelStack K m i with
    | none => none
    | some (false, m) => some (none, (pcbFree m i).leaveCritical)
    | some (true, m) => some (some i, Machine.leaveCritical <| m.setPcb i fun pcb =>
        { pcb with esp := 0xEFFFFFF0, ebp := 0xEFFFFFF0, eip := entryPoint, isProcess := .process, threadEip := 0,
                   cs := if flags &&& 2 = 0 then 27 else 8, ds := if flags &&& 2 = 0 then 35 else 16 })

/-- `__pcb_init_virt_args`, with the first part of `vmem_stack_alloc` and its structures from the kernel heap. -/
def pcbInitVirtArgs (K : KernelHeap H) (m : Machine H) (i : Slot) (argc : BitVec 32) : Option (Bool × Machine H) :=
  if argc = 0 then some (true, m)
  else
    match m.kalloc K sizeAllocation with
    | none => none
    | some (none, m) => some (false, m)
    | some (some node, m) =>
      match m.kalloc K sizePageRegion with
      | none => none
      | some (none, m) => some (false, m.kfree K node)
      | some (some region, m) =>
        match m.kalloc K (4 * (numPages sizeArgs).toNat) with
        | none => none
        | some (none, m) => some (false, (m.kfree K region).kfree K node)
        | some (some bits, m) =>
          match vmemStackAlloc (m.vm (m.table i)) node region sizeArgs with
          | none => none
          | some (none, s) => some (false, ((m.setVm s).kfree K bits).kfree K node)
          | some (some address, s) => some (true, (m.setVm s).setPcb i fun pcb =>
              { pcb with usedMemory := s.pcb.usedMemory, args := argc, argv := address + 4 })

/-- `vmem_init_process`, which panics if it has no memory for the list of allocations. -/
def initProcessMemory (K : KernelHeap H) (m : Machine H) (i : Slot) (data : Nat → Nat) : Option (Machine H) :=
  match vmemInitProcess (m.vm (m.table i)) m.kernelPageDir data (m.table i).dataSize.toNat with
  | none => none
  | some s =>
    match (m.setVm s).kalloc K sizeVirtualAllocations with
    | some (some allocations, m) => some (m.setPcb i fun pcb => { pcb with pageDir := s.pcb.pageDir, allocations })
    | _ => none

def pcbCreateKthread (K : KernelHeap H) (m : Machine H) (entry : Nat) (argc : BitVec 32) :
    Option (Exit × Machine H) :=
  if !m.authorized then some (.failed errorAccessDenied, m)
  else
    match pcbGetFree m.enterCritical with
    | none => none
    | some (none, m) => some (.failed (-errorPcbFull), m.leaveCritical)
    | some (some i, m) =>
      match pcbInitKernelStack K m i with
      | none => none
      -- returns without `LEAVE_CRITICAL` and `__pcb_free`
      | some (false, m) => some (.failed (-errorAlloc), m)
      | some (true, m) =>
        let m := m.setPcb i fun pcb =>
          { pcb with parent := none, term := (m.table m.current).term, user := (m.table m.current).user,
                     threadEip := entry, pageDir := m.kernelPageDir, eip := m.kthreadEntry, inKernel := true,
                     cs := 8, ds := 16 }
        match m.kalloc K sizeVirtualAllocations with
        | none => none
        | some (none, m) => some (.failed (-errorAlloc), (pcbFree m i).leaveCritical)
        | some (some allocations, m) =>
          match pcbKthreadInitArgs K (m.setPcb i fun pcb => { pcb with allocations }) i argc with
          | none => none
          | some (false, m) => some (.failed (-errorAlloc), (pcbFree m i).leaveCritical)
          | some (true, m) => some (.created (m.table i).pid, (m.add i).leaveCritical)

def pcbCreateThread (K : KernelHeap H) (m : Machine H) (parent : Slot) (entry : Nat) (arg : BitVec 32)
    (flags : BitVec 8) : Option (Exit × Machine H) :=
  if !m.authorized then some (.failed errorAccessDenied, m)
  else
    match pcbInitProcess K m flags vmemData with
    | none => none
    | some (none, m) => some (.failed (-errorNullPointer), m)
    | some (some i, m) =>
      let p := m.table parent
      let m := m.setPcb i fun pcb =>
        { pcb with term := p.term, user := p.user, parent := some parent, threadEip := entry, isProcess := .thread,
                   args := arg }
      match vmemInitProcessThread (m.vm p) with
      | none => none
      | some (pageDir, s) =>
        let m := (m.setVm s).setPcb i fun pcb => { pcb with pageDir, allocations := p.allocations }
        some (.created (m.table i).pid, m.add i)

/-- `load` is what `fs_load_from_file` returns, `data` what it reads. -/
def pcbCreateProcess (K : KernelHeap H) (m : Machine H) (load : Int) (data : Nat → Nat) (argc : BitVec 32)
    (flags : BitVec 8) : Option (Exit × Machine H) :=
  if !m.authorized then some (.failed errorAccessDenied, m)
  else
    match m.kalloc K maxProgramSize with
    | none => none
    | some (none, m) => some (.failed (-errorAlloc), m)
    | some (some buf, m) =>
      if load < 0 then some (.failed (-errorFileNotFound), m.kfree K buf)
      else
        match pcbInitProcess K m flags vmemData with
        | none => none
        | some (none, m) => some (.failed (-errorNullPointer), m.kfree K buf)
        | some (some i, m) =>
          let m := m.setPcb i fun pcb =>
            { pcb with dataSize := load, term := (m.table m.current).term, user := (m.table m.current).user,
                       parent := some m.current, threadEip := 0 }
          match initProcessMemory K m i data with
          | none => none
          | some m =>
            match pcbInitVirtArgs K m i argc with
            | none => none
            | some (false, m) => some (.failed (-errorAlloc), pcbFree (m.kfree K buf) i)
            | some (true, m) => some (.created (m.table i).pid, (m.add i).kfree K buf)

inductive Call
  | kthread (entry : Nat) (argc : BitVec 32)
  | thread (parent : Slot) (entry : Nat) (arg : BitVec 32) (flags : BitVec 8)
  | process (load : Int) (data : Nat → Nat) (argc : BitVec 32) (flags : BitVec 8)

def pcbCreate (K : KernelHeap H) (m : Machine H) : Call → Option (Exit × Machine H)
  | .kthread entry argc => pcbCreateKthread K m entry argc
  | .thread parent entry arg flags => pcbCreateThread K m parent entry arg flags
  | .process load data argc flags => pcbCreateProcess K m load data argc flags

/-! ## What the calls promise -/

/-- The nesting count, the table, the memory in use and the queue are as before. -/
structure Undone (K : KernelHeap H) (m m' : Machine H) : Prop where
  cliCnt : m'.cliCnt = m.cliCnt
  table : m'.table = m.table
  pcbCount : m'.pcbCount = m.pcbCount
  blocks : K.blocks m'.heap = K.blocks m.heap
  pages : m'.pages = m.pages
  queue : m'.queue = m.queue

/-- A call that fails returns a negative code, and is undone. -/
def Kept (K : KernelHeap H) (m : Machine H) (exit : Exit) (m' : Machine H) : Prop :=
  ∀ code, exit = .failed code → code < 0 ∧ Undone K m m'

/-- No slot is free. -/
def Full (m : Machine H) : Prop := ∀ i, (m.table i).state ≠ .stopped

/-- The blocks that `pcb_create_kthread` takes. -/
def kthreadSizes (argc : BitVec 32) : List (BitVec 32) :=
  BitVec.ofNat 32 pcbStackSize :: BitVec.ofNat 32 sizeVirtualAllocations :: argSizes argc

/-- The blocks that `pcb_create_process` takes in front of those for its arguments. -/
def processSizes : List (BitVec 32) :=
  [BitVec.ofNat 32 maxProgramSize, BitVec.ofNat 32 pcbStackSize, BitVec.ofNat 32 sizeVirtualAllocations]

/-- The blocks that `__pcb_init_virt_args` takes. -/
def virtArgSizes : List (BitVec 32) := [BitVec.ofNat 32 sizeAllocation, BitVec.ofNat 32 sizePageRegion, 4#32]

/-- The caller is authorized; a kernel thread is refused no memory, and a process none for its arguments. -/
def CreateOk (K : KernelHeap H) (m : Machine H) : Call → Prop
  | .kthread _ argc => m.authorized = true ∧ (Full m ∨ ∀ h, K.kallocAll m.heap (kthreadSizes argc) ≠ some (none, h))
  | .thread .. => m.authorized = true
  | .process load _ argc _ => m.authorized = true ∧ (load < 0 ∨ Full m ∨ argc = 0 ∨
      ∀ ptrs h h', K.kallocAll m.heap processSizes = some (some ptrs, h) →
        K.kallocAll h virtArgSizes ≠ some (none, h'))

/-- The free slots are as `__pcb_free` leaves them, and no page lies at address 0. -/
structure Ready (m : Machine H) : Prop where
  free : ∀ i, (m.table i).state = .stopped → m.table i = .free
  start : 0 < m.pages.start

/-! ## What each stage does -/

section Stages
variable {K : KernelHeap H} {m m' : Machine H} {i : Slot} {size : Nat} {argc : BitVec 32} {b : Bool}

theorem findFree_none_iff : findFree m.table = none ↔ Full m := by
  rw [findFree, List.find?_eq_none]
  exact ⟨fun h i => by simpa using h i (List.mem_finRange i), fun h i _ => by simpa using h i⟩

theorem findFree_some (h : findFree m.table = some i) : (m.table i).state = .stopped := by
  simpa using List.find?_some h

theorem kalloc_some_iff {o : Option Nat} : m.kalloc K size = some (o, m') ↔
    ∃ h, K.kalloc m.heap (BitVec.ofNat 32 size) = some (o, h) ∧ m' = { m with heap := h } := by
  rw [Machine.kalloc, Option.map_eq_some_iff]
  constructor
  · rintro ⟨⟨p, h⟩, hk, heq⟩
    cases heq
    exact ⟨h, hk, rfl⟩
  · rintro ⟨h, hk, rfl⟩
    exact ⟨(o, h), hk, rfl⟩

theorem pcbGetFree_cases {o : Option Slot} (h : pcbGetFree m = some (o, m')) :
    o = none ∧ m' = m ∧ Full m ∨
      ∃ i f, o = some i ∧ (m.table i).state = .stopped ∧ m' = m.setPcb i f := by
  rw [pcbGetFree] at h
  split at h
  · cases h
  · split at h
    · next hnone =>
      cases h
      exact .inl ⟨rfl, rfl, findFree_none_iff.mp hnone⟩
    · next i hi =>
      cases h
      exact .inr ⟨i, _, rfl, findFree_some hi, rfl⟩

theorem pcbInitKernelStack_cases (h : pcbInitKernelStack K m i = some (b, m')) :
    (b = false ∧ ∃ hp, K.kalloc m.heap (BitVec.ofNat 32 pcbStackSize) = some (none, hp) ∧
        m' = { m with heap := hp }) ∨
      b = true ∧ ∃ hp stack f, K.kalloc m.heap (BitVec.ofNat 32 pcbStackSize) = some (some stack, hp) ∧
        m' = { m with heap := hp }.setPcb i f := by
  rw [pcbInitKernelStack] at h
  split at h
  · cases h
  · next hk =>
    cases h
    obtain ⟨hp, hheap, rfl⟩ := kalloc_some_iff.mp hk
    exact .inl ⟨rfl, hp, hheap, rfl⟩
  · next stack _ hk =>
    cases h
    obtain ⟨hp, hheap, rfl⟩ := kalloc_some_iff.mp hk
    exact .inr ⟨rfl, hp, stack, _, hheap, rfl⟩

theorem pcbKthreadInitArgs_cases (h : pcbKthreadInitArgs K m i argc = some (b, m')) :
    ∃ o, K.kallocAll m.heap (argSizes argc) = some (o, m'.heap) ∧ (b = false ↔ o = none) := by
  rw [pcbKthreadInitArgs] at h
  split at h
  · next hzero =>
    cases h
    exact ⟨some [], by rw [argSizes, if_pos hzero]; rfl, by simp⟩
  · split at h
    · cases h
    · next hp hk =>
      cases h
      exact ⟨none, hk, by simp⟩
    · next ptrs hp hk =>
      cases h
      exact ⟨some ptrs, hk, by simp⟩

/-- Where all pages lie above address 0 a region can be made. -/
theorem createPages_pos {t base access : Nat} {n j : Nat} {bits : List Nat} {s s' : Vm} (hstart : 0 < s.default.start) :
    createPages t base access n j bits s ≠ some (none, s') := by
  induction n generalizing j bits s with
  | zero => exact fun h => by cases h
  | succ n ih =>
    intro h
    rw [createPages] at h
    split at h
    · cases h
    · next page v hv =>
      obtain ⟨k, -, -, rfl, rfl⟩ := vmemAlloc_some hv
      rw [if_neg (by omega)] at h
      refine ih ?_ h
      exact hstart

theorem vmemStackAlloc_pos {s s' : Vm} {node region : Nat} (hnil : s.pcb.allocations = [])
    (hstart : 0 < s.default.start) :
    vmemStackAlloc s node region sizeArgs ≠ some (none, s') := by
  intro h
  have hnum : ¬ numPages sizeArgs ≤ 0 := by decide
  unfold vmemStackAlloc at h
  dsimp only at h
  rw [hnil] at h
  dsimp only at h
  rw [vmemCreatePageRegion, if_neg hnum] at h
  split at h
  · cases h
  · next hc =>
    split at hc
    · cases hc
    · next hp => exact createPages_pos hstart hp
    · cases hc
  · cases h

/-- The slot that `__pcb_free` gives back is as it was. -/
theorem table_free {table : Slot → Pcb} (hfree : table i = .free) (pcb : Pcb) :
    Function.update (Function.update table i pcb) i .free = table := by
  rw [Function.update_idem, ← hfree, Function.update_eq_self]

/-- `__pcb_init_process` undoes what it did, or has taken a slot and a stack. -/
theorem pcbInitProcess_cases {flags : BitVec 8} {entry : Nat} {o : Option Slot} (hm : Ready m)
    (h : pcbInitProcess K m flags entry = some (o, m')) :
    (o = none ∧ Undone K m m' ∧ m'.heap = m.heap ∧ Full m) ∨
    (o = none ∧ Undone K m m' ∧ K.kalloc m.heap (BitVec.ofNat 32 pcbStackSize) = some (none, m'.heap)) ∨
    ∃ i stack, o = some i ∧ ¬ Full m ∧ K.kalloc m.heap (BitVec.ofNat 32 pcbStackSize) = some (some stack, m'.heap) ∧
      m'.pages = m.pages := by
  rw [pcbInitProcess] at h
  split at h
  · cases h
  · next hfree =>
    cases h
    obtain ⟨-, rfl, hfull⟩ | ⟨j, f, hj, -⟩ := pcbGetFree_cases hfree
    · exact .inl ⟨rfl, ⟨Int.add_sub_cancel .., rfl, rfl, rfl, rfl, rfl⟩, rfl, hfull⟩
    · cases hj
  · next i _ hfree =>
    obtain ⟨hi, -⟩ | ⟨j, f, hj, hstopped, rfl⟩ := pcbGetFree_cases hfree
    · cases hi
    · cases hj
      split at h
      · cases h
      · next hstack =>
        cases h
        obtain ⟨-, hp, hk, rfl⟩ | ⟨hb, -⟩ := pcbInitKernelStack_cases hstack
        · have htable := table_free (hm.free i hstopped) (f (m.table i))
          exact .inr (.inl ⟨rfl, ⟨Int.add_sub_cancel .., htable, rfl, K.kalloc_null hk, rfl, rfl⟩, hk⟩)
        · cases hb
      · next hstack =>
        cases h
        obtain ⟨hb, -⟩ | ⟨-, hp, stack, g, hk, rfl⟩ := pcbInitKernelStack_cases hstack
        · cases hb
        · exact .inr (.inr ⟨i, stack, rfl, fun hfull => hfull i hstopped, hk, rfl⟩)

theorem initProcessMemory_some {data : Nat → Nat} (h : initProcessMemory K m i data = some m') :
    ∃ list, K.kalloc m.heap (BitVec.ofNat 32 sizeVirtualAllocations) = some (some list, m'.heap) ∧
      m'.pages.start = m.pages.start := by
  rw [initProcessMemory] at h
  split at h
  · cases h
  · next s hs =>
    split at h
    · next list _ hk =>
      cases h
      obtain ⟨hp, hlist, rfl⟩ := kalloc_some_iff.mp hk
      exact ⟨list, hlist, (vmemInitProcess_some hs).1.start⟩
    · cases h

/-- `__pcb_init_virt_args` fails if a block is refused, and then gives back what it has taken. -/
theorem pcbInitVirtArgs_cases (hstart : 0 < m.pages.start) (h : pcbInitVirtArgs K m i argc = some (b, m')) :
    (b = true ∧ (argc = 0 ∨ ∀ hp, K.kallocAll m.heap virtArgSizes ≠ some (none, hp))) ∨
    b = false ∧ argc ≠ 0 ∧ (∃ hp, K.kallocAll m.heap virtArgSizes = some (none, hp)) ∧
      K.blocks m'.heap = K.blocks m.heap := by
  rw [pcbInitVirtArgs] at h
  split at h
  · next hzero =>
    cases h
    exact .inl ⟨rfl, .inl hzero⟩
  next hargc =>
  split at h
  · cases h
  · next hk =>
    cases h
    obtain ⟨hp, hnode, rfl⟩ := kalloc_some_iff.mp hk
    exact .inr ⟨rfl, hargc, ⟨hp, K.kallocAll_cons_null hnode⟩, K.kalloc_null hnode⟩
  next node _ hk₁ =>
  obtain ⟨h₁, hnode, rfl⟩ := kalloc_some_iff.mp hk₁
  have hrefused {h'} : K.kallocAll m.heap virtArgSizes = some (none, h') ↔
      K.kallocAll h₁ virtArgSizes.tail = some (none, h') := K.kallocAll_cons_refused hnode
  split at h
  · cases h
  · next hk =>
    cases h
    obtain ⟨h₂, hregion, rfl⟩ := kalloc_some_iff.mp hk
    exact .inr ⟨rfl, hargc, ⟨h₂, hrefused.mpr (K.kallocAll_cons_null hregion)⟩,
      K.kfree_kalloc hnode (K.kalloc_null hregion)⟩
  next region _ hk₂ =>
  obtain ⟨h₂, hregion, rfl⟩ := kalloc_some_iff.mp hk₂
  split at h
  · cases h
  · next hk =>
    cases h
    obtain ⟨h₃, hbits, rfl⟩ := kalloc_some_iff.mp hk
    exact .inr ⟨rfl, hargc, ⟨h₃, hrefused.mpr ((K.kallocAll_cons_refused hregion).mpr (K.kallocAll_cons_null hbits))⟩,
      K.kfree_kalloc hnode (K.kfree_kalloc hregion (K.kalloc_null hbits))⟩
  next bits _ hk₃ =>
  obtain ⟨h₃, hbits, rfl⟩ := kalloc_some_iff.mp hk₃
  split at h
  · cases h
  · next hnull => exact absurd hnull (vmemStackAlloc_pos rfl hstart)
  · cases h
    refine .inl ⟨rfl, .inr fun h' hnone => ?_⟩
    have hlast := (K.kallocAll_cons_refused hbits).mp ((K.kallocAll_cons_refused hregion).mp (hrefused.mp hnone))
    cases hlast

end Stages

/-! ## The calls -/

section Calls
variable {K : KernelHeap H} {m m' : Machine H} {exit : Exit} {argc : BitVec 32} {code : Int}

theorem kept_created (pid : Int) : Kept K m (.created pid) m' := fun _ h => by cases h

theorem Undone.kept (h : Undone K m m') (hcode : code < 0) : Kept K m (.failed code) m' := by
  intro code' heq
  cases heq
  exact ⟨hcode, h⟩

/-- `AUTHORIZED_GUARD` returns a positive code. -/
theorem not_kept_denied : ¬ Kept K m (.failed errorAccessDenied) m' := fun h => absurd (h _ rfl).1 (by decide)

theorem CreateOk.authorized {call : Call} (h : CreateOk K m call) : m.authorized = true := by
  cases call with
  | kthread => exact h.1
  | thread => exact h
  | process => exact h.1

/-- The caller is not authorized. -/
theorem kept_denied_iff {call : Call} (hauth : (!m.authorized) = true) :
    Kept K m (.failed errorAccessDenied) m' ↔ CreateOk K m call :=
  iff_of_false not_kept_denied fun hok => absurd hok.authorized (by simpa using hauth)

theorem not_kept_leak {p : Nat} (hnew : p ∉ K.blocks m.heap) (hp : p ∈ K.blocks m'.heap) :
    ¬ Kept K m (.failed code) m' := fun h => hnew ((h _ rfl).2.blocks ▸ hp)

/-- A call is undone with the block that it took first. -/
theorem Undone.kfree {m₂ : Machine H} {h : H} {size : BitVec 32} {p : Nat}
    (hp : K.kalloc m.heap size = some (some p, h)) (hundone : Undone K { m with heap := h } m₂) :
    Undone K m (m₂.kfree K p) where
  cliCnt := hundone.cliCnt
  table := hundone.table
  pcbCount := hundone.pcbCount
  blocks := K.kfree_kalloc hp hundone.blocks
  pages := hundone.pages
  queue := hundone.queue

/-- A process that is refused a block in front of those for its arguments. -/
theorem createOk_process_refused {load : Int} {data : Nat → Nat} {flags : BitVec 8} {h : H} (hauth : m.authorized = true)
    (hrefused : K.kallocAll m.heap processSizes = some (none, h)) : CreateOk K m (.process load data argc flags) := by
  refine ⟨hauth, .inr (.inr (.inr fun ptrs hp h' hall => ?_))⟩
  cases hrefused.symm.trans hall

/-- A process that gets all of them. -/
theorem createOk_process_iff {load : Int} {data : Nat → Nat} {flags : BitVec 8} {ptrs : List Nat} {h : H}
    (hauth : m.authorized = true) (hload : ¬ load < 0) (hslot : ¬ Full m)
    (hall : K.kallocAll m.heap processSizes = some (some ptrs, h)) :
    CreateOk K m (.process load data argc flags) ↔ argc = 0 ∨ ∀ h', K.kallocAll h virtArgSizes ≠ some (none, h') := by
  constructor
  · rintro ⟨-, hneg | hfull | hzero | hmem⟩
    · exact absurd hneg hload
    · exact absurd hfull hslot
    · exact .inl hzero
    · exact .inr fun h' => hmem ptrs h h' hall
  · intro hargs
    refine ⟨hauth, .inr (.inr (hargs.imp_right fun hmem ptrs' hp h' hsome => ?_))⟩
    cases hall.symm.trans hsome
    exact hmem h'

theorem pcbCreateThread_iff {parent : Slot} {entry : Nat} {arg : BitVec 32} {flags : BitVec 8} (hm : Ready m)
    (h : pcbCreateThread K m parent entry arg flags = some (exit, m')) :
    Kept K m exit m' ↔ CreateOk K m (.thread parent entry arg flags) := by
  rw [pcbCreateThread] at h
  split at h
  · next hauth =>
    cases h
    exact kept_denied_iff hauth
  next hauth =>
  have hauth : m.authorized = true := by simpa using hauth
  refine iff_of_true ?_ hauth
  split at h
  · cases h
  · next hinit =>
    cases h
    obtain ⟨-, hundone, -⟩ | ⟨-, hundone, -⟩ | ⟨i, stack, hi, -⟩ := pcbInitProcess_cases hm hinit
    · exact hundone.kept (by decide)
    · exact hundone.kept (by decide)
    · cases hi
  · dsimp only at h
    split at h
    · cases h
    · cases h
      exact kept_created _

theorem pcbCreateKthread_iff {entry : Nat} (h : pcbCreateKthread K m entry argc = some (exit, m')) :
    Kept K m exit m' ↔ CreateOk K m (.kthread entry argc) := by
  rw [pcbCreateKthread] at h
  split at h
  · next hauth =>
    cases h
    exact kept_denied_iff hauth
  next hauth =>
  have hauth : m.authorized = true := by simpa using hauth
  split at h
  · cases h
  · next hfree =>
    cases h
    obtain ⟨-, rfl, hfull⟩ | ⟨j, f, hj, -⟩ := pcbGetFree_cases hfree
    · refine iff_of_true (Undone.kept ⟨Int.add_sub_cancel .., rfl, rfl, rfl, rfl, rfl⟩ (by decide)) ⟨hauth, .inl hfull⟩
    · cases hj
  next i _ hfree =>
  obtain ⟨hi, -⟩ | ⟨j, f, hj, hstopped, rfl⟩ := pcbGetFree_cases hfree
  · cases hi
  cases hj
  -- a slot is free: what decides is whether memory is refused
  suffices hiff : Kept K m exit m' ↔ ∀ h, K.kallocAll m.heap (kthreadSizes argc) ≠ some (none, h) by
    rw [hiff]
    exact ⟨fun hmem => ⟨hauth, .inr hmem⟩, fun hok => hok.2.resolve_left fun hfull => hfull i hstopped⟩
  split at h
  · cases h
  · next hstack =>
    cases h
    obtain ⟨-, hp, hk, rfl⟩ | ⟨hb, -⟩ := pcbInitKernelStack_cases hstack
    · refine iff_of_false (fun hkept => ?_) fun hmem => hmem hp (K.kallocAll_cons_null hk)
      have hcli : m.cliCnt + 1 = m.cliCnt := (hkept _ rfl).2.cliCnt
      omega
    · cases hb
  next hstack =>
  obtain ⟨hb, -⟩ | ⟨-, hp, stack, g, hk, rfl⟩ := pcbInitKernelStack_cases hstack
  · cases hb
  have hk : K.kalloc m.heap (BitVec.ofNat 32 pcbStackSize) = some (some stack, hp) := hk
  obtain ⟨hnew, hblocks⟩ := K.kalloc_some hk
  have hstack : stack ∈ K.blocks hp := hblocks ▸ Finset.mem_insert_self _ _
  dsimp only at h
  split at h
  · cases h
  · next hk₁ =>
    cases h
    obtain ⟨h₁, hlist, rfl⟩ := kalloc_some_iff.mp hk₁
    exact iff_of_false (not_kept_leak hnew (K.kalloc_subset hlist hstack)) fun hmem =>
      hmem h₁ ((K.kallocAll_cons_refused hk).mpr (K.kallocAll_cons_null hlist))
  next list _ hk₁ =>
  obtain ⟨h₁, hlist, rfl⟩ := kalloc_some_iff.mp hk₁
  have hrefused {h'} : K.kallocAll m.heap (kthreadSizes argc) = some (none, h') ↔ _ :=
    (K.kallocAll_cons_refused hk).trans (K.kallocAll_cons_refused hlist)
  split at h
  · cases h
  · next m₂ hargs =>
    cases h
    obtain ⟨o, hrest, ho⟩ := pcbKthreadInitArgs_cases hargs
    rw [ho.mp rfl] at hrest
    exact iff_of_false (not_kept_leak hnew (K.kallocAll_subset hrest (K.kalloc_subset hlist hstack))) fun hmem =>
      hmem m₂.heap (hrefused.mpr hrest)
  · next m₂ hargs =>
    cases h
    obtain ⟨o, hrest, ho⟩ := pcbKthreadInitArgs_cases hargs
    refine iff_of_true (kept_created _) fun h' hnone => ?_
    have heq := hrest.symm.trans (hrefused.mp hnone)
    cases heq
    exact absurd (ho.mpr rfl) (by decide)

theorem pcbCreateProcess_iff {load : Int} {data : Nat → Nat} {flags : BitVec 8} (hm : Ready m)
    (h : pcbCreateProcess K m load data argc flags = some (exit, m')) :
    Kept K m exit m' ↔ CreateOk K m (.process load data argc flags) := by
  rw [pcbCreateProcess] at h
  split at h
  · next hauth =>
    cases h
    exact kept_denied_iff hauth
  next hauth =>
  have hauth : m.authorized = true := by simpa using hauth
  split at h
  · cases h
  · next hk =>
    cases h
    obtain ⟨h₁, hbuf, rfl⟩ := kalloc_some_iff.mp hk
    exact iff_of_true (Undone.kept ⟨rfl, rfl, rfl, K.kalloc_null hbuf, rfl, rfl⟩ (by decide))
      (createOk_process_refused hauth (K.kallocAll_cons_null hbuf))
  next buf _ hk =>
  obtain ⟨h₁, hbuf, rfl⟩ := kalloc_some_iff.mp hk
  split at h
  · next hload =>
    cases h
    exact iff_of_true (Undone.kept ⟨rfl, rfl, rfl, K.kfree_kalloc hbuf rfl, rfl, rfl⟩ (by decide))
      ⟨hauth, .inl hload⟩
  next hload =>
  have hready : Ready { m with heap := h₁ } := ⟨hm.free, hm.start⟩
  split at h
  · cases h
  · next hinit =>
    cases h
    obtain ⟨-, hundone, -, hfull⟩ | ⟨-, hundone, hk₂⟩ | ⟨i, stack, hi, -⟩ := pcbInitProcess_cases hready hinit
    · exact iff_of_true ((hundone.kfree hbuf).kept (by decide)) ⟨hauth, .inr (.inl hfull)⟩
    · exact iff_of_true ((hundone.kfree hbuf).kept (by decide))
        (createOk_process_refused hauth ((K.kallocAll_cons_refused hbuf).mpr (K.kallocAll_cons_null hk₂)))
    · cases hi
  next i m₂ hinit =>
  obtain ⟨hi, -⟩ | ⟨hi, -⟩ | ⟨j, stack, hj, hslot, hstack, hpages⟩ := pcbInitProcess_cases hready hinit
  · cases hi
  · cases hi
  cases hj
  dsimp only at h
  split at h
  · cases h
  next m₃ hmemory =>
  obtain ⟨list, hlist, hstart⟩ := initProcessMemory_some hmemory
  have hstart : 0 < m₃.pages.start := by
    rw [hstart]
    exact hpages ▸ hm.start
  have hall : K.kallocAll m.heap processSizes = some (some [buf, stack, list], m₃.heap) := by
    have hlist : K.kalloc m₂.heap (BitVec.ofNat 32 sizeVirtualAllocations) = some (some list, m₃.heap) := hlist
    rw [processSizes, K.kallocAll_cons_some hbuf, K.kallocAll_cons_some hstack, K.kallocAll_cons_some hlist]
    rfl
  rw [createOk_process_iff hauth hload hslot hall]
  split at h
  · cases h
  · next m₄ hargs =>
    cases h
    obtain ⟨hb, -⟩ | ⟨-, hargc, ⟨hp, hrefused⟩, hblocks⟩ := pcbInitVirtArgs_cases hstart hargs
    · cases hb
    -- the stack is still in use
    obtain ⟨hnew, hleak⟩ := K.leak_of_kfree hbuf hstack (by
      rw [hblocks]
      exact K.kalloc_subset hlist)
    exact iff_of_false (not_kept_leak hnew hleak) (not_or.mpr ⟨hargc, fun hmem => hmem hp hrefused⟩)
  · next m₄ hargs =>
    cases h
    obtain ⟨-, hdone⟩ | ⟨hb, -⟩ := pcbInitVirtArgs_cases hstart hargs
    · exact iff_of_true (kept_created _) hdone
    · cases hb

end Calls

/-- **A call that returns** has created a PCB, or it failed with a negative code and is undone, exactly if the caller
was authorized, a kernel thread was refused no memory, and a process none for its arguments. -/
theorem pcbCreate_iff {K : KernelHeap H} {m m' : Machine H} {call : Call} {exit : Exit} (hm : Ready m)
    (h : pcbCreate K m call = some (exit, m')) : Kept K m exit m' ↔ CreateOk K m call := by
  cases call with
  | kthread entry argc => exact pcbCreateKthread_iff h
  | thread parent entry arg flags => exact pcbCreateThread_iff hm h
  | process load data argc flags => exact pcbCreateProcess_iff hm h

/-- The heap of `kernel/kmem.c` panics where it could refuse: the caller has to be authorized, and a number of arguments
has to have a positive size. -/
theorem createOk_kmem {R : Kmem.Region} {m : Machine { s : Kmem.HeapRun // Kmem.HeapOk R s }} {call : Call}
    (hargs : ∀ entry argc, call = .kthread entry argc → argc ≠ 0 → 0 < (4#32 * argc).toInt) :
    CreateOk (kmemHeap R) m call ↔ m.authorized = true := by
  cases call with
  | thread => exact Iff.rfl
  | kthread entry argc =>
    refine and_iff_left (.inr fun h => kmemHeap_kallocAll fun size hsize => ?_)
    rw [kthreadSizes, List.mem_cons, List.mem_cons, argSizes] at hsize
    rcases hsize with rfl | rfl | hsize
    · decide
    · decide
    · split at hsize
      · cases hsize
      · next hne =>
        rcases List.mem_cons.mp hsize with rfl | hsize
        · exact hargs entry argc rfl hne
        · rw [List.eq_of_mem_replicate hsize]
          decide
  | process =>
    refine and_iff_left (.inr (.inr (.inr fun ptrs h h' _ => kmemHeap_kallocAll fun size hsize => ?_)))
    simp only [virtArgSizes, List.mem_cons, List.not_mem_nil, or_false] at hsize
    rcases hsize with rfl | rfl | rfl <;> decide

/-- A machine on which one PCB runs, of a user with these permissions; the other slots are as `others` says. -/
def smallMachine (permissions : UInt32) (others : Pcb) : Machine { s : Kmem.HeapRun // Kmem.HeapOk Kmem.smallRegion s } where
  table i := if i = 0 then { Pcb.free with state := .running, pid := 0 } else others
  queue := []
  cliCnt := 0
  pcbCount := 1
  heap := ⟨⟨Kmem.kmemInit fun _ => 0, []⟩, Kmem.heapOk_init _ _⟩
  pages := vmemAllocatorCreate 0x400000 0x410000
  mem := fun _ => 0
  current := 0
  permissions := fun _ => permissions
  kernelPageDir := 0x300000
  kthreadEntry := 0x8000

/-- When no slot is free, a kernel thread is not created, and nothing has changed. -/
theorem pcbCreate_full : ∃ m', pcbCreate (kmemHeap Kmem.smallRegion)
      (smallMachine ctrlProcCreate { Pcb.free with state := .zombie }) (.kthread 0x9000 0) =
        some (.failed (-errorPcbFull), m') ∧
    Kept (kmemHeap Kmem.smallRegion) (smallMachine ctrlProcCreate { Pcb.free with state := .zombie })
      (.failed (-errorPcbFull)) m' := by
  have hbusy : ∀ i, ((smallMachine ctrlProcCreate { Pcb.free with state := .zombie }).table i).state ≠ .stopped := by
    decide
  have hready : Ready (smallMachine ctrlProcCreate { Pcb.free with state := .zombie }) :=
    ⟨fun i hi => absurd hi (hbusy i), by decide⟩
  have hcall : pcbCreate (kmemHeap Kmem.smallRegion) (smallMachine ctrlProcCreate { Pcb.free with state := .zombie })
      (.kthread 0x9000 0) = some (.failed (-errorPcbFull), _) := rfl
  exact ⟨_, hcall, (pcbCreate_iff hready hcall).mpr ⟨by decide, .inl hbusy⟩⟩

/-- A user without permissions asks for a thread: the call returns 25. -/
theorem pcbCreate_denied : ¬ ∀ call exit m', pcbCreate (kmemHeap Kmem.smallRegion) (smallMachine 0 Pcb.free) call =
    some (exit, m') → Kept (kmemHeap Kmem.smallRegion) (smallMachine 0 Pcb.free) exit m' := by
  intro hkept
  exact not_kept_denied (hkept (.thread 0 0x1000000 0 0) (.failed errorAccessDenied) _ rfl)

end RetrOS.PcbCreate
