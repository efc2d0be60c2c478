import RetrOS.Kernel.Scheduler
import RetrOS.Lib.Access
import RetrOS.Net.Ports

/-!
# Table indices that are checked by hand (`kernel/pcb.c`, `net/socket.c`, `net/net.c`)

Five functions test a pid or the number of a socket before they use it, with `>` where the first index behind the table
asks for `>=`.

* `pcbGetInfo`, `pcbKill`, `pcbAwait`, `sockGet`, `kernelBind` : the source;
* `Guarded` : only entries of the table are touched, and for an index outside nothing is touched and the call refuses;
* `guarded_iff` : a function with such a test is guarded but for the first index behind the table;
* `indexChecks_iff` : so are the five.
-/

namespace RetrOS.IndexChecks
open RetrOS.Lib RetrOS.Net

abbrev maxNumOfPcbs : Nat := 64

abbrev errorIndex : Int := 6

abbrev errorInvalidSocket : Int := 11

/-- The fields of `struct pcb` that are read here. -/
structure PcbEntry where
  state : PcbState
  esp : BitVec 32
  usedMemory : BitVec 32
  isProcess : BitVec 8
  preempts : BitVec 32
  name : List (BitVec 8)
  user : Nat

/-- `struct pcb_info`; `usage` is the quotient of two `float`s, given by the two numbers. -/
structure PcbInfo where
  pid : BitVec 8
  state : PcbState
  stack : BitVec 32
  usedMemory : BitVec 32
  isProcess : BitVec 8
  usage : BitVec 32 × BitVec 32
  name : List (BitVec 8)
  user : List (BitVec 8)

/-- `pcb_total_usage` -/
def pcbTotalUsage (table : Int → PcbEntry) : Access (BitVec 32) :=
  ((List.range' 1 (maxNumOfPcbs - 1)).map Int.ofNat).foldlM
    (fun total i => do return total + (← Access.entry table i).preempts) 0

/-- `users` gives the names of the users. -/
def pcbGetInfo (table : Int → PcbEntry) (users : Nat → List (BitVec 8)) (pid : Int) : Access (Int × Option PcbInfo) :=
  if pid < 0 ∨ maxNumOfPcbs < pid then return (-errorIndex, none)
  else do
    let pcb ← Access.entry table pid
    if pcb.state = .stopped then return (-errorIndex, none)
    else
      let total ← pcbTotalUsage table
      return (0, some
        { pid := BitVec.ofInt 8 pid, state := pcb.state, stack := pcb.esp, usedMemory := pcb.usedMemory,
          isProcess := pcb.isProcess, usage := (pcb.preempts, total), name := pcb.name, user := users pcb.user })

/-- The table afterwards. -/
def pcbKill (table : Int → PcbEntry) (pid : Int) : Access (Int → PcbEntry) :=
  if pid < 0 ∨ maxNumOfPcbs < pid then return table
  else Access.write table pid { table pid with state := .zombie }

/-- The loop of `pcb_await` from its `n`th test on; `tables` is the table at each test, since the other processes run in
between. The result is `none` if it still waits after so many tests. -/
def awaitLoop (tables : Nat → Int → PcbEntry) (pid : Int) : Nat → Nat → Access (Option Int)
  | 0, _ => return none
  | tests + 1, n => do
    if (← Access.entry (tables n) pid).state = .stopped then return some 0
    else awaitLoop tables pid tests (n + 1)

def pcbAwait (tables : Nat → Int → PcbEntry) (tests : Nat) (pid : Int) : Access (Option Int) :=
  if pid < 0 ∨ maxNumOfPcbs < pid then return some (-1)
  else awaitLoop tables pid tests 0

/-- `socket_t` is unsigned. -/
def sockGet (table : Int → Option OpenSock) (id : BitVec 16) : Access (Option OpenSock) :=
  if netNumberOfSockets < id.toNat then return none
  else Access.entry table id.toNat

/-- `kernel_bind` of a socket with the number `id`. -/
def kernelBind (portMap : Nat → BitVec 8) (id : BitVec 16) (sk : OpenSock) (addr : SockaddrIn) :
    Access (Int × OpenSock × (Nat → BitVec 8)) :=
  if netNumberOfSockets < id.toNat then return (-errorInvalidSocket, sk, portMap)
  else return (1, netSockBind portMap sk addr.port addr.addr)

/-- Only entries of the table are touched; an index outside touches none and is refused. -/
structure Guarded {α : Type} (size : Nat) (id : Int) (refused : α) (a : Access α) : Prop where
  inside : a.Inside size
  refuses : ¬ (0 ≤ id ∧ id < size) → a.touched = [] ∧ a.value = refused

section
variable {α : Type} {size tests n : Nat} {id pid : Int} {refused : α} {body : Access α} {test : Prop} [Decidable test]

/-- **A function that tests for `size < id`** is guarded for every other index than `size`, which it touches or lets
pass. -/
theorem guarded_iff (htest : test ↔ id < 0 ∨ size < id) (hinside : 0 ≤ id ∧ id < size → body.Inside size)
    (hpass : id ∈ body.touched ∨ body.value ≠ refused) :
    Guarded size id refused (if test then pure refused else body) ↔ id ≠ size := by
  by_cases ht : test
  · rw [if_pos ht]
    have hout := htest.mp ht
    exact iff_of_true ⟨.pure _, fun _ => ⟨rfl, rfl⟩⟩ (by omega)
  rw [if_neg ht]
  have hrange : ¬ (id < 0 ∨ size < id) := fun hout => ht (htest.mpr hout)
  constructor
  · rintro ⟨hin, hrefuses⟩ rfl
    obtain ⟨hnone, hvalue⟩ := hrefuses (by omega)
    rcases hpass with htouched | hne
    · rw [hnone] at htouched
      cases htouched
    · exact hne hvalue
  · intro hne
    have hid : 0 ≤ id ∧ id < size := by omega
    exact ⟨hinside hid, fun hnot => absurd hid hnot⟩

theorem pcbTotalUsage_inside (table : Int → PcbEntry) : (pcbTotalUsage table).Inside maxNumOfPcbs := by
  refine .foldlM (fun total i hi => ?_) 0
  obtain ⟨k, hk, rfl⟩ := List.mem_map.mp hi
  rw [List.mem_range'_1] at hk
  exact (Access.Inside.entry (by dsimp only [Int.ofNat_eq_natCast]; omega)).bind (.pure _)

theorem awaitLoop_inside {tables : Nat → Int → PcbEntry} (hpid : 0 ≤ pid ∧ pid < size) :
    (awaitLoop tables pid tests n).Inside size := by
  induction tests generalizing n with
  | zero => exact .pure _
  | succ tests ih =>
    refine (Access.Inside.entry hpid).bind ?_
    split
    · exact .pure _
    · exact ih

/-- The loop does not end with the code for an error. -/
theorem awaitLoop_value (tables : Nat → Int → PcbEntry) : (awaitLoop tables pid tests n).value ≠ some (-1) := by
  induction tests generalizing n with
  | zero => exact nofun
  | succ tests ih =>
    rw [awaitLoop, Access.value_bind]
    split
    · exact fun h => absurd (Option.some.inj h) (by decide)
    · exact ih

end

/-- **The five functions** touch only their table and refuse every other index, but for the first one behind it. -/
theorem indexChecks_iff (pid : Int) (id : BitVec 16) :
    (∀ table users, Guarded maxNumOfPcbs pid (-errorIndex, none) (pcbGetInfo table users pid) ↔
      pid ≠ maxNumOfPcbs) ∧
    (∀ table, Guarded maxNumOfPcbs pid table (pcbKill table pid) ↔ pid ≠ maxNumOfPcbs) ∧
    (∀ tables tests, Guarded maxNumOfPcbs pid (some (-1)) (pcbAwait tables tests pid) ↔ pid ≠ maxNumOfPcbs) ∧
    (∀ table, Guarded netNumberOfSockets id.toNat none (sockGet table id) ↔ id.toNat ≠ netNumberOfSockets) ∧
    ∀ portMap sk addr, Guarded netNumberOfSockets id.toNat (-errorInvalidSocket, sk, portMap)
      (kernelBind portMap id sk addr) ↔ id.toNat ≠ netNumberOfSockets := by
  refine ⟨fun table users => ?_, fun table => ?_, fun tables tests => ?_, fun table => ?_,
    fun portMap sk addr => ?_⟩
  · refine guarded_iff Iff.rfl (fun hpid => (Access.Inside.entry hpid).bind ?_) (.inl (List.mem_cons_self ..))
    split
    · exact .pure _
    · exact (pcbTotalUsage_inside table).bind (.pure _)
  · exact guarded_iff Iff.rfl (fun hpid => .write hpid) (.inl (List.mem_cons_self ..))
  · exact guarded_iff Iff.rfl awaitLoop_inside (.inr (awaitLoop_value tables))
  · refine (guarded_iff (by omega) (fun hid => .entry hid) (.inl (List.mem_cons_self ..))).trans ?_
    exact Int.natCast_inj.not
  · refine (guarded_iff (by omega) (fun _ => .pure _) (.inr fun h => ?_)).trans Int.natCast_inj.not
    have hcode : (1 : Int) = -errorInvalidSocket := congrArg Prod.fst h
    cases hcode

/-- `pcb_kill(64)` writes behind the table. -/
theorem pcbKill_behind : ¬ ∀ table pid, Guarded maxNumOfPcbs pid table (pcbKill table pid) := by
  intro hall
  have hin := (hall (fun _ => ⟨.running, 0, 0, 0, 0, [], 0⟩) 64).inside 64 (List.mem_cons_self ..)
  exact absurd hin.2 (by decide)

end RetrOS.IndexChecks
