import RetrOS.Developer.Lex
import RetrOS.Lib.LittleEndian
import Mathlib.Algebra.Group.Nat.Defs
import Mathlib.Algebra.Group.Int.Defs

/-!
# The virtual machine (`developer/vm.c`)

The instructions are words; the text is apart from the memory that the program writes to. A step is one turn of the
loop of `eval`; `none` where it returns (`EXIT`, an unknown instruction) and where the processor traps.

* `Op` : the instructions, `Op.code` their words;
* `Vm.step` : `eval`.
-/

namespace RetrOS.Interpreter
open RetrOS.Lib

/-- The instructions with two operands, from `OR` to `MOD`. -/
inductive BinOp
  | or
  | xor
  | and
  | eq
  | ne
  | lt
  | gt
  | le
  | ge
  | shl
  | shr
  | add
  | sub
  | mul
  | div
  | mod
  deriving DecidableEq

inductive Op
  | lea
  | imm
  | jmp
  | call
  | jz
  | jnz
  | ent
  | adj
  | lev
  | li
  | lc
  | si
  | sc
  | push
  | bin (op : BinOp)
  | sys (f : SysCall)
  deriving DecidableEq

namespace Op

def code : Op → Word
  | .lea => 0
  | .imm => 1
  | .jmp => 2
  | .call => 3
  | .jz => 4
  | .jnz => 5
  | .ent => 6
  | .adj => 7
  | .lev => 8
  | .li => 9
  | .lc => 10
  | .si => 11
  | .sc => 12
  | .push => 13
  | .bin .or => 14
  | .bin .xor => 15
  | .bin .and => 16
  | .bin .eq => 17
  | .bin .ne => 18
  | .bin .lt => 19
  | .bin .gt => 20
  | .bin .le => 21
  | .bin .ge => 22
  | .bin .shl => 23
  | .bin .shr => 24
  | .bin .add => 25
  | .bin .sub => 26
  | .bin .mul => 27
  | .bin .div => 28
  | .bin .mod => 29
  | .sys .open_ => 30
  | .sys .read => 31
  | .sys .clos => 32
  | .sys .prtf => 33
  | .sys .malc => 34
  | .sys .mset => 35
  | .sys .mcmp => 36
  | .sys .exit => 37
  | .sys .free => 38

/-- All instructions, in the order of their words. -/
def all : List Op :=
  [.lea, .imm, .jmp, .call, .jz, .jnz, .ent, .adj, .lev, .li, .lc, .si, .sc, .push,
    .bin .or, .bin .xor, .bin .and, .bin .eq, .bin .ne, .bin .lt, .bin .gt, .bin .le, .bin .ge, .bin .shl, .bin .shr,
    .bin .add, .bin .sub, .bin .mul, .bin .div, .bin .mod,
    .sys .open_, .sys .read, .sys .clos, .sys .prtf, .sys .malc, .sys .mset, .sys .mcmp, .sys .exit, .sys .free]

def decode (w : Word) : Option Op := all[w.toNat]?

@[simp] theorem decode_code (op : Op) : decode op.code = some op := by
  cases op with
  | bin op => cases op <;> rfl
  | sys f => cases f <;> rfl
  | _ => rfl

end Op

/-- The value of an instruction with two operands; the processor traps where a division has none. -/
def BinOp.eval (op : BinOp) (x y : Word) : Option Word :=
  match op with
  | .or => some (x ||| y)
  | .xor => some (x ^^^ y)
  | .and => some (x &&& y)
  | .eq => some (if x = y then 1 else 0)
  | .ne => some (if x ≠ y then 1 else 0)
  | .lt => some (if x.toInt < y.toInt then 1 else 0)
  | .gt => some (if x.toInt > y.toInt then 1 else 0)
  | .le => some (if x.toInt ≤ y.toInt then 1 else 0)
  | .ge => some (if x.toInt ≥ y.toInt then 1 else 0)
  | .shl => some (x <<< (y.toNat % 32))
  | .shr => some (x.sshiftRight (y.toNat % 32))
  | .add => some (x + y)
  | .sub => some (x - y)
  | .mul => some (x * y)
  | .div => if y = 0 ∨ x.toInt = -2 ^ 31 ∧ y = -1 then none else some (x.sdiv y)
  | .mod => if y = 0 ∨ x.toInt = -2 ^ 31 ∧ y = -1 then none else some (x.srem y)

abbrev Memory := Word → UInt8

namespace Memory

def loadInt (m : Memory) (a : Word) : Word := word32 (m a) (m (a + 1)) (m (a + 2)) (m (a + 3))

def storeInt (m : Memory) (a v : Word) : Memory := fun b =>
  if b = a then byteOf v 0
  else if b = a + 1 then byteOf v 1
  else if b = a + 2 then byteOf v 2
  else if b = a + 3 then byteOf v 3
  else m b

def loadChar (m : Memory) (a : Word) : Word := (m a).toBitVec.signExtend 32

def storeChar (m : Memory) (a v : Word) : Memory := Function.update m a (byteOf v 0)

theorem loadInt_storeInt (m : Memory) (a v : Word) : (m.storeInt a v).loadInt a = v := by
  have h1 : a + 1 ≠ a := by bv_omega
  have h2 : a + 2 ≠ a ∧ a + 2 ≠ a + 1 := by constructor <;> bv_omega
  have h3 : a + 3 ≠ a ∧ a + 3 ≠ a + 1 ∧ a + 3 ≠ a + 2 := by refine ⟨?_, ?_, ?_⟩ <;> bv_omega
  simp only [loadInt, storeInt, if_true, if_neg h1, if_neg h2.1, if_neg h2.2, if_neg h3.1, if_neg h3.2.1,
    if_neg h3.2.2, word32_bytes]

end Memory

/-- The registers of `struct vm`, and the memory. -/
structure Vm where
  pc : Word
  bp : Word
  sp : Word
  ax : Word
  mem : Memory

namespace Vm

/-- `*vm->sp` -/
def top (vm : Vm) : Word := vm.mem.loadInt vm.sp

/-- `*--vm->sp = v` -/
def push (vm : Vm) (v : Word) : Vm := { vm with sp := vm.sp - 4, mem := vm.mem.storeInt (vm.sp - 4) v }

/-- One turn of the loop of `eval`. `sys` is what the system functions return and write. -/
def step (text : Word → Word) (sys : SysCall → Vm → Word × Memory) (vm : Vm) : Option Vm :=
  let arg := text (vm.pc + 4)
  let next := { vm with pc := vm.pc + 4 }
  let skip := { vm with pc := vm.pc + 8 }
  match Op.decode (text vm.pc) with
  | some .imm => some { skip with ax := arg }
  | some .lc => some { next with ax := vm.mem.loadChar vm.ax }
  | some .li => some { next with ax := vm.mem.loadInt vm.ax }
  | some .sc =>
    some { next with sp := vm.sp + 4, ax := (vm.ax.setWidth 8).signExtend 32, mem := vm.mem.storeChar vm.top vm.ax }
  | some .si => some { next with sp := vm.sp + 4, mem := vm.mem.storeInt vm.top vm.ax }
  | some .push => some (next.push vm.ax)
  | some .jmp => some { vm with pc := arg }
  | some .jz => some (if vm.ax ≠ 0 then skip else { vm with pc := arg })
  | some .jnz => some (if vm.ax ≠ 0 then { vm with pc := arg } else skip)
  | some .call => some { vm.push (vm.pc + 8) with pc := arg }
  | some .ent => some { skip.push vm.bp with bp := vm.sp - 4, sp := vm.sp - 4 - 4 * arg }
  | some .adj => some { skip with sp := vm.sp + 4 * arg }
  | some .lev =>
    some { vm with sp := vm.bp + 8, bp := vm.mem.loadInt vm.bp, pc := vm.mem.loadInt (vm.bp + 4) }
  | some .lea => some { skip with ax := vm.bp + 4 * arg }
  | some (.bin op) => (op.eval vm.top vm.ax).map fun v => { next with sp := vm.sp + 4, ax := v }
  | some (.sys .exit) => none
  | some (.sys f) => some { next with ax := (sys f vm).1, mem := (sys f vm).2 }
  | none => none

end Vm

end RetrOS.Interpreter
