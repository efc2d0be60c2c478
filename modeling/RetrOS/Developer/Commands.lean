import RetrOS.Developer.Parser
import RetrOS.Fs.FileTable

/-!
# The commands of the compiler (`developer/interpreter.c`)

* `as` : compiles a file and writes the image to `bytecode.o`;
* `rc` : runs an image;
* `cc` : compiles a file and runs it in place;
* `Launch` : a command up to its call of `eval`; `Exits` : the call.

What `kalloc` returns is given, and what its memory holds; text that is run lies in the memory, which it may change.
The result of a command is `none` where the driver writes behind its arrays.
-/

namespace RetrOS.Lex
open RetrOS.Interpreter RetrOS.Fs RetrOS.Lib

/-- What `kalloc` returns for the buffers, and the memory. -/
structure Areas where
  src : Word
  text : Word
  data : Word
  stack : Word
  mem : Memory

/-- A command up to its call of `eval`. -/
inductive Launch
  | returned (ret : Int)
  /-- `kernel_exit()` in the compiler -/
  | exited (e : Stop)
  | runs (vm : Vm)

/-- `DEFAULT_OUT` -/
def defaultOut : List UInt8 := ascii "bytecode.o"

/-- `MAX_FILE_SIZE` -/
abbrev maxFileSize : Nat := 100 * 1024

/-! ## Memory -/

/-- A copy to the memory. -/
def storeBytes (mem : Memory) (a : Word) (bytes : List UInt8) : Memory := fun b =>
  (bytes[(b - a).toNat]?).getD (mem b)

/-- A copy from the memory. -/
def loadBytes (mem : Memory) (a : Word) (n : Nat) : List UInt8 :=
  (List.range n).map fun k => mem (a + BitVec.ofNat 32 k)

/-- `memset` with 0 -/
def clearBytes (mem : Memory) (a : Word) (n : Nat) : Memory := fun b => if (b - a).toNat < n then 0 else mem b

/-- The memory with the text and the data that the compiler wrote. -/
def LexerContext.placed (s : LexerContext) : Memory := storeBytes s.mem s.base (s.text.flatMap bytes32)

/-- The C string in the buffer behind `src[i+1] = 0`: `src[i]` is what it was. -/
def sourceOf (a : Areas) (bytes : List UInt8) : List UInt8 :=
  (bytes ++ [a.mem (a.src + BitVec.ofNat 32 bytes.length)]).takeWhile fun c => c != 0

/-! ## The machine -/

/-- `vm_setup` and `vm_setup_stack` -/
def vmSetup (mem : Memory) (stack pc argc argv : Word) : Vm :=
  let top := stack + (1024 - 2)
  let vm := ((⟨pc, top, top, 0, mem⟩ : Vm).push (Op.sys .exit).code).push Op.push.code
  let tmp := vm.sp
  ((vm.push argc).push argv).push tmp

/-- One turn of the loop of `eval`. -/
def evalStep (sys : SysCall → Vm → Word × Memory) (vm : Vm) : Option Vm := vm.step vm.mem.loadInt sys

/-- So many turns. -/
def evalSteps (sys : SysCall → Vm → Word × Memory) : Nat → Vm → Option Vm
  | 0, vm => some vm
  | k + 1, vm => (evalStep sys vm).bind (evalSteps sys k)

/-- `eval` comes to `EXIT`, with the result `ret`. -/
def Exits (sys : SysCall → Vm → Word × Memory) (vm : Vm) (ret : Word) : Prop :=
  ∃ k vm', evalSteps sys k vm = some vm' ∧ Op.decode (vm'.mem.loadInt vm'.pc) = some (.sys .exit) ∧ vm'.top = ret

/-! ## The commands -/

/-- The open, the read and the close of a command; `none` for the bytes where it returns -1. -/
def readFile (accepts : Int → Prop) [DecidablePred accepts] (s : FileTable) (path : List UInt8) :
    Option (Option (List UInt8) × FileTable) := do
  let (fd, s) ← s.fsOpen path 1
  if ¬ accepts fd then return (none, s)
  let ((i, bytes), s) := s.fsRead fd maxFileSize
  if i ≤ 0 then return (none, s)
  return (some bytes, (s.fsClose fd).2)

/-- The image in `original_buffer`. -/
def imageOf (a : Areas) (lexd : LexedFile) (out : LexerContext) : List UInt8 :=
  bytes32 lexd.textSize ++ bytes32 lexd.dataSize ++ bytes32 lexd.entry ++
    loadBytes out.placed a.text lexd.textSize.toNat ++ loadBytes out.placed a.data lexd.dataSize.toNat

/-- The end of `as`: the image is written to `DEFAULT_OUT`. -/
def writeOut (s : FileTable) (image : List UInt8) : Option (Launch × FileTable) := do
  let (fd, s) ← s.fsOpen defaultOut fsFileFlagCreate
  if fd ≤ 0 then return (.returned (-1), s)
  let (_, s) ← s.fsWrite fd image
  return (.returned 0, (s.fsClose fd).2)

/-- `as`; `n` bounds the loops of the compiler. -/
def as (n : Nat) (a : Areas) (s : FileTable) (path : List UInt8) : Option (Launch × FileTable) := do
  let (bytes, s) ← readFile (0 < ·) s path
  match bytes with
  | none => return (.returned (-1), s)
  | some bytes =>
    match program n a.text a.data a.mem (sourceOf a bytes) with
    | .error e => return (.exited e, s)
    | .ok (lexd, out) => writeOut s (imageOf a lexd out)

/-- The machine that `rc` sets up for the bytes of an image. -/
def launch (a : Areas) (image : List UInt8) (argc argv : Word) : Vm :=
  let mem := storeBytes a.mem a.src image
  let mem := Function.update mem (a.src + BitVec.ofNat 32 image.length + 1) 0
  let entry := Memory.loadInt mem (a.src + 8)
  vmSetup mem a.stack (a.src + 12 + entry) argc argv

def rc (a : Areas) (s : FileTable) (path : List UInt8) (argc argv : Word) : Option (Launch × FileTable) := do
  let (bytes, s) ← readFile (0 < ·) s path
  match bytes with
  | none => return (.returned (-1), s)
  | some bytes => return (.runs (launch a bytes argc argv), s)

/-- `__cc` without options. -/
def cc (n : Nat) (a : Areas) (s : FileTable) (path : List UInt8) (argc argv : Word) : Option (Launch × FileTable) := do
  let (bytes, s) ← readFile (0 ≤ ·) s path
  match bytes with
  | none => return (.returned (-1), s)
  | some bytes =>
    let mem := clearBytes (clearBytes a.mem a.text (96 * 1024)) a.data (32 * 1024)
    match program n a.text a.data mem (sourceOf a bytes) with
    | .error e => return (.exited e, s)
    | .ok (lexd, out) => return (.runs (vmSetup out.placed a.stack (a.text + lexd.entry) argc argv), s)

end RetrOS.Lex
