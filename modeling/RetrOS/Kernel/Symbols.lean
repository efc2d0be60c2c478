import RetrOS.Libc.Numbers
import Mathlib.Logic.Function.Basic

/-!
# The symbol tables of the kernel (`kernel/ksyms.c`)

* `KernelSymbols`, `ksymsAddSymbol` : the table of the exported symbols;
* `Symbols`, `loadLoop`, `loadSymbols` : the table that `__load_symbols` fills from `symbols.map`. The position `j` is the
  start of the address, and behind the space that of the name;
* `ksymsResolveSymbol` : the lookup in both tables;
* `Line` : a line of the file; `loadLoop_line` : what the loop does with one.
-/

namespace RetrOS.Ksyms
open RetrOS.Libc

def KSYMS_MAX_SYMBOLS : Nat := 100
def KSYMS_MAX_SYMBOL_LENGTH : Nat := 25
def MAX_SYMBOLS : Nat := 1000

/-- An entry of either table; the name is the string in its array. -/
structure Entry where
  name : Str
  addr : UInt32

/-- `struct kernel_symbols` -/
structure KernelSymbols where
  symtable : List Entry
  size : symtable.length ≤ KSYMS_MAX_SYMBOLS
  name : ∀ e ∈ symtable, 0 ∉ e.name

/-- `ksyms_add_symbol`. A name that is too long fails the assertion, and a full table is kept. -/
def ksymsAddSymbol (t : KernelSymbols) (name : Str) (addr : UInt32) : Option KernelSymbols :=
  if strlen name < KSYMS_MAX_SYMBOL_LENGTH then
    if h : t.symtable.length < KSYMS_MAX_SYMBOLS then
      some {
        symtable := t.symtable ++ [⟨name.takeWhile (· ≠ 0), addr⟩]
        size := by
          rw [List.length_append]
          exact h
        name := by
          intro e he
          rcases List.mem_append.mp he with he | he
          · exact t.name e he
          · rw [List.mem_singleton.mp he]
            intro h0
            simpa using List.mem_takeWhile_imp h0 }
    else some t
  else none

/-- `struct symbols` -/
structure Symbols where
  symtable : Nat → Entry
  min : UInt32
  max : UInt32
  numSymbols : Nat

/-- `__init_symbols`, in memory that `create` returned. -/
def initSymbols (symtable : Nat → Entry) : Symbols := ⟨symtable, -1, 0, 0⟩

namespace Symbols

/-- At a space: the address before it. -/
def setAddr (s : Symbols) (addr : UInt32) : Symbols :=
  { s with
    symtable := Function.update s.symtable s.numSymbols ⟨[], addr⟩
    min := if addr < s.min then addr else s.min
    max := if addr > s.max then addr else s.max }

/-- At a newline: the name before it. -/
def setName (s : Symbols) (name : Str) : Symbols :=
  { s with
    symtable := Function.update s.symtable s.numSymbols { s.symtable s.numSymbols with name := name }
    numSymbols := s.numSymbols + 1 }

end Symbols

/-- The loop over the characters of `buf`, of which `n` are left. -/
def loadLoop (buf : Str) : Nat → Nat → Nat → Symbols → Symbols
  | 0, _, _, s => s
  | n + 1, i, j, s =>
    if buf[i]? = some ' '.toUInt8 then loadLoop buf n (i + 1) (i + 1) (s.setAddr (htoi (buf.drop j)).toUInt32)
    else if buf[i]? = some '\n'.toUInt8 then
      let s := s.setName ((buf.drop j).take (i - j))
      if s.numSymbols ≥ MAX_SYMBOLS then s else loadLoop buf n (i + 1) (i + 1) s
    else loadLoop buf n (i + 1) j s

/-- What `__load_symbols` meets: an error, or the file; `behind` is in memory behind what was read of it. -/
inductive Source
  | noFilesystem
  | noFile
  | noMemory
  | unreadable
  | file (content behind : Str)

/-- `__load_symbols` -/
def loadSymbols (s : Symbols) : Source → Int × Symbols
  | .noFilesystem => (-1, s)
  | .noFile => (-2, s)
  | .noMemory => (-3, s)
  | .unreadable => (-4, s)
  | .file content behind =>
    let read := content.take (MAX_SYMBOLS * 50)
    (0, loadLoop (read ++ behind) read.length 0 0 s)

/-- `memcmp(name, entry.name, namelen) == 0` and the same length. -/
def Entry.matches (e : Entry) (name : Str) : Bool :=
  (name.take (strlen name)).isPrefixOf e.name && strlen e.name == strlen name

/-- `ksyms_resolve_symbol` for a name that is not NULL. -/
def ksymsResolveSymbol (t : KernelSymbols) (s : Symbols) (name : Str) : UInt32 :=
  match t.symtable.find? (·.matches name) with
  | some e => e.addr
  | none =>
    match ((List.range s.numSymbols).map s.symtable).find? (·.matches name) with
    | some e => e.addr
    | none => 0

/-! ## Lines -/

/-- A line of the file: an address in hexadecimal digits, a space, and a name of less than 50 characters. -/
structure Line where
  digits : Str
  name : Str
  digits_ne : digits ≠ []
  xdigits : ∀ c ∈ digits, isxdigit c = true
  fits : hexValue digits < 2 ^ 32
  plain : ∀ c ∈ name, c ≠ ' '.toUInt8 ∧ c ≠ '\n'.toUInt8 ∧ c ≠ 0
  short : name.length < 50

namespace Line

def addr (l : Line) : UInt32 := UInt32.ofNat (hexValue l.digits)

def entry (l : Line) : Entry := ⟨l.name, l.addr⟩

def text (l : Line) : Str := l.digits ++ ' '.toUInt8 :: l.name ++ ['\n'.toUInt8]

/-- What `htoi` makes of the line: behind an address of zeros it reads on in the name. -/
def addrRead (l : Line) : UInt32 := if hexValue l.digits = 0 then (htoi l.name).toUInt32 else l.addr

end Line

/-- The table with the entry of a line. -/
def Symbols.add (s : Symbols) (l : Line) : Symbols := (s.setAddr l.addrRead).setName l.name

section Lines
variable {buf rest : Str} {i n : Nat} {s : Symbols}

theorem getElem?_of_drop {c : UInt8} (h : buf.drop i = c :: rest) : buf[i]? = some c := by
  rw [← List.head?_drop, h, List.head?_cons]

theorem drop_of_drop {w : Str} (h : buf.drop i = w ++ rest) : buf.drop (i + w.length) = rest := by
  rw [← List.drop_drop, h, List.drop_left]

/-- The loop runs over characters that are no space and no newline. -/
theorem loadLoop_skip {w : Str} {j : Nat} (h : buf.drop i = w ++ rest)
    (hw : ∀ c ∈ w, c ≠ ' '.toUInt8 ∧ c ≠ '\n'.toUInt8) :
    loadLoop buf (w.length + n) i j s = loadLoop buf n (i + w.length) j s := by
  induction w generalizing i with
  | nil => rw [List.length_nil, Nat.zero_add, Nat.add_zero]
  | cons c w ih =>
    have hc := getElem?_of_drop h
    have hne := hw c (List.mem_cons_self ..)
    have hnext : buf.drop (i + 1) = w ++ rest := drop_of_drop (w := [c]) h
    rw [List.length_cons, Nat.add_right_comm, loadLoop, hc, if_neg (by simpa using hne.1), if_neg (by simpa using hne.2),
      ih hnext fun e he => hw e (List.mem_cons_of_mem _ he)]
    congr 1
    omega

/-- What `htoi` skips ends in front of a newline. -/
theorem htoiSkip_newline (w rest : Str) :
    htoiSkip (w ++ '\n'.toUInt8 :: rest) = htoiSkip w ++ '\n'.toUInt8 :: rest := by
  induction w with
  | nil => rfl
  | cons c w ih =>
    have hhead {x : UInt8} (hx : x ≠ '\n'.toUInt8) : (w ++ '\n'.toUInt8 :: rest).head? = some x ↔ w.head? = some x := by
      cases w with
      | nil => simp [hx.symm]
      | cons a w => rfl
    rw [List.cons_append, htoiSkip, htoiSkip, ih]
    simp only [hhead (by decide : 'x'.toUInt8 ≠ '\n'.toUInt8), hhead (by decide : 'X'.toUInt8 ≠ '\n'.toUInt8)]
    split
    · split
      · next h =>
        cases w with
        | nil => exact absurd h.2 (by simp)
        | cons a w => rfl
      · rfl
    · rfl

theorem htoi_newline (w rest : Str) : htoi (w ++ '\n'.toUInt8 :: rest) = htoi w := by
  have htake (u : Str) : (u ++ '\n'.toUInt8 :: rest).takeWhile isxdigit = u.takeWhile isxdigit := by
    induction u with
    | nil => rfl
    | cons c u ih => simp [List.takeWhile_cons, ih]
  rw [htoi, htoi, htoiSkip_newline, htake]

theorem htoi_line (l : Line) (rest : Str) :
    (htoi (l.digits ++ ' '.toUInt8 :: (l.name ++ '\n'.toUInt8 :: rest))).toUInt32 = l.addrRead := by
  have hspace : htoi (' '.toUInt8 :: (l.name ++ '\n'.toUInt8 :: rest)) = htoi l.name := htoi_newline l.name rest
  rw [htoi_append l.xdigits, hspace, Line.addrRead, Line.addr, apply_ite Int32.toUInt32]
  · rfl
  · intro c hc
    rw [← Option.some.inj hc]
    decide

/-- **What the loop does with a line.** -/
theorem loadLoop_line (l : Line) (h : buf.drop i = l.text ++ rest) :
    loadLoop buf (l.text.length + n) i i s =
      if (s.add l).numSymbols ≥ MAX_SYMBOLS then s.add l
      else loadLoop buf n (i + l.text.length) (i + l.text.length) (s.add l) := by
  have hdigits : buf.drop i = l.digits ++ ' '.toUInt8 :: (l.name ++ '\n'.toUInt8 :: rest) := by
    rw [h, Line.text]
    simp
  have hspace := drop_of_drop hdigits
  have hname : buf.drop (i + l.digits.length + 1) = l.name ++ '\n'.toUInt8 :: rest :=
    drop_of_drop (w := [' '.toUInt8]) hspace
  have hnewline := drop_of_drop hname
  have hlength : l.text.length = l.digits.length + (l.name.length + 1 + 1) := by
    simp [Line.text]
  have haddr : ∀ c ∈ l.digits, c ≠ ' '.toUInt8 ∧ c ≠ '\n'.toUInt8 := by
    intro c hc
    constructor
    · exact fun he => absurd (he ▸ l.xdigits c hc) (by decide)
    · exact fun he => absurd (he ▸ l.xdigits c hc) (by decide)
  have hplain : ∀ c ∈ l.name, c ≠ ' '.toUInt8 ∧ c ≠ '\n'.toUInt8 := fun c hc => ⟨(l.plain c hc).1, (l.plain c hc).2.1⟩
  have hcount : l.name.length + 1 + 1 + n = l.name.length + (n + 1) + 1 := by omega
  rw [hlength, Nat.add_assoc, loadLoop_skip hdigits haddr, hcount, loadLoop, getElem?_of_drop hspace, if_pos rfl, hdigits,
    htoi_line, loadLoop_skip hname hplain, loadLoop, getElem?_of_drop hnewline, if_neg (by decide), if_pos rfl, hname,
    Nat.add_sub_cancel_left, List.take_left]
  have hend : i + l.digits.length + 1 + l.name.length + 1 = i + (l.digits.length + (l.name.length + 1 + 1)) := by omega
  rw [hend]
  rfl

end Lines

end RetrOS.Ksyms
