import RetrOS.Developer.Compiler

/-!
# The source text (`next` and `lex_init` of `developer/lex.c`)

The bytes in front of the terminating NUL, and the table of symbols.

* `LexerContext` : `struct lexer` with `text`, `src` and `data`;
* `next` : skips to a token and sets `token`, `token_val` and `current_id`;
* `Stop` : how a call can end without a result; `overrun` is a `src` behind the NUL.

`line` is only printed and left out.
-/

namespace RetrOS.Lex
open RetrOS.Interpreter

/-- How the compiler stops. -/
inductive Stop
  /-- `kernel_exit()` behind the message `lex_errors[error]` -/
  | rejected (error : Nat)
  /-- `src` is behind the terminating NUL -/
  | overrun
  /-- a loop over `symbols` is behind its last entry -/
  | symbols
  /-- not a result of the code: the bound on the loops and calls of the model is too small -/
  | fuel
  deriving DecidableEq

/-- `lex_errors` -/
def lexErrors : List String :=
  ["All good.", "expected token",
    "unexpected token EOF of expression",
    "bad function call", "undefined variable",
    "bad dereference", "bad address of", "bad lvalue of pre-increment",
    "bad expression", "bad lvalue in assignment", "missing colon in conditional",
    "bad value in increment", "pointer type expected", "compiler error", "bad parameter declaration",
    "duplicate parameter declaration", "bad local declaration", "duplicate local declaration",
    "bad enum identifier", "bad enum initializer", "bad global declaration", "duplicate global declaration"]

/-- An entry of `symbols` whose `token` is set. -/
structure Symbol where
  token : Tok
  hash : Word
  /-- the source from the name on -/
  name : List UInt8
  /-- `class`, `value` and `type` -/
  id : Identifier
  /-- `Bclass`, `Bvalue` and `Btype` -/
  saved : Identifier

/-- `LEX_MAX_SYMBOLS` -/
abbrev lexMaxSymbols : Nat := 128

structure LexerContext where
  /-- what `src` points to, up to the terminating NUL -/
  src : List UInt8
  token : Tok
  tokenVal : Word
  symbols : List Symbol
  /-- the index of `current_id` -/
  currentId : Nat
  baseType : Nat
  exprType : Nat
  indexOfBp : Word
  /-- the address of the first word that is emitted -/
  base : Word
  /-- the words from there up to `text` -/
  text : List Word
  data : Word
  mem : Memory

/-! ## Characters -/

def isLetter (c : UInt8) : Bool := (97 ≤ c && c ≤ 122) || (65 ≤ c && c ≤ 90) || c == 95

def isDigit (c : UInt8) : Bool := 48 ≤ c && c ≤ 57

def isNameChar (c : UInt8) : Bool := isLetter c || isDigit c

def isOctal (c : UInt8) : Bool := 48 ≤ c && c ≤ 55

def isHex (c : UInt8) : Bool := isDigit c || (97 ≤ c && c ≤ 102) || (65 ≤ c && c ≤ 70)

/-- `"` and `'` -/
def isQuote (c : UInt8) : Bool := c == 34 || c == 39

/-- A `char` as an `int`. -/
def ofChar (c : UInt8) : Word := c.toBitVec.signExtend 32

/-- `hash = hash * 147 + *src`, from the first character on. -/
def hashOf (name : List UInt8) : Word := name.foldl (fun hash c => hash * 147 + ofChar c) 0

/-- The name that starts a text. -/
def nameOf (src : List UInt8) : List UInt8 := src.takeWhile isNameChar

/-- `hash` and the `memcmp` of as many characters as the name has. -/
def matchesName (src : List UInt8) (hash : Word) (name : List UInt8) : Bool :=
  hash == hashOf (nameOf src) && name.take (nameOf src).length == nameOf src

/-- `token_val` of a number and the text behind it; `c` is the first digit. -/
def readNumber (c : UInt8) (rest : List UInt8) : Word × List UInt8 :=
  if c ≠ 48 then
    ((rest.takeWhile isDigit).foldl (fun val d => val * 10 + ofChar d - 48) (ofChar c - 48), rest.dropWhile isDigit)
  else
    match rest with
    | x :: rest' =>
      if x = 120 ∨ x = 88 then
        ((rest'.takeWhile isHex).foldl
            (fun val d => val * 16 + (ofChar d &&& 15) + if 65 ≤ d then 9 else 0) 0, rest'.dropWhile isHex)
      else ((rest.takeWhile isOctal).foldl (fun val d => val * 8 + ofChar d - 48) 0, rest.dropWhile isOctal)
    | [] => (0, [])

/-- The characters of a literal up to its closing quote, and the text behind it; `none` where the loop meets the NUL,
which `src++` then passes, or where it follows a backslash. -/
def readLiteral (quote : UInt8) : List UInt8 → Option (List Word × List UInt8)
  | [] => none
  | c :: rest =>
    if c = quote then some ([], rest)
    else if c = 92 then
      match rest with
      | [] => none
      | d :: rest' => (readLiteral quote rest').map fun out => ((if d = 110 then 10 else ofChar d) :: out.1, out.2)
    else (readLiteral quote rest).map fun out => (ofChar c :: out.1, out.2)

/-- A character, or two of them if `d` follows. -/
def pair (rest : List UInt8) (d : UInt8) (two one : Tok) : Tok × List UInt8 :=
  if rest.head? = some d then (two, rest.tail) else (one, rest)

/-- The operators; `none` where the character is skipped. -/
def readOperator (c : UInt8) (rest : List UInt8) : Option (Tok × List UInt8) :=
  if c = 47 then some (.div, rest)                          -- '/'
  else if c = 61 then some (pair rest 61 .eq .assign)       -- '='
  else if c = 43 then some (pair rest 43 .inc .add)         -- '+'
  else if c = 45 then some (pair rest 45 .dec .sub)         -- '-'
  else if c = 33 then some (pair rest 61 .ne .not)          -- '!'
  else if c = 60 then                                       -- '<'
    if rest.head? = some 61 then some (.le, rest.tail) else some (pair rest 60 .shl .lt)
  else if c = 62 then                                       -- '>'
    if rest.head? = some 61 then some (.ge, rest.tail) else some (pair rest 62 .shr .gt)
  else if c = 124 then some (pair rest 124 .lor .or)        -- '|'
  else if c = 38 then some (pair rest 38 .lan .and)         -- '&'
  else if c = 94 then some (.xor, rest)                     -- '^'
  else if c = 37 then some (.mod, rest)                     -- '%'
  else if c = 42 then some (.mul, rest)                     -- '*'
  else if c = 91 then some (.brak, rest)                    -- '['
  else if c = 63 then some (.cond, rest)                    -- '?'
  else if c = 126 then some (.tilde, rest)                  -- '~'
  else if c = 59 then some (.semicolon, rest)               -- ';'
  else if c = 123 then some (.lbrace, rest)                 -- '{'
  else if c = 125 then some (.rbrace, rest)                 -- '}'
  else if c = 40 then some (.lparen, rest)                  -- '('
  else if c = 41 then some (.rparen, rest)                  -- ')'
  else if c = 93 then some (.rbrack, rest)                  -- ']'
  else if c = 44 then some (.comma, rest)                   -- ','
  else if c = 58 then some (.colon, rest)                   -- ':'
  else none

/-- A macro or a comment up to the end of the line, which stays. -/
def skipLine (src : List UInt8) : List UInt8 := src.dropWhile fun c => c != 10

theorem length_skipLine_le (src : List UInt8) : (skipLine src).length ≤ src.length :=
  (List.dropWhile_suffix _).length_le

/-! ## `next` -/

namespace LexerContext

/-- An identifier: the first entry with its name, or a new one. -/
def identifier (s : LexerContext) (src : List UInt8) : Except Stop LexerContext :=
  let rest := src.drop (nameOf src).length
  match s.symbols.findIdx? fun y => matchesName src y.hash y.name with
  | some k => .ok { s with src := rest, currentId := k, token := ((s.symbols[k]?).map Symbol.token).getD .id }
  | none =>
    if s.symbols.length < lexMaxSymbols then
      .ok { s with
        src := rest
        currentId := s.symbols.length
        token := .id
        symbols := s.symbols ++ [⟨.id, hashOf (nameOf src), src, ⟨.undefined, 0⟩, ⟨.undefined, 0⟩⟩] }
    else .error .symbols

def number (s : LexerContext) (c : UInt8) (rest : List UInt8) : LexerContext :=
  { s with src := (readNumber c rest).2, token := .num, tokenVal := (readNumber c rest).1 }

/-- `*data++ = token_val`, for all characters. -/
def storeData (s : LexerContext) (chars : List Word) : LexerContext :=
  chars.foldl (fun s v => { s with mem := s.mem.storeChar s.data v, data := s.data + 1 }) s

/-- A string is a token of its own, characters are a number. -/
def literal (s : LexerContext) (quote : UInt8) (rest : List UInt8) : Except Stop LexerContext :=
  match readLiteral quote rest with
  | none => .error .overrun
  | some (chars, rest') =>
    if quote = 34 then .ok { s.storeData chars with src := rest', token := .quote, tokenVal := s.data }
    else .ok { s with src := rest', token := .num, tokenVal := chars.getLast?.getD s.tokenVal }

/-- The loop of `next` over the text. -/
def nextFrom (s : LexerContext) (src : List UInt8) : Except Stop LexerContext :=
  match src with
  | [] => .ok { s with src := [], token := .eof }
  | c :: rest =>
    if c = 35 ∨ c = 47 ∧ rest.head? = some 47 then nextFrom s (skipLine rest)
    else if isLetter c then s.identifier (c :: rest)
    else if isDigit c then .ok (s.number c rest)
    else if isQuote c then s.literal c rest
    else
      match readOperator c rest with
      | some (token, rest') => .ok { s with src := rest', token }
      | none => nextFrom s rest
termination_by src.length
decreasing_by
  · exact Nat.lt_succ_of_le (length_skipLine_le rest)
  · exact Nat.lt_succ_self _

/-- `next` -/
def next (s : LexerContext) : Except Stop LexerContext := s.nextFrom s.src

/-! ## `lex_init` -/

/-- The keywords from `Char` to `While`. -/
def keywords : List Tok := [.char, .else_, .enum, .if_, .int, .return_, .sizeof, .while_]

/-- The library from `OPEN` to `FREE`. -/
def library : List SysCall := [.open_, .read, .clos, .prtf, .malc, .mset, .mcmp, .exit, .free]

/-- The text that `lex_init` reads. -/
def initText : List UInt8 :=
  ("char else enum if int return sizeof while " ++
    "open read close printf malloc memset memcmp exit free void main").toList.map fun c => c.toNat.toUInt8

/-- A write through `current_id`. -/
def setCurrent (s : LexerContext) (f : Symbol → Symbol) : LexerContext :=
  { s with symbols := s.symbols.modify s.currentId f }

/-- `class`, `type` and `value` of `current_id`; an entry without a symbol is all 0. -/
def current (s : LexerContext) : Identifier := ((s.symbols[s.currentId]?).map Symbol.id).getD ⟨.undefined, 0⟩

def initKeyword (s : LexerContext) (token : Tok) : Except Stop LexerContext := do
  let s ← s.next
  return s.setCurrent fun y => { y with token }

def initLibrary (s : LexerContext) (f : SysCall) : Except Stop LexerContext := do
  let s ← s.next
  return s.setCurrent fun y => { y with id := ⟨.sys f, INT⟩ }

/-- `lex_init`; the last symbol is `main`. -/
def lexInit (s : LexerContext) : Except Stop LexerContext := do
  let s ← keywords.foldlM initKeyword { s with symbols := [], src := initText }
  let s ← library.foldlM initLibrary s
  let s ← s.initKeyword .char
  s.next

/-- The index of `main`. -/
def mainId : Nat := 18

end LexerContext

end RetrOS.Lex
