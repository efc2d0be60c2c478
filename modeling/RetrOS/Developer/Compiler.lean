import RetrOS.Developer.Vm

/-!
# The compiler (`expression` and `statement` of `developer/lex.c`)

One pass over the tokens. The words of the text are a list: `*++text = w` appends, and `*text` is the last one. An error
(`kernel_exit`) has no result. Every branch of `expression` is a definition; `expr` is `expression` itself.

* `expression` : `unit`, then the operators from `level` on;
* `statement` : the six kinds of statements.
-/

namespace RetrOS.Interpreter

structure Lexer where
  input : Input
  exprType : Nat
  /-- the words emitted so far -/
  text : List Word

/-- What a function's body is compiled for: the address of the first word of the text, and `index_of_bp`. -/
structure Context where
  base : Word
  indexOfBp : Word

/-- The address of a word of the text. -/
def Context.addr (ctx : Context) (n : Nat) : Word := ctx.base + 4 * BitVec.ofNat 32 n

theorem Context.addr_add_two (ctx : Context) (n : Nat) : ctx.addr n + 8 = ctx.addr (n + 2) := by
  unfold Context.addr
  bv_omega

/-- `(type == CHAR) ? LC : LI` -/
def loadOp (type : Nat) : Op := if type = CHAR then .lc else .li

/-- `(type == CHAR) ? SC : SI` -/
def storeOp (type : Nat) : Op := if type = CHAR then .sc else .si

/-- What `++` and `--` add to a value. -/
def stride (type : Nat) : Word := if type > PTR then 4 else 1

/-- The instructions that combine `ax` and a value. -/
def withWords (v : Word) (op : BinOp) : List Word := [Op.push.code, Op.imm.code, v, (Op.bin op).code]

/-- What scales an index into words. -/
def scaleWords (type : Nat) : List Word := if type > PTR then withWords 4 .mul else []

/-- `w == LC || w == LI` -/
def IsLoad (w : Word) : Prop := w = Op.lc.code ∨ w = Op.li.code

instance (w : Word) : Decidable (IsLoad w) := inferInstanceAs (Decidable (_ ∨ _))

namespace Lexer

abbrev token (s : Lexer) : Tok := s.input.token

def matchTok (s : Lexer) (tk : Tok) : Option Lexer := (s.input.matchTok tk).map fun input => { s with input }

def emit (s : Lexer) (words : List Word) : Lexer := { s with text := s.text ++ words }

def emitWith (s : Lexer) (v : Word) (op : BinOp) : Lexer := s.emit (withWords v op)

def patch (s : Lexer) (n : Nat) (w : Word) : Lexer := { s with text := s.text.set n w }

/-- `(int)(text + 1)` -/
def here (ctx : Context) (s : Lexer) : Word := ctx.addr s.text.length

/-- The text without its last word, if that one is `LC` or `LI`. -/
def takeLoad (s : Lexer) : Option (Lexer × Word) :=
  match s.text.getLast? with
  | some w => if IsLoad w then some ({ s with text := s.text.dropLast }, w) else none
  | none => none

end Lexer

/-- `BinOp.tok op` : the token of an operator. -/
def BinOp.tok : BinOp → Tok
  | .or => .or
  | .xor => .xor
  | .and => .and
  | .eq => .eq
  | .ne => .ne
  | .lt => .lt
  | .gt => .gt
  | .le => .le
  | .ge => .ge
  | .shl => .shl
  | .shr => .shr
  | .add => .add
  | .sub => .sub
  | .mul => .mul
  | .div => .div
  | .mod => .mod

/-- The level of the right operand. -/
def BinOp.level : BinOp → Tok
  | .or => .xor
  | .xor => .and
  | .and => .eq
  | .eq => .ne
  | .ne => .lt
  | .lt => .shl
  | .gt => .shl
  | .le => .shl
  | .ge => .shl
  | .shl => .add
  | .shr => .add
  | .add => .mul
  | .sub => .mul
  | .mul => .inc
  | .div => .inc
  | .mod => .inc

/-- The words behind the right operand, and the type; `tmp` and `right` are the types of the operands. -/
def BinOp.finish (op : BinOp) (tmp right : Nat) : List Word × Nat :=
  match op with
  | .add =>
    if tmp > PTR then ([Op.push.code, Op.imm.code, 4, (Op.bin .mul).code, (Op.bin .add).code], tmp)
    else ([(Op.bin .add).code], tmp)
  | .sub =>
    if tmp > PTR ∧ tmp = right then
      ([(Op.bin .sub).code, Op.push.code, Op.imm.code, 4, (Op.bin .div).code], INT)
    else if tmp > PTR then ([Op.push.code, Op.imm.code, 4, (Op.bin .mul).code, (Op.bin .sub).code], tmp)
    else ([(Op.bin .sub).code], tmp)
  | .mul => ([(Op.bin .mul).code], tmp)
  | .div => ([(Op.bin .div).code], tmp)
  | .mod => ([(Op.bin .mod).code], tmp)
  | op => ([(Op.bin op).code], INT)

/-- `||` and `&&` -/
inductive Junction
  | lor
  | lan
  deriving DecidableEq

def Junction.tok : Junction → Tok
  | .lor => .lor
  | .lan => .lan

/-- The instruction that leaves out the right operand. -/
def Junction.jump : Junction → Op
  | .lor => .jnz
  | .lan => .jz

def Junction.level : Junction → Tok
  | .lor => .lan
  | .lan => .or

/-- `++` and `--` -/
inductive IncDec
  | inc
  | dec
  deriving DecidableEq

def IncDec.tok : IncDec → Tok
  | .inc => .inc
  | .dec => .dec

def IncDec.op : IncDec → BinOp
  | .inc => .add
  | .dec => .sub

/-- What changes the value back. -/
def IncDec.back : IncDec → BinOp
  | .inc => .sub
  | .dec => .add

/-! ## The operands -/

section
variable (ctx : Context) (expr : Tok → Lexer → Option Lexer) (fuel : Nat) (s : Lexer)

/-- `Num`; `match` comes before the value is read. -/
def number : Option Lexer := do
  let s ← s.matchTok .num
  some { s.emit [Op.imm.code, s.input.tokenVal] with exprType := INT }

/-- `"abc" "abc"` -/
def string : Option Lexer := do
  let s := s.emit [Op.imm.code, s.input.tokenVal]
  let s ← s.matchTok .quote
  some { s with input := (s.input.skip .quote s.input.lexemes.length).2, exprType := PTR }

/-- `sizeof (type)` -/
def sizeOf : Option Lexer := do
  let s ← s.matchTok .sizeof
  let s ← s.matchTok .lparen
  let (type, input) := s.input.typeName
  let s ← { s with input }.matchTok .rparen
  some { s.emit [Op.imm.code, if type = CHAR then 1 else 4] with exprType := INT }

/-- The loop over the arguments; `tmp` of them are pushed. -/
def arguments : Nat → Nat → Lexer → Option (Lexer × Nat)
  | 0, _, _ => none
  | n + 1, tmp, s =>
    if s.token = .rparen then some (s, tmp)
    else do
      let s ← expr .assign s
      let s := s.emit [Op.push.code]
      arguments n (tmp + 1) { s with input := s.input.optional .comma }

/-- What can be called. -/
inductive Callee
  | sys (f : SysCall)
  | fun_ (value : Word)
  deriving DecidableEq

def IdClass.callee : IdClass → Option Callee
  | .sys f => some (.sys f)
  | .fun_ value => some (.fun_ value)
  | _ => none

/-- The instruction that calls a function. -/
def Callee.words : Callee → List Word
  | .sys f => [(Op.sys f).code]
  | .fun_ value => [Op.call.code, value]

/-- The words that clean the stack. -/
def adjWords (tmp : Nat) : List Word := if tmp > 0 then [Op.adj.code, BitVec.ofNat 32 tmp] else []

/-- `id(...)` -/
def functionCall (id : Identifier) : Option Lexer := do
  let s ← s.matchTok .lparen
  let (s, tmp) ← arguments expr fuel 0 s
  let s ← s.matchTok .rparen
  let f ← id.class_.callee
  some { s.emit (f.words ++ adjWords tmp) with exprType := id.type }

/-- An enumerator or a variable. -/
def variable_ (id : Identifier) : Option Lexer :=
  match id.class_ with
  | .num value => some { s.emit [Op.imm.code, value] with exprType := INT }
  | .loc value => some { s.emit [Op.lea.code, ctx.indexOfBp - value, (loadOp id.type).code] with exprType := id.type }
  | .glo value => some { s.emit [Op.imm.code, value, (loadOp id.type).code] with exprType := id.type }
  | _ => none

/-- `Id`; `match` comes before `current_id` is read. -/
def identifier : Option Lexer := do
  let s ← s.matchTok .id
  let id := s.input.currentId
  if s.token = .lparen then functionCall expr fuel s id else variable_ ctx s id

/-- A cast, or an expression in parentheses. -/
def parenthesis : Option Lexer := do
  let s ← s.matchTok .lparen
  if s.token = .int ∨ s.token = .char then
    let (tmp, input) := s.input.typeName
    let s ← { s with input }.matchTok .rparen
    let s ← expr .inc s
    some { s with exprType := tmp }
  else
    let s ← expr .assign s
    s.matchTok .rparen

/-- `*addr` -/
def dereference : Option Lexer := do
  let s ← s.matchTok .mul
  let s ← expr .inc s
  if s.exprType ≥ PTR then
    let type := s.exprType - PTR
    some { s.emit [(loadOp type).code] with exprType := type }
  else none

/-- `&` -/
def addressOf : Option Lexer := do
  let s ← s.matchTok .and
  let s ← expr .inc s
  let (s, _) ← s.takeLoad
  some { s with exprType := s.exprType + PTR }

/-- `!`, as `== 0`. -/
def not : Option Lexer := do
  let s ← s.matchTok .not
  let s ← expr .inc s
  some { s.emitWith 0 .eq with exprType := INT }

/-- `~`, as `XOR -1`. -/
def complement : Option Lexer := do
  let s ← s.matchTok .tilde
  let s ← expr .inc s
  some { s.emitWith (-1) .xor with exprType := INT }

/-- `+` -/
def plus : Option Lexer := do
  let s ← s.matchTok .add
  let s ← expr .inc s
  some { s with exprType := INT }

/-- `-`; a number is negated here. -/
def minus : Option Lexer := do
  let s ← s.matchTok .sub
  if s.token = .num then
    let s := s.emit [Op.imm.code, -s.input.tokenVal]
    let s ← s.matchTok .num
    some { s with exprType := INT }
  else
    let s := s.emit [Op.imm.code, -1, Op.push.code]
    let s ← expr .inc s
    some { s.emit [(Op.bin .mul).code] with exprType := INT }

/-- `++` and `--` in front: `PUSH` duplicates the address. -/
def preIncrement (tmp : IncDec) : Option Lexer := do
  let s ← s.matchTok tmp.tok
  let s ← expr .inc s
  let (s, w) ← s.takeLoad
  let s := s.emit [Op.push.code, w]
  let s := s.emitWith (stride s.exprType) tmp.op
  some (s.emit [(storeOp s.exprType).code])

/-- The first block of `expression`. -/
def unit : Option Lexer :=
  match s.token with
  | .num => number s
  | .quote => string s
  | .sizeof => sizeOf s
  | .id => identifier ctx expr fuel s
  | .lparen => parenthesis expr s
  | .mul => dereference expr s
  | .and => addressOf expr s
  | .not => not expr s
  | .tilde => complement expr s
  | .add => plus expr s
  | .sub => minus expr s
  | .inc => preIncrement expr s .inc
  | .dec => preIncrement expr s .dec
  | _ => none

/-! ## The operators -/

/-- `=` -/
def assignment : Option Lexer := do
  let tmp := s.exprType
  let s ← s.matchTok .assign
  let (s, _) ← s.takeLoad
  let s := s.emit [Op.push.code]
  let s ← expr .assign s
  some { s.emit [(storeOp tmp).code] with exprType := tmp }

/-- `? :` -/
def conditional : Option Lexer := do
  let s ← s.matchTok .cond
  let s := s.emit [Op.jz.code]
  let addr := s.text.length
  let s := s.emit [0]
  let s ← expr .assign s
  let s ← s.matchTok .colon
  let s := s.patch addr (s.here ctx + 8)
  let s := s.emit [Op.jmp.code]
  let addr := s.text.length
  let s := s.emit [0]
  let s ← expr .cond s
  some (s.patch addr (s.here ctx))

/-- `||` and `&&` -/
def logical (j : Junction) : Option Lexer := do
  let s ← s.matchTok j.tok
  let s := s.emit [j.jump.code]
  let addr := s.text.length
  let s := s.emit [0]
  let s ← expr j.level s
  some { s.patch addr (s.here ctx) with exprType := INT }

/-- The operators from `|` to `%`. -/
def binary (op : BinOp) : Option Lexer := do
  let tmp := s.exprType
  let s ← s.matchTok op.tok
  let s := s.emit [Op.push.code]
  let s ← expr op.level s
  some { s.emit (op.finish tmp s.exprType).1 with exprType := (op.finish tmp s.exprType).2 }

/-- `++` and `--` behind: the value is changed back after the store. -/
def postIncrement (tmp : IncDec) : Option Lexer := do
  let (s, w) ← s.takeLoad
  let s := s.emit [Op.push.code, w]
  let s := s.emitWith (stride s.exprType) tmp.op
  let s := s.emit [(storeOp s.exprType).code]
  let s := s.emitWith (stride s.exprType) tmp.back
  s.matchTok tmp.tok

/-- `[ ]` -/
def bracket : Option Lexer := do
  let tmp := s.exprType
  let s ← s.matchTok .brak
  let s := s.emit [Op.push.code]
  let s ← expr .assign s
  let s ← s.matchTok .rbrack
  let type := tmp - PTR
  if tmp < PTR then none
  else
    some { s.emit (scaleWords tmp ++ [(Op.bin .add).code, (loadOp type).code]) with exprType := type }

/-- One turn of the loop over the operators. -/
def operator : Option Lexer :=
  match s.token with
  | .assign => assignment expr s
  | .cond => conditional ctx expr s
  | .lor => logical ctx expr s .lor
  | .lan => logical ctx expr s .lan
  | .or => binary expr s .or
  | .xor => binary expr s .xor
  | .and => binary expr s .and
  | .eq => binary expr s .eq
  | .ne => binary expr s .ne
  | .lt => binary expr s .lt
  | .gt => binary expr s .gt
  | .le => binary expr s .le
  | .ge => binary expr s .ge
  | .shl => binary expr s .shl
  | .shr => binary expr s .shr
  | .add => binary expr s .add
  | .sub => binary expr s .sub
  | .mul => binary expr s .mul
  | .div => binary expr s .div
  | .mod => binary expr s .mod
  | .inc => postIncrement s .inc
  | .dec => postIncrement s .dec
  | .brak => bracket expr s
  | _ => none

/-- `while (token >= level)` -/
def operators (level : Tok) : Nat → Lexer → Option Lexer
  | 0, _ => none
  | n + 1, s => if s.token.code ≥ level.code then (operator ctx expr s).bind (operators level n) else some s

end

/-- `expression`; `fuel` bounds the depth of the calls and the turns of each loop. -/
def expression (ctx : Context) : Nat → Tok → Lexer → Option Lexer
  | 0, _, _ => none
  | fuel + 1, level, s =>
    (unit ctx (expression ctx fuel) fuel s).bind (operators ctx (expression ctx fuel) level fuel)

/-! ## Statements -/

section
variable (ctx : Context) (expr stmt : Lexer → Option Lexer) (s : Lexer)

/-- `( expression )` behind `if` and `while`. -/
def condition : Option Lexer := do
  let s ← s.matchTok .lparen
  let s ← expr s
  s.matchTok .rparen

def ifStatement : Option Lexer := do
  let s ← s.matchTok .if_
  let s ← condition expr s
  let s := s.emit [Op.jz.code]
  let b := s.text.length
  let s := s.emit [0]
  let s ← stmt s
  if s.token = .else_ then
    let s ← s.matchTok .else_
    let s := s.patch b (s.here ctx + 8)
    let s := s.emit [Op.jmp.code]
    let b := s.text.length
    let s := s.emit [0]
    let s ← stmt s
    some (s.patch b (s.here ctx))
  else some (s.patch b (s.here ctx))

def whileStatement : Option Lexer := do
  let s ← s.matchTok .while_
  let a := s.here ctx
  let s ← condition expr s
  let s := s.emit [Op.jz.code]
  let b := s.text.length
  let s := s.emit [0]
  let s ← stmt s
  let s := s.emit [Op.jmp.code, a]
  some (s.patch b (s.here ctx))

/-- `while (token != '}') statement();` -/
def statements : Nat → Lexer → Option Lexer
  | 0, _ => none
  | n + 1, s => if s.token = .rbrace then some s else (stmt s).bind (statements n)

def blockStatement (fuel : Nat) : Option Lexer := do
  let s ← s.matchTok .lbrace
  let s ← statements stmt fuel s
  s.matchTok .rbrace

/-- The expression behind `return`, if there is one. -/
def returnValue : Option Lexer := if s.token ≠ .semicolon then expr s else some s

def returnStatement : Option Lexer := do
  let s ← s.matchTok .return_
  let s ← returnValue expr s
  let s ← s.matchTok .semicolon
  some (s.emit [Op.lev.code])

def expressionStatement : Option Lexer := do
  let s ← expr s
  s.matchTok .semicolon

end

/-- `statement` -/
def statement (ctx : Context) : Nat → Lexer → Option Lexer
  | 0, _ => none
  | fuel + 1, s =>
    let expr := expression ctx fuel .assign
    let stmt := statement ctx fuel
    match s.token with
    | .if_ => ifStatement ctx expr stmt s
    | .while_ => whileStatement ctx expr stmt s
    | .lbrace => blockStatement stmt s fuel
    | .return_ => returnStatement expr s
    | .semicolon => s.matchTok .semicolon
    | _ => expressionStatement expr s

end RetrOS.Interpreter
