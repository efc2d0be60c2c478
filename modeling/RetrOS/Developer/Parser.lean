import RetrOS.Developer.Source

/-!
# The compiler on the source text (`developer/lex.c`)

`expression`, `statement` and the declarations, on the bytes of the source and with the table of symbols. The branches
of `expression` and `statement` are those of `Interpreter.expression`, whose tokens are given; here they are read.

* `expression`, `statement` : with a bound on the depth of the calls and the turns of the loops;
* `functionParameter`, `functionBody`, `functionDeclaration`, `enumDeclaration`, `globalDeclaration` : the declarations;
* `program` : the whole of a source.
-/

namespace RetrOS.Lex
open RetrOS.Interpreter

abbrev Parsed := Except Stop LexerContext

def reject {α : Type} (error : Nat) : Except Stop α := .error (.rejected error)

namespace LexerContext

/-- `match` -/
def matchTok (s : LexerContext) (tk : Tok) : Parsed := if s.token = tk then s.next else reject 1

/-- `if (token == tk) match(tk);` -/
def optional (s : LexerContext) (tk : Tok) : Parsed := if s.token = tk then s.matchTok tk else .ok s

/-- `while (token == tk) match(tk);`, and how often. -/
def skip (tk : Tok) : Nat → LexerContext → Except Stop (Nat × LexerContext)
  | 0, _ => .error .fuel
  | n + 1, s =>
    if s.token = tk then do
      let s ← s.matchTok tk
      let (k, s) ← skip tk n s
      return (k + 1, s)
    else .ok (0, s)

/-- The name of a type, which is `int` if it is left out. -/
def typeName (n : Nat) (s : LexerContext) : Except Stop (Nat × LexerContext) := do
  let type := if s.token = .char then CHAR else INT
  let s ← if s.token = .int ∨ s.token = .char then s.matchTok s.token else .ok s
  let (stars, s) ← s.skip .mul n
  return (type + stars * PTR, s)

def emit (s : LexerContext) (words : List Word) : LexerContext := { s with text := s.text ++ words }

def emitWith (s : LexerContext) (v : Word) (op : BinOp) : LexerContext := s.emit (withWords v op)

/-- `*addr = w` in the text. -/
def patch (s : LexerContext) (n : Nat) (w : Word) : LexerContext := { s with text := s.text.set n w }

/-- `(int)(text + 1)` -/
def here (s : LexerContext) : Word := s.base + 4 * BitVec.ofNat 32 s.text.length

/-- The text without its last word, if that one is `LC` or `LI`. -/
def takeLoad (s : LexerContext) (error : Nat) : Except Stop (LexerContext × Word) :=
  match s.text.getLast? with
  | some w => if IsLoad w then .ok ({ s with text := s.text.dropLast }, w) else reject error
  | none => reject error

def withType (s : LexerContext) (type : Nat) : LexerContext := { s with exprType := type }

end LexerContext

open LexerContext

/-! ## The operands -/

section
variable (expr : Tok → LexerContext → Parsed) (fuel : Nat) (s : LexerContext)

/-- `Num`; `match` comes before the value is read. -/
def number : Parsed := do
  let s ← s.matchTok .num
  return (s.emit [Op.imm.code, s.tokenVal]).withType INT

/-- `"abc" "abc"`; `data` moves behind the terminator to a word. -/
def string : Parsed := do
  let s := s.emit [Op.imm.code, s.tokenVal]
  let s ← s.matchTok .quote
  let (_, s) ← s.skip .quote fuel
  return { s with data := (s.data + 4) &&& -4, exprType := PTR }

/-- `sizeof (type)` -/
def sizeOf : Parsed := do
  let s ← s.matchTok .sizeof
  let s ← s.matchTok .lparen
  let (type, s) ← s.typeName fuel
  let s ← s.matchTok .rparen
  return (s.emit [Op.imm.code, if type = CHAR then 1 else 4]).withType INT

/-- The loop over the arguments; `tmp` of them are pushed. -/
def arguments : Nat → Nat → LexerContext → Except Stop (Nat × LexerContext)
  | 0, _, _ => .error .fuel
  | n + 1, tmp, s =>
    if s.token = .rparen then .ok (tmp, s)
    else do
      let s ← expr .assign s
      let s ← (s.emit [Op.push.code]).optional .comma
      arguments n (tmp + 1) s

/-- `id(...)` -/
def functionCall (id : Identifier) : Parsed := do
  let s ← s.matchTok .lparen
  let (tmp, s) ← arguments expr fuel 0 s
  let s ← s.matchTok .rparen
  match id.class_.callee with
  | some f => return (s.emit (f.words ++ adjWords tmp)).withType id.type
  | none => reject 3

/-- An enumerator or a variable. -/
def variable_ (id : Identifier) : Parsed :=
  match id.class_ with
  | .num value => .ok ((s.emit [Op.imm.code, value]).withType INT)
  | .loc value => .ok ((s.emit [Op.lea.code, s.indexOfBp - value, (loadOp id.type).code]).withType id.type)
  | .glo value => .ok ((s.emit [Op.imm.code, value, (loadOp id.type).code]).withType id.type)
  | _ => reject 4

/-- `Id`; `match` comes before `current_id` is read. -/
def identifier : Parsed := do
  let s ← s.matchTok .id
  if s.token = .lparen then functionCall expr fuel s s.current else variable_ s s.current

/-- A cast, or an expression in parentheses. -/
def parenthesis : Parsed := do
  let s ← s.matchTok .lparen
  if s.token = .int ∨ s.token = .char then
    let (tmp, s) ← s.typeName fuel
    let s ← s.matchTok .rparen
    let s ← expr .inc s
    return s.withType tmp
  else
    let s ← expr .assign s
    s.matchTok .rparen

/-- `*addr` -/
def dereference : Parsed := do
  let s ← s.matchTok .mul
  let s ← expr .inc s
  if s.exprType ≥ PTR then
    return (s.emit [(loadOp (s.exprType - PTR)).code]).withType (s.exprType - PTR)
  else reject 5

/-- `&` -/
def addressOf : Parsed := do
  let s ← s.matchTok .and
  let s ← expr .inc s
  let (s, _) ← s.takeLoad 6
  return s.withType (s.exprType + PTR)

/-- `!`, as `== 0`. -/
def not : Parsed := do
  let s ← s.matchTok .not
  let s ← expr .inc s
  return (s.emitWith 0 .eq).withType INT

/-- `~`, as `XOR -1`. -/
def complement : Parsed := do
  let s ← s.matchTok .tilde
  let s ← expr .inc s
  return (s.emitWith (-1) .xor).withType INT

/-- `+` -/
def plus : Parsed := do
  let s ← s.matchTok .add
  let s ← expr .inc s
  return s.withType INT

/-- `-`; a number is negated here. -/
def minus : Parsed := do
  let s ← s.matchTok .sub
  if s.token = .num then
    let s ← (s.emit [Op.imm.code, -s.tokenVal]).matchTok .num
    return s.withType INT
  else
    let s ← expr .inc (s.emit [Op.imm.code, -1, Op.push.code])
    return (s.emit [(Op.bin .mul).code]).withType INT

/-- `++` and `--` in front: `PUSH` duplicates the address. -/
def preIncrement (tmp : IncDec) : Parsed := do
  let s ← s.matchTok tmp.tok
  let s ← expr .inc s
  let (s, w) ← s.takeLoad 7
  let s := (s.emit [Op.push.code, w]).emitWith (stride s.exprType) tmp.op
  return s.emit [(storeOp s.exprType).code]

/-- The first block of `expression`. -/
def unit : Parsed :=
  match s.token with
  | .eof => reject 2
  | .num => number s
  | .quote => string fuel s
  | .sizeof => sizeOf fuel s
  | .id => identifier expr fuel s
  | .lparen => parenthesis expr fuel s
  | .mul => dereference expr s
  | .and => addressOf expr s
  | .not => not expr s
  | .tilde => complement expr s
  | .add => plus expr s
  | .sub => minus expr s
  | .inc => preIncrement expr s .inc
  | .dec => preIncrement expr s .dec
  | _ => reject 8

/-! ## The operators -/

/-- `=` -/
def assignment : Parsed := do
  let tmp := s.exprType
  let s ← s.matchTok .assign
  let (s, _) ← s.takeLoad 9
  let s ← expr .assign (s.emit [Op.push.code])
  return (s.emit [(storeOp tmp).code]).withType tmp

/-- `? :` -/
def conditional : Parsed := do
  let s ← s.matchTok .cond
  let s := s.emit [Op.jz.code]
  let addr := s.text.length
  let s ← expr .assign (s.emit [0])
  if s.token = .colon then
    let s ← s.matchTok .colon
    let s := (s.patch addr (s.here + 8)).emit [Op.jmp.code]
    let addr := s.text.length
    let s ← expr .cond (s.emit [0])
    return s.patch addr s.here
  else reject 10

/-- `||` and `&&` -/
def logical (j : Junction) : Parsed := do
  let s ← s.matchTok j.tok
  let s := s.emit [j.jump.code]
  let addr := s.text.length
  let s ← expr j.level (s.emit [0])
  return (s.patch addr s.here).withType INT

/-- The operators from `|` to `%`. -/
def binary (op : BinOp) : Parsed := do
  let tmp := s.exprType
  let s ← s.matchTok op.tok
  let s ← expr op.level (s.emit [Op.push.code])
  return (s.emit (op.finish tmp s.exprType).1).withType (op.finish tmp s.exprType).2

/-- `++` and `--` behind: the value is changed back after the store. -/
def postIncrement (tmp : IncDec) : Parsed := do
  let (s, w) ← s.takeLoad 11
  let s := (s.emit [Op.push.code, w]).emitWith (stride s.exprType) tmp.op
  let s := (s.emit [(storeOp s.exprType).code]).emitWith (stride s.exprType) tmp.back
  s.matchTok tmp.tok

/-- `[ ]` -/
def bracket : Parsed := do
  let tmp := s.exprType
  let s ← s.matchTok .brak
  let s ← expr .assign (s.emit [Op.push.code])
  let s ← s.matchTok .rbrack
  if tmp < PTR then reject 12
  else
    return (s.emit (scaleWords tmp ++ [(Op.bin .add).code, (loadOp (tmp - PTR)).code])).withType (tmp - PTR)

/-- One turn of the loop over the operators. -/
def operator : Parsed :=
  match s.token with
  | .assign => assignment expr s
  | .cond => conditional expr s
  | .lor => logical expr s .lor
  | .lan => logical expr s .lan
  | .or => binary expr s .or
  | .xor => binary expr s .xor
  | .and => binary expr s .and
  | .eq => binary expr s .eq
  | .ne => binary expr s .ne
  | .lt => binary expr s .lt
  | .gt => binary expr s .gt
  | .le => binary expr s .le
  | .ge => binary expr s .ge
  | .shl => binary expr s .shl
  | .shr => binary expr s .shr
  | .add => binary expr s .add
  | .sub => binary expr s .sub
  | .mul => binary expr s .mul
  | .div => binary expr s .div
  | .mod => binary expr s .mod
  | .inc => postIncrement s .inc
  | .dec => postIncrement s .dec
  | .brak => bracket expr s
  | _ => reject 13

/-- `while (token >= level)` -/
def operators (level : Tok) : Nat → LexerContext → Parsed
  | 0, _ => .error .fuel
  | n + 1, s =>
    if s.token.code ≥ level.code then do
      let s ← operator expr s
      operators level n s
    else .ok s

end

/-- `expression` -/
def expression : Nat → Tok → LexerContext → Parsed
  | 0, _, _ => .error .fuel
  | fuel + 1, level, s => do
    let s ← unit (expression fuel) fuel s
    operators (expression fuel) level fuel s

/-! ## Statements -/

section
variable (expr stmt : LexerContext → Parsed) (s : LexerContext)

/-- `( expression )` behind `if` and `while`. -/
def condition : Parsed := do
  let s ← s.matchTok .lparen
  let s ← expr s
  s.matchTok .rparen

def ifStatement : Parsed := do
  let s ← s.matchTok .if_
  let s ← condition expr s
  let s := s.emit [Op.jz.code]
  let b := s.text.length
  let s ← stmt (s.emit [0])
  if s.token = .else_ then
    let s ← s.matchTok .else_
    let s := (s.patch b (s.here + 8)).emit [Op.jmp.code]
    let b := s.text.length
    let s ← stmt (s.emit [0])
    return s.patch b s.here
  else return s.patch b s.here

def whileStatement : Parsed := do
  let s ← s.matchTok .while_
  let a := s.here
  let s ← condition expr s
  let s := s.emit [Op.jz.code]
  let b := s.text.length
  let s ← stmt (s.emit [0])
  let s := s.emit [Op.jmp.code, a]
  return s.patch b s.here

/-- `while (token != '}') statement();` -/
def statements : Nat → LexerContext → Parsed
  | 0, _ => .error .fuel
  | n + 1, s =>
    if s.token = .rbrace then .ok s
    else do
      let s ← stmt s
      statements n s

def blockStatement (fuel : Nat) : Parsed := do
  let s ← s.matchTok .lbrace
  let s ← statements stmt fuel s
  s.matchTok .rbrace

def returnStatement : Parsed := do
  let s ← s.matchTok .return_
  let s ← if s.token ≠ .semicolon then expr s else .ok s
  let s ← s.matchTok .semicolon
  return s.emit [Op.lev.code]

def expressionStatement : Parsed := do
  let s ← expr s
  s.matchTok .semicolon

end

/-- `statement` -/
def statement : Nat → LexerContext → Parsed
  | 0, _ => .error .fuel
  | fuel + 1, s =>
    match s.token with
    | .if_ => ifStatement (expression (fuel + 1) .assign) (statement fuel) s
    | .while_ => whileStatement (expression (fuel + 1) .assign) (statement fuel) s
    | .lbrace => blockStatement (statement fuel) s fuel
    | .return_ => returnStatement (expression (fuel + 1) .assign) s
    | .semicolon => s.matchTok .semicolon
    | _ => expressionStatement (expression (fuel + 1) .assign) s

/-! ## Declarations -/

section
variable (n : Nat)

/-- A local name: the old meaning is kept for the end of the function. -/
def LexerContext.declare (s : LexerContext) (value : Word) (type : Nat) : LexerContext :=
  s.setCurrent fun y => { y with id := ⟨.loc value, type⟩, saved := y.id }

/-- `class == Loc` -/
def IsLoc (c : IdClass) : Prop := ∃ value, c = .loc value

instance : DecidablePred IsLoc
  | .loc value => isTrue ⟨value, rfl⟩
  | .undefined => isFalse fun ⟨_, h⟩ => IdClass.noConfusion h
  | .num _ => isFalse fun ⟨_, h⟩ => IdClass.noConfusion h
  | .fun_ _ => isFalse fun ⟨_, h⟩ => IdClass.noConfusion h
  | .sys _ => isFalse fun ⟨_, h⟩ => IdClass.noConfusion h
  | .glo _ => isFalse fun ⟨_, h⟩ => IdClass.noConfusion h

/-- A name that is not local yet gets the value; `bad` and `duplicate` are the errors. -/
def localName (s : LexerContext) (value : Word) (type bad duplicate : Nat) : Parsed :=
  if s.token ≠ .id then reject bad
  else if IsLoc s.current.class_ then reject duplicate
  else do
    let s ← s.matchTok .id
    (s.declare value type).optional .comma

/-- `function_parameter`; `params` names have been declared. -/
def functionParameter : Nat → Nat → LexerContext → Parsed
  | 0, _, _ => .error .fuel
  | k + 1, params, s =>
    if s.token = .rparen then .ok { s with indexOfBp := BitVec.ofNat 32 (params + 1) }
    else do
      let (type, s) ← s.typeName n
      let s ← localName s (BitVec.ofNat 32 params) type 14 15
      functionParameter k (params + 1) s

/-- The names up to `;`; `locals` of the function have been declared before. -/
def localNames : Nat → Nat → LexerContext → Except Stop (Nat × LexerContext)
  | 0, _, _ => .error .fuel
  | k + 1, locals, s =>
    if s.token = .semicolon then .ok (locals, s)
    else do
      let (stars, s) ← s.skip .mul n
      let s ← localName s (s.indexOfBp + BitVec.ofNat 32 (locals + 1)) (s.baseType + stars * PTR) 16 17
      localNames k (locals + 1) s

/-- The declarations at the start of a body, and how many names they have. -/
def localDeclarations : Nat → Nat → LexerContext → Except Stop (Nat × LexerContext)
  | 0, _, _ => .error .fuel
  | k + 1, locals, s =>
    if s.token = .int ∨ s.token = .char then do
      let type := if s.token = .int then INT else CHAR
      let s ← ({ s with baseType := type } : LexerContext).matchTok s.token
      let (locals, s) ← localNames n n locals s
      let s ← s.matchTok .semicolon
      localDeclarations k locals s
    else .ok (locals, s)

/-- `function_body` -/
def functionBody (s : LexerContext) : Parsed := do
  let (locals, s) ← localDeclarations n n 0 s
  let s ← statements (statement n) n (s.emit [Op.ent.code, BitVec.ofNat 32 locals])
  return s.emit [Op.lev.code]

/-- The loop that takes the local names back; it looks for an entry without a token. -/
def unwind (s : LexerContext) : Parsed :=
  if s.symbols.length < lexMaxSymbols then
    .ok { s with
      symbols := s.symbols.map fun y => if IsLoc y.id.class_ then { y with id := y.saved } else y
      currentId := s.symbols.length }
  else .error .symbols

/-- `function_declaration` -/
def functionDeclaration (s : LexerContext) : Parsed := do
  let s ← s.matchTok .lparen
  let s ← functionParameter n n 0 s
  let s ← s.matchTok .rparen
  let s ← s.matchTok .lbrace
  let s ← functionBody n s
  unwind s

/-- The value of an enumerator, if it is given. -/
def enumValue (i : Word) (s : LexerContext) : Except Stop (Word × LexerContext) :=
  if s.token = .assign then do
    let s ← s.next
    if s.token ≠ .num then reject 19
    else
      let i := s.tokenVal
      let s ← s.next
      return (i, s)
  else .ok (i, s)

/-- `enum_declaration` -/
def enumDeclaration : Nat → Word → LexerContext → Parsed
  | 0, _, _ => .error .fuel
  | k + 1, i, s =>
    if s.token = .rbrace then .ok s
    else if s.token ≠ .id then reject 18
    else do
      let s ← s.next
      let (i, s) ← enumValue i s
      let s := s.setCurrent fun y => { y with id := ⟨.num i, INT⟩ }
      let s ← if s.token = .comma then s.next else .ok s
      enumDeclaration k (i + 1) s

/-- `enum [id] { ... };` -/
def enumeration (s : LexerContext) : Parsed := do
  let s ← s.matchTok .enum
  let s ← if s.token ≠ .lbrace then s.matchTok .id else .ok s
  let s ← if s.token = .lbrace then do
      let s ← s.matchTok .lbrace
      let s ← enumDeclaration n 0 s
      s.matchTok .rbrace
    else .ok s
  s.matchTok .semicolon

/-- A function or a variable behind its name. -/
def globalName (s : LexerContext) : Parsed :=
  if s.token = .lparen then
    functionDeclaration n (s.setCurrent fun y => { y with id := ⟨.fun_ s.here, y.id.type⟩ })
  else
    .ok { s.setCurrent fun y => { y with id := ⟨.glo s.data, y.id.type⟩ } with data := s.data + 4 }

/-- The names up to `;` or `}`. -/
def globalNames : Nat → LexerContext → Parsed
  | 0, _ => .error .fuel
  | k + 1, s =>
    if s.token = .semicolon ∨ s.token = .rbrace then .ok s
    else do
      let (stars, s) ← s.skip .mul n
      if s.token ≠ .id then reject 20
      else if s.current.class_ ≠ .undefined then reject 21
      else
        let s ← s.matchTok .id
        let s := s.setCurrent fun y => { y with id := ⟨y.id.class_, s.baseType + stars * PTR⟩ }
        let s ← globalName n s
        let s ← s.optional .comma
        globalNames k s

/-- `global_declaration` -/
def globalDeclaration (s : LexerContext) : Parsed :=
  if s.token = .enum then enumeration n { s with baseType := INT }
  else do
    let type := if s.token = .char then CHAR else INT
    let s ← if s.token = .int ∨ s.token = .char then s.matchTok s.token else .ok s
    let s ← globalNames n n { s with baseType := type }
    s.next

/-- `while (token > 0) global_declaration();` -/
def globalDeclarations : Nat → LexerContext → Parsed
  | 0, _ => .error .fuel
  | k + 1, s =>
    if s.token = .eof then .ok s
    else do
      let s ← globalDeclaration n s
      globalDeclarations k s

end

/-- `lexer_context` and the globals before a compilation. -/
def start (base data : Word) (mem : Memory) : LexerContext :=
  { src := [], token := .eof, tokenVal := 0, symbols := [], currentId := 0, baseType := 0, exprType := 0,
    indexOfBp := 0, base := base + 4, text := [], data, mem }

/-- The state in front of the first `next` on the source. -/
def opened (base data : Word) (mem : Memory) (src : List UInt8) : Parsed := do
  let s ← (start base data mem).lexInit
  return { s with src }

/-- The value of an identifier. -/
def valueOf : IdClass → Word
  | .undefined => 0
  | .num value => value
  | .fun_ value => value
  | .sys f => (Op.sys f).code
  | .glo value => value
  | .loc value => value

/-- `struct lexed_file` -/
structure LexedFile where
  textSize : Word
  dataSize : Word
  entry : Word

/-- `program`, with the text at `base` and the data at `data`; `n` bounds the loops and the depth of the calls. -/
def program (n : Nat) (base data : Word) (mem : Memory) (src : List UInt8) :
    Except Stop (LexedFile × LexerContext) := do
  let s ← opened base data mem src
  let s ← s.next
  let s ← globalDeclarations n n s
  let main := ((s.symbols[mainId]?).map fun y => valueOf y.id.class_).getD 0
  return (⟨4 * BitVec.ofNat 32 s.text.length, s.data - data, main - base⟩, s)

end RetrOS.Lex
