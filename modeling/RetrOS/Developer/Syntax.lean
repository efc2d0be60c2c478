import RetrOS.Developer.Compiler

/-!
# The syntax that the compiler reads

The trees behind the token sequences: what `expression` does to the tokens, apart from the text.

* `Expr` : the trees;
* `Expr.gen` : the words that the compiler emits for a tree, at a place in the text;
* `parseExpression` : the tree of a token sequence, with the branches of the compiler.
-/

namespace RetrOS.Interpreter

mutual

inductive Expr
  /-- a number, a string, `sizeof` or an enumerator -/
  | imm (v : Word) (type : Nat)
  | loc (value : Word) (type : Nat)
  | glo (value : Word) (type : Nat)
  | call (f : Callee) (type : Nat) (args : Args)
  | cast (type : Nat) (e : Expr)
  | plus (e : Expr)
  | minus (e : Expr)
  | not (e : Expr)
  | complement (e : Expr)
  | dereference (e : Expr)
  | addressOf (e : Expr)
  | preIncrement (tmp : IncDec) (e : Expr)
  | postIncrement (tmp : IncDec) (e : Expr)
  | assign (a b : Expr)
  | cond (c a b : Expr)
  | logical (j : Junction) (a b : Expr)
  | binary (op : BinOp) (a b : Expr)
  | bracket (a i : Expr)

/-- The arguments of a call, the last one outside. -/
inductive Args
  | nil
  | snoc (args : Args) (e : Expr)

end

def Args.length : Args → Nat
  | .nil => 0
  | .snoc args _ => args.length + 1

/-- `expr_type` behind the expression. -/
def Expr.type : Expr → Nat
  | .imm _ type => type
  | .loc _ type => type
  | .glo _ type => type
  | .call _ type _ => type
  | .cast type _ => type
  | .plus _ => INT
  | .minus _ => INT
  | .not _ => INT
  | .complement _ => INT
  | .dereference e => e.type - PTR
  | .addressOf e => e.type + PTR
  | .preIncrement _ e => e.type
  | .postIncrement _ e => e.type
  | .assign a _ => a.type
  | .cond _ _ b => b.type
  | .logical _ _ _ => INT
  | .binary op a b => (op.finish a.type b.type).2
  | .bracket a _ => a.type - PTR

/-! ## The words -/

/-- The last word is `LC` or `LI`. -/
def EndsInLoad (c : List Word) : Prop := ∃ init w, c = init ++ [w] ∧ IsLoad w

/-- The words with `PUSH` in the place of the last one. -/
def pushed (c : List Word) : List Word := c.dropLast ++ [Op.push.code]

/-- `PUSH` in front of the last word. -/
def duplicated (c : List Word) : List Word := pushed c ++ c.getLast?.toList

mutual

/-- The words emitted at the word `n` of the text. -/
def Expr.gen (ctx : Context) : Expr → Nat → List Word
  | .imm v _, _ => [Op.imm.code, v]
  | .loc value type, _ => [Op.lea.code, ctx.indexOfBp - value, (loadOp type).code]
  | .glo value type, _ => [Op.imm.code, value, (loadOp type).code]
  | .call f _ args, n => args.gen ctx n ++ (f.words ++ adjWords args.length)
  | .cast _ e, n => e.gen ctx n
  | .plus e, n => e.gen ctx n
  | .minus e, n => [Op.imm.code, -1, Op.push.code] ++ e.gen ctx (n + 3) ++ [(Op.bin .mul).code]
  | .not e, n => e.gen ctx n ++ withWords 0 .eq
  | .complement e, n => e.gen ctx n ++ withWords (-1) .xor
  | .dereference e, n => e.gen ctx n ++ [(loadOp (e.type - PTR)).code]
  | .addressOf e, n => (e.gen ctx n).dropLast
  | .preIncrement tmp e, n =>
    duplicated (e.gen ctx n) ++ withWords (stride e.type) tmp.op ++ [(storeOp e.type).code]
  | .postIncrement tmp e, n =>
    duplicated (e.gen ctx n) ++ withWords (stride e.type) tmp.op ++ [(storeOp e.type).code] ++
      withWords (stride e.type) tmp.back
  | .assign a b, n =>
    let ca := pushed (a.gen ctx n)
    ca ++ b.gen ctx (n + ca.length) ++ [(storeOp a.type).code]
  | .cond c a b, n =>
    let cc := c.gen ctx n
    let ca := a.gen ctx (n + cc.length + 2)
    let els := n + cc.length + 2 + ca.length + 2
    let cb := b.gen ctx els
    cc ++ [Op.jz.code, ctx.addr els] ++ ca ++ [Op.jmp.code, ctx.addr (els + cb.length)] ++ cb
  | .logical j a b, n =>
    let ca := a.gen ctx n
    let cb := b.gen ctx (n + ca.length + 2)
    ca ++ [j.jump.code, ctx.addr (n + ca.length + 2 + cb.length)] ++ cb
  | .binary op a b, n =>
    let ca := a.gen ctx n
    ca ++ [Op.push.code] ++ b.gen ctx (n + ca.length + 1) ++ (op.finish a.type b.type).1
  | .bracket a i, n =>
    let ca := a.gen ctx n
    ca ++ [Op.push.code] ++ i.gen ctx (n + ca.length + 1) ++
      (scaleWords a.type ++ [(Op.bin .add).code, (loadOp (a.type - PTR)).code])

def Args.gen (ctx : Context) : Args → Nat → List Word
  | .nil, _ => []
  | .snoc args e, n => args.gen ctx n ++ e.gen ctx (n + (args.gen ctx n).length) ++ [Op.push.code]

end

mutual

/-- Every operand whose last word is rewritten ends in `LC` or `LI`. -/
def Expr.Accepted (ctx : Context) : Expr → Nat → Prop
  | .imm _ _, _ => True
  | .loc _ _, _ => True
  | .glo _ _, _ => True
  | .call _ _ args, n => args.Accepted ctx n
  | .cast _ e, n => e.Accepted ctx n
  | .plus e, n => e.Accepted ctx n
  | .minus e, n => e.Accepted ctx (n + 3)
  | .not e, n => e.Accepted ctx n
  | .complement e, n => e.Accepted ctx n
  | .dereference e, n => e.Accepted ctx n
  | .addressOf e, n => e.Accepted ctx n ∧ EndsInLoad (e.gen ctx n)
  | .preIncrement _ e, n => e.Accepted ctx n ∧ EndsInLoad (e.gen ctx n)
  | .postIncrement _ e, n => e.Accepted ctx n ∧ EndsInLoad (e.gen ctx n)
  | .assign a b, n =>
    a.Accepted ctx n ∧ EndsInLoad (a.gen ctx n) ∧ b.Accepted ctx (n + (pushed (a.gen ctx n)).length)
  | .cond c a b, n =>
    let cc := c.gen ctx n
    let ca := a.gen ctx (n + cc.length + 2)
    c.Accepted ctx n ∧ a.Accepted ctx (n + cc.length + 2) ∧ b.Accepted ctx (n + cc.length + 2 + ca.length + 2)
  | .logical _ a b, n => a.Accepted ctx n ∧ b.Accepted ctx (n + (a.gen ctx n).length + 2)
  | .binary _ a b, n => a.Accepted ctx n ∧ b.Accepted ctx (n + (a.gen ctx n).length + 1)
  | .bracket a i, n => a.Accepted ctx n ∧ i.Accepted ctx (n + (a.gen ctx n).length + 1)

def Args.Accepted (ctx : Context) : Args → Nat → Prop
  | .nil, _ => True
  | .snoc args e, n => args.Accepted ctx n ∧ e.Accepted ctx (n + (args.gen ctx n).length)

end

/-- There is a first word, and it is not a load: a rewritten last word is another one. -/
def Starts (c : List Word) : Prop := ∃ w rest, c = w :: rest ∧ ¬ IsLoad w

theorem Starts.append {c : List Word} (h : Starts c) (d : List Word) : Starts (c ++ d) := by
  obtain ⟨w, rest, rfl, hw⟩ := h
  exact ⟨w, rest ++ d, rfl, hw⟩

theorem Starts.dropLast {c : List Word} (h : Starts c) (hload : EndsInLoad c) : Starts c.dropLast := by
  obtain ⟨w, rest, rfl, hw⟩ := h
  obtain ⟨init, l, hc, hl⟩ := hload
  cases rest with
  | nil =>
    obtain ⟨rfl, hcons⟩ | ⟨_, _, hnil⟩ := List.cons_eq_append_iff.mp hc
    · exact absurd ((List.cons.inj hcons).1 ▸ hl) hw
    · simp at hnil
  | cons x rest => exact ⟨w, (x :: rest).dropLast, rfl, hw⟩

theorem Starts.pushed {c : List Word} (h : Starts c) (hload : EndsInLoad c) : Starts (pushed c) :=
  (h.dropLast hload).append _

mutual

theorem Expr.starts {ctx : Context} : ∀ {e : Expr} {n : Nat}, e.Accepted ctx n → Starts (e.gen ctx n)
  | .imm _ _, _, _ => ⟨_, _, rfl, by decide⟩
  | .loc _ _, _, _ => ⟨_, _, rfl, by decide⟩
  | .glo _ _, _, _ => ⟨_, _, rfl, by decide⟩
  | .call f _ args, n, h => by
    rcases Args.starts h with hnil | hargs
    · rw [Expr.gen, hnil, List.nil_append]
      cases f with
      | sys f => exact ⟨_, _, rfl, by cases f <;> decide⟩
      | fun_ value => exact ⟨_, _, rfl, by decide⟩
    · exact hargs.append _
  | .cast _ e, _, h => Expr.starts (e := e) h
  | .plus e, _, h => Expr.starts (e := e) h
  | .minus _, _, _ => ⟨_, _, rfl, by decide⟩
  | .not e, _, h => (Expr.starts (e := e) h).append _
  | .complement e, _, h => (Expr.starts (e := e) h).append _
  | .dereference e, _, h => (Expr.starts (e := e) h).append _
  | .addressOf e, _, h => (Expr.starts (e := e) h.1).dropLast h.2
  | .preIncrement _ e, _, h => (((Expr.starts (e := e) h.1).pushed h.2).append _).append _ |>.append _
  | .postIncrement _ e, _, h => ((((Expr.starts (e := e) h.1).pushed h.2).append _).append _).append _ |>.append _
  | .assign a _, _, h => (((Expr.starts (e := a) h.1).pushed h.2.1).append _).append _
  | .cond c _ _, _, h => ((((Expr.starts (e := c) h.1).append _).append _).append _).append _
  | .logical _ a _, _, h => ((Expr.starts (e := a) h.1).append _).append _
  | .binary _ a _, _, h => (((Expr.starts (e := a) h.1).append _).append _).append _
  | .bracket a _, _, h => (((Expr.starts (e := a) h.1).append _).append _).append _

theorem Args.starts {ctx : Context} : ∀ {args : Args} {n : Nat}, args.Accepted ctx n →
    args.gen ctx n = [] ∨ Starts (args.gen ctx n)
  | .nil, _, _ => .inl rfl
  | .snoc args e, n, h => by
    rw [Args.gen]
    rcases Args.starts h.1 with hnil | hargs
    · rw [hnil]
      have he := Expr.starts h.2
      rw [hnil] at he
      exact .inr (he.append _)
    · exact .inr ((hargs.append _).append _)

end

/-! ## The tree of a token sequence -/

section
variable (parse : Tok → Input → Option (Expr × Input)) (fuel : Nat) (i : Input)

def parseNumber : Option (Expr × Input) := do
  let i ← i.matchTok .num
  some (.imm i.tokenVal INT, i)

def parseString : Option (Expr × Input) := do
  let j ← i.matchTok .quote
  some (.imm i.tokenVal PTR, (j.skip .quote j.lexemes.length).2)

def parseSizeOf : Option (Expr × Input) := do
  let i ← i.matchTok .sizeof
  let i ← i.matchTok .lparen
  let j ← i.typeName.2.matchTok .rparen
  some (.imm (if i.typeName.1 = CHAR then 1 else 4) INT, j)

def parseArguments : Nat → Args → Input → Option (Args × Input)
  | 0, _, _ => none
  | n + 1, args, i =>
    if i.token = .rparen then some (args, i)
    else do
      let (e, i) ← parse .assign i
      parseArguments n (.snoc args e) (i.optional .comma)

def parseCall (id : Identifier) : Option (Expr × Input) := do
  let i ← i.matchTok .lparen
  let (args, i) ← parseArguments parse fuel .nil i
  let i ← i.matchTok .rparen
  let f ← id.class_.callee
  some (.call f id.type args, i)

def parseVariable (id : Identifier) : Option (Expr × Input) :=
  match id.class_ with
  | .num value => some (.imm value INT, i)
  | .loc value => some (.loc value id.type, i)
  | .glo value => some (.glo value id.type, i)
  | _ => none

def parseIdentifier : Option (Expr × Input) := do
  let i ← i.matchTok .id
  if i.token = .lparen then parseCall parse fuel i i.currentId else parseVariable i i.currentId

def parseParenthesis : Option (Expr × Input) := do
  let i ← i.matchTok .lparen
  if i.token = .int ∨ i.token = .char then
    let j ← i.typeName.2.matchTok .rparen
    let (e, j) ← parse .inc j
    some (.cast i.typeName.1 e, j)
  else
    let (e, i) ← parse .assign i
    let i ← i.matchTok .rparen
    some (e, i)

/-- An operator in front of its operand. -/
def parsePrefix (tk : Tok) (f : Expr → Expr) : Option (Expr × Input) := do
  let i ← i.matchTok tk
  let (e, i) ← parse .inc i
  some (f e, i)

def parseMinus : Option (Expr × Input) := do
  let i ← i.matchTok .sub
  if i.token = .num then
    let j ← i.matchTok .num
    some (.imm (-i.tokenVal) INT, j)
  else
    let (e, i) ← parse .inc i
    some (.minus e, i)

def parseUnit : Option (Expr × Input) :=
  match i.token with
  | .num => parseNumber i
  | .quote => parseString i
  | .sizeof => parseSizeOf i
  | .id => parseIdentifier parse fuel i
  | .lparen => parseParenthesis parse i
  | .mul => parsePrefix parse i .mul .dereference
  | .and => parsePrefix parse i .and .addressOf
  | .not => parsePrefix parse i .not .not
  | .tilde => parsePrefix parse i .tilde .complement
  | .add => parsePrefix parse i .add .plus
  | .sub => parseMinus parse i
  | .inc => parsePrefix parse i .inc (.preIncrement .inc)
  | .dec => parsePrefix parse i .dec (.preIncrement .dec)
  | _ => none

variable (left : Expr)

def parseConditional : Option (Expr × Input) := do
  let i ← i.matchTok .cond
  let (a, i) ← parse .assign i
  let i ← i.matchTok .colon
  let (b, i) ← parse .cond i
  some (.cond left a b, i)

/-- An operator between its operands. -/
def parseInfix (tk level : Tok) (f : Expr → Expr → Expr) : Option (Expr × Input) := do
  let i ← i.matchTok tk
  let (e, i) ← parse level i
  some (f left e, i)

def parsePostIncrement (tmp : IncDec) : Option (Expr × Input) := do
  let i ← i.matchTok tmp.tok
  some (.postIncrement tmp left, i)

def parseBracket : Option (Expr × Input) := do
  let i ← i.matchTok .brak
  let (e, i) ← parse .assign i
  let i ← i.matchTok .rbrack
  some (.bracket left e, i)

def parseBinary (op : BinOp) : Option (Expr × Input) := parseInfix parse i left op.tok op.level (.binary op)

def parseLogical (j : Junction) : Option (Expr × Input) := parseInfix parse i left j.tok j.level (.logical j)

def parseOperator : Option (Expr × Input) :=
  match i.token with
  | .assign => parseInfix parse i left .assign .assign .assign
  | .cond => parseConditional parse i left
  | .lor => parseLogical parse i left .lor
  | .lan => parseLogical parse i left .lan
  | .or => parseBinary parse i left .or
  | .xor => parseBinary parse i left .xor
  | .and => parseBinary parse i left .and
  | .eq => parseBinary parse i left .eq
  | .ne => parseBinary parse i left .ne
  | .lt => parseBinary parse i left .lt
  | .gt => parseBinary parse i left .gt
  | .le => parseBinary parse i left .le
  | .ge => parseBinary parse i left .ge
  | .shl => parseBinary parse i left .shl
  | .shr => parseBinary parse i left .shr
  | .add => parseBinary parse i left .add
  | .sub => parseBinary parse i left .sub
  | .mul => parseBinary parse i left .mul
  | .div => parseBinary parse i left .div
  | .mod => parseBinary parse i left .mod
  | .inc => parsePostIncrement i left .inc
  | .dec => parsePostIncrement i left .dec
  | .brak => parseBracket parse i left
  | _ => none

def parseOperators (level : Tok) : Nat → Expr → Input → Option (Expr × Input)
  | 0, _, _ => none
  | n + 1, left, i =>
    if i.token.code ≥ level.code then (parseOperator parse i left).bind fun r => parseOperators level n r.1 r.2
    else some (left, i)

end

/-- The expression at the head of the tokens, and the rest. -/
def parseExpression : Nat → Tok → Input → Option (Expr × Input)
  | 0, _, _ => none
  | fuel + 1, level, i =>
    (parseUnit (parseExpression fuel) fuel i).bind fun r =>
      parseOperators (parseExpression fuel) level fuel r.1 r.2

end RetrOS.Interpreter
