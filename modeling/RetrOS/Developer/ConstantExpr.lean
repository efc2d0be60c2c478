import RetrOS.Developer.Syntax

/-!
# Constant expressions

The integer expressions of C without variables, and how `expression` reads them.

* `CExpr` : the trees of C, `CExpr.Grammatical` by C's precedences, `CExpr.tokens` what they are written as;
* `parseExpression_constant` : the tree that is read is the one of C, unless `==` stands left of `!=`.
-/

namespace RetrOS.Interpreter

/-! ## The grammar of C -/

/-- Operators in front. -/
inductive UnOp
  | plus
  | neg
  | not
  | complement
  deriving DecidableEq

def UnOp.tok : UnOp → Tok
  | .plus => .add
  | .neg => .sub
  | .not => .not
  | .complement => .tilde

/-- Operators between two operands. -/
inductive Operator
  | bin (op : BinOp)
  | junction (j : Junction)
  deriving DecidableEq

namespace Operator

def tok : Operator → Tok
  | bin op => op.tok
  | junction j => j.tok

/-- The level of the right operand. -/
def level : Operator → Tok
  | bin op => op.level
  | junction j => j.level

/-- The precedence in C. -/
def prec : Operator → Nat
  | junction .lor => 1
  | junction .lan => 2
  | bin .or => 3
  | bin .xor => 4
  | bin .and => 5
  | bin .eq => 6
  | bin .ne => 6
  | bin .lt => 7
  | bin .gt => 7
  | bin .le => 7
  | bin .ge => 7
  | bin .shl => 8
  | bin .shr => 8
  | bin .add => 9
  | bin .sub => 9
  | bin .mul => 10
  | bin .div => 10
  | bin .mod => 10

def build : Operator → Expr → Expr → Expr
  | bin op => .binary op
  | junction j => .logical j

def all : List Operator :=
  [junction .lor, junction .lan, bin .or, bin .xor, bin .and, bin .eq, bin .ne, bin .lt, bin .gt, bin .le, bin .ge,
    bin .shl, bin .shr, bin .add, bin .sub, bin .mul, bin .div, bin .mod]

theorem mem_all (op : Operator) : op ∈ all := by
  cases op with
  | bin op => cases op <;> decide
  | junction j => cases j <;> decide

/-- The levels follow the precedences, but for `==` left of `!=`. -/
theorem tok_lt_level {op op' : Operator} (h : op.prec ≤ op'.prec) (hne : ¬ (op = bin .ne ∧ op' = bin .eq)) :
    op.tok.code < op'.level.code := by
  have hall : ∀ op ∈ all, ∀ op' ∈ all, op.prec ≤ op'.prec → ¬ (op = bin .ne ∧ op' = bin .eq) →
    op.tok.code < op'.level.code := by decide
  exact hall op op.mem_all op' op'.mem_all h hne

theorem level_le_tok {op op' : Operator} (h : op.prec < op'.prec) : op.level.code ≤ op'.tok.code := by
  have hall : ∀ op ∈ all, ∀ op' ∈ all, op.prec < op'.prec → op.level.code ≤ op'.tok.code := by decide
  exact hall op op.mem_all op' op'.mem_all h

/-- Between `?` and what stands in front of an operand. -/
theorem code_bounds (op : Operator) : Tok.cond.code < op.tok.code ∧ Tok.cond.code < op.level.code ∧
    op.tok.code < Tok.inc.code ∧ 1 ≤ op.prec ∧ op.prec ≤ 10 := by
  have hall : ∀ op ∈ all, Tok.cond.code < op.tok.code ∧ Tok.cond.code < op.level.code ∧
    op.tok.code < Tok.inc.code ∧ 1 ≤ op.prec ∧ op.prec ≤ 10 := by decide
  exact hall op op.mem_all

end Operator

inductive CExpr
  | num (v : Word)
  | paren (e : CExpr)
  | unary (op : UnOp) (e : CExpr)
  | operation (op : Operator) (a b : CExpr)
  | cond (c a b : CExpr)

namespace CExpr

def prec : CExpr → Nat
  | cond _ _ _ => 0
  | operation op _ _ => op.prec
  | unary _ _ => 11
  | paren _ => 12
  | num _ => 12

/-- The operands bind as the grammar of C wants it: to the left, `?:` to the right. -/
def Grammatical : CExpr → Prop
  | num _ => True
  | paren e => e.Grammatical
  | unary _ e => e.Grammatical ∧ 11 ≤ e.prec
  | operation op a b => (a.Grammatical ∧ op.prec ≤ a.prec) ∧ b.Grammatical ∧ op.prec < b.prec
  | cond c a b => (c.Grammatical ∧ 1 ≤ c.prec) ∧ a.Grammatical ∧ b.Grammatical

def tokens : CExpr → List Lexeme
  | num v => [.num v]
  | paren e => .tok .lparen :: (e.tokens ++ [.tok .rparen])
  | unary op e => .tok op.tok :: e.tokens
  | operation op a b => a.tokens ++ .tok op.tok :: b.tokens
  | cond c a b => c.tokens ++ .tok .cond :: (a.tokens ++ .tok .colon :: b.tokens)

/-- `==` without parentheses. -/
def IsEq : CExpr → Prop
  | operation (.bin .eq) _ _ => True
  | _ => False

/-- The left operand of a `!=` is no `==` without parentheses. -/
def EqSeparate : CExpr → Prop
  | num _ => True
  | paren e => e.EqSeparate
  | unary _ e => e.EqSeparate
  | operation op a b => a.EqSeparate ∧ b.EqSeparate ∧ ¬ (op = .bin .ne ∧ a.IsEq)
  | cond c a b => c.EqSeparate ∧ a.EqSeparate ∧ b.EqSeparate

/-- The tree of the compiler. -/
def toExpr : CExpr → Expr
  | num v => .imm v INT
  | paren e => e.toExpr
  | unary .plus e => .plus e.toExpr
  | unary .neg (num v) => .imm (-v) INT
  | unary .neg e => .minus e.toExpr
  | unary .not e => .not e.toExpr
  | unary .complement e => .complement e.toExpr
  | operation op a b => op.build a.toExpr b.toExpr
  | cond c a b => .cond c.toExpr a.toExpr b.toExpr

/-! ## What it is read as -/

/-- A token of that code ends the right operands. -/
def Stops (code : Nat) : CExpr → Prop
  | num _ => True
  | paren _ => True
  | unary _ e => code < Tok.inc.code ∧ e.Stops code
  | operation op _ b => code < op.level.code ∧ b.Stops code
  | cond _ _ b => code < Tok.cond.code ∧ b.Stops code

/-- The operators are of the level. -/
def Admits (level : Nat) : CExpr → Prop
  | num _ => True
  | paren _ => True
  | unary _ _ => True
  | operation op a _ => level ≤ op.tok.code ∧ a.Admits level
  | cond c _ _ => level ≤ Tok.cond.code ∧ c.Admits level

theorem stops_above {e : CExpr} {code p : Nat} (hgr : e.Grammatical) (hp : p < e.prec) (hinc : code < Tok.inc.code)
    (hcode : ∀ op : Operator, p < op.prec → code < op.level.code) : e.Stops code := by
  induction e with
  | num v => trivial
  | paren e => trivial
  | unary op e ih => exact ⟨hinc, ih hgr.1 (Nat.lt_of_lt_of_le hp hgr.2)⟩
  | operation op a b iha ihb => exact ⟨hcode op hp, ihb hgr.2.1 (Nat.lt_trans hp hgr.2.2)⟩
  | cond c a b => exact absurd hp (Nat.not_lt_zero _)

/-- Below `?` every operand ends. -/
theorem stops_low {e : CExpr} {code : Nat} (hgr : e.Grammatical) (hcode : code < Tok.cond.code) : e.Stops code := by
  have hinc : code < Tok.inc.code := Nat.lt_trans hcode (by decide)
  have hop (op : Operator) : code < op.level.code := Nat.lt_trans hcode op.code_bounds.2.1
  induction e with
  | num v => trivial
  | paren e => trivial
  | unary op e ih => exact ⟨hinc, ih hgr.1⟩
  | operation op a b iha ihb => exact ⟨hop op, ihb hgr.2.1⟩
  | cond c a b _ _ ihb => exact ⟨hcode, ihb hgr.2.2⟩

/-- The left operand ends where its operator stands. -/
theorem stops_left {op : Operator} {a b : CExpr} (hgr : (operation op a b).Grammatical)
    (hsep : (operation op a b).EqSeparate) : a.Stops op.tok.code := by
  obtain ⟨⟨ha, hprec⟩, -⟩ := hgr
  have hinc := op.code_bounds.2.2.1
  have habove (p : Nat) (hp : op.prec ≤ p) (op' : Operator) (hop : p < op'.prec) : op.tok.code < op'.level.code :=
    Operator.tok_lt_level (Nat.le_of_lt (Nat.lt_of_le_of_lt hp hop)) (by
      rintro ⟨rfl, rfl⟩
      exact absurd (Nat.lt_of_le_of_lt hp hop) (by decide))
  cases a with
  | num v => trivial
  | paren e => trivial
  | unary op' e => exact ⟨hinc, stops_above ha.1 ha.2 hinc (habove 10 op.code_bounds.2.2.2.2)⟩
  | operation op' a' b' =>
    refine ⟨Operator.tok_lt_level hprec ?_, stops_above ha.2.1 ha.2.2 hinc (habove op'.prec hprec)⟩
    rintro ⟨rfl, rfl⟩
    exact hsep.2.2 ⟨rfl, trivial⟩
  | cond c a b => exact absurd op.code_bounds.2.2.2.1 (by rw [Nat.le_zero.mp hprec]; decide)

theorem admits_above {e : CExpr} {op : Operator} (hgr : e.Grammatical) (hp : op.prec < e.prec) :
    e.Admits op.level.code := by
  induction e with
  | operation op' a b iha _ => exact ⟨Operator.level_le_tok hp, iha hgr.1.1 (Nat.lt_of_lt_of_le hp hgr.1.2)⟩
  | cond c a b => exact absurd hp (Nat.not_lt_zero _)
  | _ => trivial

theorem admits_low {e : CExpr} {level : Nat} (hgr : e.Grammatical) (hlevel : level ≤ Tok.cond.code) :
    e.Admits level := by
  induction e with
  | operation op a b iha _ => exact ⟨Nat.le_of_lt (Nat.lt_of_le_of_lt hlevel op.code_bounds.1), iha hgr.1.1⟩
  | cond c a b ihc => exact ⟨hlevel, ihc hgr.1.1⟩
  | _ => trivial

theorem admits_unary {e : CExpr} {level : Nat} (hp : 11 ≤ e.prec) : e.Admits level := by
  cases e with
  | operation op a b => exact absurd op.code_bounds.2.2.2.2 (by have : 11 ≤ op.prec := hp; omega)
  | cond c a b => exact absurd hp (Nat.not_succ_le_zero _)
  | _ => trivial

end CExpr

/-! ## The tokens in front of the parser -/

def firstToken (ls : List Lexeme) : Tok :=
  match ls with
  | [] => .eof
  | x :: _ => x.token

/-- No number and no string, which would set `token_val`. -/
def NoLiteral (ls : List Lexeme) : Prop := firstToken ls ≠ .num ∧ firstToken ls ≠ .quote

/-- The parser is in front of `ls`, and has read the first token. -/
structure Input.At (i : Input) (ls : List Lexeme) : Prop where
  lexemes : i.lexemes = ls
  entered : ∀ v rest, ls = .num v :: rest → i.tokenVal = v

namespace Input

variable {i j : Input} {ls : List Lexeme} {x : Lexeme} {tk : Tok}

theorem At.token (h : i.At ls) : i.token = firstToken ls := by
  rw [Input.token, h.lexemes]
  rfl

theorem At.next (h : i.At (x :: ls)) : i.next.At ls := by
  refine ⟨by rw [lexemes_next, h.lexemes, List.tail_cons], fun v rest hls => ?_⟩
  rw [Input.next, h.lexemes, List.tail_cons, hls]
  rfl

theorem At.matchTok (h : i.At (x :: ls)) (hm : i.matchTok tk = some j) : j = i.next ∧ j.At ls := by
  unfold Input.matchTok at hm
  split at hm
  · obtain rfl := Option.some.inj hm
    exact ⟨rfl, h.next⟩
  · exact absurd hm (Option.some_ne_none _).symm

theorem At.tokenVal_next (h : i.At (x :: ls)) (hls : NoLiteral ls) : i.next.tokenVal = i.tokenVal := by
  rw [Input.next, h.lexemes, List.tail_cons]
  cases ls with
  | nil => rfl
  | cons y ls =>
    cases y with
    | num v => exact absurd rfl hls.1
    | string v => exact absurd rfl hls.2
    | id id => rfl
    | tok t =>
      simp only [enter]
      split <;> rfl

end Input

namespace CExpr

/-- An expression starts with a number, a parenthesis or an operator. -/
theorem firstToken_tokens (e : CExpr) (ls : List Lexeme) : firstToken (e.tokens ++ ls) = .num ∨
    firstToken (e.tokens ++ ls) = .lparen ∨ ∃ op : UnOp, firstToken (e.tokens ++ ls) = op.tok := by
  induction e generalizing ls with
  | num v => exact .inl rfl
  | paren e => exact .inr (.inl rfl)
  | unary op e => exact .inr (.inr ⟨op, rfl⟩)
  | operation op a b iha => rw [tokens, List.append_assoc]; exact iha _
  | cond c a b ihc => rw [tokens, List.append_assoc]; exact ihc _

theorem firstToken_ne_type (e : CExpr) (ls : List Lexeme) :
    ¬ (firstToken (e.tokens ++ ls) = .int ∨ firstToken (e.tokens ++ ls) = .char) := by
  rcases e.firstToken_tokens ls with h | h | ⟨op, h⟩ <;> rw [h]
  · decide
  · decide
  · cases op <;> decide

theorem noLiteral_operation (op : Operator) (ls : List Lexeme) : NoLiteral (.tok op.tok :: ls) := by
  have hcode := op.code_bounds.1
  constructor
  · intro h
    rw [show op.tok = .num from h] at hcode
    exact absurd hcode (by decide)
  · intro h
    rw [show op.tok = .quote from h] at hcode
    exact absurd hcode (by decide)

theorem parseOperator_operation {parse : Tok → Input → Option (Expr × Input)} {i : Input} {op : Operator} (left : Expr)
    (h : i.token = op.tok) : parseOperator parse i left = parseInfix parse i left op.tok op.level op.build := by
  rw [parseOperator, h]
  cases op with
  | bin op => cases op <;> rfl
  | junction j => cases j <;> rfl

/-- From in front of `e` the parser comes to the loop over the operators behind it. -/
def Continues (e : CExpr) : Prop :=
  ∀ (fuel n : Nat) (level : Tok) (i : Input) (rest : List Lexeme) (r : Expr × Input), i.At (e.tokens ++ rest) →
    e.Stops (firstToken rest).code → NoLiteral rest → e.Admits level.code →
      ((parseUnit (parseExpression fuel) fuel i).bind fun q => parseOperators (parseExpression fuel) level n q.1 q.2) =
        some r → ∃ n' j, j.At rest ∧ parseOperators (parseExpression fuel) level n' e.toExpr j = some r

theorem Continues.reads {e : CExpr} (h : e.Continues) {fuel : Nat} {level : Tok} {i : Input} {rest : List Lexeme}
    {r : Expr × Input} (hi : i.At (e.tokens ++ rest)) (hstops : e.Stops (firstToken rest).code) (hrest : NoLiteral rest)
    (hadmits : e.Admits level.code) (hlevel : (firstToken rest).code < level.code)
    (hr : parseExpression fuel level i = some r) : r.1 = e.toExpr ∧ r.2.At rest := by
  cases fuel with
  | zero => exact absurd hr (Option.some_ne_none _).symm
  | succ fuel =>
    obtain ⟨n, j, hj, hops⟩ := h _ _ _ _ _ _ hi hstops hrest hadmits hr
    cases n with
    | zero => exact absurd hops (Option.some_ne_none _).symm
    | succ n =>
      rw [parseOperators, if_neg (by rw [hj.token]; omega)] at hops
      obtain rfl := Option.some.inj hops
      exact ⟨rfl, hj⟩

/-- In front of a token that ends every expression. -/
theorem Continues.reads_before {e : CExpr} (h : e.Continues) (hgr : e.Grammatical) {fuel : Nat} {i : Input} {t : Tok}
    {rest : List Lexeme} {r : Expr × Input} (ht : t.code < Tok.assign.code ∧ t ≠ .num ∧ t ≠ .quote)
    (hi : i.At (e.tokens ++ .tok t :: rest)) (hr : parseExpression fuel .assign i = some r) :
    r.1 = e.toExpr ∧ r.2.At (.tok t :: rest) :=
  h.reads hi (stops_low hgr (Nat.lt_trans ht.1 (by decide))) ht.2 (admits_low hgr (by decide)) ht.1 hr

theorem continues_num (v : Word) : (num v).Continues := by
  intro fuel n level i rest r hi _ hrest _ hr
  obtain ⟨q, hq, hops⟩ := Option.bind_eq_some_iff.mp hr
  rw [parseUnit, hi.token] at hq
  obtain ⟨j, hj, hq⟩ := Option.bind_eq_some_iff.mp hq
  obtain ⟨rfl, hat⟩ := hi.matchTok hj
  obtain rfl := Option.some.inj hq
  rw [hi.tokenVal_next hrest, hi.entered v _ rfl] at hops
  exact ⟨n, _, hat, hops⟩

theorem continues_paren {e : CExpr} (hgr : e.Grammatical) (h : e.Continues) : (paren e).Continues := by
  intro fuel n level i rest r hi _ hrest _ hr
  obtain ⟨q, hq, hops⟩ := Option.bind_eq_some_iff.mp hr
  rw [tokens, List.cons_append, List.append_assoc] at hi
  rw [parseUnit, hi.token] at hq
  obtain ⟨j, hj, hq⟩ := Option.bind_eq_some_iff.mp hq
  obtain ⟨-, hat⟩ := hi.matchTok hj
  rw [if_neg (by rw [hat.token]; exact e.firstToken_ne_type _)] at hq
  obtain ⟨⟨e', k⟩, hk, hq⟩ := Option.bind_eq_some_iff.mp hq
  obtain ⟨rfl, hat'⟩ := h.reads_before hgr (by decide) hat hk
  obtain ⟨l, hl, hq⟩ := Option.bind_eq_some_iff.mp hq
  obtain ⟨-, hat''⟩ := hat'.matchTok hl
  obtain rfl := Option.some.inj hq
  exact ⟨n, l, hat'', hops⟩

theorem continues_operation {op : Operator} {a b : CExpr} (hgr : (operation op a b).Grammatical)
    (hsep : (operation op a b).EqSeparate) (ha : a.Continues) (hb : b.Continues) : (operation op a b).Continues := by
  intro fuel n level i rest r hi hstops hrest hadmits hr
  rw [tokens, List.append_assoc, List.cons_append] at hi
  obtain ⟨n', j, hj, hops⟩ := ha _ _ _ _ _ _ hi (stops_left hgr hsep) (noLiteral_operation op _) hadmits.2 hr
  have htoken : j.token = op.tok := hj.token
  cases n' with
  | zero => exact absurd hops (Option.some_ne_none _).symm
  | succ n' =>
    rw [parseOperators, if_pos (by rw [htoken]; exact hadmits.1), parseOperator_operation _ htoken] at hops
    obtain ⟨q, hq, hops⟩ := Option.bind_eq_some_iff.mp hops
    obtain ⟨k, hk, hq⟩ := Option.bind_eq_some_iff.mp hq
    obtain ⟨-, hat⟩ := hj.matchTok hk
    obtain ⟨⟨e', l⟩, hl, hq⟩ := Option.bind_eq_some_iff.mp hq
    obtain ⟨rfl, hat'⟩ := hb.reads hat hstops.2 hrest (admits_above hgr.2.1 hgr.2.2) hstops.1 hl
    obtain rfl := Option.some.inj hq
    exact ⟨n', l, hat', hops⟩

theorem continues_cond {c a b : CExpr} (hgr : (cond c a b).Grammatical) (hc : c.Continues) (ha : a.Continues)
    (hb : b.Continues) : (cond c a b).Continues := by
  intro fuel n level i rest r hi hstops hrest hadmits hr
  obtain ⟨⟨hgc, hprec⟩, hga, hgb⟩ := hgr
  rw [tokens, List.append_assoc, List.cons_append, List.append_assoc, List.cons_append] at hi
  have hstopsc : c.Stops Tok.cond.code := stops_above hgc hprec (by decide) fun op _ => op.code_bounds.2.1
  have hliteral : Tok.cond ≠ .num ∧ Tok.cond ≠ .quote := by decide
  obtain ⟨n', j, hj, hops⟩ := hc _ _ _ _ _ _ hi hstopsc hliteral hadmits.2 hr
  have htoken : j.token = .cond := hj.token
  cases n' with
  | zero => exact absurd hops (Option.some_ne_none _).symm
  | succ n' =>
    rw [parseOperators, if_pos (by rw [htoken]; exact hadmits.1), parseOperator, htoken] at hops
    obtain ⟨q, hq, hops⟩ := Option.bind_eq_some_iff.mp hops
    obtain ⟨k, hk, hq⟩ := Option.bind_eq_some_iff.mp hq
    obtain ⟨-, hat⟩ := hj.matchTok hk
    obtain ⟨⟨a', l⟩, hl, hq⟩ := Option.bind_eq_some_iff.mp hq
    obtain ⟨rfl, hat'⟩ := ha.reads_before hga (by decide) hat hl
    obtain ⟨m, hm, hq⟩ := Option.bind_eq_some_iff.mp hq
    obtain ⟨-, hat''⟩ := hat'.matchTok hm
    obtain ⟨⟨b', l'⟩, hl', hq⟩ := Option.bind_eq_some_iff.mp hq
    obtain ⟨rfl, hend⟩ := hb.reads hat'' hstops.2 hrest (admits_low hgb (by decide)) hstops.1 hl'
    obtain rfl := Option.some.inj hq
    exact ⟨n', l', hend, hops⟩

theorem parsePrefix_reads {e : CExpr} (h : e.Continues) (hp : 11 ≤ e.prec) {fuel : Nat} {i : Input} {tk : Tok}
    {f : Expr → Expr} {x : Lexeme} {rest : List Lexeme} {q : Expr × Input} (hi : i.At (x :: (e.tokens ++ rest)))
    (hstops : (firstToken rest).code < Tok.inc.code ∧ e.Stops (firstToken rest).code) (hrest : NoLiteral rest)
    (hq : parsePrefix (parseExpression fuel) i tk f = some q) : q.1 = f e.toExpr ∧ q.2.At rest := by
  obtain ⟨j, hj, hq⟩ := Option.bind_eq_some_iff.mp hq
  obtain ⟨-, hat⟩ := hi.matchTok hj
  obtain ⟨⟨e', k⟩, hk, hq⟩ := Option.bind_eq_some_iff.mp hq
  obtain ⟨rfl, hat'⟩ := h.reads hat hstops.2 hrest (admits_unary hp) hstops.1 hk
  obtain rfl := Option.some.inj hq
  exact ⟨rfl, hat'⟩

theorem parseMinus_num {fuel : Nat} {i : Input} {x : Lexeme} {v : Word} {rest : List Lexeme} {q : Expr × Input}
    (hi : i.At (x :: .num v :: rest)) (hq : parseMinus (parseExpression fuel) i = some q) :
    q.1 = .imm (-v) INT ∧ q.2.At rest := by
  obtain ⟨j, hj, hq⟩ := Option.bind_eq_some_iff.mp hq
  obtain ⟨-, hat⟩ := hi.matchTok hj
  rw [if_pos (show j.token = .num from hat.token)] at hq
  obtain ⟨k, hk, hq⟩ := Option.bind_eq_some_iff.mp hq
  obtain ⟨-, hat'⟩ := hat.matchTok hk
  obtain rfl := Option.some.inj hq
  exact ⟨by rw [hat.entered v _ rfl], hat'⟩

theorem parseMinus_other {e : CExpr} (h : e.Continues) (hp : 11 ≤ e.prec) {fuel : Nat} {i : Input} {x : Lexeme}
    {rest : List Lexeme} {q : Expr × Input} (hi : i.At (x :: (e.tokens ++ rest)))
    (hnum : firstToken (e.tokens ++ rest) ≠ .num)
    (hstops : (firstToken rest).code < Tok.inc.code ∧ e.Stops (firstToken rest).code) (hrest : NoLiteral rest)
    (hq : parseMinus (parseExpression fuel) i = some q) : q.1 = .minus e.toExpr ∧ q.2.At rest := by
  obtain ⟨j, hj, hq⟩ := Option.bind_eq_some_iff.mp hq
  obtain ⟨-, hat⟩ := hi.matchTok hj
  rw [if_neg (by rw [hat.token]; exact hnum)] at hq
  obtain ⟨⟨e', k⟩, hk, hq⟩ := Option.bind_eq_some_iff.mp hq
  obtain ⟨rfl, hat'⟩ := h.reads hat hstops.2 hrest (admits_unary hp) hstops.1 hk
  obtain rfl := Option.some.inj hq
  exact ⟨rfl, hat'⟩

theorem continues_unary {op : UnOp} {e : CExpr} (hgr : (unary op e).Grammatical) (h : e.Continues) :
    (unary op e).Continues := by
  intro fuel n level i rest r hi hstops hrest _ hr
  obtain ⟨q, hq, hops⟩ := Option.bind_eq_some_iff.mp hr
  rw [tokens, List.cons_append] at hi
  have hunit : q.1 = (unary op e).toExpr ∧ q.2.At rest := by
    rw [parseUnit, hi.token] at hq
    cases op with
    | plus => exact parsePrefix_reads h hgr.2 hi hstops hrest hq
    | neg =>
      have hp := hgr.2
      cases e with
      | num v => exact parseMinus_num hi hq
      | paren e => exact parseMinus_other h hp hi (show Tok.lparen ≠ .num by decide) hstops hrest hq
      | unary op e => exact parseMinus_other h hp hi (by cases op <;> exact fun h => nomatch h) hstops hrest hq
      | operation op a b => exact absurd op.code_bounds.2.2.2.2 (by have : 11 ≤ op.prec := hp; omega)
      | cond c a b => exact absurd hp (Nat.not_succ_le_zero _)
    | not => exact parsePrefix_reads h hgr.2 hi hstops hrest hq
    | complement => exact parsePrefix_reads h hgr.2 hi hstops hrest hq
  exact ⟨n, q.2, hunit.2, hunit.1 ▸ hops⟩

theorem continues {e : CExpr} (hgr : e.Grammatical) (hsep : e.EqSeparate) : e.Continues := by
  induction e with
  | num v => exact continues_num v
  | paren e ih => exact continues_paren hgr (ih hgr hsep)
  | unary op e ih => exact continues_unary hgr (ih hgr.1 hsep)
  | operation op a b iha ihb => exact continues_operation hgr hsep (iha hgr.1.1 hsep.1) (ihb hgr.2.1 hsep.2.1)
  | cond c a b ihc iha ihb =>
    exact continues_cond hgr (ihc hgr.1.1 hsep.1) (iha hgr.2.1 hsep.2.1) (ihb hgr.2.2 hsep.2.2)

end CExpr

/-- What can be behind an expression: no operator, and no number or string. -/
def Closes (rest : List Lexeme) : Prop := (firstToken rest).code < Tok.assign.code ∧ NoLiteral rest

theorem parseExpression_constant {e : CExpr} (hgr : e.Grammatical) (hsep : e.EqSeparate) {fuel : Nat} {i : Input}
    {rest : List Lexeme} {r : Expr × Input} (hrest : Closes rest) (hi : i.At (e.tokens ++ rest))
    (hr : parseExpression fuel .assign i = some r) : r.1 = e.toExpr ∧ r.2.At rest :=
  (CExpr.continues hgr hsep).reads hi (CExpr.stops_low hgr (Nat.lt_trans hrest.1 (by decide))) hrest.2
    (CExpr.admits_low hgr (by decide)) hrest.1 hr

end RetrOS.Interpreter
