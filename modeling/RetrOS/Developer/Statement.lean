import RetrOS.Developer.Emission

/-!
# Statements

The tree of a statement, with the tokens of its expressions; the words that `statement` emits for it
(`statement_emits`); and the tokens that it stands for (`parseStatement_spells`), an `else` with the nearest `if`.
-/

namespace RetrOS.Interpreter

/-- An expression of a statement. -/
structure Leaf where
  tokens : List Lexeme
  expr : Expr

/-- Statements; `seq` and `done` are the inside of a block. -/
inductive Stmt
  | ifThen (c : Leaf) (a : Stmt)
  | ifElse (c : Leaf) (a b : Stmt)
  | while_ (c : Leaf) (a : Stmt)
  | block (body : Stmt)
  | seq (a rest : Stmt)
  | done
  | return_ (e : Option Leaf)
  | empty
  | expr (e : Leaf)

namespace Stmt

/-- The words emitted at the word `n` of the text. -/
def gen (ctx : Context) : Stmt → Nat → List Word
  | ifThen c a, n =>
    let cc := c.expr.gen ctx n
    let ca := a.gen ctx (n + cc.length + 2)
    cc ++ [Op.jz.code, ctx.addr (n + cc.length + 2 + ca.length)] ++ ca
  | ifElse c a b, n =>
    let cc := c.expr.gen ctx n
    let ca := a.gen ctx (n + cc.length + 2)
    let els := n + cc.length + 2 + ca.length + 2
    let cb := b.gen ctx els
    cc ++ [Op.jz.code, ctx.addr els] ++ ca ++ [Op.jmp.code, ctx.addr (els + cb.length)] ++ cb
  | while_ c a, n =>
    let cc := c.expr.gen ctx n
    let ca := a.gen ctx (n + cc.length + 2)
    cc ++ [Op.jz.code, ctx.addr (n + cc.length + 2 + ca.length + 2)] ++ ca ++ [Op.jmp.code, ctx.addr n]
  | block body, n => body.gen ctx n
  | seq a rest, n => a.gen ctx n ++ rest.gen ctx (n + (a.gen ctx n).length)
  | done, _ => []
  | return_ none, _ => [Op.lev.code]
  | return_ (some e), n => e.expr.gen ctx n ++ [Op.lev.code]
  | empty, _ => []
  | expr e, n => e.expr.gen ctx n

/-- `Expr.Accepted` of the expressions. -/
def Accepted (ctx : Context) : Stmt → Nat → Prop
  | ifThen c a, n => c.expr.Accepted ctx n ∧ a.Accepted ctx (n + (c.expr.gen ctx n).length + 2)
  | ifElse c a b, n =>
    let cc := c.expr.gen ctx n
    let ca := a.gen ctx (n + cc.length + 2)
    c.expr.Accepted ctx n ∧ a.Accepted ctx (n + cc.length + 2) ∧ b.Accepted ctx (n + cc.length + 2 + ca.length + 2)
  | while_ c a, n => c.expr.Accepted ctx n ∧ a.Accepted ctx (n + (c.expr.gen ctx n).length + 2)
  | block body, n => body.Accepted ctx n
  | seq a rest, n => a.Accepted ctx n ∧ rest.Accepted ctx (n + (a.gen ctx n).length)
  | done, _ => True
  | return_ none, _ => True
  | return_ (some e), n => e.expr.Accepted ctx n
  | empty, _ => True
  | expr e, n => e.expr.Accepted ctx n

def tokens : Stmt → List Lexeme
  | ifThen c a => .tok .if_ :: .tok .lparen :: (c.tokens ++ .tok .rparen :: a.tokens)
  | ifElse c a b => .tok .if_ :: .tok .lparen :: (c.tokens ++ .tok .rparen :: (a.tokens ++ .tok .else_ :: b.tokens))
  | while_ c a => .tok .while_ :: .tok .lparen :: (c.tokens ++ .tok .rparen :: a.tokens)
  | block body => .tok .lbrace :: (body.tokens ++ [.tok .rbrace])
  | seq a rest => a.tokens ++ rest.tokens
  | done => []
  | return_ none => [.tok .return_, .tok .semicolon]
  | return_ (some e) => .tok .return_ :: (e.tokens ++ [.tok .semicolon])
  | empty => [.tok .semicolon]
  | expr e => e.tokens ++ [.tok .semicolon]

/-- The statement ends in an `if` that an `else` behind it would belong to. -/
def Open : Stmt → Prop
  | ifThen _ _ => True
  | ifElse _ _ b => b.Open
  | while_ _ a => a.Open
  | _ => False

/-- Every `else` belongs to the nearest `if` in front of it. -/
def Nearest : Stmt → Prop
  | ifThen _ a => a.Nearest
  | ifElse _ a b => a.Nearest ∧ ¬ a.Open ∧ b.Nearest
  | while_ _ a => a.Nearest
  | block body => body.Nearest
  | seq a rest => a.Nearest ∧ rest.Nearest
  | _ => True

end Stmt

/-! ## The tree of a token sequence -/

section
variable (parse : Input → Option (Expr × Input)) (stmt : Input → Option (Stmt × Input)) (i : Input)

/-- An expression, with its tokens. -/
def parseLeaf : Option (Leaf × Input) := do
  let (e, j) ← parse i
  some (⟨i.lexemes.take (i.lexemes.length - j.lexemes.length), e⟩, j)

def parseCondition : Option (Leaf × Input) := do
  let i ← i.matchTok .lparen
  let (c, i) ← parseLeaf parse i
  let i ← i.matchTok .rparen
  some (c, i)

def parseIf : Option (Stmt × Input) := do
  let i ← i.matchTok .if_
  let (c, i) ← parseCondition parse i
  let (a, i) ← stmt i
  if i.token = .else_ then
    let i ← i.matchTok .else_
    let (b, i) ← stmt i
    some (.ifElse c a b, i)
  else some (.ifThen c a, i)

def parseWhile : Option (Stmt × Input) := do
  let i ← i.matchTok .while_
  let (c, i) ← parseCondition parse i
  let (a, i) ← stmt i
  some (.while_ c a, i)

def parseStatements : Nat → Input → Option (Stmt × Input)
  | 0, _ => none
  | n + 1, i =>
    if i.token = .rbrace then some (.done, i)
    else do
      let (a, i) ← stmt i
      let (rest, i) ← parseStatements n i
      some (.seq a rest, i)

def parseBlock (fuel : Nat) : Option (Stmt × Input) := do
  let i ← i.matchTok .lbrace
  let (body, i) ← parseStatements stmt fuel i
  let i ← i.matchTok .rbrace
  some (.block body, i)

def parseReturn : Option (Stmt × Input) := do
  let i ← i.matchTok .return_
  if i.token ≠ .semicolon then
    let (e, i) ← parseLeaf parse i
    let i ← i.matchTok .semicolon
    some (.return_ (some e), i)
  else
    let i ← i.matchTok .semicolon
    some (.return_ none, i)

def parseEmpty : Option (Stmt × Input) := do
  let i ← i.matchTok .semicolon
  some (.empty, i)

def parseExpressionStatement : Option (Stmt × Input) := do
  let (e, i) ← parseLeaf parse i
  let i ← i.matchTok .semicolon
  some (.expr e, i)

end

/-- The statement at the head of the tokens, and the rest. -/
def parseStatement : Nat → Input → Option (Stmt × Input)
  | 0, _ => none
  | fuel + 1, i =>
    let parse := parseExpression fuel .assign
    let stmt := parseStatement fuel
    match i.token with
    | .if_ => parseIf parse stmt i
    | .while_ => parseWhile parse stmt i
    | .lbrace => parseBlock stmt i fuel
    | .return_ => parseReturn parse i
    | .semicolon => parseEmpty i
    | _ => parseExpressionStatement parse i

/-! ## The words -/

/-- What has been read of `i` is the statement that has been emitted behind `t`. -/
def StmtYields (ctx : Context) (t : List Word) (parsed : Option (Stmt × Input)) (s : Lexer) : Prop :=
  ∃ st : Stmt, parsed = some (st, s.input) ∧ s.text = t ++ st.gen ctx t.length ∧ st.Accepted ctx t.length

section
variable {ctx : Context} {expr stmt : Lexer → Option Lexer} {parse : Input → Option (Expr × Input)}
  {pstmt : Input → Option (Stmt × Input)} {s s' : Lexer} {fuel : Nat}

theorem leaf_emits (hexpr : ∀ s s', expr s = some s' → Yields ctx s.text (parse s.input) s') (h : expr s = some s') :
    ∃ c : Leaf, parseLeaf parse s.input = some (c, s'.input) ∧ Emits ctx s.text c.expr s' := by
  obtain ⟨e, hparse, hemits⟩ := hexpr s s' h
  exact ⟨⟨s.input.lexemes.take (s.input.lexemes.length - s'.input.lexemes.length), e⟩, by simp [parseLeaf, hparse],
    hemits⟩

theorem condition_emits (hexpr : ∀ s s', expr s = some s' → Yields ctx s.text (parse s.input) s')
    (h : condition expr s = some s') :
    ∃ c : Leaf, parseCondition parse s.input = some (c, s'.input) ∧ s'.text = s.text ++ c.expr.gen ctx s.text.length ∧
      c.expr.Accepted ctx s.text.length := by
  obtain ⟨s1, hm, h⟩ := Option.bind_eq_some_iff.mp h
  obtain ⟨i, hi, rfl⟩ := Lexer.matchTok_eq hm
  obtain ⟨s2, he, h⟩ := Option.bind_eq_some_iff.mp h
  obtain ⟨j, hj, rfl⟩ := Lexer.matchTok_eq h
  obtain ⟨c, hparse, hemits⟩ := leaf_emits hexpr he
  change parseLeaf parse i = _ at hparse
  exact ⟨c, by simp [parseCondition, hi, hparse, hj], hemits.text, hemits.accepted⟩

/-- A condition, `JZ` with a word that is patched later, and the statement behind it. -/
theorem guarded_emits (hexpr : ∀ s s', expr s = some s' → Yields ctx s.text (parse s.input) s')
    (hstmt : ∀ s s', stmt s = some s' → StmtYields ctx s.text (pstmt s.input) s') {s1 s2 : Lexer}
    (hc : condition expr s = some s1) (ha : stmt ((s1.emit [Op.jz.code]).emit [0]) = some s2)
    (t : List Word) (i : Input) (htext : s.text = t) (hinput : s.input = i) :
    ∃ (c : Leaf) (a : Stmt) (n : Nat), n = t.length + (c.expr.gen ctx t.length).length + 2 ∧
      parseCondition parse i = some (c, s1.input) ∧ pstmt s1.input = some (a, s2.input) ∧
      c.expr.Accepted ctx t.length ∧ a.Accepted ctx n ∧
      (s1.text ++ [Op.jz.code]).length = t.length + (c.expr.gen ctx t.length).length + 1 ∧
      s2.text = t ++ (c.expr.gen ctx t.length ++ [Op.jz.code, 0] ++ a.gen ctx n) ∧
      s2.text.length = n + (a.gen ctx n).length := by
  subst htext hinput
  obtain ⟨c, hparsec, htextc, haccc⟩ := condition_emits hexpr hc
  obtain ⟨a, hparsea, htexta, hacca⟩ := hstmt _ s2 ha
  change s2.text = ((s1.text ++ [Op.jz.code]) ++ [0]) ++ a.gen ctx ((s1.text ++ [Op.jz.code]) ++ [0]).length at htexta
  change a.Accepted ctx ((s1.text ++ [Op.jz.code]) ++ [0]).length at hacca
  rw [htextc] at htexta hacca
  obtain ⟨htexta, hlena, hacca⟩ := behind_jump (a.gen ctx) (a.Accepted ctx) rfl htexta hacca
  refine ⟨c, a, _, rfl, hparsec, hparsea, haccc, hacca, ?_, htexta, hlena⟩
  rw [htextc, List.length_append, List.length_append]
  rfl

theorem if_emits (hexpr : ∀ s s', expr s = some s' → Yields ctx s.text (parse s.input) s')
    (hstmt : ∀ s s', stmt s = some s' → StmtYields ctx s.text (pstmt s.input) s')
    (h : ifStatement ctx expr stmt s = some s') : StmtYields ctx s.text (parseIf parse pstmt s.input) s' := by
  obtain ⟨s1, hm, h⟩ := Option.bind_eq_some_iff.mp h
  obtain ⟨i, hi, rfl⟩ := Lexer.matchTok_eq hm
  obtain ⟨s2, hc, h⟩ := Option.bind_eq_some_iff.mp h
  obtain ⟨s3, ha, h⟩ := Option.bind_eq_some_iff.mp h
  obtain ⟨c, a, _, rfl, hparsec, hparsea, haccc, hacca, hpatch, htexta, hlena⟩ :=
    guarded_emits hexpr hstmt hc ha s.text i rfl rfl
  let cc := c.expr.gen ctx s.text.length
  let ca := a.gen ctx (s.text.length + cc.length + 2)
  dsimp only at h
  split at h
  · next helse =>
    obtain ⟨s4, hm4, h⟩ := Option.bind_eq_some_iff.mp h
    obtain ⟨i4, hi4, rfl⟩ := Lexer.matchTok_eq hm4
    obtain ⟨s5, hb, h⟩ := Option.bind_eq_some_iff.mp h
    obtain rfl := Option.some.inj h
    obtain ⟨b, hparseb, htextb, haccb⟩ := hstmt _ s5 hb
    let els := s.text.length + cc.length + 2 + ca.length + 2
    have hpatched : s3.text.set (s2.text ++ [Op.jz.code]).length (ctx.addr s3.text.length + 8) =
        s.text ++ (cc ++ [Op.jz.code, ctx.addr els] ++ ca) := by
      rw [ctx.addr_add_two, hlena, htexta, set_jump _ _ _ _ _ hpatch]
    change s5.text = (((s3.text.set (s2.text ++ [Op.jz.code]).length (ctx.addr s3.text.length + 8)) ++ [Op.jmp.code]) ++
      [0]) ++ b.gen ctx (((s3.text.set (s2.text ++ [Op.jz.code]).length (ctx.addr s3.text.length + 8)) ++
        [Op.jmp.code]) ++ [0]).length at htextb
    change b.Accepted ctx (((s3.text.set (s2.text ++ [Op.jz.code]).length (ctx.addr s3.text.length + 8)) ++
      [Op.jmp.code]) ++ [0]).length at haccb
    rw [hpatched] at htextb haccb
    have hels : s.text.length + (cc ++ [Op.jz.code, ctx.addr els] ++ ca).length + 2 = els := by
      simp only [List.length_append, List.length_cons, List.length_nil, els]
      omega
    obtain ⟨htextb, hlenb, haccb⟩ := behind_jump (b.gen ctx) (b.Accepted ctx) hels htextb haccb
    refine ⟨.ifElse c a b, ?_, ?_, haccc, hacca, haccb⟩
    · change pstmt i4 = _ at hparseb
      change s3.input.token = .else_ at helse
      simp [parseIf, hi, hparsec, hparsea, helse, hi4, hparseb, Lexer.patch]
    · have hpatch' : (s3.text.set (s2.text ++ [Op.jz.code]).length (ctx.addr s3.text.length + 8) ++
          [Op.jmp.code]).length = s.text.length + (cc ++ [Op.jz.code, ctx.addr els] ++ ca).length + 1 := by
        rw [hpatched, List.length_append, List.length_append]
        rfl
      show s5.text.set (s3.text.set (s2.text ++ [Op.jz.code]).length (ctx.addr s3.text.length + 8) ++
        [Op.jmp.code]).length (ctx.addr s5.text.length) = _
      rw [hlenb, htextb, set_jump _ _ _ _ _ hpatch', Stmt.gen]
  · next helse =>
    obtain rfl := Option.some.inj h
    refine ⟨.ifThen c a, ?_, ?_, haccc, hacca⟩
    · change ¬ s3.input.token = .else_ at helse
      simp [parseIf, hi, hparsec, hparsea, helse, Lexer.patch]
    · show s3.text.set (s2.text ++ [Op.jz.code]).length (ctx.addr s3.text.length) = _
      rw [hlena, htexta, set_jump _ _ _ _ _ hpatch, Stmt.gen]

theorem while_emits (hexpr : ∀ s s', expr s = some s' → Yields ctx s.text (parse s.input) s')
    (hstmt : ∀ s s', stmt s = some s' → StmtYields ctx s.text (pstmt s.input) s')
    (h : whileStatement ctx expr stmt s = some s') : StmtYields ctx s.text (parseWhile parse pstmt s.input) s' := by
  obtain ⟨s1, hm, h⟩ := Option.bind_eq_some_iff.mp h
  obtain ⟨i, hi, rfl⟩ := Lexer.matchTok_eq hm
  obtain ⟨s2, hc, h⟩ := Option.bind_eq_some_iff.mp h
  obtain ⟨s3, ha, h⟩ := Option.bind_eq_some_iff.mp h
  obtain rfl := Option.some.inj h
  obtain ⟨c, a, _, rfl, hparsec, hparsea, haccc, hacca, hpatch, htexta, hlena⟩ :=
    guarded_emits hexpr hstmt hc ha s.text i rfl rfl
  let cc := c.expr.gen ctx s.text.length
  let ca := a.gen ctx (s.text.length + cc.length + 2)
  refine ⟨.while_ c a, by simp [parseWhile, hi, hparsec, hparsea, Lexer.patch, Lexer.emit], ?_, haccc, hacca⟩
  show (s3.text ++ [Op.jmp.code, ctx.addr s.text.length]).set (s2.text ++ [Op.jz.code]).length
    (ctx.addr (s3.text ++ [Op.jmp.code, ctx.addr s.text.length]).length) = _
  have hend : (s3.text ++ [Op.jmp.code, ctx.addr s.text.length]).length =
      s.text.length + cc.length + 2 + ca.length + 2 := by
    rw [List.length_append, hlena]
    rfl
  rw [hend, htexta, List.append_assoc s.text, List.append_assoc (cc ++ [Op.jz.code, 0]), set_jump _ _ _ _ _ hpatch,
    Stmt.gen]
  simp only [List.append_assoc]
  rfl

theorem statements_emits (hstmt : ∀ s s', stmt s = some s' → StmtYields ctx s.text (pstmt s.input) s') {n : Nat}
    (h : statements stmt n s = some s') : StmtYields ctx s.text (parseStatements pstmt n s.input) s' := by
  induction n generalizing s with
  | zero => exact absurd h (Option.some_ne_none _).symm
  | succ n ih =>
    rw [statements] at h
    rw [parseStatements]
    split at h
    · next hbrace =>
      rw [if_pos (show s.input.token = .rbrace from hbrace)]
      obtain rfl := Option.some.inj h
      exact ⟨.done, rfl, (List.append_nil _).symm, trivial⟩
    · next hbrace =>
      rw [if_neg (show ¬ s.input.token = .rbrace from hbrace)]
      obtain ⟨s1, ha, h⟩ := Option.bind_eq_some_iff.mp h
      obtain ⟨a, hparsea, htexta, hacca⟩ := hstmt s s1 ha
      obtain ⟨rest, hparse, htext, hacc⟩ := ih h
      rw [htexta, List.length_append] at htext hacc
      refine ⟨.seq a rest, by simp [hparsea, hparse], ?_, hacca, hacc⟩
      rw [htext, Stmt.gen, List.append_assoc]

theorem block_emits (hstmt : ∀ s s', stmt s = some s' → StmtYields ctx s.text (pstmt s.input) s')
    (h : blockStatement stmt s fuel = some s') : StmtYields ctx s.text (parseBlock pstmt s.input fuel) s' := by
  obtain ⟨s1, hm, h⟩ := Option.bind_eq_some_iff.mp h
  obtain ⟨i, hi, rfl⟩ := Lexer.matchTok_eq hm
  obtain ⟨s2, hb, h⟩ := Option.bind_eq_some_iff.mp h
  obtain ⟨j, hj, rfl⟩ := Lexer.matchTok_eq h
  obtain ⟨body, hparse, htext, hacc⟩ := statements_emits hstmt hb
  change parseStatements pstmt fuel i = _ at hparse
  exact ⟨.block body, by simp [parseBlock, hi, hparse, hj], htext, hacc⟩

theorem return_emits (hexpr : ∀ s s', expr s = some s' → Yields ctx s.text (parse s.input) s')
    (h : returnStatement expr s = some s') : StmtYields ctx s.text (parseReturn parse s.input) s' := by
  obtain ⟨s1, hm, h⟩ := Option.bind_eq_some_iff.mp h
  obtain ⟨i, hi, rfl⟩ := Lexer.matchTok_eq hm
  obtain ⟨s2, he, h⟩ := Option.bind_eq_some_iff.mp h
  obtain ⟨s3, hm3, h⟩ := Option.bind_eq_some_iff.mp h
  obtain ⟨j, hj, rfl⟩ := Lexer.matchTok_eq hm3
  obtain rfl := Option.some.inj h
  unfold returnValue at he
  split at he
  · next hsemicolon =>
    obtain ⟨e, hparse, hemits⟩ := leaf_emits hexpr he
    change parseLeaf parse i = _ at hparse
    change i.token ≠ .semicolon at hsemicolon
    refine ⟨.return_ (some e), by simp [parseReturn, hi, hsemicolon, hparse, hj, Lexer.emit], ?_, hemits.accepted⟩
    show s2.text ++ [Op.lev.code] = _
    rw [hemits.text, Stmt.gen, List.append_assoc]
  · next hsemicolon =>
    obtain rfl := Option.some.inj he
    change ¬ i.token ≠ .semicolon at hsemicolon
    change i.matchTok .semicolon = some j at hj
    exact ⟨.return_ none, by simp [parseReturn, hi, not_not.mp hsemicolon, hj, Lexer.emit], rfl, trivial⟩

theorem empty_emits (h : s.matchTok .semicolon = some s') : StmtYields ctx s.text (parseEmpty s.input) s' := by
  obtain ⟨i, hi, rfl⟩ := Lexer.matchTok_eq h
  exact ⟨.empty, by simp [parseEmpty, hi], (List.append_nil _).symm, trivial⟩

theorem expressionStatement_emits (hexpr : ∀ s s', expr s = some s' → Yields ctx s.text (parse s.input) s')
    (h : expressionStatement expr s = some s') : StmtYields ctx s.text (parseExpressionStatement parse s.input) s' := by
  obtain ⟨s1, he, h⟩ := Option.bind_eq_some_iff.mp h
  obtain ⟨i, hi, rfl⟩ := Lexer.matchTok_eq h
  obtain ⟨e, hparse, hemits⟩ := leaf_emits hexpr he
  exact ⟨.expr e, by simp [parseExpressionStatement, hparse, hi], hemits.text, hemits.accepted⟩

end

/-- `statement` emits the words of the tree of the tokens that it reads. -/
theorem statement_emits {ctx : Context} {fuel : Nat} {s s' : Lexer} (h : statement ctx fuel s = some s') :
    StmtYields ctx s.text (parseStatement fuel s.input) s' := by
  induction fuel generalizing s s' with
  | zero => exact absurd h (Option.some_ne_none _).symm
  | succ fuel ih =>
    have hexpr := expression_compiles ctx fuel .assign
    have hstmt : ∀ s s', statement ctx fuel s = some s' → StmtYields ctx s.text (parseStatement fuel s.input) s' :=
      fun _ _ h => ih h
    rw [statement] at h
    split at h
    case h_6 hif hwhile hblock hreturn hempty =>
      rw [parseStatement]
      split
      · next htok => exact absurd htok hif
      · next htok => exact absurd htok hwhile
      · next htok => exact absurd htok hblock
      · next htok => exact absurd htok hreturn
      · next htok => exact absurd htok hempty
      · exact expressionStatement_emits hexpr h
    all_goals
      rename_i htok
      simp only [parseStatement, show s.input.token = _ from htok]
    · exact if_emits hexpr hstmt h
    · exact while_emits hexpr hstmt h
    · exact block_emits hstmt h
    · exact return_emits hexpr h
    · exact empty_emits h

/-! ## The tokens -/

/-- What is left is the end of the tokens. -/
def Reads {α : Type*} (parsed : Option (α × Input)) (i : Input) : Prop :=
  ∀ r, parsed = some r → r.2.lexemes <:+ i.lexemes

section
variable {parse : Tok → Input → Option (Expr × Input)} {fuel : Nat} {i : Input} {left : Expr}

theorem Reads.bind {α β : Type*} {parsed : Option (α × Input)} {f : α × Input → Option (β × Input)}
    (h : Reads parsed i) (hf : ∀ r : α × Input, Reads (f r) r.2) : Reads (parsed.bind f) i := by
  intro r hr
  obtain ⟨q, hq, hr⟩ := Option.bind_eq_some_iff.mp hr
  exact (hf q r hr).trans (h q hq)

theorem Reads.some {α : Type*} (a : α) {j : Input} (h : j.lexemes <:+ i.lexemes) : Reads (some (a, j)) i := by
  rintro r ⟨⟩
  exact h

theorem Reads.matchTok {β : Type*} {tk : Tok} {f : Input → Option (β × Input)} (hf : ∀ j, Reads (f j) j) :
    Reads ((i.matchTok tk).bind f) i := by
  intro r hr
  obtain ⟨j, hj, hr⟩ := Option.bind_eq_some_iff.mp hr
  exact (hf j r hr).trans (Input.matchTok_suffix hj)

theorem Reads.ite {α : Type*} {c : Prop} [Decidable c] {a b : Option (α × Input)} (ha : Reads a i) (hb : Reads b i) :
    Reads (if c then a else b) i := by
  split
  · exact ha
  · exact hb

theorem Reads.none {α : Type*} : Reads (none : Option (α × Input)) i := fun _ h => absurd h (Option.some_ne_none _).symm

theorem Reads.after {α : Type*} {parsed : Option (α × Input)} {j : Input} (h : Reads parsed j)
    (hj : j.lexemes <:+ i.lexemes) : Reads parsed i := fun r hr => (h r hr).trans hj

variable (hparse : ∀ level i, Reads (parse level i) i)
include hparse

theorem parseArguments_reads (n : Nat) (args : Args) (i : Input) : Reads (parseArguments parse n args i) i := by
  induction n generalizing args i with
  | zero => exact .none
  | succ n ih =>
    rw [parseArguments]
    exact .ite (.some _ List.suffix_rfl) (.bind (hparse .assign i) fun r => (ih _ _).after (r.2.optional_suffix _))

theorem parsePrefix_reads (tk : Tok) (f : Expr → Expr) : Reads (parsePrefix parse i tk f) i :=
  .matchTok fun j => .bind (hparse .inc j) fun _ => .some _ List.suffix_rfl

theorem parseIdentifier_reads : Reads (parseIdentifier parse fuel i) i := by
  refine .matchTok fun j => .ite ?_ ?_
  · refine .matchTok fun k => .bind (parseArguments_reads hparse _ _ _) fun r => .matchTok fun l => ?_
    cases j.currentId.class_.callee with
    | none => exact .none
    | some f => exact .some _ List.suffix_rfl
  · unfold parseVariable
    cases j.currentId.class_ with
    | num value => exact .some _ List.suffix_rfl
    | loc value => exact .some _ List.suffix_rfl
    | glo value => exact .some _ List.suffix_rfl
    | _ => exact .none

theorem parseParenthesis_reads : Reads (parseParenthesis parse i) i :=
  .matchTok fun j => .ite
    (.after (.matchTok fun k => .bind (hparse .inc k) fun _ => .some _ List.suffix_rfl) j.typeName_suffix)
    (.bind (hparse .assign j) fun _ => .matchTok fun _ => .some _ List.suffix_rfl)

theorem parseMinus_reads : Reads (parseMinus parse i) i :=
  .matchTok fun j => .ite (.matchTok fun _ => .some _ List.suffix_rfl)
    (.bind (hparse .inc j) fun _ => .some _ List.suffix_rfl)

theorem parseUnit_reads : Reads (parseUnit parse fuel i) i := by
  unfold parseUnit
  split
  · exact .matchTok fun _ => .some _ List.suffix_rfl
  · exact .matchTok fun j => .some _ (Input.skip_suffix ..)
  · exact .matchTok fun _ => .matchTok fun k => .after (.matchTok fun _ => .some _ List.suffix_rfl) k.typeName_suffix
  · exact parseIdentifier_reads hparse
  · exact parseParenthesis_reads hparse
  · exact parsePrefix_reads hparse _ _
  · exact parsePrefix_reads hparse _ _
  · exact parsePrefix_reads hparse _ _
  · exact parsePrefix_reads hparse _ _
  · exact parsePrefix_reads hparse _ _
  · exact parseMinus_reads hparse
  · exact parsePrefix_reads hparse _ _
  · exact parsePrefix_reads hparse _ _
  · exact .none

theorem parseInfix_reads (tk level : Tok) (f : Expr → Expr → Expr) : Reads (parseInfix parse i left tk level f) i :=
  .matchTok fun j => .bind (hparse level j) fun _ => .some _ List.suffix_rfl

theorem parseOperator_reads : Reads (parseOperator parse i left) i := by
  unfold parseOperator
  split
  · exact parseInfix_reads hparse _ _ _
  · exact .matchTok fun j => .bind (hparse .assign j) fun _ => .matchTok fun k =>
      .bind (hparse .cond k) fun _ => .some _ List.suffix_rfl
  iterate 18 · exact parseInfix_reads hparse _ _ _
  · exact .matchTok fun _ => .some _ List.suffix_rfl
  · exact .matchTok fun _ => .some _ List.suffix_rfl
  · exact .matchTok fun j => .bind (hparse .assign j) fun _ => .matchTok fun _ => .some _ List.suffix_rfl
  · exact .none

theorem parseOperators_reads (level : Tok) (n : Nat) : Reads (parseOperators parse level n left i) i := by
  induction n generalizing left i with
  | zero => exact .none
  | succ n ih =>
    rw [parseOperators]
    exact .ite (.bind (parseOperator_reads hparse) fun _ => ih) (.some _ List.suffix_rfl)

end

theorem parseExpression_reads (fuel : Nat) (level : Tok) (i : Input) : Reads (parseExpression fuel level i) i := by
  induction fuel generalizing level i with
  | zero => exact .none
  | succ fuel ih =>
    exact .bind (parseUnit_reads ih) fun _ => parseOperators_reads ih _ _

theorem matchTok_tok {i j : Input} {tk : Tok} (h : i.matchTok tk = some j)
    (htk : tk ≠ .eof ∧ tk ≠ .num ∧ tk ≠ .quote ∧ tk ≠ .id) : i.lexemes = .tok tk :: j.lexemes := by
  obtain ⟨x, hx, hi⟩ := Input.lexemes_matchTok h htk.1
  cases x with
  | num val => exact absurd hx.symm htk.2.1
  | string val => exact absurd hx.symm htk.2.2.1
  | id id => exact absurd hx.symm htk.2.2.2
  | tok t =>
    obtain rfl : t = tk := hx
    exact hi

/-- The tokens of the statement have been read, and no `else` that belongs to it is left. -/
structure Spells (i : Input) (st : Stmt) (j : Input) : Prop where
  tokens : i.lexemes = st.tokens ++ j.lexemes
  nearest : st.Nearest
  closed : st.Open → j.token ≠ .else_

section
variable {parse : Input → Option (Expr × Input)} {pstmt : Input → Option (Stmt × Input)} {i j : Input} {st : Stmt}
  {c : Leaf} {fuel : Nat}

theorem parseLeaf_tokens (hparse : ∀ i, Reads (parse i) i) (h : parseLeaf parse i = some (c, j)) :
    i.lexemes = c.tokens ++ j.lexemes := by
  obtain ⟨⟨e, k⟩, he, h⟩ := Option.bind_eq_some_iff.mp h
  obtain ⟨rfl, rfl⟩ := Prod.mk.inj (Option.some.inj h)
  obtain ⟨read, hread⟩ := hparse i _ he
  show i.lexemes = i.lexemes.take (i.lexemes.length - k.lexemes.length) ++ k.lexemes
  rw [← hread, List.length_append, Nat.add_sub_cancel, List.take_left]

theorem parseCondition_tokens (hparse : ∀ i, Reads (parse i) i) (h : parseCondition parse i = some (c, j)) :
    i.lexemes = .tok .lparen :: (c.tokens ++ .tok .rparen :: j.lexemes) := by
  obtain ⟨i1, h1, h⟩ := Option.bind_eq_some_iff.mp h
  obtain ⟨⟨c, i2⟩, h2, h⟩ := Option.bind_eq_some_iff.mp h
  obtain ⟨i3, h3, h⟩ := Option.bind_eq_some_iff.mp h
  obtain ⟨rfl, rfl⟩ := Prod.mk.inj (Option.some.inj h)
  rw [matchTok_tok h1 (by decide), parseLeaf_tokens hparse h2, matchTok_tok h3 (by decide)]

theorem parseIf_spells (hparse : ∀ i, Reads (parse i) i) (hstmt : ∀ i st j, pstmt i = some (st, j) → Spells i st j)
    (h : parseIf parse pstmt i = some (st, j)) : Spells i st j := by
  obtain ⟨i1, h1, h⟩ := Option.bind_eq_some_iff.mp h
  obtain ⟨⟨c, i2⟩, h2, h⟩ := Option.bind_eq_some_iff.mp h
  obtain ⟨⟨a, i3⟩, h3, h⟩ := Option.bind_eq_some_iff.mp h
  have ha := hstmt _ a i3 h3
  have hread : i.lexemes = .tok .if_ :: .tok .lparen :: (c.tokens ++ .tok .rparen :: (a.tokens ++ i3.lexemes)) := by
    rw [matchTok_tok h1 (by decide), parseCondition_tokens hparse h2, ha.tokens]
  dsimp only at h
  split at h
  · next helse =>
    obtain ⟨i4, h4, h⟩ := Option.bind_eq_some_iff.mp h
    obtain ⟨⟨b, i5⟩, h5, h⟩ := Option.bind_eq_some_iff.mp h
    obtain ⟨rfl, rfl⟩ := Prod.mk.inj (Option.some.inj h)
    have hb := hstmt _ b i5 h5
    refine ⟨?_, ⟨ha.nearest, fun hopen => ha.closed hopen helse, hb.nearest⟩, hb.closed⟩
    rw [hread, matchTok_tok h4 (by decide), hb.tokens]
    simp [Stmt.tokens]
  · next helse =>
    obtain ⟨rfl, rfl⟩ := Prod.mk.inj (Option.some.inj h)
    exact ⟨by rw [hread]; simp [Stmt.tokens], ha.nearest, fun _ => helse⟩

theorem parseWhile_spells (hparse : ∀ i, Reads (parse i) i) (hstmt : ∀ i st j, pstmt i = some (st, j) → Spells i st j)
    (h : parseWhile parse pstmt i = some (st, j)) : Spells i st j := by
  obtain ⟨i1, h1, h⟩ := Option.bind_eq_some_iff.mp h
  obtain ⟨⟨c, i2⟩, h2, h⟩ := Option.bind_eq_some_iff.mp h
  obtain ⟨⟨a, i3⟩, h3, h⟩ := Option.bind_eq_some_iff.mp h
  obtain ⟨rfl, rfl⟩ := Prod.mk.inj (Option.some.inj h)
  have ha := hstmt _ a i3 h3
  refine ⟨?_, ha.nearest, ha.closed⟩
  rw [matchTok_tok h1 (by decide), parseCondition_tokens hparse h2, ha.tokens]
  simp [Stmt.tokens]

theorem parseStatements_spells (hstmt : ∀ i st j, pstmt i = some (st, j) → Spells i st j) {n : Nat}
    (h : parseStatements pstmt n i = some (st, j)) : Spells i st j ∧ ¬ st.Open := by
  induction n generalizing i st with
  | zero => exact absurd h (Option.some_ne_none _).symm
  | succ n ih =>
    rw [parseStatements] at h
    split at h
    · obtain ⟨rfl, rfl⟩ := Prod.mk.inj (Option.some.inj h)
      exact ⟨⟨rfl, trivial, False.elim⟩, id⟩
    · obtain ⟨⟨a, i1⟩, h1, h⟩ := Option.bind_eq_some_iff.mp h
      obtain ⟨⟨rest, i2⟩, h2, h⟩ := Option.bind_eq_some_iff.mp h
      obtain ⟨rfl, rfl⟩ := Prod.mk.inj (Option.some.inj h)
      have ha := hstmt _ a i1 h1
      obtain ⟨hrest, -⟩ := ih h2
      refine ⟨⟨?_, ⟨ha.nearest, hrest.nearest⟩, False.elim⟩, id⟩
      rw [ha.tokens, hrest.tokens, Stmt.tokens, List.append_assoc]

theorem parseBlock_spells (hstmt : ∀ i st j, pstmt i = some (st, j) → Spells i st j)
    (h : parseBlock pstmt i fuel = some (st, j)) : Spells i st j := by
  obtain ⟨i1, h1, h⟩ := Option.bind_eq_some_iff.mp h
  obtain ⟨⟨body, i2⟩, h2, h⟩ := Option.bind_eq_some_iff.mp h
  obtain ⟨i3, h3, h⟩ := Option.bind_eq_some_iff.mp h
  obtain ⟨rfl, rfl⟩ := Prod.mk.inj (Option.some.inj h)
  obtain ⟨hbody, -⟩ := parseStatements_spells hstmt h2
  refine ⟨?_, hbody.nearest, False.elim⟩
  rw [matchTok_tok h1 (by decide), hbody.tokens, matchTok_tok h3 (by decide)]
  simp [Stmt.tokens]

theorem parseReturn_spells (hparse : ∀ i, Reads (parse i) i) (h : parseReturn parse i = some (st, j)) :
    Spells i st j := by
  obtain ⟨i1, h1, h⟩ := Option.bind_eq_some_iff.mp h
  split at h
  · obtain ⟨⟨e, i2⟩, h2, h⟩ := Option.bind_eq_some_iff.mp h
    obtain ⟨i3, h3, h⟩ := Option.bind_eq_some_iff.mp h
    obtain ⟨rfl, rfl⟩ := Prod.mk.inj (Option.some.inj h)
    refine ⟨?_, trivial, False.elim⟩
    rw [matchTok_tok h1 (by decide), parseLeaf_tokens hparse h2, matchTok_tok h3 (by decide)]
    simp [Stmt.tokens]
  · obtain ⟨i2, h2, h⟩ := Option.bind_eq_some_iff.mp h
    obtain ⟨rfl, rfl⟩ := Prod.mk.inj (Option.some.inj h)
    refine ⟨?_, trivial, False.elim⟩
    rw [matchTok_tok h1 (by decide), matchTok_tok h2 (by decide)]
    rfl

theorem parseEmpty_spells (h : parseEmpty i = some (st, j)) : Spells i st j := by
  obtain ⟨i1, h1, h⟩ := Option.bind_eq_some_iff.mp h
  obtain ⟨rfl, rfl⟩ := Prod.mk.inj (Option.some.inj h)
  exact ⟨matchTok_tok h1 (by decide), trivial, False.elim⟩

theorem parseExpressionStatement_spells (hparse : ∀ i, Reads (parse i) i)
    (h : parseExpressionStatement parse i = some (st, j)) : Spells i st j := by
  obtain ⟨⟨e, i1⟩, h1, h⟩ := Option.bind_eq_some_iff.mp h
  obtain ⟨i2, h2, h⟩ := Option.bind_eq_some_iff.mp h
  obtain ⟨rfl, rfl⟩ := Prod.mk.inj (Option.some.inj h)
  refine ⟨?_, trivial, False.elim⟩
  rw [parseLeaf_tokens hparse h1, matchTok_tok h2 (by decide)]
  simp [Stmt.tokens]

end

theorem parseStatement_spells {fuel : Nat} {i j : Input} {st : Stmt} (h : parseStatement fuel i = some (st, j)) :
    Spells i st j := by
  induction fuel generalizing i st j with
  | zero => exact absurd h (Option.some_ne_none _).symm
  | succ fuel ih =>
    have hparse := parseExpression_reads fuel .assign
    have hstmt : ∀ i st j, parseStatement fuel i = some (st, j) → Spells i st j := fun _ _ _ h => ih h
    rw [parseStatement] at h
    split at h
    · exact parseIf_spells hparse hstmt h
    · exact parseWhile_spells hparse hstmt h
    · exact parseBlock_spells hstmt h
    · exact parseReturn_spells hparse h
    · exact parseEmpty_spells h
    · exact parseExpressionStatement_spells hparse h

end RetrOS.Interpreter
