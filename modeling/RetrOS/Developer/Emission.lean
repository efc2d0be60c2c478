import RetrOS.Developer.Syntax

/-!
# What the compiler emits

`expression` emits the words of the tree of the tokens that it reads (`expression_compiles`): every branch of the
compiler does what the same branch of the parser does to the tokens, and appends the words of the tree.
-/

namespace RetrOS.Interpreter

/-- Behind the words `t`, the words of `e` have been emitted. -/
structure Emits (ctx : Context) (t : List Word) (e : Expr) (s : Lexer) : Prop where
  text : s.text = t ++ e.gen ctx t.length
  type : s.exprType = e.type
  accepted : e.Accepted ctx t.length

/-- What has been read of `i` is the expression that has been emitted behind `t`. -/
def Yields (ctx : Context) (t : List Word) (parsed : Option (Expr × Input)) (s : Lexer) : Prop :=
  ∃ e, parsed = some (e, s.input) ∧ Emits ctx t e s

/-- `expr` emits the words of the tree that `parse` finds. -/
def Compiles (ctx : Context) (expr : Tok → Lexer → Option Lexer) (parse : Tok → Input → Option (Expr × Input)) : Prop :=
  ∀ level s s', expr level s = some s' → Yields ctx s.text (parse level s.input) s'

/-- Behind `words`, too. -/
theorem Emits.after {ctx : Context} {t words : List Word} {e : Expr} {s : Lexer} (h : Emits ctx (t ++ words) e s) :
    s.text = t ++ (words ++ e.gen ctx (t.length + words.length)) ∧ e.Accepted ctx (t.length + words.length) := by
  rw [← List.length_append, ← List.append_assoc]
  exact ⟨h.text, h.accepted⟩

namespace Lexer
variable {s s' : Lexer} {tk : Tok} {w : Word} {t c : List Word}

theorem matchTok_eq (h : s.matchTok tk = some s') : ∃ i, s.input.matchTok tk = some i ∧ s' = { s with input := i } := by
  obtain ⟨i, hi, rfl⟩ := Option.map_eq_some_iff.mp h
  exact ⟨i, hi, rfl⟩

theorem takeLoad_eq (h : s.takeLoad = some (s', w)) (htext : s.text = t ++ c) (hc : Starts c) :
    EndsInLoad c ∧ c.getLast? = some w ∧ s' = { s with text := t ++ c.dropLast } := by
  have hne : c ≠ [] := by
    obtain ⟨x, rest, rfl, -⟩ := hc
    exact List.cons_ne_nil x rest
  have hlast : s.text.getLast? = some (c.getLast hne) := by
    rw [htext, List.getLast?_append_of_ne_nil _ hne, List.getLast?_eq_some_getLast hne]
  unfold takeLoad at h
  rw [hlast] at h
  dsimp only at h
  split at h
  · next hload =>
    obtain ⟨hs, hw⟩ := Prod.mk.inj (Option.some.inj h)
    refine ⟨⟨c.dropLast, _, (List.dropLast_append_getLast hne).symm, hload⟩, ?_, ?_⟩
    · rw [List.getLast?_eq_some_getLast hne, hw]
    · rw [← hs, htext, List.dropLast_append_of_ne_nil hne]
  · exact absurd h (Option.some_ne_none _).symm

end Lexer

section
variable {ctx : Context} {expr : Tok → Lexer → Option Lexer} {parse : Tok → Input → Option (Expr × Input)} {fuel : Nat}
  {s s' : Lexer}

/-! ## The operands -/

theorem number_emits (h : number s = some s') : Yields ctx s.text (parseNumber s.input) s' := by
  obtain ⟨s1, hm, h⟩ := Option.bind_eq_some_iff.mp h
  obtain ⟨i, hi, rfl⟩ := Lexer.matchTok_eq hm
  obtain rfl := Option.some.inj h
  exact ⟨.imm i.tokenVal INT, by simp [parseNumber, hi, Lexer.emit], rfl, rfl, trivial⟩

theorem string_emits (h : string s = some s') : Yields ctx s.text (parseString s.input) s' := by
  obtain ⟨s1, hm, h⟩ := Option.bind_eq_some_iff.mp h
  obtain ⟨i, hi, rfl⟩ := Lexer.matchTok_eq hm
  obtain rfl := Option.some.inj h
  exact ⟨.imm s.input.tokenVal PTR, by simp [parseString, show s.input.matchTok .quote = some i from hi], rfl, rfl,
    trivial⟩

theorem sizeOf_emits (h : sizeOf s = some s') : Yields ctx s.text (parseSizeOf s.input) s' := by
  obtain ⟨s1, hm, h⟩ := Option.bind_eq_some_iff.mp h
  obtain ⟨i, hi, rfl⟩ := Lexer.matchTok_eq hm
  obtain ⟨s2, hm2, h⟩ := Option.bind_eq_some_iff.mp h
  obtain ⟨i2, hi2, rfl⟩ := Lexer.matchTok_eq hm2
  obtain ⟨s3, hm3, h⟩ := Option.bind_eq_some_iff.mp h
  obtain ⟨i3, hi3, rfl⟩ := Lexer.matchTok_eq hm3
  obtain rfl := Option.some.inj h
  refine ⟨.imm (if i2.typeName.1 = CHAR then 1 else 4) INT, ?_, rfl, rfl, trivial⟩
  simp [parseSizeOf, hi, show i.matchTok .lparen = some i2 from hi2,
    show i2.typeName.2.matchTok .rparen = some i3 from hi3, Lexer.emit]

theorem arguments_emits (hexpr : Compiles ctx expr parse) {t : List Word} (args : Args) {n tmp tmp' : Nat}
    (h : arguments expr n tmp s = some (s', tmp')) (htext : s.text = t ++ args.gen ctx t.length)
    (hacc : args.Accepted ctx t.length) (hlen : args.length = tmp) :
    ∃ args', parseArguments parse n args s.input = some (args', s'.input) ∧
      s'.text = t ++ args'.gen ctx t.length ∧ args'.Accepted ctx t.length ∧ args'.length = tmp' := by
  induction n generalizing s tmp args with
  | zero => exact absurd h (Option.some_ne_none _).symm
  | succ n ih =>
    rw [arguments] at h
    rw [parseArguments]
    by_cases hparen : s.token = .rparen
    · rw [if_pos hparen] at h
      obtain ⟨rfl, rfl⟩ := Prod.mk.inj (Option.some.inj h)
      exact ⟨args, if_pos hparen, htext, hacc, hlen⟩
    · rw [if_neg hparen] at h
      rw [if_neg hparen]
      obtain ⟨s1, he, h⟩ := Option.bind_eq_some_iff.mp h
      obtain ⟨e, hparse, hemits⟩ := hexpr .assign s s1 he
      have htext1 : s1.text ++ [Op.push.code] = t ++ (args.snoc e).gen ctx t.length := by
        rw [hemits.text, htext, Args.gen, List.length_append]
        simp only [List.append_assoc]
      have hacc1 : (args.snoc e).Accepted ctx t.length := by
        refine ⟨hacc, ?_⟩
        have he := hemits.accepted
        rwa [htext, List.length_append] at he
      obtain ⟨args', hargs, hrest⟩ := ih _ h htext1 hacc1 (congrArg (· + 1) hlen)
      refine ⟨args', ?_, hrest⟩
      simp only [hparse, Option.bind_eq_bind, Option.bind_some]
      exact hargs

theorem functionCall_emits (hexpr : Compiles ctx expr parse) {id : Identifier}
    (h : functionCall expr fuel s id = some s') : Yields ctx s.text (parseCall parse fuel s.input id) s' := by
  obtain ⟨s1, hm, h⟩ := Option.bind_eq_some_iff.mp h
  obtain ⟨i, hi, rfl⟩ := Lexer.matchTok_eq hm
  obtain ⟨⟨s2, tmp⟩, hargs, h⟩ := Option.bind_eq_some_iff.mp h
  obtain ⟨args, hparse, htext, hacc, hlen⟩ :=
    arguments_emits hexpr .nil hargs (List.append_nil _).symm trivial rfl
  obtain ⟨s3, hm3, h⟩ := Option.bind_eq_some_iff.mp h
  obtain ⟨i3, hi3, rfl⟩ := Lexer.matchTok_eq hm3
  obtain ⟨f, hf, h⟩ := Option.bind_eq_some_iff.mp h
  obtain rfl := Option.some.inj h
  refine ⟨.call f id.type args, ?_, ?_, rfl, hacc⟩
  · simp only [parseCall, hi, Option.bind_eq_bind, Option.bind_some]
    rw [hparse]
    simp [hi3, hf, Lexer.emit]
  · show s2.text ++ (f.words ++ adjWords tmp) = _
    rw [htext, Expr.gen, hlen, List.append_assoc]

theorem variable_emits {id : Identifier} (h : variable_ ctx s id = some s') :
    Yields ctx s.text (parseVariable s.input id) s' := by
  unfold variable_ at h
  unfold parseVariable
  cases hclass : id.class_ with
  | num value =>
    rw [hclass] at h
    obtain rfl := Option.some.inj h
    exact ⟨.imm value INT, rfl, rfl, rfl, trivial⟩
  | loc value =>
    rw [hclass] at h
    obtain rfl := Option.some.inj h
    exact ⟨.loc value id.type, rfl, rfl, rfl, trivial⟩
  | glo value =>
    rw [hclass] at h
    obtain rfl := Option.some.inj h
    exact ⟨.glo value id.type, rfl, rfl, rfl, trivial⟩
  | _ =>
    rw [hclass] at h
    exact absurd h (Option.some_ne_none _).symm

theorem identifier_emits (hexpr : Compiles ctx expr parse) (h : identifier ctx expr fuel s = some s') :
    Yields ctx s.text (parseIdentifier parse fuel s.input) s' := by
  obtain ⟨s1, hm, h⟩ := Option.bind_eq_some_iff.mp h
  obtain ⟨i, hi, rfl⟩ := Lexer.matchTok_eq hm
  simp only [parseIdentifier, hi, Option.bind_eq_bind, Option.bind_some]
  dsimp only at h
  split at h
  · next hparen =>
    rw [if_pos (show i.token = .lparen from hparen)]
    exact functionCall_emits (s := { s with input := i }) hexpr h
  · next hparen =>
    rw [if_neg (show ¬ i.token = .lparen from hparen)]
    exact variable_emits (s := { s with input := i }) h

theorem parenthesis_emits (hexpr : Compiles ctx expr parse) (h : parenthesis expr s = some s') :
    Yields ctx s.text (parseParenthesis parse s.input) s' := by
  obtain ⟨s1, hm, h⟩ := Option.bind_eq_some_iff.mp h
  obtain ⟨i, hi, rfl⟩ := Lexer.matchTok_eq hm
  simp only [parseParenthesis, hi, Option.bind_eq_bind, Option.bind_some]
  dsimp only at h
  split at h
  · next htype =>
    rw [if_pos (show i.token = .int ∨ i.token = .char from htype)]
    obtain ⟨s2, hm2, h⟩ := Option.bind_eq_some_iff.mp h
    obtain ⟨i2, hi2, rfl⟩ := Lexer.matchTok_eq hm2
    obtain ⟨s3, he, h⟩ := Option.bind_eq_some_iff.mp h
    obtain rfl := Option.some.inj h
    obtain ⟨e, hparse, hemits⟩ := hexpr .inc _ s3 he
    refine ⟨.cast i.typeName.1 e, ?_, hemits.text, rfl, hemits.accepted⟩
    simp only [show i.typeName.2.matchTok .rparen = some i2 from hi2, hparse, Option.bind_some]
  · next htype =>
    rw [if_neg (show ¬ (i.token = .int ∨ i.token = .char) from htype)]
    obtain ⟨s2, he, h⟩ := Option.bind_eq_some_iff.mp h
    obtain ⟨i2, hi2, rfl⟩ := Lexer.matchTok_eq h
    obtain ⟨e, hparse, hemits⟩ := hexpr .assign _ s2 he
    refine ⟨e, ?_, hemits.text, hemits.type, hemits.accepted⟩
    simp only [hparse, hi2, Option.bind_some]

/-- A token, and the expression behind it. -/
theorem operand_emits (hexpr : Compiles ctx expr parse) {tk level : Tok} {s1 s2 : Lexer} (hm : s.matchTok tk = some s1)
    (he : expr level s1 = some s2) :
    ∃ i e, s.input.matchTok tk = some i ∧ parse level i = some (e, s2.input) ∧ Emits ctx s.text e s2 := by
  obtain ⟨i, hi, rfl⟩ := Lexer.matchTok_eq hm
  obtain ⟨e, hparse, hemits⟩ := hexpr level _ s2 he
  exact ⟨i, e, hi, hparse, hemits⟩

theorem parsePrefix_eq {tk : Tok} {f : Expr → Expr} {e : Expr} {i j k : Input} (hi : i.matchTok tk = some j)
    (hparse : parse .inc j = some (e, k)) : parsePrefix parse i tk f = some (f e, k) := by
  simp [parsePrefix, hi, hparse]

theorem dereference_emits (hexpr : Compiles ctx expr parse) (h : dereference expr s = some s') :
    Yields ctx s.text (parsePrefix parse s.input .mul .dereference) s' := by
  obtain ⟨s1, hm, h⟩ := Option.bind_eq_some_iff.mp h
  obtain ⟨s2, he, h⟩ := Option.bind_eq_some_iff.mp h
  obtain ⟨i, e, hi, hparse, hemits⟩ := operand_emits hexpr hm he
  split at h
  · obtain rfl := Option.some.inj h
    refine ⟨.dereference e, parsePrefix_eq hi hparse, ?_, congrArg (· - PTR) hemits.type, hemits.accepted⟩
    show s2.text ++ [_] = _
    rw [hemits.text, hemits.type, Expr.gen, List.append_assoc]
  · exact absurd h (Option.some_ne_none _).symm

theorem addressOf_emits (hexpr : Compiles ctx expr parse) (h : addressOf expr s = some s') :
    Yields ctx s.text (parsePrefix parse s.input .and .addressOf) s' := by
  obtain ⟨s1, hm, h⟩ := Option.bind_eq_some_iff.mp h
  obtain ⟨s2, he, h⟩ := Option.bind_eq_some_iff.mp h
  obtain ⟨i, e, hi, hparse, hemits⟩ := operand_emits hexpr hm he
  obtain ⟨⟨s3, w⟩, hload, h⟩ := Option.bind_eq_some_iff.mp h
  obtain rfl := Option.some.inj h
  obtain ⟨hends, -, rfl⟩ := Lexer.takeLoad_eq hload hemits.text (Expr.starts hemits.accepted)
  exact ⟨.addressOf e, parsePrefix_eq hi hparse, rfl, congrArg (· + PTR) hemits.type, hemits.accepted, hends⟩

theorem not_emits (hexpr : Compiles ctx expr parse) (h : not expr s = some s') :
    Yields ctx s.text (parsePrefix parse s.input .not .not) s' := by
  obtain ⟨s1, hm, h⟩ := Option.bind_eq_some_iff.mp h
  obtain ⟨s2, he, h⟩ := Option.bind_eq_some_iff.mp h
  obtain ⟨i, e, hi, hparse, hemits⟩ := operand_emits hexpr hm he
  obtain rfl := Option.some.inj h
  refine ⟨.not e, parsePrefix_eq hi hparse, ?_, rfl, hemits.accepted⟩
  show s2.text ++ withWords 0 .eq = _
  rw [hemits.text, Expr.gen, List.append_assoc]

theorem complement_emits (hexpr : Compiles ctx expr parse) (h : complement expr s = some s') :
    Yields ctx s.text (parsePrefix parse s.input .tilde .complement) s' := by
  obtain ⟨s1, hm, h⟩ := Option.bind_eq_some_iff.mp h
  obtain ⟨s2, he, h⟩ := Option.bind_eq_some_iff.mp h
  obtain ⟨i, e, hi, hparse, hemits⟩ := operand_emits hexpr hm he
  obtain rfl := Option.some.inj h
  refine ⟨.complement e, parsePrefix_eq hi hparse, ?_, rfl, hemits.accepted⟩
  show s2.text ++ withWords (-1) .xor = _
  rw [hemits.text, Expr.gen, List.append_assoc]

theorem plus_emits (hexpr : Compiles ctx expr parse) (h : plus expr s = some s') :
    Yields ctx s.text (parsePrefix parse s.input .add .plus) s' := by
  obtain ⟨s1, hm, h⟩ := Option.bind_eq_some_iff.mp h
  obtain ⟨s2, he, h⟩ := Option.bind_eq_some_iff.mp h
  obtain ⟨i, e, hi, hparse, hemits⟩ := operand_emits hexpr hm he
  obtain rfl := Option.some.inj h
  exact ⟨.plus e, parsePrefix_eq hi hparse, hemits.text, rfl, hemits.accepted⟩

theorem minus_emits (hexpr : Compiles ctx expr parse) (h : minus expr s = some s') :
    Yields ctx s.text (parseMinus parse s.input) s' := by
  obtain ⟨s1, hm, h⟩ := Option.bind_eq_some_iff.mp h
  obtain ⟨i, hi, rfl⟩ := Lexer.matchTok_eq hm
  simp only [parseMinus, hi, Option.bind_eq_bind, Option.bind_some]
  dsimp only at h
  split at h
  · next hnum =>
    rw [if_pos (show i.token = .num from hnum)]
    obtain ⟨s2, hm2, h⟩ := Option.bind_eq_some_iff.mp h
    obtain ⟨j, hj, rfl⟩ := Lexer.matchTok_eq hm2
    obtain rfl := Option.some.inj h
    refine ⟨.imm (-i.tokenVal) INT, ?_, rfl, rfl, trivial⟩
    simp only [show i.matchTok .num = some j from hj, Option.bind_some]
  · next hnum =>
    rw [if_neg (show ¬ i.token = .num from hnum)]
    obtain ⟨s2, he, h⟩ := Option.bind_eq_some_iff.mp h
    obtain rfl := Option.some.inj h
    obtain ⟨e, hparse, hemits⟩ := hexpr .inc _ s2 he
    change Emits ctx (s.text ++ [Op.imm.code, -1, Op.push.code]) e s2 at hemits
    obtain ⟨htext, hacc⟩ := hemits.after
    refine ⟨.minus e, ?_, ?_, rfl, hacc⟩
    · simp only [show parse .inc i = _ from hparse, Option.bind_some]
      rfl
    · show s2.text ++ [_] = _
      rw [htext, Expr.gen, List.append_assoc]
      rfl

/-- The words of `++` and `--` in front of the store. -/
theorem duplicated_eq {c : List Word} {w : Word} (h : c.getLast? = some w) :
    duplicated c = c.dropLast ++ [Op.push.code, w] := by
  rw [duplicated, pushed, h, List.append_assoc]
  rfl

theorem preIncrement_emits (hexpr : Compiles ctx expr parse) {tmp : IncDec} (h : preIncrement expr s tmp = some s') :
    Yields ctx s.text (parsePrefix parse s.input tmp.tok (.preIncrement tmp)) s' := by
  obtain ⟨s1, hm, h⟩ := Option.bind_eq_some_iff.mp h
  obtain ⟨s2, he, h⟩ := Option.bind_eq_some_iff.mp h
  obtain ⟨i, e, hi, hparse, hemits⟩ := operand_emits hexpr hm he
  obtain ⟨⟨s3, w⟩, hload, h⟩ := Option.bind_eq_some_iff.mp h
  obtain rfl := Option.some.inj h
  obtain ⟨hends, hlast, rfl⟩ := Lexer.takeLoad_eq hload hemits.text (Expr.starts hemits.accepted)
  refine ⟨.preIncrement tmp e, parsePrefix_eq hi hparse, ?_, hemits.type, hemits.accepted, hends⟩
  show (((s.text ++ (e.gen ctx s.text.length).dropLast) ++ _) ++ withWords (stride s2.exprType) tmp.op) ++
    [(storeOp s2.exprType).code] = _
  rw [Expr.gen, duplicated_eq hlast, hemits.type]
  simp only [List.append_assoc]

theorem unit_emits (hexpr : Compiles ctx expr parse) (h : unit ctx expr fuel s = some s') :
    Yields ctx s.text (parseUnit parse fuel s.input) s' := by
  unfold unit at h
  split at h
  case h_14 => exact absurd h (Option.some_ne_none _).symm
  all_goals
    rename_i htok
    simp only [parseUnit, show s.input.token = _ from htok]
  · exact number_emits h
  · exact string_emits h
  · exact sizeOf_emits h
  · exact identifier_emits hexpr h
  · exact parenthesis_emits hexpr h
  · exact dereference_emits hexpr h
  · exact addressOf_emits hexpr h
  · exact not_emits hexpr h
  · exact complement_emits hexpr h
  · exact plus_emits hexpr h
  · exact minus_emits hexpr h
  · exact preIncrement_emits hexpr h
  · exact preIncrement_emits hexpr h

/-! ## The operators -/

variable {t : List Word} {left : Expr}

theorem parseInfix_eq {tk level : Tok} {f : Expr → Expr → Expr} {e : Expr} {i j k : Input} (hi : i.matchTok tk = some j)
    (hparse : parse level j = some (e, k)) : parseInfix parse i left tk level f = some (f left e, k) := by
  simp [parseInfix, hi, hparse]

/-- A token, `words`, and the expression behind them. -/
theorem operand_after (hexpr : Compiles ctx expr parse) {tk level : Tok} {s1 s2 : Lexer} {words : List Word}
    (hm : s.matchTok tk = some s1) (he : expr level (s1.emit words) = some s2) :
    ∃ i e, s.input.matchTok tk = some i ∧ parse level i = some (e, s2.input) ∧ Emits ctx (s.text ++ words) e s2 := by
  obtain ⟨i, hi, rfl⟩ := Lexer.matchTok_eq hm
  obtain ⟨e, hparse, hemits⟩ := hexpr level _ s2 he
  exact ⟨i, e, hi, hparse, hemits⟩

theorem assignment_emits (hexpr : Compiles ctx expr parse) (hleft : Emits ctx t left s)
    (h : assignment expr s = some s') : Yields ctx t (parseInfix parse s.input left .assign .assign .assign) s' := by
  obtain ⟨s1, hm, h⟩ := Option.bind_eq_some_iff.mp h
  obtain ⟨i, hi, rfl⟩ := Lexer.matchTok_eq hm
  obtain ⟨⟨s2, w⟩, hload, h⟩ := Option.bind_eq_some_iff.mp h
  obtain ⟨hends, -, rfl⟩ := Lexer.takeLoad_eq hload hleft.text (Expr.starts hleft.accepted)
  obtain ⟨s3, he, h⟩ := Option.bind_eq_some_iff.mp h
  obtain rfl := Option.some.inj h
  obtain ⟨e, hparse, hemits⟩ := hexpr .assign _ s3 he
  have htext : (t ++ (left.gen ctx t.length).dropLast) ++ [Op.push.code] = t ++ pushed (left.gen ctx t.length) :=
    List.append_assoc ..
  change Emits ctx ((t ++ (left.gen ctx t.length).dropLast) ++ [Op.push.code]) e s3 at hemits
  rw [htext] at hemits
  obtain ⟨htext3, hacc⟩ := hemits.after
  refine ⟨.assign left e, parseInfix_eq hi hparse, ?_, hleft.type, hleft.accepted, hends, hacc⟩
  show s3.text ++ [(storeOp s.exprType).code] = _
  rw [htext3, Expr.gen, hleft.type]
  simp only [List.append_assoc]

theorem binary_emits (hexpr : Compiles ctx expr parse) (hleft : Emits ctx t left s) {op : BinOp}
    (h : binary expr s op = some s') : Yields ctx t (parseBinary parse s.input left op) s' := by
  obtain ⟨s1, hm, h⟩ := Option.bind_eq_some_iff.mp h
  obtain ⟨s2, he, h⟩ := Option.bind_eq_some_iff.mp h
  obtain rfl := Option.some.inj h
  obtain ⟨i, e, hi, hparse, hemits⟩ := operand_after hexpr hm he
  rw [hleft.text, List.append_assoc] at hemits
  obtain ⟨htext, hacc⟩ := hemits.after
  rw [List.length_append, List.length_singleton, ← Nat.add_assoc] at htext hacc
  refine ⟨.binary op left e, parseInfix_eq hi hparse, ?_, ?_, hleft.accepted, hacc⟩
  · show s2.text ++ (op.finish s.exprType s2.exprType).1 = _
    rw [htext, Expr.gen, hleft.type, hemits.type]
    simp only [List.append_assoc]
  · show (op.finish s.exprType s2.exprType).2 = _
    rw [hleft.type, hemits.type]
    rfl

/-- A jump is patched once the words between are known. -/
theorem set_jump {n : Nat} (t c words : List Word) (jump w : Word) (hn : n = t.length + c.length + 1) :
    (t ++ (c ++ [jump, 0] ++ words)).set n w = t ++ (c ++ [jump, w] ++ words) := by
  subst hn
  rw [Nat.add_assoc, List.set_append_right _ _ (Nat.le_add_right _ _), Nat.add_sub_cancel_left, List.append_assoc,
    List.append_assoc, List.set_append_right _ _ (Nat.le_add_right _ _), Nat.add_sub_cancel_left]
  rfl

/-- What is emitted behind the words `cc` and a jump, which begins at `n`. -/
theorem behind_jump (gen : Nat → List Word) (accepted : Nat → Prop) {text t cc : List Word} {jump : Word} {n : Nat}
    (hn : t.length + cc.length + 2 = n)
    (htext : text = (t ++ cc ++ [jump] ++ [0]) ++ gen (t ++ cc ++ [jump] ++ [0]).length)
    (hacc : accepted (t ++ cc ++ [jump] ++ [0]).length) :
    text = t ++ (cc ++ [jump, 0] ++ gen n) ∧ text.length = n + (gen n).length ∧ accepted n := by
  have hlen : (t ++ cc ++ [jump] ++ [0]).length = n := by
    rw [← hn]
    simp only [List.length_append, List.length_singleton]
  rw [hlen] at htext hacc
  refine ⟨by rw [htext]; simp, ?_, hacc⟩
  rw [htext, List.length_append, hlen]

theorem logical_emits (hexpr : Compiles ctx expr parse) (hleft : Emits ctx t left s) {j : Junction}
    (h : logical ctx expr s j = some s') : Yields ctx t (parseLogical parse s.input left j) s' := by
  obtain ⟨s1, hm, h⟩ := Option.bind_eq_some_iff.mp h
  obtain ⟨s2, he, h⟩ := Option.bind_eq_some_iff.mp h
  obtain rfl := Option.some.inj h
  obtain ⟨i, hi, rfl⟩ := Lexer.matchTok_eq hm
  obtain ⟨e, hparse, hemits⟩ := hexpr j.level _ s2 he
  change Emits ctx ((s.text ++ [j.jump.code]) ++ [0]) e s2 at hemits
  rw [hleft.text] at hemits
  obtain ⟨htext, hend, hacc⟩ := behind_jump (e.gen ctx) (e.Accepted ctx) rfl hemits.text hemits.accepted
  have hpatch : (s.text ++ [j.jump.code]).length = t.length + (left.gen ctx t.length).length + 1 := by
    rw [hleft.text, List.length_append, List.length_append]
    rfl
  refine ⟨.logical j left e, parseInfix_eq hi hparse, ?_, rfl, hleft.accepted, hacc⟩
  show s2.text.set (s.text ++ [j.jump.code]).length (ctx.addr s2.text.length) = _
  rw [hend, htext, set_jump _ _ _ _ _ hpatch, Expr.gen]

theorem conditional_emits (hexpr : Compiles ctx expr parse) (hleft : Emits ctx t left s)
    (h : conditional ctx expr s = some s') : Yields ctx t (parseConditional parse s.input left) s' := by
  obtain ⟨s1, hm, h⟩ := Option.bind_eq_some_iff.mp h
  obtain ⟨i, hi, rfl⟩ := Lexer.matchTok_eq hm
  obtain ⟨s2, ha, h⟩ := Option.bind_eq_some_iff.mp h
  obtain ⟨s3, hcolon, h⟩ := Option.bind_eq_some_iff.mp h
  obtain ⟨i3, hi3, rfl⟩ := Lexer.matchTok_eq hcolon
  obtain ⟨s4, hb, h⟩ := Option.bind_eq_some_iff.mp h
  obtain rfl := Option.some.inj h
  obtain ⟨a, hparsea, hemitsa⟩ := hexpr .assign _ s2 ha
  obtain ⟨b, hparseb, hemitsb⟩ := hexpr .cond _ s4 hb
  let cc := left.gen ctx t.length
  let ca := a.gen ctx (t.length + cc.length + 2)
  let els := t.length + cc.length + 2 + ca.length + 2
  change Emits ctx ((s.text ++ [Op.jz.code]) ++ [0]) a s2 at hemitsa
  rw [hleft.text] at hemitsa
  obtain ⟨htexta, hlena, hacca⟩ := behind_jump (a.gen ctx) (a.Accepted ctx) rfl hemitsa.text hemitsa.accepted
  -- the first patch, `JMP` and its word
  have hpatch : (s.text ++ [Op.jz.code]).length = t.length + cc.length + 1 := by
    rw [hleft.text, List.length_append, List.length_append]
    rfl
  have hpatched : s2.text.set (s.text ++ [Op.jz.code]).length (ctx.addr s2.text.length + 8) =
      t ++ (cc ++ [Op.jz.code, ctx.addr els] ++ ca) := by
    rw [ctx.addr_add_two, hlena, htexta, set_jump _ _ _ _ _ hpatch]
  change Emits ctx ((s2.text.set (s.text ++ [Op.jz.code]).length (ctx.addr s2.text.length + 8) ++ [Op.jmp.code]) ++ [0])
    b s4 at hemitsb
  rw [hpatched] at hemitsb
  have hels : t.length + (cc ++ [Op.jz.code, ctx.addr els] ++ ca).length + 2 = els := by
    simp only [List.length_append, List.length_cons, List.length_nil, els]
    omega
  obtain ⟨htextb, hlenb, haccb⟩ := behind_jump (b.gen ctx) (b.Accepted ctx) hels hemitsb.text hemitsb.accepted
  refine ⟨.cond left a b, ?_, ?_, hemitsb.type, hleft.accepted, hacca, haccb⟩
  · change parse .assign i = _ at hparsea
    change parse .cond i3 = _ at hparseb
    simp [parseConditional, hi, hparsea, hi3, hparseb, Lexer.patch]
  · have hpatch' : (s2.text.set (s.text ++ [Op.jz.code]).length (ctx.addr s2.text.length + 8) ++ [Op.jmp.code]).length =
        t.length + (cc ++ [Op.jz.code, ctx.addr els] ++ ca).length + 1 := by
      rw [hpatched, List.length_append, List.length_append]
      rfl
    show s4.text.set (s2.text.set (s.text ++ [Op.jz.code]).length (ctx.addr s2.text.length + 8) ++ [Op.jmp.code]).length
      (ctx.addr s4.text.length) = _
    rw [hlenb, htextb, set_jump _ _ _ _ _ hpatch', Expr.gen]

theorem postIncrement_emits (hleft : Emits ctx t left s) {tmp : IncDec} (h : postIncrement s tmp = some s') :
    Yields ctx t (parsePostIncrement s.input left tmp) s' := by
  obtain ⟨⟨s1, w⟩, hload, h⟩ := Option.bind_eq_some_iff.mp h
  obtain ⟨hends, hlast, rfl⟩ := Lexer.takeLoad_eq hload hleft.text (Expr.starts hleft.accepted)
  obtain ⟨i, hi, rfl⟩ := Lexer.matchTok_eq h
  change s.input.matchTok tmp.tok = some i at hi
  refine ⟨.postIncrement tmp left, by simp [parsePostIncrement, hi], ?_, hleft.type, hleft.accepted, hends⟩
  show ((((t ++ (left.gen ctx t.length).dropLast) ++ _) ++ withWords (stride s.exprType) tmp.op) ++
    [(storeOp s.exprType).code]) ++ withWords (stride s.exprType) tmp.back = _
  rw [Expr.gen, duplicated_eq hlast, hleft.type]
  simp only [List.append_assoc]

theorem bracket_emits (hexpr : Compiles ctx expr parse) (hleft : Emits ctx t left s)
    (h : bracket expr s = some s') : Yields ctx t (parseBracket parse s.input left) s' := by
  obtain ⟨s1, hm, h⟩ := Option.bind_eq_some_iff.mp h
  obtain ⟨s2, he, h⟩ := Option.bind_eq_some_iff.mp h
  obtain ⟨i, e, hi, hparse, hemits⟩ := operand_after hexpr hm he
  rw [hleft.text, List.append_assoc] at hemits
  obtain ⟨htext, hacc⟩ := hemits.after
  rw [List.length_append, List.length_singleton, ← Nat.add_assoc] at htext hacc
  obtain ⟨s3, hm3, h⟩ := Option.bind_eq_some_iff.mp h
  obtain ⟨i3, hi3, rfl⟩ := Lexer.matchTok_eq hm3
  dsimp only at h
  split at h
  · exact absurd h (Option.some_ne_none _).symm
  · obtain rfl := Option.some.inj h
    refine ⟨.bracket left e, by simp [parseBracket, hi, hparse, hi3, Lexer.emit], ?_, congrArg (· - PTR) hleft.type,
      hleft.accepted, hacc⟩
    show s2.text ++ (scaleWords s.exprType ++ [_, (loadOp (s.exprType - PTR)).code]) = _
    rw [htext, Expr.gen, hleft.type]
    simp only [List.append_assoc]

theorem operator_emits (hexpr : Compiles ctx expr parse) (hleft : Emits ctx t left s)
    (h : operator ctx expr s = some s') : Yields ctx t (parseOperator parse s.input left) s' := by
  unfold operator at h
  split at h
  case h_24 => exact absurd h (Option.some_ne_none _).symm
  all_goals
    rename_i htok
    simp only [parseOperator, show s.input.token = _ from htok]
  · exact assignment_emits hexpr hleft h
  · exact conditional_emits hexpr hleft h
  · exact logical_emits hexpr hleft h
  · exact logical_emits hexpr hleft h
  iterate 16 · exact binary_emits hexpr hleft h
  · exact postIncrement_emits hleft h
  · exact postIncrement_emits hleft h
  · exact bracket_emits hexpr hleft h

theorem operators_emits (hexpr : Compiles ctx expr parse) {level : Tok} {n : Nat} (hleft : Emits ctx t left s)
    (h : operators ctx expr level n s = some s') : Yields ctx t (parseOperators parse level n left s.input) s' := by
  induction n generalizing s left with
  | zero => exact absurd h (Option.some_ne_none _).symm
  | succ n ih =>
    rw [operators] at h
    rw [parseOperators]
    split at h
    · next hlevel =>
      rw [if_pos (show s.input.token.code ≥ level.code from hlevel)]
      obtain ⟨s1, hop, h⟩ := Option.bind_eq_some_iff.mp h
      obtain ⟨e, hparse, hemits⟩ := operator_emits hexpr hleft hop
      rw [hparse]
      exact ih hemits h
    · next hlevel =>
      rw [if_neg (show ¬ s.input.token.code ≥ level.code from hlevel)]
      obtain rfl := Option.some.inj h
      exact ⟨left, rfl, hleft⟩

end

/-- `expression` emits the words of the tree of the tokens that it reads. -/
theorem expression_compiles (ctx : Context) (fuel : Nat) :
    Compiles ctx (expression ctx fuel) (parseExpression fuel) := by
  induction fuel with
  | zero => exact fun _ _ _ h => absurd h (Option.some_ne_none _).symm
  | succ fuel ih =>
    intro level s s' h
    obtain ⟨s1, hunit, hops⟩ := Option.bind_eq_some_iff.mp h
    obtain ⟨e, hparse, hemits⟩ := unit_emits ih hunit
    rw [parseExpression, hparse]
    exact operators_emits ih hemits hops

/-! ## The words in memory -/

theorem Context.addr_add (ctx : Context) (n k : Nat) : ctx.addr n + 4 * BitVec.ofNat 32 k = ctx.addr (n + k) := by
  unfold Context.addr
  bv_omega

/-- The text has the words where they were compiled for. -/
def Loaded (ctx : Context) (words : List Word) (text : Word → Word) : Prop :=
  ∀ i (h : i < words.length), text (ctx.addr i) = words[i]

/-- The words emitted behind `t`. -/
theorem Loaded.behind {ctx : Context} {text : Word → Word} {t words : List Word} (h : Loaded ctx (t ++ words) text)
    {i : Nat} (hi : i < words.length) : text (ctx.addr (t.length + i)) = words[i] := by
  have htext := h (t.length + i) (by rw [List.length_append]; omega)
  rw [List.getElem_append_right (Nat.le_add_right _ _)] at htext
  simpa only [Nat.add_sub_cancel_left] using htext

end RetrOS.Interpreter
