import RetrOS.Developer.Tokens

/-!
# The compiler on the text, and the one on its tokens

Where `expression` or `statement` of the text has a result, the one on the tokens of the text has the same.

* `Gets` : the token compiler comes to a state that tracks the given one;
* `Refines` : `expression` on the text and on the tokens;
* `expression_refines`, `statements_gets` : by induction on the depth of the calls.

A name in front of the name of a type has the class that a list of parameters may have given to the keyword, which the
tokens do not know. Nothing accepts such an expression.
-/

namespace RetrOS.Lex
open RetrOS.Interpreter LexerContext

/-- The computation comes to a state that tracks `s`. -/
def Gets (ctx : Context) (s : LexerContext) (o : Option Lexer) : Prop := ∃ l, o = some l ∧ Tracks ctx s l

/-- `expr` on the text does what `run` does on its tokens, unless a type name is behind it. -/
structure Refines (ctx : Context) (expr : Tok → LexerContext → Parsed) (run : Tok → Lexer → Option Lexer) : Prop where
  gets : ∀ {level s s' l}, Tracks ctx s l → expr level s = .ok s' → s'.Plain → Gets ctx s' (run level l)
  starts : ∀ {level s s'}, expr level s = .ok s' → s.Plain

section
variable {ctx : Context} {s s' s₁ : LexerContext} {l : Lexer}

theorem Tracks.gets (h : Tracks ctx s l) : Gets ctx s (some l) := ⟨l, rfl, h⟩

theorem Gets.bind {o : Option Lexer} {f : Lexer → Option Lexer} (h : Gets ctx s o)
    (hf : ∀ l, Tracks ctx s l → Gets ctx s' (f l)) : Gets ctx s' (o >>= f) := by
  obtain ⟨l, rfl, hl⟩ := h
  exact hf l hl

theorem Tracks.gets_matchTok (h : Tracks ctx s l) {tk : Tok} (htk : tk ≠ .eof ∧ tk ≠ .quote)
    (hmatch : s.matchTok tk = .ok s') : Gets ctx s' (l.matchTok tk) := by
  obtain ⟨i, hi, h'⟩ := h.matchTok htk hmatch
  exact ⟨_, congrArg (Option.map _) hi, h'⟩

theorem plain_of_token {tk : Tok} (h : s.token = tk) (htk : tk ≠ .int ∧ tk ≠ .char) : s.Plain := by rwa [Plain, h]

theorem plain_of_match {tk : Tok} (h : s.matchTok tk = .ok s') (htk : tk ≠ .int ∧ tk ≠ .char) : s.Plain :=
  plain_of_token (matchTok_eq h).1 htk

theorem takeLoad_token {error : Nat} {w : Word} (h : s.takeLoad error = .ok (s', w)) : s.token = s'.token := by
  unfold LexerContext.takeLoad at h
  split at h
  · split at h
    · obtain ⟨rfl, -⟩ := Prod.mk.inj (Except.ok.inj h)
      rfl
    · cases h
  · cases h

/-! ## The operands -/

variable {expr : Tok → LexerContext → Parsed} {run : Tok → Lexer → Option Lexer} {fuel : Nat}

theorem number_gets (h : Tracks ctx s l) (hok : number s = .ok s') : Gets ctx s' (Interpreter.number l) := by
  obtain ⟨s₁, hmatch, hok⟩ := eq_ok_of_bind hok
  obtain rfl := Except.ok.inj hok
  refine (h.gets_matchTok (by decide) hmatch).bind fun l₁ h₁ => ?_
  rw [← h₁.shows.tokenVal]
  exact ((h₁.emit _).withType INT).gets

theorem sizeOf_gets (h : Tracks ctx s l) (hok : sizeOf fuel s = .ok s') : Gets ctx s' (Interpreter.sizeOf l) := by
  obtain ⟨s₁, hsizeof, hok⟩ := eq_ok_of_bind hok
  obtain ⟨s₂, hlparen, hok⟩ := eq_ok_of_bind hok
  obtain ⟨⟨type, s₃⟩, htype, hok⟩ := eq_ok_of_bind hok
  obtain ⟨s₄, hrparen, hok⟩ := eq_ok_of_bind hok
  obtain rfl := Except.ok.inj hok
  refine (h.gets_matchTok (by decide) hsizeof).bind fun l₁ h₁ => ?_
  refine (h₁.gets_matchTok (by decide) hlparen).bind fun l₂ h₂ => ?_
  obtain ⟨rfl, h₃⟩ := h₂.typeName htype
  refine (h₃.gets_matchTok (by decide) hrparen).bind fun l₄ h₄ => ?_
  exact ((h₄.emit _).withType INT).gets

theorem arguments_gets (hexpr : Refines ctx expr run) {n tmp tmp' : Nat} (h : Tracks ctx s l)
    (hok : arguments expr n tmp s = .ok (tmp', s')) :
    ∃ l', Interpreter.arguments run n tmp l = some (l', tmp') ∧ Tracks ctx s' l' := by
  induction n generalizing s l tmp with
  | zero => cases hok
  | succ n ih =>
    rw [arguments] at hok
    rw [Interpreter.arguments]
    by_cases hs : s.token = .rparen
    · rw [if_pos hs] at hok
      obtain ⟨rfl, rfl⟩ := Prod.mk.inj (Except.ok.inj hok)
      exact ⟨l, if_pos (h.token.trans hs), h⟩
    · rw [if_neg hs] at hok
      rw [if_neg fun heq => hs (h.token.symm.trans heq)]
      obtain ⟨s₁, hfirst, hok⟩ := eq_ok_of_bind hok
      obtain ⟨s₂, hcomma, hok⟩ := eq_ok_of_bind hok
      -- a type name would be the start of the next argument
      have hplain : s₁.Plain := by
        unfold LexerContext.optional at hcomma
        split at hcomma
        · next heq => exact plain_of_token (s := s₁) heq (by decide)
        · obtain rfl := Except.ok.inj hcomma
          cases n with
          | zero => cases hok
          | succ n =>
            rw [arguments] at hok
            split at hok
            · next heq => exact plain_of_token (s := s₁) heq (by decide)
            · obtain ⟨_, hnext, -⟩ := eq_ok_of_bind hok
              exact hexpr.starts (s := s₁.emit _) hnext
      obtain ⟨l₁, hl₁, h₁⟩ := hexpr.gets h hfirst hplain
      have h₂ := (h₁.emit [Op.push.code]).optional (by decide) hcomma
      obtain ⟨l', hl', h'⟩ := ih h₂ hok
      exact ⟨l', by rw [hl₁]; exact hl', h'⟩

theorem functionCall_gets (hexpr : Refines ctx expr run) (h : Tracks ctx s l) {id : Identifier}
    (hok : functionCall expr fuel s id = .ok s') : Gets ctx s' (Interpreter.functionCall run fuel l id) := by
  obtain ⟨s₁, hlparen, hok⟩ := eq_ok_of_bind hok
  obtain ⟨⟨tmp, s₂⟩, hargs, hok⟩ := eq_ok_of_bind hok
  obtain ⟨s₃, hrparen, hok⟩ := eq_ok_of_bind hok
  refine (h.gets_matchTok (by decide) hlparen).bind fun l₁ h₁ => ?_
  obtain ⟨l₂, hl₂, h₂⟩ := arguments_gets hexpr h₁ hargs
  rw [hl₂]
  refine (h₂.gets_matchTok (by decide) hrparen).bind fun l₃ h₃ => ?_
  cases hf : id.class_.callee with
  | none =>
    rw [hf] at hok
    cases hok
  | some f =>
    rw [hf] at hok
    obtain rfl := Except.ok.inj hok
    exact ((h₃.emit _).withType id.type).gets

theorem variable_gets (h : Tracks ctx s l) {id : Identifier} (hok : variable_ s id = .ok s') :
    Gets ctx s' (Interpreter.variable_ ctx l id) := by
  unfold variable_ at hok
  split at hok
  · next heq =>
    obtain rfl := Except.ok.inj hok
    rw [Interpreter.variable_, heq]
    exact ((h.emit _).withType INT).gets
  · next heq =>
    obtain rfl := Except.ok.inj hok
    rw [Interpreter.variable_, heq, h.indexOfBp]
    exact ((h.emit _).withType id.type).gets
  · next heq =>
    obtain rfl := Except.ok.inj hok
    rw [Interpreter.variable_, heq]
    exact ((h.emit _).withType id.type).gets
  · cases hok

theorem variable_token {id : Identifier} (hok : variable_ s id = .ok s') : s.token = s'.token := by
  unfold variable_ at hok
  split at hok <;> cases hok <;> rfl

/-- A string is read up to its last literal, and `data` moved behind it. -/
theorem string_gets (h : Tracks ctx s l) (hs : s.token = .quote) (hok : string fuel s = .ok s') :
    Gets ctx s' (Interpreter.string l) := by
  obtain ⟨s₁, hmatch, hok⟩ := eq_ok_of_bind hok
  obtain ⟨⟨k, s₂⟩, hskip, hok⟩ := eq_ok_of_bind hok
  obtain rfl := Except.ok.inj hok
  have hl : (l.emit [Op.imm.code, l.input.tokenVal]).matchTok .quote =
      some { l.emit [Op.imm.code, l.input.tokenVal] with input := l.input.next } :=
    congrArg (Option.map _) (if_pos (h.token.trans hs))
  rw [Interpreter.string, hl]
  have h₁ := h.emit [Op.imm.code, l.input.tokenVal]
  rw [h.shows.tokenVal] at h₁
  obtain ⟨hne, h₂⟩ := (h₁.next_quote hs (matchTok_eq hmatch).2).skip_quote hskip
  rw [settle, if_neg hne] at h₂
  rw [h.shows.tokenVal]
  exact (h₂.withType PTR).gets

theorem identifier_gets (hexpr : Refines ctx expr run) (h : Tracks ctx s l) (hok : identifier expr fuel s = .ok s')
    (hplain : s'.Plain) : Gets ctx s' (Interpreter.identifier ctx run fuel l) := by
  obtain ⟨s₁, hmatch, hok⟩ := eq_ok_of_bind hok
  obtain ⟨hid, hnext⟩ := matchTok_eq hmatch
  have hcurrent := h.shows.next_id h.clean hid hnext
  have h₁ := h.next (hid ▸ by decide) (hid ▸ by decide) hnext
  have hl : l.matchTok .id = some { l with input := l.input.next } :=
    congrArg (Option.map _) (if_pos (h.token.trans hid))
  rw [Interpreter.identifier, hl]
  by_cases hparen : s₁.token = .lparen
  · rw [if_pos hparen] at hok
    rw [← hcurrent (plain_of_token hparen (by decide))] at hok
    exact (functionCall_gets hexpr h₁ hok).imp fun l' hl' => ⟨(if_pos (h₁.token.trans hparen)).trans hl'.1, hl'.2⟩
  · rw [if_neg hparen] at hok
    have hsame : s₁.token = s'.token := variable_token hok
    rw [← hcurrent (by rwa [Plain, hsame])] at hok
    exact (variable_gets h₁ hok).imp fun l' hl' =>
      ⟨(if_neg fun heq => hparen (h₁.token.symm.trans heq)).trans hl'.1, hl'.2⟩

theorem parenthesis_gets (hexpr : Refines ctx expr run) (h : Tracks ctx s l)
    (hok : parenthesis expr fuel s = .ok s') (hplain : s'.Plain) : Gets ctx s' (Interpreter.parenthesis run l) := by
  obtain ⟨s₁, hlparen, hok⟩ := eq_ok_of_bind hok
  refine (h.gets_matchTok (by decide) hlparen).bind fun l₁ h₁ => ?_
  rw [h₁.token]
  by_cases htype : s₁.token = .int ∨ s₁.token = .char
  · rw [if_pos htype] at hok ⊢
    obtain ⟨⟨tmp, s₂⟩, hname, hok⟩ := eq_ok_of_bind hok
    obtain ⟨s₃, hrparen, hok⟩ := eq_ok_of_bind hok
    obtain ⟨s₄, he, hok⟩ := eq_ok_of_bind hok
    obtain rfl := Except.ok.inj hok
    obtain ⟨rfl, h₂⟩ := h₁.typeName hname
    refine (h₂.gets_matchTok (by decide) hrparen).bind fun l₃ h₃ => ?_
    refine (hexpr.gets h₃ he hplain).bind fun l₄ h₄ => ?_
    exact (h₄.withType _).gets
  · rw [if_neg htype] at hok ⊢
    obtain ⟨s₂, he, hrparen⟩ := eq_ok_of_bind hok
    refine (hexpr.gets h₁ he (plain_of_match hrparen (by decide))).bind fun l₂ h₂ => ?_
    exact h₂.gets_matchTok (by decide) hrparen

theorem dereference_gets (hexpr : Refines ctx expr run) (h : Tracks ctx s l) (hok : dereference expr s = .ok s')
    (hplain : s'.Plain) : Gets ctx s' (Interpreter.dereference run l) := by
  obtain ⟨s₁, hmatch, hok⟩ := eq_ok_of_bind hok
  obtain ⟨s₂, he, hok⟩ := eq_ok_of_bind hok
  split at hok
  · next hptr =>
    obtain rfl := Except.ok.inj hok
    refine (h.gets_matchTok (by decide) hmatch).bind fun l₁ h₁ => ?_
    refine (hexpr.gets h₁ he hplain).bind fun l₂ h₂ => ?_
    rw [h₂.exprType, if_pos hptr]
    exact ((h₂.emit _).withType _).gets
  · cases hok

theorem addressOf_gets (hexpr : Refines ctx expr run) (h : Tracks ctx s l) (hok : addressOf expr s = .ok s')
    (hplain : s'.Plain) : Gets ctx s' (Interpreter.addressOf run l) := by
  obtain ⟨s₁, hmatch, hok⟩ := eq_ok_of_bind hok
  obtain ⟨s₂, he, hok⟩ := eq_ok_of_bind hok
  obtain ⟨⟨s₃, w⟩, hload, hok⟩ := eq_ok_of_bind hok
  obtain rfl := Except.ok.inj hok
  have hplain₂ : s₂.Plain := plain_of_token (takeLoad_token hload) hplain
  refine (h.gets_matchTok (by decide) hmatch).bind fun l₁ h₁ => ?_
  refine (hexpr.gets h₁ he hplain₂).bind fun l₂ h₂ => ?_
  obtain ⟨l₃, hl₃, h₃⟩ := h₂.takeLoad hload
  rw [hl₃]
  have h₄ := h₃.withType (s₃.exprType + PTR)
  rw [← h₃.exprType] at h₄ ⊢
  exact h₄.gets

/-- An operand behind the first token, and something that is done with it. -/
theorem operand_gets (hexpr : Refines ctx expr run) (h : Tracks ctx s l) {tk level : Tok} {s₂ : LexerContext}
    {f : Lexer → Option Lexer} (htk : tk ≠ .eof ∧ tk ≠ .quote) (hmatch : s.matchTok tk = .ok s₁)
    (he : expr level s₁ = .ok s₂) (hplain : s₂.Plain) (hf : ∀ l₂, Tracks ctx s₂ l₂ → Gets ctx s' (f l₂)) :
    Gets ctx s' (l.matchTok tk >>= fun l₁ => run level l₁ >>= f) :=
  (h.gets_matchTok htk hmatch).bind fun _ h₁ => (hexpr.gets h₁ he hplain).bind hf

theorem not_gets (hexpr : Refines ctx expr run) (h : Tracks ctx s l) (hok : not expr s = .ok s')
    (hplain : s'.Plain) : Gets ctx s' (Interpreter.not run l) := by
  obtain ⟨s₁, hmatch, hok⟩ := eq_ok_of_bind hok
  obtain ⟨s₂, he, hok⟩ := eq_ok_of_bind hok
  obtain rfl := Except.ok.inj hok
  exact operand_gets hexpr h (by decide) hmatch he hplain fun l₂ h₂ => ((h₂.emitWith 0 .eq).withType INT).gets

theorem complement_gets (hexpr : Refines ctx expr run) (h : Tracks ctx s l) (hok : complement expr s = .ok s')
    (hplain : s'.Plain) : Gets ctx s' (Interpreter.complement run l) := by
  obtain ⟨s₁, hmatch, hok⟩ := eq_ok_of_bind hok
  obtain ⟨s₂, he, hok⟩ := eq_ok_of_bind hok
  obtain rfl := Except.ok.inj hok
  exact operand_gets hexpr h (by decide) hmatch he hplain fun l₂ h₂ => ((h₂.emitWith (-1) .xor).withType INT).gets

theorem plus_gets (hexpr : Refines ctx expr run) (h : Tracks ctx s l) (hok : plus expr s = .ok s')
    (hplain : s'.Plain) : Gets ctx s' (Interpreter.plus run l) := by
  obtain ⟨s₁, hmatch, hok⟩ := eq_ok_of_bind hok
  obtain ⟨s₂, he, hok⟩ := eq_ok_of_bind hok
  obtain rfl := Except.ok.inj hok
  exact operand_gets hexpr h (by decide) hmatch he hplain fun l₂ h₂ => (h₂.withType INT).gets

theorem minus_gets (hexpr : Refines ctx expr run) (h : Tracks ctx s l) (hok : minus expr s = .ok s')
    (hplain : s'.Plain) : Gets ctx s' (Interpreter.minus run l) := by
  obtain ⟨s₁, hmatch, hok⟩ := eq_ok_of_bind hok
  refine (h.gets_matchTok (by decide) hmatch).bind fun l₁ h₁ => ?_
  rw [h₁.token]
  by_cases hnum : s₁.token = .num
  · rw [if_pos hnum] at hok ⊢
    obtain ⟨s₂, hmatch₂, hok⟩ := eq_ok_of_bind hok
    obtain rfl := Except.ok.inj hok
    rw [h₁.shows.tokenVal]
    exact ((h₁.emit _).gets_matchTok (by decide) hmatch₂).bind fun l₂ h₂ => (h₂.withType INT).gets
  · rw [if_neg hnum] at hok ⊢
    obtain ⟨s₂, he, hok⟩ := eq_ok_of_bind hok
    obtain rfl := Except.ok.inj hok
    exact (hexpr.gets (h₁.emit _) he hplain).bind fun l₂ h₂ => ((h₂.emit _).withType INT).gets

theorem incDec_token (tmp : IncDec) : tmp.tok ≠ .eof ∧ tmp.tok ≠ .quote := by cases tmp <;> decide

theorem preIncrement_gets (hexpr : Refines ctx expr run) (h : Tracks ctx s l) {tmp : IncDec}
    (hok : preIncrement expr s tmp = .ok s') (hplain : s'.Plain) : Gets ctx s' (Interpreter.preIncrement run l tmp) := by
  obtain ⟨s₁, hmatch, hok⟩ := eq_ok_of_bind hok
  obtain ⟨s₂, he, hok⟩ := eq_ok_of_bind hok
  obtain ⟨⟨s₃, w⟩, hload, hok⟩ := eq_ok_of_bind hok
  obtain rfl := Except.ok.inj hok
  refine operand_gets hexpr h (incDec_token tmp) hmatch he (plain_of_token (takeLoad_token hload) hplain) fun l₂ h₂ => ?_
  obtain ⟨l₃, hl₃, h₃⟩ := h₂.takeLoad hload
  rw [hl₃]
  show Gets ctx _ (some (((l₃.emit [Op.push.code, w]).emitWith (stride l₃.exprType) tmp.op).emit
    [(storeOp l₃.exprType).code]))
  rw [h₃.exprType]
  exact (((h₃.emit _).emitWith _ tmp.op).emit _).gets

/-- The first block of `expression` accepts no type name. -/
theorem unit_plain (hok : unit expr fuel s = .ok s') : s.Plain := by
  constructor <;> intro hs <;> rw [unit, hs] at hok <;> cases hok

theorem unit_gets (hexpr : Refines ctx expr run) (h : Tracks ctx s l) (hok : unit expr fuel s = .ok s')
    (hplain : s'.Plain) : Gets ctx s' (Interpreter.unit ctx run fuel l) := by
  unfold unit at hok
  unfold Interpreter.unit
  rw [h.token]
  split at hok
  · cases hok
  · next hs => rw [hs]; exact number_gets h hok
  · next hs => rw [hs]; exact string_gets h hs hok
  · next hs => rw [hs]; exact sizeOf_gets h hok
  · next hs => rw [hs]; exact identifier_gets hexpr h hok hplain
  · next hs => rw [hs]; exact parenthesis_gets hexpr h hok hplain
  · next hs => rw [hs]; exact dereference_gets hexpr h hok hplain
  · next hs => rw [hs]; exact addressOf_gets hexpr h hok hplain
  · next hs => rw [hs]; exact not_gets hexpr h hok hplain
  · next hs => rw [hs]; exact complement_gets hexpr h hok hplain
  · next hs => rw [hs]; exact plus_gets hexpr h hok hplain
  · next hs => rw [hs]; exact minus_gets hexpr h hok hplain
  · next hs => rw [hs]; exact preIncrement_gets hexpr h hok hplain
  · next hs => rw [hs]; exact preIncrement_gets hexpr h hok hplain
  · cases hok

/-! ## The operators -/

theorem assignment_gets (hexpr : Refines ctx expr run) (h : Tracks ctx s l) (hok : assignment expr s = .ok s')
    (hplain : s'.Plain) : Gets ctx s' (Interpreter.assignment run l) := by
  obtain ⟨s₁, hmatch, hok⟩ := eq_ok_of_bind hok
  obtain ⟨⟨s₂, w⟩, hload, hok⟩ := eq_ok_of_bind hok
  obtain ⟨s₃, he, hok⟩ := eq_ok_of_bind hok
  obtain rfl := Except.ok.inj hok
  refine (h.gets_matchTok (by decide) hmatch).bind fun l₁ h₁ => ?_
  obtain ⟨l₂, hl₂, h₂⟩ := h₁.takeLoad hload
  rw [hl₂]
  refine (hexpr.gets (h₂.emit _) he hplain).bind fun l₃ h₃ => ?_
  rw [h.exprType]
  exact ((h₃.emit _).withType _).gets

theorem logical_gets (hexpr : Refines ctx expr run) (h : Tracks ctx s l) {j : Junction}
    (hok : logical expr s j = .ok s') (hplain : s'.Plain) : Gets ctx s' (Interpreter.logical ctx run l j) := by
  obtain ⟨s₁, hmatch, hok⟩ := eq_ok_of_bind hok
  obtain ⟨s₂, he, hok⟩ := eq_ok_of_bind hok
  obtain rfl := Except.ok.inj hok
  have htk : j.tok ≠ .eof ∧ j.tok ≠ .quote := by cases j <;> decide
  refine (h.gets_matchTok htk hmatch).bind fun l₁ h₁ => ?_
  have h₂ := h₁.emit [j.jump.code]
  refine (hexpr.gets (h₂.emit [0]) he hplain).bind fun l₂ h₃ => ?_
  rw [h₃.here, h₂.text]
  exact ((h₃.patch _ _).withType INT).gets

theorem conditional_gets (hexpr : Refines ctx expr run) (h : Tracks ctx s l) (hok : conditional expr s = .ok s')
    (hplain : s'.Plain) : Gets ctx s' (Interpreter.conditional ctx run l) := by
  obtain ⟨s₁, hmatch, hok⟩ := eq_ok_of_bind hok
  obtain ⟨s₂, he, hok⟩ := eq_ok_of_bind hok
  split at hok
  · next hcolon =>
    obtain ⟨s₃, hmatch₃, hok⟩ := eq_ok_of_bind hok
    obtain ⟨s₄, he₄, hok⟩ := eq_ok_of_bind hok
    obtain rfl := Except.ok.inj hok
    refine (h.gets_matchTok (by decide) hmatch).bind fun l₁ h₁ => ?_
    have hjz := h₁.emit [Op.jz.code]
    refine (hexpr.gets (hjz.emit [0]) he (plain_of_token hcolon (by decide))).bind fun l₂ h₂ => ?_
    refine (h₂.gets_matchTok (by decide) hmatch₃).bind fun l₃ h₃ => ?_
    rw [h₃.here, hjz.text]
    have hjmp := (h₃.patch (s₁.emit [Op.jz.code]).text.length (s₃.here + 8)).emit [Op.jmp.code]
    refine (hexpr.gets (hjmp.emit [0]) he₄ hplain).bind fun l₄ h₄ => ?_
    rw [h₄.here, hjmp.text]
    exact (h₄.patch _ _).gets
  · cases hok

theorem binary_gets (hexpr : Refines ctx expr run) (h : Tracks ctx s l) {op : BinOp} (hok : binary expr s op = .ok s')
    (hplain : s'.Plain) : Gets ctx s' (Interpreter.binary run l op) := by
  obtain ⟨s₁, hmatch, hok⟩ := eq_ok_of_bind hok
  obtain ⟨s₂, he, hok⟩ := eq_ok_of_bind hok
  obtain rfl := Except.ok.inj hok
  have htk : op.tok ≠ .eof ∧ op.tok ≠ .quote := by cases op <;> decide
  refine (h.gets_matchTok htk hmatch).bind fun l₁ h₁ => ?_
  refine (hexpr.gets (h₁.emit _) he hplain).bind fun l₂ h₂ => ?_
  rw [h.exprType, h₂.exprType]
  exact ((h₂.emit _).withType _).gets

theorem postIncrement_gets (h : Tracks ctx s l) {tmp : IncDec} (hok : postIncrement s tmp = .ok s') :
    Gets ctx s' (Interpreter.postIncrement l tmp) := by
  obtain ⟨⟨s₁, w⟩, hload, hmatch⟩ := eq_ok_of_bind hok
  obtain ⟨l₁, hl₁, h₁⟩ := h.takeLoad hload
  rw [Interpreter.postIncrement, hl₁]
  show Gets ctx s' ((((((l₁.emit [Op.push.code, w]).emitWith (stride l₁.exprType) tmp.op).emit
    [(storeOp l₁.exprType).code]).emitWith (stride l₁.exprType) tmp.back)).matchTok tmp.tok)
  rw [h₁.exprType]
  exact ((((h₁.emit _).emitWith _ tmp.op).emit _).emitWith _ tmp.back).gets_matchTok (incDec_token tmp) hmatch

theorem bracket_gets (hexpr : Refines ctx expr run) (h : Tracks ctx s l) (hok : bracket expr s = .ok s') :
    Gets ctx s' (Interpreter.bracket run l) := by
  obtain ⟨s₁, hmatch, hok⟩ := eq_ok_of_bind hok
  obtain ⟨s₂, he, hok⟩ := eq_ok_of_bind hok
  obtain ⟨s₃, hrbrack, hok⟩ := eq_ok_of_bind hok
  split at hok
  · cases hok
  · next hptr =>
    obtain rfl := Except.ok.inj hok
    refine (h.gets_matchTok (by decide) hmatch).bind fun l₁ h₁ => ?_
    refine (hexpr.gets (h₁.emit _) he (plain_of_match hrbrack (by decide))).bind fun l₂ h₂ => ?_
    refine (h₂.gets_matchTok (by decide) hrbrack).bind fun l₃ h₃ => ?_
    rw [h.exprType, if_neg hptr]
    exact ((h₃.emit _).withType _).gets

theorem operator_plain (hok : operator expr s = .ok s') : s.Plain := by
  constructor <;> intro hs <;> rw [operator, hs] at hok <;> cases hok

theorem operator_gets (hexpr : Refines ctx expr run) (h : Tracks ctx s l) (hok : operator expr s = .ok s')
    (hplain : s'.Plain) : Gets ctx s' (Interpreter.operator ctx run l) := by
  unfold operator at hok
  split at hok
  · next hs => rw [Interpreter.operator, h.token, hs]; exact assignment_gets hexpr h hok hplain
  · next hs => rw [Interpreter.operator, h.token, hs]; exact conditional_gets hexpr h hok hplain
  · next hs => rw [Interpreter.operator, h.token, hs]; exact logical_gets hexpr h hok hplain
  · next hs => rw [Interpreter.operator, h.token, hs]; exact logical_gets hexpr h hok hplain
  · next hs => rw [Interpreter.operator, h.token, hs]; exact binary_gets hexpr h hok hplain
  · next hs => rw [Interpreter.operator, h.token, hs]; exact binary_gets hexpr h hok hplain
  · next hs => rw [Interpreter.operator, h.token, hs]; exact binary_gets hexpr h hok hplain
  · next hs => rw [Interpreter.operator, h.token, hs]; exact binary_gets hexpr h hok hplain
  · next hs => rw [Interpreter.operator, h.token, hs]; exact binary_gets hexpr h hok hplain
  · next hs => rw [Interpreter.operator, h.token, hs]; exact binary_gets hexpr h hok hplain
  · next hs => rw [Interpreter.operator, h.token, hs]; exact binary_gets hexpr h hok hplain
  · next hs => rw [Interpreter.operator, h.token, hs]; exact binary_gets hexpr h hok hplain
  · next hs => rw [Interpreter.operator, h.token, hs]; exact binary_gets hexpr h hok hplain
  · next hs => rw [Interpreter.operator, h.token, hs]; exact binary_gets hexpr h hok hplain
  · next hs => rw [Interpreter.operator, h.token, hs]; exact binary_gets hexpr h hok hplain
  · next hs => rw [Interpreter.operator, h.token, hs]; exact binary_gets hexpr h hok hplain
  · next hs => rw [Interpreter.operator, h.token, hs]; exact binary_gets hexpr h hok hplain
  · next hs => rw [Interpreter.operator, h.token, hs]; exact binary_gets hexpr h hok hplain
  · next hs => rw [Interpreter.operator, h.token, hs]; exact binary_gets hexpr h hok hplain
  · next hs => rw [Interpreter.operator, h.token, hs]; exact binary_gets hexpr h hok hplain
  · next hs => rw [Interpreter.operator, h.token, hs]; exact postIncrement_gets h hok
  · next hs => rw [Interpreter.operator, h.token, hs]; exact postIncrement_gets h hok
  · next hs => rw [Interpreter.operator, h.token, hs]; exact bracket_gets hexpr h hok
  · cases hok

/-- In front of the operators is the end, or an operator. -/
theorem operators_plain {level : Tok} {n : Nat} (hok : operators expr level n s = .ok s') (hplain : s'.Plain) :
    s.Plain := by
  cases n with
  | zero => cases hok
  | succ n =>
    rw [operators] at hok
    split at hok
    · obtain ⟨_, hnext, -⟩ := eq_ok_of_bind hok
      exact operator_plain hnext
    · obtain rfl := Except.ok.inj hok
      exact hplain

theorem operators_gets (hexpr : Refines ctx expr run) {level : Tok} {n : Nat} (h : Tracks ctx s l)
    (hok : operators expr level n s = .ok s') (hplain : s'.Plain) :
    Gets ctx s' (Interpreter.operators ctx run level n l) := by
  induction n generalizing s l with
  | zero => cases hok
  | succ n ih =>
    rw [operators] at hok
    rw [Interpreter.operators, h.token]
    split at hok
    · next hlevel =>
      rw [if_pos hlevel]
      obtain ⟨s₁, hop, hok⟩ := eq_ok_of_bind hok
      exact Gets.bind (operator_gets hexpr h hop (operators_plain hok hplain)) fun l₁ h₁ => ih h₁ hok
    · next hlevel =>
      obtain rfl := Except.ok.inj hok
      rw [if_neg hlevel]
      exact h.gets

end

theorem expression_refines (ctx : Context) (fuel : Nat) :
    Refines ctx (expression fuel) (Interpreter.expression ctx fuel) := by
  induction fuel with
  | zero => refine ⟨fun {_ _ _ _} _ hok _ => ?_, fun {_ _ _} hok => ?_⟩ <;> cases hok
  | succ fuel ih =>
    refine ⟨fun {level s s' l} h hok hplain => ?_, fun {level s s'} hok => ?_⟩
    · obtain ⟨s₁, hunit, hok⟩ := eq_ok_of_bind hok
      exact Gets.bind (unit_gets ih h hunit (operators_plain hok hplain)) fun l₁ h₁ => operators_gets ih h₁ hok hplain
    · obtain ⟨s₁, hunit, -⟩ := eq_ok_of_bind hok
      exact unit_plain hunit

/-! ## Statements -/

section
variable {ctx : Context} {s s' : LexerContext} {l : Lexer} {expr : Tok → LexerContext → Parsed}
  {run : Tok → Lexer → Option Lexer} {stmt : LexerContext → Parsed} {runStmt : Lexer → Option Lexer}

/-- `statement` on the text and on the tokens. -/
def StmtRefines (ctx : Context) (stmt : LexerContext → Parsed) (run : Lexer → Option Lexer) : Prop :=
  ∀ {s s' l}, Tracks ctx s l → stmt s = .ok s' → Gets ctx s' (run l)

theorem condition_gets (hexpr : Refines ctx expr run) (h : Tracks ctx s l) (hok : condition (expr .assign) s = .ok s') :
    Gets ctx s' (Interpreter.condition (run .assign) l) := by
  obtain ⟨s₁, hlparen, hok⟩ := eq_ok_of_bind hok
  obtain ⟨s₂, he, hrparen⟩ := eq_ok_of_bind hok
  exact operand_gets hexpr h (by decide) hlparen he (plain_of_match hrparen (by decide)) fun l₂ h₂ =>
    h₂.gets_matchTok (by decide) hrparen

theorem ifStatement_gets (hexpr : Refines ctx expr run) (hstmt : StmtRefines ctx stmt runStmt) (h : Tracks ctx s l)
    (hok : ifStatement (expr .assign) stmt s = .ok s') :
    Gets ctx s' (Interpreter.ifStatement ctx (run .assign) runStmt l) := by
  obtain ⟨s₁, hif, hok⟩ := eq_ok_of_bind hok
  obtain ⟨s₂, hcondition, hok⟩ := eq_ok_of_bind hok
  obtain ⟨s₃, hthen, hok⟩ := eq_ok_of_bind hok
  refine (h.gets_matchTok (by decide) hif).bind fun l₁ h₁ => ?_
  refine (condition_gets hexpr h₁ hcondition).bind fun l₂ h₂ => ?_
  have hjz := h₂.emit [Op.jz.code]
  refine (hstmt (hjz.emit [0]) hthen).bind fun l₃ h₃ => ?_
  rw [h₃.token]
  split at hok
  · next helse =>
    rw [if_pos helse]
    obtain ⟨s₄, hmatch, hok⟩ := eq_ok_of_bind hok
    obtain ⟨s₅, hbranch, hok⟩ := eq_ok_of_bind hok
    obtain rfl := Except.ok.inj hok
    refine (h₃.gets_matchTok (by decide) hmatch).bind fun l₄ h₄ => ?_
    rw [h₄.here, hjz.text]
    have hjmp := (h₄.patch (s₂.emit [Op.jz.code]).text.length (s₄.here + 8)).emit [Op.jmp.code]
    refine (hstmt (hjmp.emit [0]) hbranch).bind fun l₅ h₅ => ?_
    rw [h₅.here, hjmp.text]
    exact (h₅.patch _ _).gets
  · next helse =>
    obtain rfl := Except.ok.inj hok
    rw [if_neg helse, h₃.here, hjz.text]
    exact (h₃.patch _ _).gets

theorem whileStatement_gets (hexpr : Refines ctx expr run) (hstmt : StmtRefines ctx stmt runStmt) (h : Tracks ctx s l)
    (hok : whileStatement (expr .assign) stmt s = .ok s') :
    Gets ctx s' (Interpreter.whileStatement ctx (run .assign) runStmt l) := by
  obtain ⟨s₁, hwhile, hok⟩ := eq_ok_of_bind hok
  obtain ⟨s₂, hcondition, hok⟩ := eq_ok_of_bind hok
  obtain ⟨s₃, hbody, hok⟩ := eq_ok_of_bind hok
  obtain rfl := Except.ok.inj hok
  refine (h.gets_matchTok (by decide) hwhile).bind fun l₁ h₁ => ?_
  refine (condition_gets hexpr h₁ hcondition).bind fun l₂ h₂ => ?_
  have hjz := h₂.emit [Op.jz.code]
  refine (hstmt (hjz.emit [0]) hbody).bind fun l₃ h₃ => ?_
  have hjmp := h₃.emit [Op.jmp.code, s₁.here]
  dsimp only
  rw [h₁.here, hjmp.here, hjz.text]
  exact (hjmp.patch _ _).gets

theorem statements_gets (hstmt : StmtRefines ctx stmt runStmt) {n m : Nat} (hm : n ≤ m) (h : Tracks ctx s l)
    (hok : statements stmt n s = .ok s') : Gets ctx s' (Interpreter.statements runStmt m l) := by
  induction n generalizing s l m with
  | zero => cases hok
  | succ n ih =>
    obtain ⟨m, rfl⟩ : ∃ k, m = k + 1 := ⟨m - 1, by omega⟩
    rw [statements] at hok
    rw [Interpreter.statements, h.token]
    split at hok
    · next hs =>
      obtain rfl := Except.ok.inj hok
      rw [if_pos hs]
      exact h.gets
    · next hs =>
      rw [if_neg hs]
      obtain ⟨s₁, hfirst, hok⟩ := eq_ok_of_bind hok
      exact Gets.bind (hstmt h hfirst) fun l₁ h₁ => ih (Nat.le_of_succ_le_succ hm) h₁ hok

theorem blockStatement_gets (hstmt : StmtRefines ctx stmt runStmt) {n m : Nat} (hm : n ≤ m) (h : Tracks ctx s l)
    (hok : blockStatement stmt s n = .ok s') : Gets ctx s' (Interpreter.blockStatement runStmt l m) := by
  obtain ⟨s₁, hlbrace, hok⟩ := eq_ok_of_bind hok
  obtain ⟨s₂, hbody, hrbrace⟩ := eq_ok_of_bind hok
  refine (h.gets_matchTok (by decide) hlbrace).bind fun l₁ h₁ => ?_
  exact (statements_gets hstmt hm h₁ hbody).bind fun l₂ h₂ => h₂.gets_matchTok (by decide) hrbrace

theorem returnStatement_gets (hexpr : Refines ctx expr run) (h : Tracks ctx s l)
    (hok : returnStatement (expr .assign) s = .ok s') :
    Gets ctx s' (Interpreter.returnStatement (run .assign) l) := by
  have hlast {s₂ : LexerContext} {l₂ : Lexer} (h₂ : Tracks ctx s₂ l₂)
      (hok : (s₂.matchTok .semicolon >>= fun s => pure (s.emit [Op.lev.code])) = .ok s') :
      Gets ctx s' (l₂.matchTok .semicolon >>= fun l => some (l.emit [Op.lev.code])) := by
    obtain ⟨s₃, hsemicolon, hok⟩ := eq_ok_of_bind hok
    obtain rfl := Except.ok.inj hok
    exact (h₂.gets_matchTok (by decide) hsemicolon).bind fun l₃ h₃ => (h₃.emit _).gets
  obtain ⟨s₁, hreturn, hok⟩ := eq_ok_of_bind hok
  refine (h.gets_matchTok (by decide) hreturn).bind fun l₁ h₁ => ?_
  rw [Interpreter.returnValue, h₁.token]
  split at hok
  · next hs =>
    rw [if_pos hs]
    obtain ⟨s₂, he, hok⟩ := eq_ok_of_bind hok
    obtain ⟨s₃, hsemicolon, -⟩ := eq_ok_of_bind hok
    exact (hexpr.gets h₁ he (plain_of_match hsemicolon (by decide))).bind fun l₂ h₂ => hlast h₂ hok
  · next hs =>
    rw [if_neg hs]
    exact hlast h₁ hok

theorem expressionStatement_gets (hexpr : Refines ctx expr run) (h : Tracks ctx s l)
    (hok : expressionStatement (expr .assign) s = .ok s') :
    Gets ctx s' (Interpreter.expressionStatement (run .assign) l) := by
  obtain ⟨s₁, he, hsemicolon⟩ := eq_ok_of_bind hok
  exact (hexpr.gets h he (plain_of_match hsemicolon (by decide))).bind fun l₁ h₁ =>
    h₁.gets_matchTok (by decide) hsemicolon

end

/-- The calls of `statement` on the tokens are one deeper: their expressions have the depth that is left. -/
theorem statement_refines (ctx : Context) (fuel : Nat) :
    StmtRefines ctx (statement fuel) (Interpreter.statement ctx (fuel + 1)) := by
  induction fuel with
  | zero => intro s s' l h hok; cases hok
  | succ fuel ih =>
    intro s s' l h hok
    have hexpr := expression_refines ctx (fuel + 1)
    unfold statement at hok
    split at hok
    · next hs => rw [Interpreter.statement, h.token, hs]; exact ifStatement_gets hexpr ih h hok
    · next hs => rw [Interpreter.statement, h.token, hs]; exact whileStatement_gets hexpr ih h hok
    · next hs => rw [Interpreter.statement, h.token, hs]; exact blockStatement_gets ih (Nat.le_succ fuel) h hok
    · next hs => rw [Interpreter.statement, h.token, hs]; exact returnStatement_gets hexpr h hok
    · next hs => rw [Interpreter.statement, h.token, hs]; exact h.gets_matchTok (by decide) hok
    · next hif hwhile hlbrace hreturn hsemicolon =>
      have hlast := expressionStatement_gets hexpr h hok
      rw [Interpreter.statement, h.token]
      generalize s.token = tk at hif hwhile hlbrace hreturn hsemicolon
      cases tk <;> first | exact hlast | contradiction

end RetrOS.Lex
