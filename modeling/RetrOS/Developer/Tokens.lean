import RetrOS.Developer.Scan
import RetrOS.Lib.Outcome

/-!
# The tokens of a source text

`Interpreter.Lexer` is given its tokens, `LexerContext` reads them from the text. Between two declarations the table of
symbols only gets new names, so the tokens of the rest of the text are known beforehand.

* `tokens` : the tokens from the current one on, with what `next` sets at each of them;
* `next_enters` : what a call of `next` does;
* `Tracks` : the two compilers are at the same token, and have emitted the same words;
* `Tracks.matchTok`, `Tracks.emit` : what both do to keep step.

`string` moves `data` to a word behind a string, one token after it has been read; `settle` does it with that token.
-/

namespace RetrOS.Lex
open RetrOS.Interpreter

namespace LexerContext

/-- `data` moved to a word, unless the string goes on. -/
def settle (s : LexerContext) : LexerContext :=
  if s.token = .quote then s else { s with data := (s.data + 4) &&& -4 }

/-- `next`, and the end of a string. -/
def pass (s : LexerContext) : Parsed := do
  let s' ← s.next
  return if s.token = .quote then s'.settle else s'

/-- The token that has been read, with what `next` has set. -/
def lexeme (s : LexerContext) : Lexeme :=
  match s.token with
  | .num => .num s.tokenVal
  | .quote => .string s.tokenVal
  | .id => .id s.current
  | t => .tok t

theorem left_settle (s : LexerContext) : s.settle.left = s.left := by
  unfold settle
  split <;> rfl

theorem left_pass {s s' : LexerContext} (hs : s.token ≠ .eof) (h : s.pass = .ok s') : s'.left < s.left := by
  unfold pass at h
  cases hn : s.next with
  | error e =>
    rw [hn] at h
    cases h
  | ok s₁ =>
    rw [hn] at h
    cases h
    have hreads := s.reads_nextFrom s.src
    rw [next] at hn
    rw [hn] at hreads
    have hle := hreads.left_le
    have hleft : s.left = s.src.length + 1 := by rw [left, if_neg hs]
    split
    · rw [left_settle]
      omega
    · omega

/-- The tokens from the current one on; none behind a literal that is not closed. -/
def tokens (s : LexerContext) : List Lexeme :=
  if _hs : s.token = .eof then []
  else s.lexeme :: match _h : s.pass with
    | .ok s' => tokens s'
    | .error _ => []
termination_by s.left
decreasing_by exact left_pass _hs _h

theorem tokens_eof {s : LexerContext} (hs : s.token = .eof) : s.tokens = [] := by rw [tokens, dif_pos hs]

theorem tokens_pass {s s' : LexerContext} (hs : s.token ≠ .eof) (h : s.pass = .ok s') :
    s.tokens = s.lexeme :: s'.tokens := by
  rw [tokens, dif_neg hs]
  split
  · next h' =>
    rw [h] at h'
    cases h'
    rfl
  · next h' =>
    rw [h] at h'
    cases h'

theorem tokens_error {s : LexerContext} {e : Stop} (hs : s.token ≠ .eof) (h : s.pass = .error e) :
    s.tokens = [s.lexeme] := by
  rw [tokens, dif_neg hs]
  split
  · next h' =>
    rw [h] at h'
    cases h'
  · rfl

theorem tokens_cons {s : LexerContext} (hs : s.token ≠ .eof) : ∃ rest, s.tokens = s.lexeme :: rest := by
  rw [tokens, dif_neg hs]
  exact ⟨_, rfl⟩

/-! ## What the compiler emits -/

/-- Other words and another type. -/
def withText (s : LexerContext) (text : List Word) (exprType : Nat) : LexerContext := { s with text, exprType }

section
variable (s : LexerContext) (text : List Word) (exprType : Nat)

theorem identifier_withText (src : List UInt8) :
    (s.withText text exprType).identifier src = (s.identifier src).map (·.withText text exprType) := by
  unfold identifier
  have hsymbols : (s.withText text exprType).symbols = s.symbols := rfl
  rw [hsymbols]
  cases s.symbols.findIdx? fun y => matchesName src y.hash y.name with
  | some k => rfl
  | none =>
    by_cases hroom : s.symbols.length < lexMaxSymbols
    · simp only [if_pos hroom]
      rfl
    · simp only [if_neg hroom]
      rfl

theorem storeData_withText (chars : List Word) :
    (s.withText text exprType).storeData chars = (s.storeData chars).withText text exprType := by
  unfold storeData
  induction chars generalizing s with
  | nil => rfl
  | cons v chars ih => exact ih { s with mem := s.mem.storeChar s.data v, data := s.data + 1 }

theorem literal_withText (quote : UInt8) (rest : List UInt8) :
    (s.withText text exprType).literal quote rest = (s.literal quote rest).map (·.withText text exprType) := by
  unfold literal
  cases readLiteral quote rest with
  | none => rfl
  | some out =>
    by_cases hquote : quote = 34
    · simp only [if_pos hquote, storeData_withText]
      rfl
    · simp only [if_neg hquote]
      rfl

theorem nextFrom_withText (src : List UInt8) :
    (s.withText text exprType).nextFrom src = (s.nextFrom src).map (·.withText text exprType) := by
  induction src using nextFrom.induct with
  | case1 =>
    rw [nextFrom, nextFrom]
    rfl
  | case2 c rest hcomment ih => rw [nextFrom, nextFrom, if_pos hcomment, if_pos hcomment, ih]
  | case3 c rest hcomment hletter =>
    rw [nextFrom, nextFrom, if_neg hcomment, if_neg hcomment, if_pos hletter, if_pos hletter, identifier_withText]
  | case4 c rest hcomment hletter hdigit =>
    rw [nextFrom, nextFrom, if_neg hcomment, if_neg hcomment, if_neg hletter, if_neg hletter, if_pos hdigit,
      if_pos hdigit]
    rfl
  | case5 c rest hcomment hletter hdigit hquote =>
    rw [nextFrom, nextFrom, if_neg hcomment, if_neg hcomment, if_neg hletter, if_neg hletter, if_neg hdigit,
      if_neg hdigit, if_pos hquote, if_pos hquote, literal_withText]
  | case6 c rest hcomment hletter hdigit hquote token rest' hop =>
    rw [nextFrom, nextFrom, if_neg hcomment, if_neg hcomment, if_neg hletter, if_neg hletter, if_neg hdigit,
      if_neg hdigit, if_neg hquote, if_neg hquote, hop]
    rfl
  | case7 c rest hcomment hletter hdigit hquote hop ih =>
    rw [nextFrom, nextFrom, if_neg hcomment, if_neg hcomment, if_neg hletter, if_neg hletter, if_neg hdigit,
      if_neg hdigit, if_neg hquote, if_neg hquote, hop, ih]

theorem pass_withText : (s.withText text exprType).pass = s.pass.map (·.withText text exprType) := by
  unfold pass
  rw [next, show (s.withText text exprType).src = s.src from rfl, nextFrom_withText, next]
  cases s.nextFrom s.src with
  | error e => rfl
  | ok s' =>
    show Except.ok (if s.token = .quote then (s'.withText text exprType).settle else _) =
      Except.ok ((if s.token = .quote then _ else s').withText text exprType)
    by_cases hs : s.token = .quote
    · rw [if_pos hs, if_pos hs, settle, settle]
      by_cases hs' : s'.token = .quote
      · rw [if_pos hs', if_pos (show (s'.withText text exprType).token = .quote from hs')]
      · rw [if_neg hs', if_neg (show ¬(s'.withText text exprType).token = .quote from hs')]
        rfl
    · rw [if_neg hs, if_neg hs]

end

/-- What has been emitted does not matter to the tokens. -/
theorem tokens_withText (text : List Word) (exprType : Nat) (s : LexerContext) :
    (s.withText text exprType).tokens = s.tokens := by
  induction s using tokens.induct with
  | case1 s hs => rw [tokens_eof hs, tokens_eof (show (s.withText text exprType).token = .eof from hs)]
  | case2 s hs ih =>
    cases h : s.pass with
    | ok s' =>
      have h' : (s.withText text exprType).pass = .ok (s'.withText text exprType) := by
        rw [pass_withText, h]
        rfl
      rw [tokens_pass hs h, tokens_pass (show (s.withText text exprType).token ≠ .eof from hs) h', ih s' h]
      rfl
    | error e =>
      have h' : (s.withText text exprType).pass = .error e := by
        rw [pass_withText, h]
        rfl
      rw [tokens_error hs h, tokens_error (show (s.withText text exprType).token ≠ .eof from hs) h']
      rfl

/-! ## What `next` does -/

/-- The token is not the name of a type. -/
def Plain (s : LexerContext) : Prop := s.token ≠ .int ∧ s.token ≠ .char

/-- The entries are names and keywords. No keyword has a class, save for those of a type: `int x int` in a list of
parameters declares `int`. -/
def Clean (s : LexerContext) : Prop :=
  ∀ y ∈ s.symbols, y.token = .id ∨ y.token.IsKeyword ∧ (y.token = .int ∨ y.token = .char ∨ y.id = ⟨.undefined, 0⟩)

/-- What a call of `next` sets, and what it leaves. -/
structure Enters (s s' : LexerContext) : Prop where
  tokenVal : s'.token ≠ .num → s'.token ≠ .quote → s'.tokenVal = s.tokenVal
  other : s'.token ≠ .id → ¬s'.token.IsKeyword → s'.symbols = s.symbols ∧ s'.currentId = s.currentId
  entry : s'.token = .id ∨ s'.token.IsKeyword → (s'.symbols[s'.currentId]?).map Symbol.token = some s'.token
  keyword : s'.token.IsKeyword → s'.Plain → s'.current = ⟨.undefined, 0⟩
  text : s'.text = s.text
  exprType : s'.exprType = s.exprType
  base : s'.base = s.base
  indexOfBp : s'.indexOfBp = s.indexOfBp
  clean : s'.Clean

theorem of_ite {p : Tok × List UInt8 → Prop} {c : Prop} [Decidable c] {x y : Option (Tok × List UInt8)}
    (hx : ∀ out ∈ x, p out) (hy : ∀ out ∈ y, p out) : ∀ out ∈ (if c then x else y), p out := by
  split
  · exact hx
  · exact hy

/-- No operator is a keyword or a name. -/
theorem readOperator_token (c : UInt8) (rest : List UInt8) :
    ∀ out ∈ readOperator c rest, ¬out.1.IsKeyword ∧ out.1 ≠ .id := by
  have hone {tk : Tok} (h : ¬tk.IsKeyword ∧ tk ≠ .id) (rest : List UInt8) :
      ∀ out ∈ some (tk, rest), ¬out.1.IsKeyword ∧ out.1 ≠ .id := by
    rintro out ⟨⟩
    exact h
  have hpair {two one : Tok} (htwo : ¬two.IsKeyword ∧ two ≠ .id) (h : ¬one.IsKeyword ∧ one ≠ .id) (d : UInt8) :
      ∀ out ∈ some (pair rest d two one), ¬out.1.IsKeyword ∧ out.1 ≠ .id := by
    unfold pair
    split
    · exact hone htwo _
    · exact hone h _
  unfold readOperator
  repeat' first
    | exact hone (by decide) _
    | exact hpair (by decide) (by decide) _
    | refine of_ite ?_ ?_
  rintro out ⟨⟩

theorem storeData_eq (s : LexerContext) (chars : List Word) :
    ∃ mem data, s.storeData chars = { s with mem, data } := by
  unfold storeData
  induction chars generalizing s with
  | nil => exact ⟨_, _, rfl⟩
  | cons v chars ih => exact ih { s with mem := s.mem.storeChar s.data v, data := s.data + 1 }

variable {s s' : LexerContext}

theorem identifier_enters {src : List UInt8} (hclean : s.Clean) (h : s.identifier src = .ok s') : s.Enters s' := by
  unfold identifier at h
  split at h
  · next k hk =>
    obtain rfl := Except.ok.inj h
    obtain ⟨hlt, -, -⟩ := List.findIdx?_eq_some_iff_getElem.mp hk
    have hget : s.symbols[k]? = some s.symbols[k] := List.getElem?_eq_getElem hlt
    have htoken : ((s.symbols[k]?).map Symbol.token).getD .id = s.symbols[k].token := by rw [hget]; rfl
    have hid : ((s.symbols[k]?).map Symbol.id).getD ⟨.undefined, 0⟩ = s.symbols[k].id := by rw [hget]; rfl
    have hy := hclean _ (List.getElem_mem hlt)
    refine ⟨fun _ _ => rfl, fun hne hkey => ?_, fun _ => ?_, fun hkey hplain => ?_, rfl, rfl, rfl, rfl, hclean⟩
    · dsimp only at hne hkey
      rw [htoken] at hne hkey
      exact absurd (hy.resolve_left hne).1 hkey
    · show (s.symbols[k]?).map Symbol.token = some _
      rw [htoken, hget]
      rfl
    · unfold Plain at hplain
      dsimp only at hkey hplain
      rw [htoken] at hkey hplain
      show ((s.symbols[k]?).map Symbol.id).getD _ = _
      rw [hid]
      rcases hy with hid | ⟨-, hint | hchar | hy⟩
      · rw [hid] at hkey
        exact hkey.elim
      · exact absurd hint hplain.1
      · exact absurd hchar hplain.2
      · exact hy
  · split at h
    · obtain rfl := Except.ok.inj h
      refine ⟨fun _ _ => rfl, fun hne => absurd rfl hne, fun _ => ?_, fun hkey => hkey.elim, rfl, rfl, rfl, rfl,
        fun y hy => ?_⟩
      · show ((s.symbols ++ [_])[s.symbols.length]?).map Symbol.token = _
        rw [List.getElem?_concat_length]
        rfl
      · rcases List.mem_append.mp hy with hy | hy
        · exact hclean y hy
        · rw [List.mem_singleton.mp hy]
          exact .inl rfl
    · cases h

/-- A token that is no name and no keyword leaves the table. -/
theorem enters_other {src : List UInt8} {token : Tok} {tokenVal data : Word} {mem : Memory} (hclean : s.Clean)
    (hval : token ≠ .num → token ≠ .quote → tokenVal = s.tokenVal) (hid : token ≠ .id) (hkey : ¬token.IsKeyword) :
    s.Enters { s with src, token, tokenVal, data, mem } :=
  ⟨hval, fun _ _ => ⟨rfl, rfl⟩, fun h => h.elim (fun h => absurd h hid) fun h => absurd h hkey,
    fun h => absurd h hkey, rfl, rfl, rfl, rfl, hclean⟩

theorem literal_enters {quote : UInt8} {rest : List UInt8} (hclean : s.Clean) (h : s.literal quote rest = .ok s') :
    s.Enters s' := by
  unfold literal at h
  split at h
  · cases h
  · next chars rest' _ =>
    split at h
    · obtain rfl := Except.ok.inj h
      obtain ⟨mem, data, hstored⟩ := s.storeData_eq chars
      rw [hstored]
      exact enters_other hclean (fun _ hne => absurd rfl hne) (by decide) not_false
    · obtain rfl := Except.ok.inj h
      exact enters_other hclean (fun hne => absurd rfl hne) (by decide) not_false

theorem nextFrom_enters {src : List UInt8} (hclean : s.Clean) (h : s.nextFrom src = .ok s') : s.Enters s' := by
  induction src using nextFrom.induct with
  | case1 =>
    rw [nextFrom] at h
    obtain rfl := Except.ok.inj h
    exact enters_other hclean (fun _ _ => rfl) (by decide) not_false
  | case2 c rest hcomment ih =>
    rw [nextFrom, if_pos hcomment] at h
    exact ih h
  | case3 c rest hcomment hletter =>
    rw [nextFrom, if_neg hcomment, if_pos hletter] at h
    exact identifier_enters hclean h
  | case4 c rest hcomment hletter hdigit =>
    rw [nextFrom, if_neg hcomment, if_neg hletter, if_pos hdigit] at h
    obtain rfl := Except.ok.inj h
    exact enters_other hclean (fun hne => absurd rfl hne) (by decide) not_false
  | case5 c rest hcomment hletter hdigit hquote =>
    rw [nextFrom, if_neg hcomment, if_neg hletter, if_neg hdigit, if_pos hquote] at h
    exact literal_enters hclean h
  | case6 c rest hcomment hletter hdigit hquote token rest' hop =>
    rw [nextFrom, if_neg hcomment, if_neg hletter, if_neg hdigit, if_neg hquote, hop] at h
    obtain rfl := Except.ok.inj h
    obtain ⟨hkey, hid⟩ := readOperator_token c rest _ hop
    exact enters_other hclean (fun _ _ => rfl) hid hkey
  | case7 c rest hcomment hletter hdigit hquote hop ih =>
    rw [nextFrom, if_neg hcomment, if_neg hletter, if_neg hdigit, if_neg hquote, hop] at h
    exact ih h

theorem next_enters (hclean : s.Clean) (h : s.next = .ok s') : s.Enters s' := nextFrom_enters hclean h

theorem lexeme_tok (hnum : s.token ≠ .num) (hquote : s.token ≠ .quote) (hid : s.token ≠ .id) :
    s.lexeme = .tok s.token := by
  unfold lexeme
  split
  · next h => exact absurd h hnum
  · next h => exact absurd h hquote
  · next h => exact absurd h hid
  · rfl

theorem lexeme_token (s : LexerContext) : s.lexeme.token = s.token := by
  unfold lexeme
  split
  · next h => exact h.symm
  · next h => exact h.symm
  · next h => exact h.symm
  · rfl

/-! ## In step -/

/-- The tokens are those that are left of the text. -/
structure Shows (s : LexerContext) (i : Input) : Prop where
  lexemes : i.lexemes = s.tokens
  tokenVal : i.tokenVal = s.tokenVal
  current : s.token = .id → i.currentId = s.current

variable {i : Input}

theorem token_of_lexemes (h : i.lexemes = s.tokens) : i.token = s.token := by
  unfold Input.token
  rw [h]
  by_cases hs : s.token = .eof
  · rw [tokens_eof hs, hs]
  · obtain ⟨rest, hrest⟩ := tokens_cons hs
    rw [hrest]
    exact s.lexeme_token

theorem tokenVal_enter (h : i.lexemes = s.tokens) :
    i.enter.tokenVal = if s.token = .num ∨ s.token = .quote then s.tokenVal else i.tokenVal := by
  unfold Input.enter
  rw [h]
  by_cases hs : s.token = .eof
  · rw [tokens_eof hs, hs]
    rfl
  obtain ⟨rest, hrest⟩ := tokens_cons hs
  rw [hrest]
  by_cases hnum : s.token = .num
  · rw [lexeme, hnum, if_pos (.inl rfl)]
  by_cases hquote : s.token = .quote
  · rw [lexeme, hquote, if_pos (.inr rfl)]
  rw [if_neg (not_or.mpr ⟨hnum, hquote⟩)]
  by_cases hid : s.token = .id
  · rw [lexeme, hid]
  · rw [lexeme_tok hnum hquote hid]
    dsimp only
    split <;> rfl

theorem currentId_enter (h : i.lexemes = s.tokens) : i.enter.currentId =
    if s.token = .id then s.current else if s.token.IsKeyword then ⟨.undefined, 0⟩ else i.currentId := by
  unfold Input.enter
  rw [h]
  by_cases hs : s.token = .eof
  · rw [tokens_eof hs, hs]
    rfl
  obtain ⟨rest, hrest⟩ := tokens_cons hs
  rw [hrest]
  by_cases hid : s.token = .id
  · rw [lexeme, hid, if_pos rfl]
  rw [if_neg hid]
  by_cases hnum : s.token = .num
  · rw [lexeme, hnum]
    exact (if_neg not_false).symm
  by_cases hquote : s.token = .quote
  · rw [lexeme, hquote]
    exact (if_neg not_false).symm
  rw [lexeme_tok hnum hquote hid]
  dsimp only
  split <;> rfl

/-- A token is read, and `string` has done its part. -/
theorem Shows.pass (h : s.Shows i) (hclean : s.Clean) (hs : s.token ≠ .eof) {s₁ : LexerContext}
    (hnext : s.next = .ok s₁) (hpass : s.pass = .ok s') (hsame : (s'.token, s'.tokenVal, s'.current) =
      (s₁.token, s₁.tokenVal, s₁.current)) : s'.Shows i.next := by
  obtain ⟨htoken, hval, hcurrent⟩ := by simpa only [Prod.mk.injEq] using hsame
  have henters := next_enters hclean hnext
  have hlexemes : i.lexemes.tail = s'.tokens := by rw [h.lexemes, tokens_pass hs hpass, List.tail_cons]
  refine ⟨(Input.lexemes_next i).trans hlexemes, ?_, fun hid => ?_⟩
  · rw [Input.next, tokenVal_enter hlexemes]
    split
    · rfl
    · next hne =>
      obtain ⟨hnum, hquote⟩ := not_or.mp hne
      rw [hval, henters.tokenVal (htoken ▸ hnum) (htoken ▸ hquote)]
      exact h.tokenVal
  · rw [Input.next, currentId_enter hlexemes, if_pos hid]

theorem pass_of_next (hquote : s.token ≠ .quote) (h : s.next = .ok s') : s.pass = .ok s' := by
  rw [LexerContext.pass, h]
  exact congrArg Except.ok (if_neg hquote)

theorem Shows.next (h : s.Shows i) (hclean : s.Clean) (hs : s.token ≠ .eof) (hquote : s.token ≠ .quote)
    (hnext : s.next = .ok s') : s'.Shows i.next := h.pass hclean hs hnext (pass_of_next hquote hnext) rfl

/-- Behind a name, `current_id` is still that of the name, or no type name follows. -/
theorem Shows.next_id (h : s.Shows i) (hclean : s.Clean) (hid : s.token = .id) (hnext : s.next = .ok s')
    (hplain : s'.Plain) : i.next.currentId = s'.current := by
  have henters := next_enters hclean hnext
  have hs : s.token ≠ .eof := hid ▸ by decide
  have hlexemes := (h.next hclean hs (hid ▸ by decide) hnext).lexemes
  rw [Input.lexemes_next] at hlexemes
  rw [Input.next, currentId_enter hlexemes]
  split
  · rfl
  · next hne =>
    split
    · next hkey => exact (henters.keyword hkey hplain).symm
    · next hkey =>
      obtain ⟨hsymbols, hcurrent⟩ := henters.other hne hkey
      rw [LexerContext.current, hsymbols, hcurrent]
      exact h.current hid

end LexerContext

open LexerContext

/-- Both compilers are at the same token, and have emitted the same words for the same context. -/
structure Tracks (ctx : Context) (s : LexerContext) (l : Lexer) : Prop where
  shows : s.Shows l.input
  text : l.text = s.text
  exprType : l.exprType = s.exprType
  base : s.base = ctx.base
  indexOfBp : s.indexOfBp = ctx.indexOfBp
  clean : s.Clean

section
variable {ctx : Context} {s s' : LexerContext} {l : Lexer}

theorem Tracks.token (h : Tracks ctx s l) : l.token = s.token := token_of_lexemes h.shows.lexemes

/-- Both change the text and the type in the same way. -/
theorem Tracks.same (h : Tracks ctx s l) {l' : Lexer} (hinput : l'.input = l.input)
    (hs : s' = s.withText l'.text l'.exprType) : Tracks ctx s' l' := by
  subst hs
  refine ⟨⟨?_, ?_, ?_⟩, rfl, rfl, h.base, h.indexOfBp, h.clean⟩
  · rw [hinput, h.shows.lexemes, tokens_withText]
  · rw [hinput, h.shows.tokenVal]
    rfl
  · rw [hinput]
    exact h.shows.current

theorem Tracks.emit (h : Tracks ctx s l) (words : List Word) : Tracks ctx (s.emit words) (l.emit words) := by
  refine h.same rfl ?_
  rw [Lexer.emit, h.text, h.exprType]
  rfl

theorem Tracks.emitWith (h : Tracks ctx s l) (v : Word) (op : BinOp) :
    Tracks ctx (s.emitWith v op) (l.emitWith v op) := h.emit (withWords v op)

theorem Tracks.patch (h : Tracks ctx s l) (n : Nat) (w : Word) : Tracks ctx (s.patch n w) (l.patch n w) := by
  refine h.same rfl ?_
  rw [Lexer.patch, h.text, h.exprType]
  rfl

theorem Tracks.withType (h : Tracks ctx s l) (type : Nat) : Tracks ctx (s.withType type) { l with exprType := type } := by
  refine h.same rfl ?_
  rw [h.text]
  rfl

theorem Tracks.here (h : Tracks ctx s l) : l.here ctx = s.here := by
  rw [Lexer.here, LexerContext.here, Context.addr, h.text, h.base]

theorem Tracks.takeLoad (h : Tracks ctx s l) {error : Nat} {w : Word} (hload : s.takeLoad error = .ok (s', w)) :
    ∃ l', l.takeLoad = some (l', w) ∧ Tracks ctx s' l' := by
  unfold LexerContext.takeLoad at hload
  split at hload
  · next w' hlast =>
    split at hload
    · next hw =>
      obtain ⟨rfl, rfl⟩ := Prod.mk.inj (Except.ok.inj hload)
      refine ⟨{ l with text := s.text.dropLast }, ?_, h.same rfl ?_⟩
      · rw [Lexer.takeLoad, h.text, hlast]
        exact if_pos hw
      · rw [h.exprType]
        rfl
    · cases hload
  · cases hload

theorem Tracks.next (h : Tracks ctx s l) (hs : s.token ≠ .eof) (hquote : s.token ≠ .quote) (hnext : s.next = .ok s') :
    Tracks ctx s' { l with input := l.input.next } := by
  have henters := next_enters h.clean hnext
  exact ⟨h.shows.next h.clean hs hquote hnext, h.text.trans henters.text.symm, h.exprType.trans henters.exprType.symm,
    henters.base.trans h.base, henters.indexOfBp.trans h.indexOfBp, henters.clean⟩

theorem matchTok_eq {tk : Tok} (h : s.matchTok tk = .ok s') : s.token = tk ∧ s.next = .ok s' := by
  unfold LexerContext.matchTok at h
  split at h
  · next htk => exact ⟨htk, h⟩
  · cases h

theorem Tracks.matchTok (h : Tracks ctx s l) {tk : Tok} (htk : tk ≠ .eof ∧ tk ≠ .quote)
    (hmatch : s.matchTok tk = .ok s') : ∃ i, l.input.matchTok tk = some i ∧ Tracks ctx s' { l with input := i } := by
  obtain ⟨rfl, hnext⟩ := matchTok_eq hmatch
  exact ⟨_, if_pos h.token, h.next htk.1 htk.2 hnext⟩

theorem Tracks.optional (h : Tracks ctx s l) {tk : Tok} (htk : tk ≠ .eof ∧ tk ≠ .quote)
    (hoptional : s.optional tk = .ok s') : Tracks ctx s' { l with input := l.input.optional tk } := by
  unfold LexerContext.optional at hoptional
  unfold Input.optional
  split at hoptional
  · next heq =>
    rw [if_pos (h.token.trans heq)]
    obtain ⟨-, hnext⟩ := matchTok_eq hoptional
    exact h.next (heq ▸ htk.1) (heq ▸ htk.2) hnext
  · next hne =>
    cases hoptional
    rw [if_neg fun heq => hne (h.token.symm.trans heq)]
    exact h

/-- A relation that both keep over a token is kept over all of them. -/
theorem skip_keeps {R : LexerContext → Lexer → Prop} {tk : Tok} (htk : tk ≠ .eof)
    (htoken : ∀ {s l}, R s l → l.token = s.token)
    (hstep : ∀ {s l s₁}, R s l → s.token = tk → s.next = .ok s₁ → R s₁ { l with input := l.input.next }) {n k m : Nat}
    (h : R s l) (hm : l.input.lexemes.length ≤ m) (hskip : LexerContext.skip tk n s = .ok (k, s')) :
    (Input.skip tk m l.input).1 = k ∧ s'.token ≠ tk ∧ R s' { l with input := (Input.skip tk m l.input).2 } := by
  induction n generalizing s l k m with
  | zero => cases hskip
  | succ n ih =>
    rw [LexerContext.skip] at hskip
    by_cases hs : s.token = tk
    · rw [if_pos hs] at hskip
      obtain ⟨s₁, hmatch, hskip⟩ := eq_ok_of_bind hskip
      obtain ⟨⟨k₁, s₂⟩, hrest, hok⟩ := eq_ok_of_bind hskip
      obtain ⟨rfl, rfl⟩ := Prod.mk.inj (Except.ok.inj hok)
      have h₁ := hstep h hs (matchTok_eq hmatch).2
      have hlen : l.input.next.lexemes.length = l.input.lexemes.length - 1 := by
        rw [Input.lexemes_next, List.length_tail]
      cases m with
      | zero =>
        have hnil := List.length_eq_zero_iff.mp (Nat.le_zero.mp hm)
        have heof := htoken h
        rw [hs, Lexer.token, Input.token, hnil] at heof
        exact absurd heof.symm htk
      | succ m =>
        rw [Input.skip, if_pos ((htoken h).trans hs)]
        obtain ⟨hk, h₂⟩ := ih h₁ (show l.input.next.lexemes.length ≤ m by omega) hrest
        exact ⟨congrArg (· + 1) hk, h₂⟩
    · rw [if_neg hs] at hskip
      obtain ⟨rfl, rfl⟩ := Prod.mk.inj (Except.ok.inj hskip)
      have hl : l.input.token ≠ tk := fun heq => hs ((htoken h).symm.trans heq)
      have hzero : Input.skip tk m l.input = (0, l.input) := by
        cases m with
        | zero => rfl
        | succ m => rw [Input.skip, if_neg hl]
      rw [hzero]
      exact ⟨rfl, hs, h⟩

theorem Tracks.skip {tk : Tok} (htk : tk ≠ .eof ∧ tk ≠ .quote) {n k : Nat} (h : Tracks ctx s l)
    (hskip : LexerContext.skip tk n s = .ok (k, s')) : (Input.skip tk l.input.lexemes.length l.input).1 = k ∧
      Tracks ctx s' { l with input := (Input.skip tk l.input.lexemes.length l.input).2 } := by
  obtain ⟨hk, -, h'⟩ := skip_keeps (R := Tracks ctx) htk.1 Tracks.token
    (fun h hs => h.next (hs ▸ htk.1) (hs ▸ htk.2)) h (Nat.le_refl _) hskip
  exact ⟨hk, h'⟩

theorem settle_token (s : LexerContext) : s.settle.token = s.token := by
  unfold settle
  split <;> rfl

/-- Over a literal of a string, the end of the string with it. -/
theorem Tracks.next_quote (h : Tracks ctx s l) (hs : s.token = .quote) (hnext : s.next = .ok s') :
    Tracks ctx s'.settle { l with input := l.input.next } := by
  have henters := next_enters h.clean hnext
  have hpass : s.pass = .ok s'.settle := by
    rw [LexerContext.pass, hnext]
    exact congrArg Except.ok (if_pos hs)
  have hshows : s'.settle.Shows l.input.next := h.shows.pass h.clean (hs ▸ by decide) hnext hpass (by
    unfold settle
    split <;> rfl)
  have hsettle : ∃ data, s'.settle = { s' with data } := by
    unfold settle
    split
    · exact ⟨s'.data, rfl⟩
    · exact ⟨_, rfl⟩
  obtain ⟨data, hdata⟩ := hsettle
  rw [hdata] at hshows ⊢
  exact ⟨hshows, h.text.trans henters.text.symm, h.exprType.trans henters.exprType.symm,
    henters.base.trans h.base, henters.indexOfBp.trans h.indexOfBp, henters.clean⟩

theorem Tracks.skip_quote {n k : Nat} (h : Tracks ctx s.settle l)
    (hskip : LexerContext.skip .quote n s = .ok (k, s')) : s'.token ≠ .quote ∧
      Tracks ctx s'.settle { l with input := (Input.skip .quote l.input.lexemes.length l.input).2 } := by
  refine (skip_keeps (R := fun s l => Tracks ctx s.settle l) (by decide) (fun h => h.token.trans (settle_token _))
    (fun {s _ _} h hs hnext => ?_) h (Nat.le_refl _) hskip).2
  rw [settle, if_pos hs] at h
  exact h.next_quote hs hnext

theorem Tracks.typeName (h : Tracks ctx s l) {n type : Nat} (htype : s.typeName n = .ok (type, s')) :
    l.input.typeName.1 = type ∧ Tracks ctx s' { l with input := l.input.typeName.2 } := by
  have hmul : Tok.mul ≠ .eof ∧ Tok.mul ≠ .quote := by decide
  have htoken : l.input.token = s.token := h.token
  have hstars {s₁ : LexerContext} {l₁ : Lexer} {base : Nat} (h₁ : Tracks ctx s₁ l₁)
      (hskip : (LexerContext.skip .mul n s₁ >>= fun p => pure (base + p.1 * PTR, p.2)) = .ok (type, s')) :
      base + (Input.skip .mul l₁.input.lexemes.length l₁.input).1 * PTR = type ∧
        Tracks ctx s' { l₁ with input := (Input.skip .mul l₁.input.lexemes.length l₁.input).2 } := by
    obtain ⟨⟨stars, s₂⟩, hstars, hok⟩ := eq_ok_of_bind hskip
    obtain ⟨rfl, rfl⟩ := Prod.mk.inj (Except.ok.inj hok)
    obtain ⟨rfl, h₂⟩ := h₁.skip hmul hstars
    exact ⟨rfl, h₂⟩
  unfold LexerContext.typeName at htype
  unfold Input.typeName
  dsimp only at htype
  by_cases hint : s.token = .int
  · rw [if_pos (.inl hint)] at htype
    obtain ⟨s₁, hmatch, htype⟩ := eq_ok_of_bind htype
    rw [htoken, hint]
    rw [hint, if_neg (by decide)] at htype
    exact hstars (h.next (hint ▸ by decide) (hint ▸ by decide) (matchTok_eq hmatch).2) htype
  by_cases hchar : s.token = .char
  · rw [if_pos (.inr hchar)] at htype
    obtain ⟨s₁, hmatch, htype⟩ := eq_ok_of_bind htype
    rw [htoken, hchar]
    rw [hchar, if_pos rfl] at htype
    exact hstars (h.next (hchar ▸ by decide) (hchar ▸ by decide) (matchTok_eq hmatch).2) htype
  · rw [if_neg (not_or.mpr ⟨hint, hchar⟩), if_neg hchar] at htype
    obtain ⟨s₁, hsame, htype⟩ := eq_ok_of_bind htype
    obtain rfl := Except.ok.inj hsame
    have hlast := hstars h htype
    rw [htoken]
    generalize s.token = tk at hint hchar
    cases tk with
    | int => exact absurd rfl hint
    | char => exact absurd rfl hchar
    | _ => exact hlast

end

end RetrOS.Lex
