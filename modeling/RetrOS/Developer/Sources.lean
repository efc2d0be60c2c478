import RetrOS.Developer.Refinement
import RetrOS.Developer.Programs

/-!
# Source texts as programs

What a source text means, and that `program` compiles it to that.

* `functionHead`, `functionOf`, `functionsOf`, `sourceProgram` : the functions of a text, from its tokens;
* `Sound`, `Stuck` : the table between two tokens; a name that is declared in front of a keyword gives the keyword its
  class, and then the declaration is rejected, save for a parameter in front of a type;
* `functionDeclaration_compiled` : a function is compiled in front of what follows;
* `source_exits` : a text that is compiled without an error runs to `EXIT` with what its `main` means.
-/

namespace RetrOS.Lex
open RetrOS.Interpreter RetrOS.Fs LexerContext

/-! ## The functions of a text -/

/-- The tokens of the text that is left. -/
def LexerContext.input (s : LexerContext) : Input := ⟨s.tokens, s.tokenVal, s.current⟩

section
variable (n : Nat)

/-- The parameters and the variables of a function; how many variables, and the state in front of the statements. -/
def functionHead (s : LexerContext) : Except Stop (Nat × LexerContext) := do
  let s ← s.matchTok .lparen
  let s ← functionParameter n n 0 s
  let s ← s.matchTok .rparen
  let s ← s.matchTok .lbrace
  localDeclarations n n 0 s

/-- The function that starts at a parenthesis: the address of its first word, and what it consists of. -/
def functionOf (s : LexerContext) : Option (Word × Function) := do
  let (locals, s') ← (functionHead n s).toOption
  let (body, _) ← parseStatements (parseStatement (n + 1)) (n + 1) s'.input
  some (s.here, ⟨(s'.indexOfBp - 1).toNat, locals, body⟩)

/-- A name of `global_declaration` in front of what it declares. -/
def declarator (s : LexerContext) : Parsed := do
  let (stars, s) ← s.skip .mul n
  if s.token ≠ .id then reject 20
  else if s.current.class_ ≠ .undefined then reject 21
  else
    let s ← s.matchTok .id
    return s.setCurrent fun y => { y with id := ⟨y.id.class_, s.baseType + stars * PTR⟩ }

/-- The type in front of the names. -/
def declarationType (s : LexerContext) : Parsed := do
  let type := if s.token = .char then CHAR else INT
  let s ← if s.token = .int ∨ s.token = .char then s.matchTok s.token else .ok s
  return { s with baseType := type }

/-- The value of an identifier that is a function. -/
def declared (s : LexerContext) : LexerContext := s.setCurrent fun y => { y with id := ⟨.fun_ s.here, y.id.type⟩ }

/-- The functions of the names up to `;` or `}`. -/
def functionsIn : Nat → LexerContext → List (Word × Function)
  | 0, _ => []
  | k + 1, s =>
    if s.token = .semicolon ∨ s.token = .rbrace then []
    else match declarator n s with
      | .error _ => []
      | .ok s => (if s.token = .lparen then (functionOf n (declared s)).toList else []) ++
          match globalName n s >>= (·.optional .comma) with
          | .error _ => []
          | .ok s => functionsIn k s

/-- The functions of one declaration. -/
def functionsOfDeclaration (s : LexerContext) : List (Word × Function) :=
  if s.token = .enum then []
  else match declarationType s with
    | .error _ => []
    | .ok s => functionsIn n n s

/-- The functions of the declarations up to the end of the text. -/
def functionsOf : Nat → LexerContext → List (Word × Function)
  | 0, _ => []
  | k + 1, s =>
    if s.token = .eof then []
    else functionsOfDeclaration n s ++ match globalDeclaration n s with
      | .error _ => []
      | .ok s => functionsOf k s

/-- The functions of a source. -/
def sourceFunctions (base data : Word) (mem : Memory) (src : List UInt8) : List (Word × Function) :=
  match opened base data mem src >>= next with
  | .error _ => []
  | .ok s => functionsOf n n s

/-- A source as a program. -/
def sourceProgram (base data : Word) (mem : Memory) (src : List UInt8) : Program := fun value =>
  ((sourceFunctions n base data mem src).find? fun f => f.1 == value).map Prod.snd

end

theorem globalNames_succ (n k : Nat) (s : LexerContext) : globalNames n (k + 1) s =
    if s.token = .semicolon ∨ s.token = .rbrace then .ok s
    else declarator n s >>= fun s => globalName n s >>= (·.optional .comma) >>= globalNames n k := by
  rw [globalNames, declarator]
  split
  · rfl
  · cases LexerContext.skip .mul n s with
    | error e => rfl
    | ok p =>
      show (if _ then _ else if _ then _ else _) = (if _ then _ else if _ then _ else _) >>= _
      split
      · rfl
      · split
        · rfl
        · cases p.2.matchTok .id with
          | error e => rfl
          | ok s₁ =>
            exact (bind_assoc (globalName n _) _ _).symm

/-! ## The table between two tokens -/

namespace LexerContext

/-- The entries are as they should be, and a name has an entry for names. -/
structure Sound (s : LexerContext) : Prop where
  clean : s.Clean
  entry : s.token = .id → (s.symbols[s.currentId]?).map Symbol.token = some .id

/-- The entry of `current_id` may get a class. -/
def Writable (s : LexerContext) : Prop :=
  ∀ y ∈ s.symbols[s.currentId]?, y.token = .id ∨ y.token = .int ∨ y.token = .char

/-- The token is a keyword that no declaration goes on with. -/
def Stuck (s : LexerContext) : Prop := s.token.IsKeyword ∧ s.Plain

/-- Nothing has been emitted. -/
structure Same (s s' : LexerContext) : Prop where
  text : s'.text = s.text
  base : s'.base = s.base

variable {s s' s₁ : LexerContext}

theorem Same.refl (s : LexerContext) : Same s s := ⟨rfl, rfl⟩

theorem Same.trans (h : Same s s₁) (h' : Same s₁ s') : Same s s' := ⟨h'.text.trans h.text, h'.base.trans h.base⟩

theorem Stuck.ne (h : s.Stuck) (tk : Tok) (htk : ¬tk.IsKeyword ∨ tk = .int ∨ tk = .char) : s.token ≠ tk := by
  rintro rfl
  rcases htk with hkey | hint | hchar
  · exact hkey h.1
  · exact h.2.1 hint
  · exact h.2.2 hchar

theorem Sound.writable (h : s.Sound) (hid : s.token = .id) : s.Writable := by
  intro y hy
  have htoken := h.entry hid
  rw [hy] at htoken
  exact .inl (Option.some.inj htoken)

theorem next_sound (hclean : s.Clean) (h : s.next = .ok s') : s'.Sound ∧ Same s s' := by
  have henters := next_enters hclean h
  exact ⟨⟨henters.clean, fun hid => hid ▸ henters.entry (.inl hid)⟩, henters.text, henters.base⟩

theorem Writable.next (h : s.Writable) (hclean : s.Clean) (hnext : s.next = .ok s') : s'.Writable ∨ s'.Stuck := by
  have henters := next_enters hclean hnext
  have hentry {y : Symbol} (hy : y ∈ s'.symbols[s'.currentId]?) (htoken : s'.token = .id ∨ s'.token.IsKeyword) :
      y.token = s'.token := by
    have heq := henters.entry htoken
    rw [hy] at heq
    exact Option.some.inj heq
  by_cases hid : s'.token = .id
  · exact .inl fun y hy => .inl ((hentry hy (.inl hid)).trans hid)
  by_cases hkey : s'.token.IsKeyword
  · by_cases hplain : s'.Plain
    · exact .inr ⟨hkey, hplain⟩
    · refine .inl fun y hy => .inr ?_
      rw [hentry hy (.inr hkey)]
      unfold Plain at hplain
      tauto
  · obtain ⟨hsymbols, hcurrent⟩ := henters.other hid hkey
    refine .inl ?_
    rw [Writable, hsymbols, hcurrent]
    exact h

/-- What is written through `current_id` keeps the table. -/
theorem Sound.setCurrent (h : s.Sound) (hwritable : s.Writable) (f : Symbol → Symbol)
    (hf : ∀ y, (f y).token = y.token) : (s.setCurrent f).Sound ∧ (s.setCurrent f).Writable := by
  have hget : (s.setCurrent f).symbols[s.currentId]? = (s.symbols[s.currentId]?).map f := by
    exact List.getElem?_modify_eq f s.currentId s.symbols
  refine ⟨⟨fun y hy => ?_, fun hid => ?_⟩, fun y hy => ?_⟩
  · obtain ⟨k, hk, rfl⟩ := List.mem_iff_getElem.mp hy
    have hk' : k < s.symbols.length := by rwa [LexerContext.setCurrent, List.length_modify] at hk
    have hold := h.clean _ (List.getElem_mem hk')
    by_cases heq : s.currentId = k
    · subst heq
      have hw := hwritable _ (List.getElem?_eq_getElem hk')
      have hy : (s.setCurrent f).symbols[s.currentId] = f s.symbols[s.currentId] := by
        simp [LexerContext.setCurrent]
      rw [hy, hf]
      rcases hw with hid | hint | hchar
      · exact .inl hid
      · exact .inr ⟨hint ▸ trivial, .inl hint⟩
      · exact .inr ⟨hchar ▸ trivial, .inr (.inl hchar)⟩
    · have hy : (s.setCurrent f).symbols[k] = s.symbols[k] := by
        simp [LexerContext.setCurrent, heq]
      rw [hy]
      exact hold
  · rw [show (s.setCurrent f).currentId = s.currentId from rfl, hget, Option.map_map]
    rw [show Symbol.token ∘ f = Symbol.token from funext hf]
    exact h.entry hid
  · rw [show (s.setCurrent f).currentId = s.currentId from rfl, hget] at hy
    obtain ⟨y', hy', rfl⟩ := Option.map_eq_some_iff.mp hy
    rw [hf]
    exact hwritable y' hy'

theorem matchTok_sound {tk : Tok} (hclean : s.Clean) (h : s.matchTok tk = .ok s') : s'.Sound ∧ Same s s' :=
  next_sound hclean (matchTok_eq h).2

theorem optional_sound {tk : Tok} (h : s.Sound) (hok : s.optional tk = .ok s') : s'.Sound ∧ Same s s' := by
  unfold LexerContext.optional at hok
  split at hok
  · exact matchTok_sound h.clean hok
  · obtain rfl := Except.ok.inj hok
    exact ⟨h, .refl s⟩

theorem skip_sound {tk : Tok} {n k : Nat} (h : s.Sound) (hok : skip tk n s = .ok (k, s')) : s'.Sound ∧ Same s s' := by
  induction n generalizing s k with
  | zero => cases hok
  | succ n ih =>
    rw [skip] at hok
    split at hok
    · obtain ⟨s₁, hmatch, hok⟩ := eq_ok_of_bind hok
      obtain ⟨⟨k₁, s₂⟩, hrest, hok⟩ := eq_ok_of_bind hok
      obtain ⟨rfl, rfl⟩ := Prod.mk.inj (Except.ok.inj hok)
      obtain ⟨h₁, hsame⟩ := matchTok_sound h.clean hmatch
      obtain ⟨h₂, hsame₂⟩ := ih h₁ hrest
      exact ⟨h₂, hsame.trans hsame₂⟩
    · obtain ⟨rfl, rfl⟩ := Prod.mk.inj (Except.ok.inj hok)
      exact ⟨h, .refl s⟩

theorem skip_none {tk : Tok} {n k : Nat} (hs : s.token ≠ tk) (hok : skip tk n s = .ok (k, s')) : s' = s := by
  cases n with
  | zero => cases hok
  | succ n =>
    rw [skip, if_neg hs] at hok
    exact (Prod.mk.inj (Except.ok.inj hok)).2.symm

theorem typeName_sound {n type : Nat} (h : s.Sound) (hok : s.typeName n = .ok (type, s')) : s'.Sound ∧ Same s s' := by
  unfold typeName at hok
  dsimp only at hok
  split at hok
  · obtain ⟨s₁, hmatch, hok⟩ := eq_ok_of_bind hok
    obtain ⟨⟨k, s₂⟩, hskip, hok⟩ := eq_ok_of_bind hok
    obtain ⟨rfl, rfl⟩ := Prod.mk.inj (Except.ok.inj hok)
    obtain ⟨h₁, hsame⟩ := matchTok_sound h.clean hmatch
    obtain ⟨h₂, hsame₂⟩ := skip_sound h₁ hskip
    exact ⟨h₂, hsame.trans hsame₂⟩
  · obtain ⟨s₁, hs₁, hok⟩ := eq_ok_of_bind hok
    obtain rfl := Except.ok.inj hs₁
    obtain ⟨⟨k, s₂⟩, hskip, hok⟩ := eq_ok_of_bind hok
    obtain ⟨rfl, rfl⟩ := Prod.mk.inj (Except.ok.inj hok)
    exact skip_sound h hskip

theorem Stuck.typeName {n type : Nat} (h : s.Stuck) (hok : s.typeName n = .ok (type, s')) : s' = s := by
  unfold LexerContext.typeName at hok
  dsimp only at hok
  rw [if_neg (not_or.mpr h.2)] at hok
  obtain ⟨s₁, hs₁, hok⟩ := eq_ok_of_bind hok
  obtain rfl := Except.ok.inj hs₁
  obtain ⟨⟨k, s₂⟩, hskip, hok⟩ := eq_ok_of_bind hok
  obtain ⟨rfl, rfl⟩ := Prod.mk.inj (Except.ok.inj hok)
  exact skip_none (h.ne .mul (.inl not_false)) hskip

end LexerContext

/-! ## Declarations -/

section
variable {n : Nat} {s s' : LexerContext}

/-- A declared name leaves the table as it should be, or it is a keyword that ends the declaration. -/
theorem localName_sound {value : Word} {type bad duplicate : Nat} (h : s.Sound)
    (hok : localName s value type bad duplicate = .ok s') : s.token = .id ∧ (s'.Sound ∨ s'.Stuck) ∧ Same s s' := by
  unfold localName at hok
  split at hok
  · cases hok
  · next hid =>
    have hid := not_not.mp hid
    split at hok
    · cases hok
    · obtain ⟨s₁, hmatch, hok⟩ := eq_ok_of_bind hok
      obtain ⟨h₁, hsame⟩ := matchTok_sound h.clean hmatch
      refine ⟨hid, ?_⟩
      rcases (h.writable hid).next h.clean (matchTok_eq hmatch).2 with hwritable | hstuck
      · have hdeclared := (h₁.setCurrent hwritable (fun y => { y with id := ⟨.loc value, type⟩, saved := y.id })
          fun _ => rfl).1
        obtain ⟨h₂, hsame₂⟩ := optional_sound hdeclared hok
        exact ⟨.inl h₂, hsame.trans ⟨hsame₂.text, hsame₂.base⟩⟩
      · unfold LexerContext.optional at hok
        rw [if_neg (show (s₁.declare value type).token ≠ .comma from hstuck.ne .comma (.inl not_false))] at hok
        obtain rfl := Except.ok.inj hok
        exact ⟨.inr hstuck, hsame.text, hsame.base⟩

theorem functionParameter_sound {k params : Nat} (h : s.Sound ∨ s.Stuck)
    (hok : functionParameter n k params s = .ok s') : s'.Sound ∧ Same s s' := by
  induction k generalizing s params with
  | zero => cases hok
  | succ k ih =>
    rw [functionParameter] at hok
    split at hok
    · next hrparen =>
      obtain rfl := Except.ok.inj hok
      have hs := h.resolve_right fun hstuck => hstuck.ne .rparen (.inl not_false) hrparen
      exact ⟨⟨hs.clean, hs.entry⟩, rfl, rfl⟩
    · obtain ⟨⟨type, s₁⟩, htype, hok⟩ := eq_ok_of_bind hok
      obtain ⟨s₂, hname, hok⟩ := eq_ok_of_bind hok
      rcases h with h | hstuck
      · obtain ⟨h₁, hsame₁⟩ := typeName_sound h htype
        obtain ⟨-, h₂, hsame₂⟩ := localName_sound h₁ hname
        obtain ⟨h', hsame'⟩ := ih h₂ hok
        exact ⟨h', hsame₁.trans (hsame₂.trans hsame')⟩
      · obtain rfl := hstuck.typeName htype
        rw [localName, if_pos (hstuck.ne .id (.inl not_false))] at hname
        cases hname

theorem localNames_sound {k locals locals' : Nat} (h : s.Sound ∨ s.Stuck)
    (hok : localNames n k locals s = .ok (locals', s')) : s'.Sound ∧ Same s s' := by
  induction k generalizing s locals with
  | zero => cases hok
  | succ k ih =>
    rw [localNames] at hok
    split at hok
    · next hsemicolon =>
      obtain ⟨rfl, rfl⟩ := Prod.mk.inj (Except.ok.inj hok)
      exact ⟨h.resolve_right fun hstuck => hstuck.ne .semicolon (.inl not_false) hsemicolon, .refl s⟩
    · obtain ⟨⟨stars, s₁⟩, hskip, hok⟩ := eq_ok_of_bind hok
      obtain ⟨s₂, hname, hok⟩ := eq_ok_of_bind hok
      rcases h with h | hstuck
      · obtain ⟨h₁, hsame₁⟩ := skip_sound h hskip
        obtain ⟨-, h₂, hsame₂⟩ := localName_sound h₁ hname
        obtain ⟨h', hsame'⟩ := ih h₂ hok
        exact ⟨h', hsame₁.trans (hsame₂.trans hsame')⟩
      · obtain rfl := skip_none (hstuck.ne .mul (.inl not_false)) hskip
        rw [localName, if_pos (hstuck.ne .id (.inl not_false))] at hname
        cases hname

theorem localDeclarations_sound {k locals locals' : Nat} (h : s.Sound)
    (hok : localDeclarations n k locals s = .ok (locals', s')) : s'.Sound ∧ Same s s' := by
  induction k generalizing s locals with
  | zero => cases hok
  | succ k ih =>
    rw [localDeclarations] at hok
    split at hok
    · obtain ⟨s₁, hmatch, hok⟩ := eq_ok_of_bind hok
      obtain ⟨⟨locals₁, s₂⟩, hnames, hok⟩ := eq_ok_of_bind hok
      obtain ⟨s₃, hsemicolon, hok⟩ := eq_ok_of_bind hok
      obtain ⟨h₁, hsame₁⟩ := matchTok_sound (by exact h.clean) hmatch
      obtain ⟨h₂, hsame₂⟩ := localNames_sound (.inl h₁) hnames
      obtain ⟨h₃, hsame₃⟩ := matchTok_sound h₂.clean hsemicolon
      obtain ⟨h', hsame'⟩ := ih h₃ hok
      have hsame : Same s s₁ := ⟨hsame₁.text, hsame₁.base⟩
      exact ⟨h', hsame.trans (hsame₂.trans (hsame₃.trans hsame'))⟩
    · obtain ⟨rfl, rfl⟩ := Prod.mk.inj (Except.ok.inj hok)
      exact ⟨h, .refl s⟩

theorem functionHead_sound {locals : Nat} (h : s.Sound) (hok : functionHead n s = .ok (locals, s')) :
    s'.Sound ∧ Same s s' := by
  obtain ⟨s₁, hlparen, hok⟩ := eq_ok_of_bind hok
  obtain ⟨s₂, hparams, hok⟩ := eq_ok_of_bind hok
  obtain ⟨s₃, hrparen, hok⟩ := eq_ok_of_bind hok
  obtain ⟨s₄, hlbrace, hok⟩ := eq_ok_of_bind hok
  obtain ⟨h₁, hsame₁⟩ := matchTok_sound h.clean hlparen
  obtain ⟨h₂, hsame₂⟩ := functionParameter_sound (.inl h₁) hparams
  obtain ⟨h₃, hsame₃⟩ := matchTok_sound h₂.clean hrparen
  obtain ⟨h₄, hsame₄⟩ := matchTok_sound h₃.clean hlbrace
  obtain ⟨h', hsame'⟩ := localDeclarations_sound h₄ hok
  exact ⟨h', hsame₁.trans (hsame₂.trans (hsame₃.trans (hsame₄.trans hsame')))⟩

theorem statements_token {stmt : LexerContext → Parsed} {k : Nat} (hok : statements stmt k s = .ok s') :
    s'.token = .rbrace := by
  induction k generalizing s with
  | zero => cases hok
  | succ k ih =>
    rw [statements] at hok
    split at hok
    · next hs =>
      obtain rfl := Except.ok.inj hok
      exact hs
    · obtain ⟨s₁, -, hok⟩ := eq_ok_of_bind hok
      exact ih hok

/-- The entries behind a function are as they should be; the token is its `}`. -/
theorem unwind_sound (hclean : s.Clean) (hs : s.token ≠ .id) (hok : unwind s = .ok s') : s'.Sound ∧ Same s s' := by
  unfold unwind at hok
  split at hok
  · obtain rfl := Except.ok.inj hok
    refine ⟨⟨fun y hy => ?_, fun hid => absurd hid hs⟩, rfl, rfl⟩
    obtain ⟨z, hz, rfl⟩ := List.mem_map.mp hy
    rcases hclean z hz with hid | ⟨hkey, hint | hchar | hnone⟩
    · refine .inl ?_
      split <;> exact hid
    · refine .inr ⟨?_, .inl ?_⟩ <;> split <;> assumption
    · refine .inr ⟨?_, .inr (.inl ?_)⟩ <;> split <;> assumption
    · rw [if_neg (by rw [hnone]; exact fun ⟨_, h⟩ => IdClass.noConfusion h)]
      exact .inr ⟨hkey, .inr (.inr hnone)⟩
  · cases hok

theorem enumValue_sound {i i' : Word} (hclean : s.Clean) (h : s.Sound ∧ s.Writable ∨ s.Stuck)
    (hok : enumValue i s = .ok (i', s')) : (s'.Sound ∧ s'.Writable ∨ s'.Stuck) ∧ s'.Clean ∧ Same s s' := by
  unfold enumValue at hok
  split at hok
  · next hassign =>
    obtain ⟨s₁, hnext₁, hok⟩ := eq_ok_of_bind hok
    split at hok
    · cases hok
    · next hnum =>
      obtain ⟨s₂, hnext₂, hok⟩ := eq_ok_of_bind hok
      obtain ⟨rfl, rfl⟩ := Prod.mk.inj (Except.ok.inj hok)
      obtain ⟨-, hwritable⟩ := h.resolve_right fun hstuck => hstuck.ne .assign (.inl not_false) hassign
      obtain ⟨h₁, hsame₁⟩ := next_sound hclean hnext₁
      have hwritable₁ := (hwritable.next hclean hnext₁).resolve_right fun hstuck =>
        hstuck.ne .num (.inl not_false) (not_not.mp hnum)
      obtain ⟨h₂, hsame₂⟩ := next_sound h₁.clean hnext₂
      exact ⟨(hwritable₁.next h₁.clean hnext₂).imp_left fun hw => ⟨h₂, hw⟩, h₂.clean, hsame₁.trans hsame₂⟩
  · obtain ⟨rfl, rfl⟩ := Prod.mk.inj (Except.ok.inj hok)
    exact ⟨h, hclean, .refl s⟩

theorem enumDeclaration_sound {k : Nat} {i : Word} (h : s.Sound ∨ s.Stuck) (hok : enumDeclaration k i s = .ok s') :
    s'.Sound ∧ Same s s' := by
  induction k generalizing s i with
  | zero => cases hok
  | succ k ih =>
    rw [enumDeclaration] at hok
    split at hok
    · next hrbrace =>
      obtain rfl := Except.ok.inj hok
      exact ⟨h.resolve_right fun hstuck => hstuck.ne .rbrace (.inl not_false) hrbrace, .refl s⟩
    · split at hok
      · cases hok
      · next hid =>
        have hid := not_not.mp hid
        have hs := h.resolve_right fun hstuck => hstuck.ne .id (.inl not_false) hid
        obtain ⟨s₁, hnext, hok⟩ := eq_ok_of_bind hok
        obtain ⟨⟨i', s₂⟩, hvalue, hok⟩ := eq_ok_of_bind hok
        obtain ⟨h₁, hsame₁⟩ := next_sound hs.clean hnext
        obtain ⟨h₂, -, hsame₂⟩ := enumValue_sound h₁.clean
          (((hs.writable hid).next hs.clean hnext).imp_left fun hw => ⟨h₁, hw⟩) hvalue
        dsimp only at hok
        have hstep {s₃ : LexerContext} (hs₃ : s₃.Sound ∨ s₃.Stuck) (hsame₃ : Same s₂ s₃)
            (hok : enumDeclaration k (i' + 1) s₃ = .ok s') : s'.Sound ∧ Same s s' := by
          obtain ⟨h', hsame'⟩ := ih hs₃ hok
          exact ⟨h', hsame₁.trans (hsame₂.trans (hsame₃.trans hsame'))⟩
        rcases h₂ with ⟨h₂, hwritable⟩ | hstuck
        · obtain ⟨hset, -⟩ := h₂.setCurrent hwritable (fun y => { y with id := ⟨.num i', INT⟩ }) fun _ => rfl
          split at hok
          · obtain ⟨s₃, hcomma, hok⟩ := eq_ok_of_bind hok
            obtain ⟨h₃, hsame₃⟩ := next_sound hset.clean hcomma
            exact hstep (.inl h₃) ⟨hsame₃.text, hsame₃.base⟩ hok
          · obtain ⟨s₃, hs₃, hok⟩ := eq_ok_of_bind hok
            obtain rfl := Except.ok.inj hs₃
            exact hstep (.inl hset) ⟨rfl, rfl⟩ hok
        · split at hok
          · next hcomma => exact absurd hcomma (hstuck.ne .comma (.inl not_false))
          · obtain ⟨s₃, hs₃, hok⟩ := eq_ok_of_bind hok
            obtain rfl := Except.ok.inj hs₃
            have hset : LexerContext.Stuck (s₂.setCurrent fun y => { y with id := ⟨.num i', INT⟩ }) := hstuck
            exact hstep (.inr hset) ⟨rfl, rfl⟩ hok

/-- The list of enumerators, if there is one, and the semicolon. -/
theorem enumerators_sound (h : s.Sound) (hok : (if s.token = .lbrace then do
      let s ← s.matchTok .lbrace
      let s ← enumDeclaration n 0 s
      let s ← s.matchTok .rbrace
      s.matchTok .semicolon
    else do
      let s ← .ok s
      s.matchTok .semicolon) = .ok s') : s'.Sound ∧ Same s s' := by
  split at hok
  · obtain ⟨s₁, hlbrace, hok⟩ := eq_ok_of_bind hok
    obtain ⟨s₂, henum, hok⟩ := eq_ok_of_bind hok
    obtain ⟨s₃, hrbrace, hok⟩ := eq_ok_of_bind hok
    obtain ⟨h₁, hsame₁⟩ := matchTok_sound h.clean hlbrace
    obtain ⟨h₂, hsame₂⟩ := enumDeclaration_sound (.inl h₁) henum
    obtain ⟨h₃, hsame₃⟩ := matchTok_sound h₂.clean hrbrace
    obtain ⟨h', hsame'⟩ := matchTok_sound h₃.clean hok
    exact ⟨h', hsame₁.trans (hsame₂.trans (hsame₃.trans hsame'))⟩
  · obtain ⟨s₁, hs₁, hok⟩ := eq_ok_of_bind hok
    obtain rfl := Except.ok.inj hs₁
    exact matchTok_sound h.clean hok

theorem enumeration_sound (h : s.Sound) (hok : enumeration n s = .ok s') : s'.Sound ∧ Same s s' := by
  obtain ⟨s₁, hmatch, hok⟩ := eq_ok_of_bind hok
  obtain ⟨h₁, hsame₁⟩ := matchTok_sound h.clean hmatch
  dsimp only at hok
  split at hok
  · obtain ⟨s₂, hid, hok⟩ := eq_ok_of_bind hok
    obtain ⟨h₂, hsame₂⟩ := matchTok_sound h₁.clean hid
    obtain ⟨h', hsame'⟩ := enumerators_sound h₂ hok
    exact ⟨h', hsame₁.trans (hsame₂.trans hsame')⟩
  · obtain ⟨s₂, hs₂, hok⟩ := eq_ok_of_bind hok
    obtain rfl := Except.ok.inj hs₂
    obtain ⟨h', hsame'⟩ := enumerators_sound h₁ hok
    exact ⟨h', hsame₁.trans hsame'⟩

theorem declarator_sound (h : s.Sound ∨ s.Stuck) (hok : declarator n s = .ok s') :
    (s'.Sound ∧ s'.Writable ∨ s'.Stuck) ∧ Same s s' := by
  obtain ⟨⟨stars, s₁⟩, hskip, hok⟩ := eq_ok_of_bind hok
  dsimp only at hok
  split at hok
  · cases hok
  · next hid =>
    have hid := not_not.mp hid
    split at hok
    · cases hok
    · obtain ⟨s₂, hmatch, hok⟩ := eq_ok_of_bind hok
      obtain rfl := Except.ok.inj hok
      rcases h with h | hstuck
      · obtain ⟨h₁, hsame₁⟩ := skip_sound h hskip
        obtain ⟨h₂, hsame₂⟩ := matchTok_sound h₁.clean hmatch
        refine ⟨?_, hsame₁.trans ⟨hsame₂.text, hsame₂.base⟩⟩
        rcases (h₁.writable hid).next h₁.clean (matchTok_eq hmatch).2 with hwritable | hstuck
        · exact .inl (h₂.setCurrent hwritable _ fun _ => rfl)
        · exact .inr hstuck
      · obtain rfl := skip_none (hstuck.ne .mul (.inl not_false)) hskip
        exact absurd hid (hstuck.ne .id (.inl not_false))

/-! ## Functions -/

/-- Some words have been emitted, with the functions among them. -/
structure Emitted (s s' : LexerContext) (functions : List (Word × Function)) : Prop where
  sound : s'.Sound ∨ s'.Stuck
  base : s'.base = s.base
  text : s.text <+: s'.text
  compiled : ∀ text, Loaded ⟨s.base, 0⟩ s'.text text → ∀ f ∈ functions, CompiledAt s.base text f.1 f.2

theorem loaded_prefix_of {ctx : Context} {words words' : List Word} {text : Word → Word} (h : words <+: words')
    (hloaded : Loaded ctx words' text) : Loaded ctx words text := by
  obtain ⟨rest, rfl⟩ := h
  intro i hi
  rw [hloaded i (by rw [List.length_append]; omega), List.getElem_append_left hi]

theorem LexerContext.Same.emitted (h : Same s s') (hs : s'.Sound ∨ s'.Stuck) : Emitted s s' [] :=
  ⟨hs, h.base, h.text ▸ List.prefix_rfl, fun _ _ _ hf => absurd hf List.not_mem_nil⟩

theorem Emitted.trans {s₁ : LexerContext} {fs gs : List (Word × Function)} (h : Emitted s s₁ fs)
    (h' : Emitted s₁ s' gs) : Emitted s s' (fs ++ gs) := by
  refine ⟨h'.sound, h'.base.trans h.base, h.text.trans h'.text, fun text hloaded f hf => ?_⟩
  rcases List.mem_append.mp hf with hf | hf
  · exact h.compiled text (loaded_prefix_of h'.text hloaded) f hf
  · have hcompiled := h'.compiled text (h.base ▸ hloaded) f hf
    rwa [h.base] at hcompiled

/-- The tokens behind the head of a function, for the compiler that is given its tokens. -/
theorem tracks_input (h : s.Sound) : Tracks ⟨s.base, s.indexOfBp⟩ s ⟨s.input, s.exprType, s.text⟩ :=
  ⟨⟨rfl, rfl, fun _ => rfl⟩, rfl, rfl, rfl, rfl, h.clean⟩

/-- A function is compiled, and its body is what its tokens say. -/
theorem functionDeclaration_compiled (h : s.Sound) (hok : functionDeclaration n s = .ok s') :
    ∃ f, functionOf n s = some (s.here, f) ∧ s'.Sound ∧ Emitted s s' [(s.here, f)] := by
  obtain ⟨s₁, hlparen, hok⟩ := eq_ok_of_bind hok
  obtain ⟨s₂, hparams, hok⟩ := eq_ok_of_bind hok
  obtain ⟨s₃, hrparen, hok⟩ := eq_ok_of_bind hok
  obtain ⟨s₄, hlbrace, hok⟩ := eq_ok_of_bind hok
  obtain ⟨s₆, hbody, hunwind⟩ := eq_ok_of_bind hok
  obtain ⟨⟨locals, s₅⟩, hlocals, hbody⟩ := eq_ok_of_bind hbody
  obtain ⟨s₇, hstatements, hbody⟩ := eq_ok_of_bind hbody
  obtain rfl := Except.ok.inj hbody
  have hhead : functionHead n s = .ok (locals, s₅) := by
    rw [functionHead, hlparen]
    show functionParameter n n 0 s₁ >>= _ = _
    rw [hparams]
    show s₂.matchTok .rparen >>= _ = _
    rw [hrparen]
    show s₃.matchTok .lbrace >>= _ = _
    rw [hlbrace]
    exact hlocals
  obtain ⟨h₅, hsame⟩ := functionHead_sound h hhead
  let ctx : Context := ⟨s₅.base, s₅.indexOfBp⟩
  have htracks := (tracks_input h₅).emit [Op.ent.code, BitVec.ofNat 32 locals]
  obtain ⟨l, hl, h₇⟩ := statements_gets (statement_refines ctx n) (Nat.le_succ n) htracks hstatements
  have hcompiled : functionStatements ctx (n + 1) locals ⟨s₅.input, s₅.exprType, s₅.text⟩ =
      some (l.emit [Op.lev.code]) := by
    rw [functionStatements, hl]
    rfl
  obtain ⟨body, hparse, htext⟩ := functionStatements_emits hcompiled
  have htoken : s₇.token = .rbrace := statements_token hstatements
  obtain ⟨h', hsame'⟩ := unwind_sound (s := s₇.emit [Op.lev.code]) h₇.clean
    (show s₇.token ≠ .id by rw [htoken]; decide) hunwind
  have htext' : s'.text = (l.emit [Op.lev.code]).text := by
    rw [hsame'.text]
    exact congrArg (· ++ _) h₇.text.symm
  have hprefix : s.text <+: s'.text := by
    rw [htext', htext, ← hsame.text]
    exact List.prefix_append _ _
  have hbase : s'.base = s.base := hsame'.base.trans (h₇.base.trans hsame.base)
  refine ⟨⟨(s₅.indexOfBp - 1).toNat, locals, body⟩, ?_, h', .inl h', hbase, hprefix, fun text hloaded f hf => ?_⟩
  · rw [functionOf, hhead]
    show (parseStatements (parseStatement (n + 1)) (n + 1) s₅.input >>= _) = _
    rw [hparse]
    rfl
  · obtain rfl := List.mem_singleton.mp hf
    have hbp : BitVec.ofNat 32 ((s₅.indexOfBp - 1).toNat + 1) = s₅.indexOfBp := by bv_omega
    refine ⟨n + 1, ⟨s₅.input, s₅.exprType, s₅.text⟩, l.emit [Op.lev.code], ?_, ?_, ?_, htext' ▸ hloaded⟩
    · show functionStatements ⟨s.base, BitVec.ofNat 32 ((s₅.indexOfBp - 1).toNat + 1)⟩ _ _ _ = _
      rw [hbp, ← hsame.base]
      exact hcompiled
    · rw [hparse]
      rfl
    · show Context.addr ⟨s.base, 0⟩ s₅.text.length = s.here
      rw [hsame.text]
      rfl

theorem globalName_emitted (h : s.Sound ∧ s.Writable ∨ s.Stuck) (hok : globalName n s = .ok s') :
    Emitted s s' (if s.token = .lparen then (functionOf n (declared s)).toList else []) := by
  unfold globalName at hok
  by_cases hlparen : s.token = .lparen
  · rw [if_pos hlparen] at hok ⊢
    obtain ⟨hs, hwritable⟩ := h.resolve_right fun hstuck => hstuck.ne .lparen (.inl not_false) hlparen
    have hdeclared : (declared s).Sound :=
      (hs.setCurrent hwritable (fun y => { y with id := ⟨.fun_ s.here, y.id.type⟩ }) fun _ => rfl).1
    obtain ⟨f, hf, -, hemitted⟩ := functionDeclaration_compiled hdeclared hok
    rw [hf]
    exact ⟨hemitted.sound, hemitted.base, hemitted.text, hemitted.compiled⟩
  · rw [if_neg hlparen] at hok ⊢
    obtain rfl := Except.ok.inj hok
    refine Same.emitted ⟨rfl, rfl⟩ (h.imp (fun ⟨hs, hwritable⟩ => ?_) id)
    obtain ⟨hset, -⟩ := hs.setCurrent hwritable (fun y => { y with id := ⟨.glo s.data, y.id.type⟩ }) fun _ => rfl
    exact ⟨hset.clean, hset.entry⟩

theorem optional_emitted (h : s.Sound ∨ s.Stuck) (hok : s.optional .comma = .ok s') : Emitted s s' [] := by
  rcases h with h | hstuck
  · obtain ⟨h', hsame⟩ := optional_sound h hok
    exact hsame.emitted (.inl h')
  · unfold LexerContext.optional at hok
    rw [if_neg (hstuck.ne .comma (.inl not_false))] at hok
    obtain rfl := Except.ok.inj hok
    exact (Same.refl s).emitted (.inr hstuck)

theorem globalNames_emitted {k : Nat} (h : s.Sound ∨ s.Stuck) (hok : globalNames n k s = .ok s') :
    s'.Sound ∧ Emitted s s' (functionsIn n k s) := by
  induction k generalizing s with
  | zero => cases hok
  | succ k ih =>
    rw [globalNames_succ] at hok
    rw [functionsIn]
    split at hok
    · next hend =>
      obtain rfl := Except.ok.inj hok
      rw [if_pos hend]
      have hs := h.resolve_right fun hstuck => hend.elim (hstuck.ne .semicolon (.inl not_false))
        (hstuck.ne .rbrace (.inl not_false))
      exact ⟨hs, (Same.refl s).emitted h⟩
    · next hend =>
      obtain ⟨s₁, hdeclarator, hok⟩ := eq_ok_of_bind hok
      obtain ⟨s₂, hname, hok⟩ := eq_ok_of_bind hok
      obtain ⟨h₁, hsame₁⟩ := declarator_sound h hdeclarator
      obtain ⟨s₃, hglobal, hcomma⟩ := eq_ok_of_bind hname
      have hemitted₁ := globalName_emitted h₁ hglobal
      have hemitted₂ := optional_emitted hemitted₁.sound hcomma
      obtain ⟨h', hemitted'⟩ := ih hemitted₂.sound hok
      have hall := ((hsame₁.emitted (h₁.imp_left And.left)).trans hemitted₁).trans (hemitted₂.trans hemitted')
      rw [if_neg hend, hdeclarator]
      dsimp only
      rw [hname]
      exact ⟨h', by simpa only [List.nil_append] using hall⟩

theorem declarationType_sound (h : s.Sound) (hok : declarationType s = .ok s') : s'.Sound ∧ Same s s' := by
  unfold declarationType at hok
  dsimp only at hok
  split at hok
  · obtain ⟨s₁, hmatch, hok⟩ := eq_ok_of_bind hok
    obtain rfl := Except.ok.inj hok
    obtain ⟨h₁, hsame⟩ := matchTok_sound h.clean hmatch
    exact ⟨⟨h₁.clean, h₁.entry⟩, hsame.text, hsame.base⟩
  · obtain ⟨s₁, hs₁, hok⟩ := eq_ok_of_bind hok
    obtain rfl := Except.ok.inj hs₁
    obtain rfl := Except.ok.inj hok
    exact ⟨⟨h.clean, h.entry⟩, rfl, rfl⟩

theorem globalDeclaration_eq (hs : s.token ≠ .enum) :
    globalDeclaration n s = declarationType s >>= fun s => globalNames n n s >>= next := by
  rw [globalDeclaration, if_neg hs, declarationType]
  dsimp only
  split
  · cases s.matchTok s.token <;> rfl
  · rfl

theorem globalDeclaration_emitted (h : s.Sound) (hok : globalDeclaration n s = .ok s') :
    s'.Sound ∧ Emitted s s' (functionsOfDeclaration n s) := by
  rw [functionsOfDeclaration]
  by_cases henum : s.token = .enum
  · rw [globalDeclaration, if_pos henum] at hok
    rw [if_pos henum]
    obtain ⟨h', hsame⟩ := enumeration_sound (s := { s with baseType := INT }) ⟨h.clean, h.entry⟩ hok
    have hsame' : Same s s' := ⟨hsame.text, hsame.base⟩
    exact ⟨h', hsame'.emitted (.inl h')⟩
  · rw [globalDeclaration_eq henum] at hok
    rw [if_neg henum]
    obtain ⟨s₁, htype, hok⟩ := eq_ok_of_bind hok
    obtain ⟨s₂, hnames, hnext⟩ := eq_ok_of_bind hok
    obtain ⟨h₁, hsame₁⟩ := declarationType_sound h htype
    obtain ⟨h₂, hemitted⟩ := globalNames_emitted (.inl h₁) hnames
    obtain ⟨h', hsame'⟩ := next_sound h₂.clean hnext
    have hall := ((hsame₁.emitted (.inl h₁)).trans hemitted).trans (hsame'.emitted (.inl h'))
    rw [htype]
    exact ⟨h', by simpa only [List.nil_append, List.append_nil] using hall⟩

theorem globalDeclarations_emitted {k : Nat} (h : s.Sound) (hok : globalDeclarations n k s = .ok s') :
    Emitted s s' (functionsOf n k s) := by
  induction k generalizing s with
  | zero => cases hok
  | succ k ih =>
    rw [globalDeclarations] at hok
    rw [functionsOf]
    split at hok
    · next heof =>
      obtain rfl := Except.ok.inj hok
      rw [if_pos heof]
      exact (Same.refl s).emitted (.inl h)
    · next heof =>
      obtain ⟨s₁, hfirst, hok⟩ := eq_ok_of_bind hok
      obtain ⟨h₁, hemitted⟩ := globalDeclaration_emitted h hfirst
      rw [if_neg heof, hfirst]
      exact hemitted.trans (ih h₁ hok)

end

/-! ## Whole texts -/

/-- The tokens and the meanings in the table of `lex_init`. -/
def initTable : List (Tok × Identifier) :=
  keywords.map (fun t => (t, ⟨.undefined, 0⟩)) ++ library.map (fun f => (.id, ⟨.sys f, INT⟩)) ++
    [(.char, ⟨.undefined, 0⟩), (.id, ⟨.undefined, 0⟩)]

theorem initTable_clean : ∀ p ∈ initTable,
    p.1 = .id ∨ p.1.IsKeyword ∧ (p.1 = .int ∨ p.1 = .char ∨ p.2 = ⟨.undefined, 0⟩) := by
  decide

theorem opened_clean (base data : Word) (mem : Memory) (src : List UInt8) :
    ∃ s, opened base data mem src = .ok s ∧ s.Clean ∧ s.base = base + 4 := by
  have h : (opened base data mem src).map (fun s => (s.symbols.map fun y => (y.token, y.id), s.base)) =
      .ok (initTable, base + 4) := by cbv
  generalize opened base data mem src = r at h
  cases r with
  | error e => cases h
  | ok s =>
    rw [Except.map, Except.ok.injEq, Prod.mk.injEq] at h
    refine ⟨s, rfl, fun y hy => ?_, h.2⟩
    have hmem : (y.token, y.id) ∈ s.symbols.map fun y => (y.token, y.id) := List.mem_map_of_mem hy
    rw [h.1] at hmem
    exact initTable_clean _ hmem

section
variable {n : Nat} {base data : Word} {mem : Memory} {src : List UInt8} {file : LexedFile} {s : LexerContext}

/-- The functions of a text that is compiled are in the words of its compiler. -/
theorem source_compiled (h : program n base data mem src = .ok (file, s)) {text : Word → Word}
    (hloaded : Loaded ⟨base + 4, 0⟩ s.text text) :
    Compiled (base + 4) text (sourceProgram n base data mem src) := by
  obtain ⟨s₁, hopened, h⟩ := eq_ok_of_bind h
  obtain ⟨s₂, hnext, h⟩ := eq_ok_of_bind h
  obtain ⟨s₃, hdeclarations, h⟩ := eq_ok_of_bind h
  obtain rfl := (Prod.mk.inj (Except.ok.inj h)).2
  obtain ⟨t, ht, hclean, hbase⟩ := opened_clean base data mem src
  rw [hopened] at ht
  obtain rfl := Except.ok.inj ht
  obtain ⟨h₂, hsame⟩ := next_sound hclean hnext
  have hemitted := globalDeclarations_emitted h₂ hdeclarations
  rw [← hbase, ← hsame.base] at hloaded ⊢
  intro value f hf
  obtain ⟨p, hp, rfl⟩ := Option.map_eq_some_iff.mp hf
  have hmem := List.mem_of_find?_eq_some hp
  have hvalue := List.find?_some hp
  rw [beq_iff_eq] at hvalue
  rw [sourceFunctions, hopened] at hmem
  change p ∈ (match s₁.next with | .error _ => [] | .ok s => functionsOf n n s) at hmem
  rw [hnext] at hmem
  rw [← hvalue]
  exact hemitted.compiled text hloaded p hmem

/-- **A source text** that is compiled without an error runs to `EXIT` with what its `main` returns, and leaves the
memory as `main` does. -/
theorem source_exits (h : program n base data mem src = .ok (file, s)) {text : Word → Word}
    (hloaded : Loaded ⟨base + 4, 0⟩ s.text text) (sys : SysCall → Vm → Word × Memory) {k room : Nat}
    {stack argc argv v : Word} {args : List Word} {objects : Word → Bool} {st st' : Store}
    (hcall : (sourceProgram n base data mem src).call k (base + file.entry)
      (beforeMain s.placed stack (base + file.entry) argc argv).sp room args objects st = some (some v, st'))
    (hargs : args <:+ [argc, argv])
    (hpush : text (stack + 1014) = Op.push.code) (hexit : text (stack + 1018) = (Op.sys .exit).code)
    (hroom : room ≤ 251)
    (hapart : ∀ a, objects a = true →
      (a - (beforeMain s.placed stack (base + file.entry) argc argv).sp).toNat + 4 * room < 2 ^ 32)
    (hholds : Holds objects st (beforeMain s.placed stack (base + file.entry) argc argv).mem) :
    ∃ vm', Interpreter.Steps text sys (vmSetup s.placed stack (base + file.entry) argc argv) vm' ∧
      Op.decode (text vm'.pc) = some (.sys .exit) ∧ vm'.top = v ∧ Holds objects st' vm'.mem :=
  main_exits (source_compiled h hloaded) sys hcall hargs hpush hexit hroom hapart hholds

end

/-- A function that calls itself, and a `main` that calls it. -/
def sumSource : List UInt8 := ascii
  "int sum(int n){if(n)return n+sum(n-1);return 0;}int main(int argc,char *argv){int x;x=sum(argc);return x;}"

def sumOut : Except Stop (LexedFile × LexerContext) := program 12 0xFFC 0x8000 (fun _ => 0) sumSource

/-- The words of the functions, and those on the stack that `main` returns to. -/
def sumText (words : List Word) (a : Word) : Word :=
  if a = 0x9000 + 1014 then Op.push.code
  else if a = 0x9000 + 1018 then (Op.sys .exit).code
  else words.getD ((a - 0x1000).toNat / 4) 0

theorem sumText_loaded {words : List Word} (hlen : words.length = 48) : Loaded ⟨0x1000, 0⟩ words (sumText words) := by
  intro i hi
  have hnat : (BitVec.ofNat 32 i).toNat = i := BitVec.toNat_ofNat .. ▸ Nat.mod_eq_of_lt (by omega)
  have haddr : (Context.addr ⟨0x1000, 0⟩ i - 0x1000).toNat = 4 * i := by
    unfold Context.addr
    bv_omega
  have hfar (j : Word) (hj : 1014 ≤ j.toNat ∧ j.toNat ≤ 1018) : Context.addr ⟨0x1000, 0⟩ i ≠ 0x9000 + j := by
    unfold Context.addr
    bv_omega
  rw [sumText, if_neg (hfar 1014 (by decide)), if_neg (hfar 1018 (by decide)), haddr,
    Nat.mul_div_cancel_left i (by decide), List.getD, List.getElem?_eq_getElem hi, Option.getD_some]

theorem source_exits_sum : ∃ file s vm', sumOut = .ok (file, s) ∧
    Interpreter.Steps (sumText s.text) (fun _ vm => (0, vm.mem)) (vmSetup s.placed 0x9000 (0xFFC + file.entry) 3 0) vm' ∧
      Op.decode (sumText s.text vm'.pc) = some (.sys .exit) ∧ vm'.top = 6 := by
  have hout : (sumOut.toOption.map fun out => (out.1.entry, out.2.text.length)) = some (0x78, 48) := by decide +kernel
  have hmeaning : ((sourceProgram 12 0xFFC 0x8000 (fun _ => 0) sumSource).call 12 (0xFFC + 0x78)
      (beforeMain (fun _ => 0) 0x9000 (0xFFC + 0x78) 3 0).sp 100 [3, 0] (fun _ => false) fun _ => none).map Prod.fst =
        some (some 6) := by decide +kernel
  cases h : sumOut with
  | error e =>
    rw [h] at hout
    cases hout
  | ok out =>
    rw [h] at hout
    obtain ⟨hentry, hlen⟩ := Prod.mk.inj (Option.some.inj hout)
    obtain ⟨⟨v, st'⟩, hcall, rfl⟩ := Option.map_eq_some_iff.mp hmeaning
    have hentry : out.1.entry = 0x78 := hentry
    have hsp : (beforeMain out.2.placed 0x9000 (0xFFC + out.1.entry) 3 0).sp =
        (beforeMain (fun _ => 0) 0x9000 (0xFFC + 0x78) 3 0).sp := rfl
    rw [← hsp, ← hentry] at hcall
    obtain ⟨vm', hsteps, hexit, htop, -⟩ := source_exits h (sumText_loaded hlen) (fun _ vm => (0, vm.mem)) hcall
      List.suffix_rfl (if_pos rfl) ((if_neg (by decide)).trans (if_pos rfl)) (by decide)
      (fun a ha => absurd ha Bool.false_ne_true) (fun a b ha => absurd ha Bool.false_ne_true)
    exact ⟨out.1, out.2, vm', rfl, hsteps, hexit, htop⟩

end RetrOS.Lex
