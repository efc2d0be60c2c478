import RetrOS.Developer.Scan
import RetrOS.Lib.Outcome

/-!
# The compiler comes to an end

Every loop of the parser reads a token in each turn, and so does every call of `expression` and `statement` before the
next one. A text whose entries fit in the table is therefore compiled or rejected.

* `Fine` : the rest of the text has no open literal, and its entries leave one of the table free;
* `Below` : less is left than a number;
* `expression_ends`, `statement_ends` : less is left behind a call, or the text is rejected;
* `globalDeclarations_ends` : so does the loop of `program`.
-/

namespace RetrOS.Lex
open RetrOS.Interpreter LexerContext

/-- What a rejected text ends with: one of the messages. -/
def Stop.IsRejected (e : Stop) : Prop := ∃ error < lexErrors.length, e = .rejected error

/-- The text is rejected, or the result has the property. -/
abbrev Ended {α : Type} (post : α → Prop) (r : Except Stop α) : Prop := Ends Stop.IsRejected post r

theorem ended_reject {α : Type} {post : α → Prop} {error : Nat} (h : error < lexErrors.length) :
    Ended post (reject error : Except Stop α) := ⟨error, h, rfl⟩

namespace LexerContext

/-- The entries behind the text leave one of the table free. -/
def Fine (s : LexerContext) : Prop := ∃ keys, s.total = some keys ∧ keys.length < lexMaxSymbols

/-- Less than `n` is left. -/
structure Below (n : Nat) (s : LexerContext) : Prop where
  fine : s.Fine
  lt : s.left < n

/-- What decides where the text ends. -/
def rest (s : LexerContext) : List UInt8 × Tok × List Key := (s.src, s.token, s.keys)

variable {s s' : LexerContext} {m n : Nat}

theorem Below.le (h : Below m s) (hmn : m ≤ n) : Below n s := ⟨h.fine, Nat.lt_of_lt_of_le h.lt hmn⟩

theorem Below.then (h : Below n s) (h' : Below s.left s') : Below n s' := h'.le (Nat.le_of_lt h.lt)

/-- The bound of a loop, behind a turn of it. -/
theorem Below.turn (h : Below (n + 1) s) (h' : Below s.left s') : Below n s' := h'.le (Nat.le_of_lt_succ h.lt)

theorem fine_same (hrest : s'.rest = s.rest) : s'.Fine ↔ s.Fine := by
  obtain ⟨hsrc, -, hkeys⟩ := by simpa only [rest, Prod.mk.injEq] using hrest
  rw [Fine, Fine, total, total, totalFrom, totalFrom, hsrc, hkeys]

theorem left_same (hrest : s'.rest = s.rest) : s'.left = s.left := by
  obtain ⟨hsrc, htoken, -⟩ := by simpa only [rest, Prod.mk.injEq] using hrest
  rw [left, left, hsrc, htoken]

theorem Below.same (h : Below n s) (hrest : s'.rest = s.rest) : Below n s' :=
  ⟨(fine_same hrest).mpr h.fine, left_same hrest ▸ h.lt⟩

theorem Below.emit (h : Below n s) (words : List Word) : Below n (s.emit words) := h.same rfl

theorem Below.patch (h : Below n s) (k : Nat) (w : Word) : Below n (s.patch k w) := h.same rfl

theorem Fine.length_lt (h : s.Fine) : s.symbols.length < lexMaxSymbols := by
  obtain ⟨keys, hk, hlt⟩ := h
  obtain ⟨names, -, rfl⟩ := Option.map_eq_some_iff.mp hk
  rw [← length_keys]
  exact Nat.lt_of_le_of_lt (length_le_foldl_addName names s.keys) hlt

theorem rest_setCurrent {f : Symbol → Symbol} (hf : ∀ y, (f y).key = y.key) : (s.setCurrent f).rest = s.rest := by
  have hkeys : (s.setCurrent f).keys = s.keys := by
    refine List.ext_getElem? fun i => ?_
    rw [keys, keys, setCurrent, List.getElem?_map, List.getElem?_map, List.getElem?_modify]
    cases s.symbols[i]? with
    | none => rfl
    | some y =>
      by_cases hi : s.currentId = i
      · simp only [hi, if_true, Option.map_eq_map, Option.map_some, hf]
      · simp only [hi, if_false, Option.map_eq_map, Option.map_some]
  rw [rest, hkeys]
  rfl

/-! ## Tokens -/

theorem next_ends (h : s.Fine) : Ended (fun s' => s'.Fine ∧ s'.left ≤ s.src.length) s.next := by
  obtain ⟨keys, hk, hlt⟩ := h
  have hreads := s.reads_nextFrom s.src
  rw [next]
  cases hr : s.nextFrom s.src with
  | ok s' =>
    rw [hr] at hreads
    exact ⟨⟨keys, hreads.total.trans hk, hlt⟩, hreads.left_le⟩
  | error e =>
    rw [hr] at hreads
    exact absurd (hreads keys hk) (Nat.lt_asymm hlt)

theorem left_of_token (hs : s.token ≠ .eof) : s.left = s.src.length + 1 := by rw [left, if_neg hs]

theorem next_below (h : s.Fine) (hs : s.token ≠ .eof) : Ended (Below s.left) s.next :=
  (next_ends h).imp fun _ hs' => ⟨hs'.1, left_of_token hs ▸ Nat.lt_succ_of_le hs'.2⟩

theorem matchTok_ends {tk : Tok} (h : s.Fine) (htk : tk ≠ .eof) : Ended (Below s.left) (s.matchTok tk) :=
  .of_ite (fun hs => next_below h (hs ▸ htk)) fun _ => ended_reject (by decide)

theorem matchTok_below {tk : Tok} (h : Below n s) (htk : tk ≠ .eof) : Ended (Below n) (s.matchTok tk) :=
  (matchTok_ends h.fine htk).imp fun _ => h.then

theorem optional_below {tk : Tok} (h : Below n s) (htk : tk ≠ .eof) : Ended (Below n) (s.optional tk) :=
  .of_ite (fun _ => matchTok_below h htk) fun _ => .ok h

theorem skip_below {tk : Tok} (htk : tk ≠ .eof) :
    ∀ (k : Nat) (s : LexerContext), Below k s → Below n s → Ended (fun p => Below n p.2) (skip tk k s)
  | 0, s, hk, _ => absurd hk.lt (Nat.not_lt_zero _)
  | k + 1, s, hk, hn => by
    rw [skip]
    refine .of_ite (fun _ => ?_) fun _ => .ok hn
    refine Ends.bind (matchTok_ends hk.fine htk) fun s₁ h₁ => ?_
    exact Ends.bind (skip_below htk k s₁ (hk.turn h₁) (hn.then h₁)) fun p hp => .ok hp

theorem typeName_below {k : Nat} (hk : Below k s) (hn : Below n s) : Ended (fun p => Below n p.2) (s.typeName k) := by
  unfold typeName
  refine .of_ite (fun hs => ?_) fun _ => (skip_below (by decide) k s hk hn).bind fun _ hp => .ok hp
  have htoken : s.token ≠ .eof := fun heof => by
    rw [heof] at hs
    rcases hs with hs | hs <;> cases hs
  refine Ends.bind (matchTok_ends hk.fine htoken) fun s₁ h₁ => ?_
  exact Ends.bind (skip_below (by decide) k s₁ (hk.then h₁) (hn.then h₁)) fun _ hp => .ok hp

theorem takeLoad_ends (s : LexerContext) {error : Nat} (h : error < lexErrors.length) :
    Ended (fun p => p.1.rest = s.rest) (s.takeLoad error) := by
  unfold takeLoad
  split
  · exact .of_ite (fun _ => .ok rfl) fun _ => ended_reject h
  · exact ended_reject h

end LexerContext

theorem incDec_tok (tmp : IncDec) : tmp.tok ≠ .eof := by cases tmp <;> decide

theorem junction_tok (j : Junction) : j.tok ≠ .eof := by cases j <;> decide

theorem binOp_tok (op : BinOp) : op.tok ≠ .eof := by cases op <;> decide

/-! ## Expressions -/

/-- Every call on less than `n` reads a token. -/
def Steps (n : Nat) (f : LexerContext → Parsed) : Prop := ∀ s, Below n s → Ended (Below s.left) (f s)

theorem Steps.below {n m : Nat} {f : LexerContext → Parsed} {s : LexerContext} (hf : Steps n f) (hmn : m ≤ n)
    (h : Below m s) : Ended (Below m) (f s) := (hf s (h.le hmn)).imp fun _ => h.then

/-- The same of `expression`, at every level. -/
def Consumes (fuel : Nat) (expr : Tok → LexerContext → Parsed) : Prop := ∀ level, Steps fuel (expr level)

section
variable {expr : Tok → LexerContext → Parsed} {fuel : Nat} {s s₁ : LexerContext}

/-- An operand behind the first token. -/
theorem Consumes.inner (hexpr : Consumes fuel expr) (h : Below (fuel + 1) s) (h₁ : Below s.left s₁) (level : Tok) :
    Ended (Below s.left) (expr level s₁) := (hexpr level).below (Nat.le_of_lt_succ h.lt) h₁

theorem number_ends (h : s.Fine) : Ended (Below s.left) (number s) := by
  unfold number
  exact Ends.bind (matchTok_ends h (by decide)) fun s₁ h₁ => .ok (h₁.same rfl)

theorem string_ends (h : Below (fuel + 1) s) : Ended (Below s.left) (string fuel s) := by
  unfold string
  refine Ends.bind (matchTok_ends h.fine (by decide)) fun s₁ h₁ => ?_
  exact Ends.bind (skip_below (by decide) fuel s₁ (h.turn h₁) h₁) fun ⟨_, s₂⟩ h₂ => .ok (h₂.same rfl)

theorem arguments_below (hexpr : Consumes fuel expr) {m : Nat} (hm : m ≤ fuel) :
    ∀ (n tmp : Nat) (s : LexerContext), Below n s → Below m s →
      Ended (fun p => Below m p.2) (arguments expr n tmp s)
  | 0, _, _, hn, _ => absurd hn.lt (Nat.not_lt_zero _)
  | n + 1, tmp, s, hn, h => by
    rw [arguments]
    refine .of_ite (fun _ => .ok h) fun _ => ?_
    refine Ends.bind (hexpr .assign s (h.le hm)) fun s₁ h₁ => ?_
    refine Ends.bind (optional_below (h₁.emit _) (by decide)) fun s₂ h₂ => ?_
    exact arguments_below hexpr hm n (tmp + 1) s₂ (hn.turn h₂) (h.then h₂)

theorem functionCall_below (hexpr : Consumes fuel expr) {m : Nat} (hm : m ≤ fuel) (h : Below m s) (id : Identifier) :
    Ended (Below m) (functionCall expr fuel s id) := by
  unfold functionCall
  refine Ends.bind (matchTok_below h (by decide)) fun s₁ h₁ => ?_
  refine Ends.bind (arguments_below hexpr hm fuel 0 s₁ (h₁.le hm) h₁) fun ⟨tmp, s₂⟩ h₂ => ?_
  refine Ends.bind (matchTok_below h₂ (by decide)) fun s₃ h₃ => ?_
  cases id.class_.callee with
  | some f => exact .ok (h₃.same rfl)
  | none => exact ended_reject (by decide)

theorem variable_below {m : Nat} (h : Below m s) (id : Identifier) : Ended (Below m) (variable_ s id) := by
  unfold variable_
  split
  · exact .ok (h.same rfl)
  · exact .ok (h.same rfl)
  · exact .ok (h.same rfl)
  · exact ended_reject (by decide)

theorem identifier_ends (hexpr : Consumes fuel expr) (h : Below (fuel + 1) s) :
    Ended (Below s.left) (Lex.identifier expr fuel s) := by
  unfold Lex.identifier
  refine Ends.bind (matchTok_ends h.fine (by decide)) fun s₁ h₁ => ?_
  refine .of_ite (fun _ => ?_) fun _ => variable_below h₁ _
  exact functionCall_below hexpr (Nat.le_of_lt_succ h.lt) h₁ _

theorem parenthesis_ends (hexpr : Consumes fuel expr) (h : Below (fuel + 1) s) :
    Ended (Below s.left) (parenthesis expr fuel s) := by
  unfold parenthesis
  refine Ends.bind (matchTok_ends h.fine (by decide)) fun s₁ h₁ => ?_
  refine .of_ite (fun _ => ?_) fun _ => ?_
  · refine Ends.bind (typeName_below (h.turn h₁) h₁) fun ⟨tmp, s₂⟩ h₂ => ?_
    refine Ends.bind (matchTok_below h₂ (by decide)) fun s₃ h₃ => ?_
    exact Ends.bind (hexpr.inner h h₃ .inc) fun s₄ h₄ => .ok (h₄.same rfl)
  · exact Ends.bind (hexpr.inner h h₁ .assign) fun s₂ h₂ => matchTok_below h₂ (by decide)

theorem dereference_ends (hexpr : Consumes fuel expr) (h : Below (fuel + 1) s) :
    Ended (Below s.left) (dereference expr s) := by
  unfold dereference
  refine Ends.bind (matchTok_ends h.fine (by decide)) fun s₁ h₁ => ?_
  refine Ends.bind (hexpr.inner h h₁ .inc) fun s₂ h₂ => ?_
  exact .of_ite (fun _ => .ok (h₂.same rfl)) fun _ => ended_reject (by decide)

theorem addressOf_ends (hexpr : Consumes fuel expr) (h : Below (fuel + 1) s) :
    Ended (Below s.left) (addressOf expr s) := by
  unfold addressOf
  refine Ends.bind (matchTok_ends h.fine (by decide)) fun s₁ h₁ => ?_
  refine Ends.bind (hexpr.inner h h₁ .inc) fun s₂ h₂ => ?_
  exact Ends.bind (takeLoad_ends s₂ (by decide)) fun ⟨s₃, _⟩ h₃ => .ok (h₂.same h₃)

theorem sizeOf_ends (h : Below (fuel + 1) s) : Ended (Below s.left) (Lex.sizeOf fuel s) := by
  unfold Lex.sizeOf
  refine Ends.bind (matchTok_ends h.fine (by decide)) fun s₁ h₁ => ?_
  refine Ends.bind (matchTok_below h₁ (by decide)) fun s₂ h₂ => ?_
  refine Ends.bind (typeName_below (h.turn h₂) h₂) fun ⟨type, s₃⟩ h₃ => ?_
  exact Ends.bind (matchTok_below h₃ (by decide)) fun s₄ h₄ => .ok (h₄.same rfl)

/-- `!`, `~` and `+` : a token, an operand and the words behind it. -/
theorem prefix_ends (hexpr : Consumes fuel expr) (h : Below (fuel + 1) s) {tk : Tok} (htk : tk ≠ .eof)
    {f : LexerContext → LexerContext} (hf : ∀ s, (f s).rest = s.rest) :
    Ended (Below s.left) (s.matchTok tk >>= fun s => expr .inc s >>= fun s => .ok (f s)) := by
  refine Ends.bind (matchTok_ends h.fine htk) fun s₁ h₁ => ?_
  exact Ends.bind (hexpr.inner h h₁ .inc) fun s₂ h₂ => .ok (h₂.same (hf s₂))

theorem minus_ends (hexpr : Consumes fuel expr) (h : Below (fuel + 1) s) : Ended (Below s.left) (minus expr s) := by
  unfold minus
  refine Ends.bind (matchTok_ends h.fine (by decide)) fun s₁ h₁ => ?_
  refine .of_ite (fun _ => ?_) fun _ => ?_
  · exact Ends.bind (matchTok_below (h₁.emit _) (by decide)) fun s₂ h₂ => .ok (h₂.same rfl)
  · exact Ends.bind (hexpr.inner h (h₁.emit _) .inc) fun s₂ h₂ => .ok (h₂.same rfl)

theorem preIncrement_ends (hexpr : Consumes fuel expr) (h : Below (fuel + 1) s) (tmp : IncDec) :
    Ended (Below s.left) (preIncrement expr s tmp) := by
  unfold preIncrement
  refine Ends.bind (matchTok_ends h.fine (incDec_tok tmp)) fun s₁ h₁ => ?_
  refine Ends.bind (hexpr.inner h h₁ .inc) fun s₂ h₂ => ?_
  exact Ends.bind (takeLoad_ends s₂ (by decide)) fun ⟨s₃, _⟩ h₃ => .ok (h₂.same h₃)

theorem unit_ends (hexpr : Consumes fuel expr) (h : Below (fuel + 1) s) : Ended (Below s.left) (unit expr fuel s) := by
  unfold unit
  split
  · exact ended_reject (by decide)
  · exact number_ends h.fine
  · exact string_ends h
  · exact sizeOf_ends h
  · exact identifier_ends hexpr h
  · exact parenthesis_ends hexpr h
  · exact dereference_ends hexpr h
  · exact addressOf_ends hexpr h
  · exact prefix_ends hexpr h (by decide) fun _ => rfl
  · exact prefix_ends hexpr h (by decide) fun _ => rfl
  · exact prefix_ends hexpr h (by decide) fun _ => rfl
  · exact minus_ends hexpr h
  · exact preIncrement_ends hexpr h .inc
  · exact preIncrement_ends hexpr h .dec
  · exact ended_reject (by decide)

/-! ## Operators -/

theorem assignment_ends (hexpr : Consumes fuel expr) (h : Below (fuel + 1) s) :
    Ended (Below s.left) (assignment expr s) := by
  unfold assignment
  refine Ends.bind (matchTok_ends h.fine (by decide)) fun s₁ h₁ => ?_
  refine Ends.bind (takeLoad_ends s₁ (by decide)) fun ⟨s₂, _⟩ h₂ => ?_
  exact Ends.bind (hexpr.inner h ((h₁.same h₂).emit _) .assign) fun s₃ h₃ => .ok (h₃.same rfl)

theorem conditional_ends (hexpr : Consumes fuel expr) (h : Below (fuel + 1) s) :
    Ended (Below s.left) (conditional expr s) := by
  unfold conditional
  dsimp only
  refine Ends.bind (matchTok_ends h.fine (by decide)) fun s₁ h₁ => ?_
  refine Ends.bind (hexpr.inner h ((h₁.emit _).emit _) .assign) fun s₂ h₂ => ?_
  refine .of_ite (fun _ => ?_) fun _ => ended_reject (by decide)
  refine Ends.bind (matchTok_below h₂ (by decide)) fun s₃ h₃ => ?_
  exact Ends.bind (hexpr.inner h (((h₃.patch _ _).emit _).emit _) .cond) fun s₄ h₄ => .ok (h₄.same rfl)

theorem logical_ends (hexpr : Consumes fuel expr) (h : Below (fuel + 1) s) (j : Junction) :
    Ended (Below s.left) (logical expr s j) := by
  unfold logical
  dsimp only
  refine Ends.bind (matchTok_ends h.fine (junction_tok j)) fun s₁ h₁ => ?_
  exact Ends.bind (hexpr.inner h ((h₁.emit _).emit _) _) fun s₂ h₂ => .ok (h₂.same rfl)

theorem binary_ends (hexpr : Consumes fuel expr) (h : Below (fuel + 1) s) (op : BinOp) :
    Ended (Below s.left) (binary expr s op) := by
  unfold binary
  refine Ends.bind (matchTok_ends h.fine (binOp_tok op)) fun s₁ h₁ => ?_
  exact Ends.bind (hexpr.inner h (h₁.emit _) _) fun s₂ h₂ => .ok (h₂.same rfl)

theorem postIncrement_ends (h : Below (fuel + 1) s) (tmp : IncDec) : Ended (Below s.left) (postIncrement s tmp) := by
  unfold postIncrement
  refine Ends.bind (takeLoad_ends s (by decide)) fun ⟨s₁, w⟩ h₁ => ?_
  have hs₁ := (fine_same h₁).mpr h.fine
  rw [← left_same h₁]
  exact matchTok_ends hs₁ (incDec_tok tmp)

theorem bracket_ends (hexpr : Consumes fuel expr) (h : Below (fuel + 1) s) : Ended (Below s.left) (bracket expr s) := by
  unfold bracket
  refine Ends.bind (matchTok_ends h.fine (by decide)) fun s₁ h₁ => ?_
  refine Ends.bind (hexpr.inner h (h₁.emit _) .assign) fun s₂ h₂ => ?_
  refine Ends.bind (matchTok_below h₂ (by decide)) fun s₃ h₃ => ?_
  exact .of_ite (fun _ => ended_reject (by decide)) fun _ => .ok (h₃.same rfl)

theorem operator_ends (hexpr : Consumes fuel expr) (h : Below (fuel + 1) s) :
    Ended (Below s.left) (operator expr s) := by
  unfold operator
  split
  all_goals first
    | exact assignment_ends hexpr h
    | exact conditional_ends hexpr h
    | exact logical_ends hexpr h _
    | exact binary_ends hexpr h _
    | exact postIncrement_ends h _
    | exact bracket_ends hexpr h
    | exact ended_reject (by decide)

theorem operators_below (hexpr : Consumes fuel expr) {m : Nat} (hm : m ≤ fuel + 1) (level : Tok) :
    ∀ (n : Nat) (s : LexerContext), Below n s → Below m s → Ended (Below m) (operators expr level n s)
  | 0, _, hn, _ => absurd hn.lt (Nat.not_lt_zero _)
  | n + 1, s, hn, h => by
    rw [operators]
    refine .of_ite (fun _ => ?_) fun _ => .ok h
    refine Ends.bind (operator_ends hexpr (h.le hm)) fun s₁ h₁ => ?_
    exact operators_below hexpr hm level n s₁ (hn.turn h₁) (h.then h₁)

end

theorem expression_ends : ∀ fuel, Consumes fuel (expression fuel)
  | 0, _, _, h => absurd h.lt (Nat.not_lt_zero _)
  | fuel + 1, level, s, h => by
    rw [expression]
    have hexpr := expression_ends fuel
    refine Ends.bind (unit_ends hexpr h) fun s₁ h₁ => ?_
    exact operators_below hexpr (Nat.le_of_lt h.lt) level fuel s₁ (h.turn h₁) h₁

/-! ## Statements -/

section
variable {expr stmt : LexerContext → Parsed} {fuel m : Nat} {s : LexerContext}

theorem condition_below (hexpr : Steps fuel expr) (hm : m ≤ fuel) (h : Below m s) :
    Ended (Below m) (condition expr s) := by
  unfold condition
  refine Ends.bind (matchTok_below h (by decide)) fun s₁ h₁ => ?_
  exact Ends.bind (hexpr.below hm h₁) fun s₂ h₂ => matchTok_below h₂ (by decide)

theorem ifStatement_ends (hexpr : Steps fuel expr) (hstmt : Steps m stmt) (hm : s.left ≤ m) (h : Below fuel s) :
    Ended (Below s.left) (ifStatement expr stmt s) := by
  unfold ifStatement
  dsimp only
  refine Ends.bind (matchTok_ends h.fine (by decide)) fun s₁ h₁ => ?_
  refine Ends.bind (condition_below hexpr (Nat.le_of_lt h.lt) h₁) fun s₂ h₂ => ?_
  refine Ends.bind (hstmt.below hm ((h₂.emit _).emit _)) fun s₃ h₃ => ?_
  refine .of_ite (fun _ => ?_) fun _ => .ok (h₃.same rfl)
  refine Ends.bind (matchTok_below h₃ (by decide)) fun s₄ h₄ => ?_
  exact Ends.bind (hstmt.below hm (((h₄.patch _ _).emit _).emit _)) fun s₅ h₅ => .ok (h₅.same rfl)

theorem whileStatement_ends (hexpr : Steps fuel expr) (hstmt : Steps m stmt) (hm : s.left ≤ m) (h : Below fuel s) :
    Ended (Below s.left) (whileStatement expr stmt s) := by
  unfold whileStatement
  dsimp only
  refine Ends.bind (matchTok_ends h.fine (by decide)) fun s₁ h₁ => ?_
  refine Ends.bind (condition_below hexpr (Nat.le_of_lt h.lt) h₁) fun s₂ h₂ => ?_
  exact Ends.bind (hstmt.below hm ((h₂.emit _).emit _)) fun s₃ h₃ => .ok (h₃.same rfl)

theorem statements_below (hstmt : Steps fuel stmt) (hm : m ≤ fuel) :
    ∀ (n : Nat) (s : LexerContext), Below n s → Below m s → Ended (Below m) (statements stmt n s)
  | 0, _, hn, _ => absurd hn.lt (Nat.not_lt_zero _)
  | n + 1, s, hn, h => by
    rw [statements]
    refine .of_ite (fun _ => .ok h) fun _ => ?_
    refine Ends.bind (hstmt s (h.le hm)) fun s₁ h₁ => ?_
    exact statements_below hstmt hm n s₁ (hn.turn h₁) (h.then h₁)

theorem blockStatement_ends (hstmt : Steps fuel stmt) (h : Below (fuel + 1) s) :
    Ended (Below s.left) (blockStatement stmt s fuel) := by
  unfold blockStatement
  refine Ends.bind (matchTok_ends h.fine (by decide)) fun s₁ h₁ => ?_
  refine Ends.bind (statements_below hstmt (Nat.le_of_lt_succ h.lt) fuel s₁ (h.turn h₁) h₁) fun s₂ h₂ => ?_
  exact matchTok_below h₂ (by decide)

theorem returnStatement_ends (hexpr : Steps fuel expr) (h : Below fuel s) :
    Ended (Below s.left) (returnStatement expr s) := by
  unfold returnStatement
  refine Ends.bind (matchTok_ends h.fine (by decide)) fun s₁ h₁ => ?_
  refine .of_ite (fun _ => ?_) fun _ => ?_
  · refine Ends.bind (hexpr.below (Nat.le_of_lt h.lt) h₁) fun s₂ h₂ => ?_
    exact Ends.bind (matchTok_below h₂ (by decide)) fun s₃ h₃ => .ok (h₃.same rfl)
  · refine Ends.bind (.ok h₁) fun s₂ h₂ => ?_
    exact Ends.bind (matchTok_below h₂ (by decide)) fun s₃ h₃ => .ok (h₃.same rfl)

theorem expressionStatement_ends (hexpr : Steps fuel expr) (h : Below fuel s) :
    Ended (Below s.left) (expressionStatement expr s) := by
  unfold expressionStatement
  exact Ends.bind (hexpr s h) fun s₁ h₁ => matchTok_below h₁ (by decide)

end

theorem statement_ends : ∀ fuel, Steps fuel (statement fuel)
  | 0, _, h => absurd h.lt (Nat.not_lt_zero _)
  | fuel + 1, s, h => by
    rw [statement]
    have hexpr := expression_ends (fuel + 1) .assign
    have hstmt := statement_ends fuel
    have hs : s.left ≤ fuel := Nat.le_of_lt_succ h.lt
    split
    · exact ifStatement_ends hexpr hstmt hs h
    · exact whileStatement_ends hexpr hstmt hs h
    · exact blockStatement_ends hstmt h
    · exact returnStatement_ends hexpr h
    · exact matchTok_ends h.fine (by decide)
    · exact expressionStatement_ends hexpr h

/-! ## Declarations -/

section
variable {n m : Nat} {s : LexerContext}

theorem localName_ends (h : s.Fine) (value : Word) (type : Nat) {bad duplicate : Nat} (hbad : bad < lexErrors.length)
    (hduplicate : duplicate < lexErrors.length) : Ended (Below s.left) (localName s value type bad duplicate) := by
  unfold localName
  refine .of_ite (fun _ => ended_reject hbad) fun _ => ?_
  refine .of_ite (fun _ => ended_reject hduplicate) fun _ => ?_
  refine Ends.bind (matchTok_ends h (by decide)) fun s₁ h₁ => ?_
  exact optional_below (h₁.same (rest_setCurrent fun _ => rfl)) (by decide)

theorem functionParameter_below (hm : m ≤ n) : ∀ (k params : Nat) (s : LexerContext), Below k s → Below m s →
    Ended (Below m) (functionParameter n k params s)
  | 0, _, _, hk, _ => absurd hk.lt (Nat.not_lt_zero _)
  | k + 1, params, s, hk, h => by
    rw [functionParameter]
    refine .of_ite (fun _ => .ok (h.same rfl)) fun _ => ?_
    have hname : Ended (fun p => Below (s.left + 1) p.2) (s.typeName n) :=
      typeName_below (h.le hm) ⟨h.fine, Nat.lt_succ_self _⟩
    refine Ends.bind hname fun ⟨type, s₁⟩ h₁ => ?_
    refine Ends.bind (localName_ends h₁.fine _ _ (by decide) (by decide)) fun s₂ h₂ => ?_
    have hs₂ : Below s.left s₂ := h₁.turn h₂
    exact functionParameter_below hm k (params + 1) s₂ (hk.turn hs₂) (h.then hs₂)

theorem localNames_below (hm : m ≤ n) : ∀ (k locals : Nat) (s : LexerContext), Below k s → Below m s →
    Ended (fun p => Below m p.2) (localNames n k locals s)
  | 0, _, _, hk, _ => absurd hk.lt (Nat.not_lt_zero _)
  | k + 1, locals, s, hk, h => by
    rw [localNames]
    refine .of_ite (fun _ => .ok h) fun _ => ?_
    have hstars : Ended (fun p => Below (s.left + 1) p.2) (s.skip .mul n) :=
      skip_below (by decide) n s (h.le hm) ⟨h.fine, Nat.lt_succ_self _⟩
    refine Ends.bind hstars fun ⟨stars, s₁⟩ h₁ => ?_
    refine Ends.bind (localName_ends h₁.fine _ _ (by decide) (by decide)) fun s₂ h₂ => ?_
    have hs₂ : Below s.left s₂ := h₁.turn h₂
    exact localNames_below hm k (locals + 1) s₂ (hk.turn hs₂) (h.then hs₂)

theorem localDeclarations_below (hm : m ≤ n) : ∀ (k locals : Nat) (s : LexerContext), Below k s → Below m s →
    Ended (fun p => Below m p.2) (localDeclarations n k locals s)
  | 0, _, _, hk, _ => absurd hk.lt (Nat.not_lt_zero _)
  | k + 1, locals, s, hk, h => by
    rw [localDeclarations]
    refine .of_ite (fun hs => ?_) fun _ => .ok h
    have htoken : s.token ≠ .eof := by rcases hs with hs | hs <;> rw [hs] <;> decide
    refine Ends.bind (matchTok_ends ((fine_same rfl).mpr h.fine) htoken) fun s₁ h₁ => ?_
    have hs₁ : Below s.left s₁ := h₁
    have hn : s.left ≤ n := Nat.le_trans (Nat.le_of_lt h.lt) hm
    refine Ends.bind (localNames_below hn n locals s₁ (hs₁.le hn) hs₁) fun ⟨locals, s₂⟩ h₂ => ?_
    refine Ends.bind (matchTok_below h₂ (by decide)) fun s₃ h₃ => ?_
    exact localDeclarations_below hm k locals s₃ (hk.turn h₃) (h.then h₃)

theorem functionBody_below (hm : m ≤ n) (h : Below m s) : Ended (Below m) (functionBody n s) := by
  unfold functionBody
  refine Ends.bind (localDeclarations_below hm n 0 s (h.le hm) h) fun ⟨locals, s₁⟩ h₁ => ?_
  have hs₁ : Below m (s₁.emit [Op.ent.code, BitVec.ofNat 32 locals]) := h₁.emit _
  exact Ends.bind (statements_below (statement_ends n) hm n _ (hs₁.le hm) hs₁) fun s₂ h₂ => .ok (h₂.emit _)

theorem unwind_below (h : Below m s) : Ended (Below m) (unwind s) := by
  rw [unwind, if_pos h.fine.length_lt]
  refine .ok (h.same ?_)
  rw [rest, rest, keys, keys, List.map_map]
  congr 3
  funext y
  rw [Function.comp_apply]
  split <;> rfl

theorem functionDeclaration_below (hm : m ≤ n) (h : Below m s) : Ended (Below m) (functionDeclaration n s) := by
  unfold functionDeclaration
  refine Ends.bind (matchTok_below h (by decide)) fun s₁ h₁ => ?_
  refine Ends.bind (functionParameter_below hm n 0 s₁ (h₁.le hm) h₁) fun s₂ h₂ => ?_
  refine Ends.bind (matchTok_below h₂ (by decide)) fun s₃ h₃ => ?_
  refine Ends.bind (matchTok_below h₃ (by decide)) fun s₄ h₄ => ?_
  exact Ends.bind (functionBody_below hm h₄) fun s₅ h₅ => unwind_below h₅

theorem enumValue_below (i : Word) (h : Below m s) : Ended (fun p => Below m p.2) (enumValue i s) := by
  unfold enumValue
  refine .of_ite (fun hs => ?_) fun _ => .ok h
  refine Ends.bind (next_below h.fine (by rw [hs]; decide)) fun s₁ h₁ => ?_
  refine .of_ite (fun _ => ended_reject (by decide)) fun hnum => ?_
  refine Ends.bind (next_below h₁.fine (by rw [not_not.mp hnum]; decide)) fun s₂ h₂ => ?_
  exact .ok (h.then (h₁.then h₂))

theorem enumDeclaration_below : ∀ (k : Nat) (i : Word) (s : LexerContext), Below k s → Below m s →
    Ended (Below m) (enumDeclaration k i s)
  | 0, _, _, hk, _ => absurd hk.lt (Nat.not_lt_zero _)
  | k + 1, i, s, hk, h => by
    rw [enumDeclaration]
    refine .of_ite (fun _ => .ok h) fun _ => ?_
    refine .of_ite (fun _ => ended_reject (by decide)) fun hid => ?_
    refine Ends.bind (next_below h.fine (by rw [not_not.mp hid]; decide)) fun s₁ h₁ => ?_
    refine Ends.bind (enumValue_below i h₁) fun ⟨j, s₂⟩ h₂ => ?_
    dsimp only
    have h₃ : Below s.left (s₂.setCurrent fun y => { y with id := ⟨.num j, INT⟩ }) :=
      h₂.same (rest_setCurrent fun _ => rfl)
    refine .of_ite (fun hcomma => ?_) fun _ => enumDeclaration_below k (j + 1) _ (hk.turn h₃) (h.then h₃)
    refine Ends.bind (next_below h₃.fine (by rw [hcomma]; decide)) fun s₄ h₄ => ?_
    exact enumDeclaration_below k (j + 1) s₄ (hk.turn (h₃.then h₄)) (h.then (h₃.then h₄))

/-- The part of an `enum` behind its name. -/
theorem enumeration_below (hm : m ≤ n) (h : Below m s) :
    Ended (Below m) (do
      let s ← if s.token = .lbrace then do
          let s ← s.matchTok .lbrace
          let s ← enumDeclaration n 0 s
          s.matchTok .rbrace
        else .ok s
      s.matchTok .semicolon) := by
  refine .of_ite (fun _ => ?_) fun _ => Ends.bind (.ok h) fun s₁ h₁ => matchTok_below h₁ (by decide)
  refine Ends.bind (matchTok_below h (by decide)) fun s₁ h₁ => ?_
  refine Ends.bind (enumDeclaration_below n 0 s₁ (h₁.le hm) h₁) fun s₂ h₂ => ?_
  exact Ends.bind (matchTok_below h₂ (by decide)) fun s₃ h₃ => matchTok_below h₃ (by decide)

theorem enumeration_ends (h : Below n s) : Ended (Below s.left) (enumeration n s) := by
  unfold enumeration
  refine Ends.bind (matchTok_ends h.fine (by decide)) fun s₁ h₁ => ?_
  refine .of_ite (fun _ => ?_) fun _ => ?_
  · refine Ends.bind (matchTok_below h₁ (by decide)) fun s₂ h₂ => ?_
    exact enumeration_below (Nat.le_of_lt h.lt) h₂
  · exact enumeration_below (Nat.le_of_lt h.lt) h₁

theorem globalName_below (hm : m ≤ n) (h : Below m s) : Ended (Below m) (globalName n s) := by
  unfold globalName
  refine .of_ite (fun _ => ?_) fun _ => ?_
  · exact functionDeclaration_below hm (h.same (rest_setCurrent fun _ => rfl))
  · have hs : Below m (s.setCurrent fun y => { y with id := ⟨.glo s.data, y.id.type⟩ }) :=
      h.same (rest_setCurrent fun _ => rfl)
    exact .ok (hs.same rfl)

theorem globalNames_below (hm : m ≤ n) : ∀ (k : Nat) (s : LexerContext), Below k s → Below m s →
    Ended (fun s' => Below m s' ∧ s'.token ≠ .eof) (globalNames n k s)
  | 0, _, hk, _ => absurd hk.lt (Nat.not_lt_zero _)
  | k + 1, s, hk, h => by
    rw [globalNames]
    refine .of_ite (fun hs => .ok ⟨h, by rcases hs with hs | hs <;> rw [hs] <;> decide⟩) fun _ => ?_
    have hstars : Ended (fun p => Below (s.left + 1) p.2) (s.skip .mul n) :=
      skip_below (by decide) n s (h.le hm) ⟨h.fine, Nat.lt_succ_self _⟩
    refine Ends.bind hstars fun ⟨stars, s₁⟩ h₁ => ?_
    refine .of_ite (fun _ => ended_reject (by decide)) fun _ => ?_
    refine .of_ite (fun _ => ended_reject (by decide)) fun _ => ?_
    refine Ends.bind (matchTok_ends h₁.fine (by decide)) fun s₂ h₂ => ?_
    have hs₂ : Below s.left s₂ := h₁.turn h₂
    have hn : s.left ≤ n := Nat.le_trans (Nat.le_of_lt h.lt) hm
    refine Ends.bind (globalName_below hn (hs₂.same (rest_setCurrent fun _ => rfl))) fun s₃ h₃ => ?_
    refine Ends.bind (optional_below h₃ (by decide)) fun s₄ h₄ => ?_
    exact globalNames_below hm k s₄ (hk.turn h₄) (h.then h₄)

theorem globalDeclaration_ends (h : Below n s) : Ended (Below s.left) (globalDeclaration n s) := by
  have hfrom : ∀ s' type, Below (s.left + 1) s' →
      Ended (Below s.left) (globalNames n n { s' with baseType := type } >>= next) := fun s' type h' => by
    have hs' : Below (s.left + 1) { s' with baseType := type } := h'.same rfl
    refine Ends.bind (globalNames_below h.lt n _ (hs'.le h.lt) hs') fun s₁ h₁ => ?_
    exact (next_below h₁.1.fine h₁.2).imp fun _ => h₁.1.turn
  unfold globalDeclaration
  refine .of_ite (fun _ => enumeration_ends (h.same rfl)) fun _ => ?_
  refine .of_ite (fun hs => ?_) fun _ => ?_
  · have htoken : s.token ≠ .eof := by rcases hs with hs | hs <;> rw [hs] <;> decide
    exact Ends.bind (matchTok_ends h.fine htoken) fun s₁ h₁ => hfrom s₁ _ (h₁.le (Nat.le_succ _))
  · exact hfrom s _ ⟨h.fine, Nat.lt_succ_self _⟩

theorem globalDeclarations_ends : ∀ (k : Nat) (s : LexerContext), Below k s → Below n s →
    Ended (fun _ => True) (globalDeclarations n k s)
  | 0, _, hk, _ => absurd hk.lt (Nat.not_lt_zero _)
  | k + 1, s, hk, h => by
    rw [globalDeclarations]
    refine .of_ite (fun _ => .ok trivial) fun _ => ?_
    refine Ends.bind (globalDeclaration_ends h) fun s₁ h₁ => ?_
    exact globalDeclarations_ends k s₁ (hk.turn h₁) (h.then h₁)

end

end RetrOS.Lex
