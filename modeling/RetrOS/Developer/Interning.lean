import RetrOS.Developer.Overrun
import RetrOS.Lib.Interning

/-!
# The entries of the identifiers (`next` of `developer/lex.c`)

An identifier is found at the first entry with its hash whose name has its characters in front; the name may go on
behind them. Otherwise it is stored behind the last entry, whether the table has a place there or not. Between the calls
of `next` the parser leaves the text, the names and the hashes as they are.

* `identifiers`, `allNames` : the identifiers of a text, and their names behind those of `lex_init`;
* `Given`, `Interned` : the entries that the calls of `next` give to names; equal names have equal entries and different
  names different ones, and no call goes behind the table;
* `finds` : what the search compares, on names; `spellings_addName` : so the table is that of `Lib.intern`;
* `call_nextFrom` : what a call of `next` reads; `Interns`, `run_interned` : the calls intern the names of the text,
  or run out of the table;
* `interned_iff` : a text is interned iff no name occurs first behind a longer one that has its characters in front and
  its hash, and there are at most 128 names.
-/

namespace RetrOS.Lex
open RetrOS.Interpreter RetrOS.Lib LexerContext

/-! ## The names of a text -/

/-- The identifiers of a text up to a literal that is not closed, each with what follows it. -/
def identifiers (src : List UInt8) : List (List UInt8) :=
  match src with
  | [] => []
  | c :: rest =>
    if c = 35 ∨ c = 47 ∧ rest.head? = some 47 then identifiers (skipLine rest)
    else if isLetter c then (c :: rest) :: identifiers ((c :: rest).drop (nameOf (c :: rest)).length)
    else if isDigit c then identifiers (readNumber c rest).2
    else if isQuote c then
      match _h : readLiteral c rest with
      | none => []
      | some out => identifiers out.2
    else
      match _h : readOperator c rest with
      | some out => identifiers out.2
      | none => identifiers rest
termination_by src.length
decreasing_by
  · exact Nat.lt_succ_of_le (length_skipLine_le rest)
  · exact length_drop_nameOf_lt (by assumption)
  · exact Nat.lt_succ_of_le (length_readNumber_le c rest)
  · exact Nat.lt_succ_of_lt (length_readLiteral_lt (by assumption))
  · exact Nat.lt_succ_of_le (readOperator_behind c rest _ (by assumption)).length
  · exact Nat.lt_succ_self _

/-- The text from the next token on, if it is an identifier. -/
def firstIdentifier (src : List UInt8) : Option (List UInt8) :=
  match src with
  | [] => none
  | c :: rest =>
    if c = 35 ∨ c = 47 ∧ rest.head? = some 47 then firstIdentifier (skipLine rest)
    else if isLetter c then some (c :: rest)
    else if isDigit c || isQuote c then none
    else
      match readOperator c rest with
      | some _ => none
      | none => firstIdentifier rest
termination_by src.length
decreasing_by
  · exact Nat.lt_succ_of_le (length_skipLine_le rest)
  · exact Nat.lt_succ_self _

/-- The names of entries. -/
def spellings (keys : List Key) : List (List UInt8) := keys.map fun k => nameOf k.2

/-- The keywords, the library, `void` and `main`, and the names of the text. -/
def allNames (src : List UInt8) : List (List UInt8) := spellings predefined ++ (identifiers src).map nameOf

/-- The name has the entry from `lex_init` on, or a call of `next` reads it and sets `current_id` to the entry. -/
def Given (base data : Word) (mem : Memory) (src name : List UInt8) (entry : Nat) : Prop :=
  (spellings predefined)[entry]? = some name ∨
    ∃ k s s', (opened base data mem src >>= nexts k) = .ok s ∧ s.next = .ok s' ∧
      (firstIdentifier s.src).map nameOf = some name ∧ s'.currentId = entry

/-- Two identifiers have the same entry iff they have the same name, and no call goes behind the table. -/
structure Interned (base data : Word) (mem : Memory) (src : List UInt8) : Prop where
  same : ∀ name name' entry entry', Given base data mem src name entry → Given base data mem src name' entry' →
    (entry = entry' ↔ name = name')
  room : ∀ k, (opened base data mem src >>= nexts k) ≠ .error .symbols

/-! ## The search -/

/-- An entry for `stored` is taken for `name`: it has the same hash and the same characters in front. -/
def finds (name stored : List UInt8) : Bool := hashOf name == hashOf stored && name.isPrefixOf stored

theorem finds_self (name : List UInt8) : finds name name = true := by
  simp [finds]

/-- The hash of an entry is that of its name. -/
def Hashed (keys : List Key) : Prop := ∀ k ∈ keys, k.1 = hashOf (nameOf k.2)

section Search
variable {keys : List Key} {src : List UInt8} {s s' : LexerContext}

/-- A name in front of a text is in front of the name that the text starts with. -/
theorem prefix_nameOf (src name : List UInt8) : nameOf src <+: name ↔ nameOf src <+: nameOf name := by
  constructor
  · rintro ⟨rest, rfl⟩
    have hchars : ∀ c ∈ nameOf src, isNameChar c = true := List.all_eq_true.mp List.all_takeWhile
    have hname : nameOf (nameOf src ++ rest) = nameOf src ++ nameOf rest := List.takeWhile_append_of_pos hchars
    rw [hname]
    exact List.prefix_append _ _
  · intro h
    exact h.trans (List.takeWhile_prefix _)

theorem matchesName_eq {k : Key} (hk : k.1 = hashOf (nameOf k.2)) (src : List UInt8) :
    matchesName src k.1 k.2 = finds (nameOf src) (nameOf k.2) := by
  have hiff : (k.2.take (nameOf src).length == nameOf src) = (nameOf src).isPrefixOf (nameOf k.2) := by
    rw [Bool.eq_iff_iff, beq_iff_eq, List.isPrefixOf_iff_prefix, ← prefix_nameOf, List.prefix_iff_eq_take, eq_comm]
  rw [matchesName, finds, hiff, hk, Bool.beq_comm]

theorem map_matchesName (hkeys : Hashed keys) (src : List UInt8) :
    keys.map (fun k => matchesName src k.1 k.2) = (spellings keys).map (finds (nameOf src)) := by
  rw [spellings, List.map_map]
  exact List.map_congr_left fun k hk => matchesName_eq (hkeys k hk) src

/-- An identifier is interned. -/
theorem spellings_addName (hkeys : Hashed keys) (src : List UInt8) :
    spellings (addName keys src) = intern finds (spellings keys) (nameOf src) ∧ Hashed (addName keys src) := by
  have hany : keys.any (fun k => matchesName src k.1 k.2) = (spellings keys).any (finds (nameOf src)) := by
    have hmap := congrArg (List.any · id) (map_matchesName hkeys src)
    simpa [List.any_map, Function.comp_def] using hmap
  unfold addName intern
  rw [hany]
  split
  · exact ⟨rfl, hkeys⟩
  · refine ⟨by simp [spellings], fun k hk => ?_⟩
    rcases List.mem_append.mp hk with hk | hk
    · exact hkeys k hk
    · obtain rfl := List.mem_singleton.mp hk
      rfl

theorem currentId_identifier (hkeys : Hashed s.keys) (h : s.identifier src = .ok s') :
    s'.currentId = entryOf finds (spellings s.keys) (nameOf src) := by
  have hmap := congrArg (List.findIdx id) (map_matchesName hkeys src)
  rw [List.findIdx_map, List.findIdx_map, keys, List.findIdx_map] at hmap
  unfold LexerContext.identifier at h
  split at h
  · next k hk =>
    cases h
    exact (List.findIdx?_eq_some_iff_findIdx_eq.mp hk).2.symm.trans hmap
  · next hnone =>
    split at h
    · cases h
      exact (List.findIdx?_eq_none_iff_findIdx_eq.mp hnone).symm.trans hmap
    · cases h

theorem identifier_error_symbols {e : Stop} (h : s.identifier src = .error e) : e = .symbols := by
  unfold LexerContext.identifier at h
  split at h
  · cases h
  · split at h <;> cases h
    rfl

end Search

/-! ## The calls -/

section Calls
variable {s s' : LexerContext} {src name : List UInt8} {entry k n : Nat}

theorem identifiers_literal {c : UInt8} {rest : List UInt8} (hcomment : ¬ (c = 35 ∨ c = 47 ∧ rest.head? = some 47))
    (hletter : ¬ isLetter c = true) (hdigit : ¬ isDigit c = true) (hquote : isQuote c = true) :
    identifiers (c :: rest) = ((readLiteral c rest).map fun out => identifiers out.2).getD [] := by
  rw [identifiers, if_neg hcomment, if_neg hletter, if_neg hdigit, if_pos hquote]
  split
  · next h => rw [h]; rfl
  · next h => rw [h]; rfl

theorem identifiers_operator {c : UInt8} {rest : List UInt8} (hcomment : ¬ (c = 35 ∨ c = 47 ∧ rest.head? = some 47))
    (hletter : ¬ isLetter c = true) (hdigit : ¬ isDigit c = true) (hquote : ¬ isQuote c = true) :
    identifiers (c :: rest) = identifiers (((readOperator c rest).map Prod.snd).getD rest) := by
  rw [identifiers, if_neg hcomment, if_neg hletter, if_neg hdigit, if_neg hquote]
  split
  · next h => rw [h]; rfl
  · next h => rw [h]; rfl

/-- What a call of `next` reads: an identifier, something else that leaves the table, or a literal that is not closed. -/
inductive Call (s : LexerContext) (src : List UInt8) : Prop
  | identifier (src' : List UInt8) (first : firstIdentifier src = some src')
      (names : identifiers src = src' :: identifiers (src'.drop (nameOf src').length))
      (next : s.nextFrom src = s.identifier src') (lt : (src'.drop (nameOf src').length).length < src.length)
  | other (s' : LexerContext) (first : firstIdentifier src = none) (names : identifiers s'.src = identifiers src)
      (next : s.nextFrom src = .ok s') (symbols : s'.symbols = s.symbols)
      (lt : s'.src.length < src.length ∨ src = [] ∧ s'.src = [])
  | overrun (first : firstIdentifier src = none) (names : identifiers src = []) (next : s.nextFrom src = .error .overrun)

/-- Characters that are skipped. -/
theorem Call.skip {src' : List UInt8} (h : Call s src') (hfirst : firstIdentifier src = firstIdentifier src')
    (hnames : identifiers src = identifiers src') (hnext : s.nextFrom src = s.nextFrom src')
    (hlt : src'.length < src.length) : Call s src := by
  cases h with
  | identifier name first names next lt =>
    exact .identifier name (hfirst.trans first) (hnames.trans names) (hnext.trans next) (lt.trans hlt)
  | other s' first names next symbols lt =>
    refine .other s' (hfirst.trans first) (names.trans hnames.symm) (hnext.trans next) symbols (.inl ?_)
    rcases lt with lt | ⟨-, hnil⟩
    · exact lt.trans hlt
    · rw [hnil]
      exact Nat.zero_lt_of_lt hlt
  | overrun first names next => exact .overrun (hfirst.trans first) (hnames.trans names) (hnext.trans next)

theorem call_nextFrom (s : LexerContext) (src : List UInt8) : Call s src := by
  induction src using nextFrom.induct with
  | case1 =>
    have hnext : s.nextFrom [] = .ok { s with src := [], token := .eof } := by rw [nextFrom]
    exact .other _ (by rw [firstIdentifier]) rfl hnext rfl (.inr ⟨rfl, rfl⟩)
  | case2 c rest hcomment ih =>
    refine ih.skip ?_ ?_ ?_ (Nat.lt_succ_of_le (length_skipLine_le rest))
    · rw [firstIdentifier, if_pos hcomment]
    · rw [identifiers, if_pos hcomment]
    · rw [nextFrom, if_pos hcomment]
  | case3 c rest hcomment hletter =>
    refine .identifier (c :: rest) ?_ ?_ ?_ (length_drop_nameOf_lt hletter)
    · rw [firstIdentifier, if_neg hcomment, if_pos hletter]
    · rw [identifiers, if_neg hcomment, if_pos hletter]
    · rw [nextFrom, if_neg hcomment, if_pos hletter]
  | case4 c rest hcomment hletter hdigit =>
    refine .other (s.number c rest) ?_ ?_ ?_ rfl (.inl (Nat.lt_succ_of_le (length_readNumber_le c rest)))
    · rw [firstIdentifier, if_neg hcomment, if_neg hletter, if_pos (by rw [hdigit, Bool.true_or])]
    · rw [identifiers, if_neg hcomment, if_neg hletter, if_pos hdigit]
      rfl
    · rw [nextFrom, if_neg hcomment, if_neg hletter, if_pos hdigit]
  | case5 c rest hcomment hletter hdigit hquote =>
    have hfirst : firstIdentifier (c :: rest) = none := by
      rw [firstIdentifier, if_neg hcomment, if_neg hletter, if_pos (by rw [hquote, Bool.or_true])]
    have hnext : s.nextFrom (c :: rest) = s.literal c rest := by
      rw [nextFrom, if_neg hcomment, if_neg hletter, if_neg hdigit, if_pos hquote]
    have hnames := identifiers_literal hcomment hletter hdigit hquote
    unfold literal at hnext
    rcases h : readLiteral c rest with - | ⟨chars, rest'⟩
    · rw [h] at hnames hnext
      exact .overrun hfirst hnames hnext
    · have hlt := length_readLiteral_lt h
      rw [h] at hnames hnext
      dsimp only at hnext
      split at hnext
      · exact .other { s.storeData chars with src := rest', token := .quote, tokenVal := s.data } hfirst hnames.symm
          hnext (s.storeData_keys chars) (.inl (Nat.lt_succ_of_lt hlt))
      · exact .other { s with src := rest', token := .num, tokenVal := chars.getLast?.getD s.tokenVal } hfirst
          hnames.symm hnext rfl (.inl (Nat.lt_succ_of_lt hlt))
  | case6 c rest hcomment hletter hdigit hquote token rest' hop =>
    have hbehind := readOperator_behind c rest _ hop
    refine .other { s with src := rest', token } ?_ ?_ ?_ rfl (.inl (Nat.lt_succ_of_le hbehind.length))
    · rw [firstIdentifier, if_neg hcomment, if_neg hletter, if_neg (by simp [hdigit, hquote]), hop]
    · rw [identifiers_operator hcomment hletter hdigit hquote, hop]
      rfl
    · rw [nextFrom, if_neg hcomment, if_neg hletter, if_neg hdigit, if_neg hquote, hop]
  | case7 c rest hcomment hletter hdigit hquote hop ih =>
    refine ih.skip ?_ ?_ ?_ (Nat.lt_succ_self _)
    · rw [firstIdentifier, if_neg hcomment, if_neg hletter, if_neg (by simp [hdigit, hquote]), hop]
    · rw [identifiers_operator hcomment hletter hdigit hquote, hop]
      rfl
    · rw [nextFrom, if_neg hcomment, if_neg hletter, if_neg hdigit, if_neg hquote, hop]

/-- A later call of `next` reads the name and sets `current_id` to the entry. -/
def Gives (s : LexerContext) (name : List UInt8) (entry : Nat) : Prop :=
  ∃ k s₁ s₂, nexts k s = .ok s₁ ∧ s₁.next = .ok s₂ ∧ (firstIdentifier s₁.src).map nameOf = some name ∧
    s₂.currentId = entry

/-- A later call goes behind the table. -/
def Overflows (s : LexerContext) : Prop := ∃ k, nexts k s = .error .symbols

theorem gives_iff : Gives s name entry ↔ ∃ s', s.next = .ok s' ∧
    ((firstIdentifier s.src).map nameOf = some name ∧ s'.currentId = entry ∨ Gives s' name entry) := by
  constructor
  · rintro ⟨k, s₁, s₂, hk, hnext, hname, hentry⟩
    cases k with
    | zero =>
      cases hk
      exact ⟨s₂, hnext, .inl ⟨hname, hentry⟩⟩
    | succ k =>
      rw [nexts] at hk
      cases hs : s.next with
      | ok s' =>
        rw [hs] at hk
        exact ⟨s', rfl, .inr ⟨k, s₁, s₂, hk, hnext, hname, hentry⟩⟩
      | error e =>
        rw [hs] at hk
        cases hk
  · rintro ⟨s', hs, ⟨hname, hentry⟩ | ⟨k, s₁, s₂, hk, h⟩⟩
    · exact ⟨0, s, s', rfl, hs, hname, hentry⟩
    · refine ⟨k + 1, s₁, s₂, ?_, h⟩
      rw [nexts, hs]
      exact hk

theorem overflows_iff : Overflows s ↔ s.next = .error .symbols ∨ ∃ s', s.next = .ok s' ∧ Overflows s' := by
  constructor
  · rintro ⟨k, hk⟩
    cases k with
    | zero => cases hk
    | succ k =>
      rw [nexts] at hk
      cases hs : s.next with
      | ok s' =>
        rw [hs] at hk
        exact .inr ⟨s', rfl, k, hk⟩
      | error e =>
        rw [hs] at hk
        exact .inl hk
  · rintro (hs | ⟨s', hs, k, hk⟩)
    · exact ⟨1, by rw [nexts, hs]; rfl⟩
    · refine ⟨k + 1, ?_⟩
      rw [nexts, hs]
      exact hk

theorem overflows_of_next (h : s.next = .ok s') : Overflows s ↔ Overflows s' := by
  rw [overflows_iff, h]
  simp

/-- At the end of the text nothing is read any more. -/
theorem ended (h : s.src = []) : ¬ Overflows s ∧ ∀ name entry, ¬ Gives s name entry := by
  have hnext {s : LexerContext} (h : s.src = []) : s.next = .ok { s with src := [], token := .eof } := by
    rw [next, h, nextFrom]
  have hnexts (k : Nat) : ∀ {s : LexerContext}, s.src = [] → ∃ s', nexts k s = .ok s' ∧ s'.src = [] := by
    induction k with
    | zero => exact fun {s} h => ⟨s, rfl, h⟩
    | succ k ih =>
      intro s h
      rw [nexts, hnext h]
      exact ih rfl
  constructor
  · rintro ⟨k, hk⟩
    obtain ⟨s', hs', -⟩ := hnexts k h
    rw [hs'] at hk
    cases hk
  · rintro name entry ⟨k, s₁, s₂, hk, -, hname, -⟩
    obtain ⟨s', hs', hsrc⟩ := hnexts k h
    rw [hs'] at hk
    cases hk
    rw [hsrc, firstIdentifier] at hname
    cases hname

/-- From this state on the calls intern the names of the text in the table, or go behind it if the names are too many. -/
def Interns (s : LexerContext) : Prop :=
  (Overflows s ↔ lexMaxSymbols < (internAll finds (spellings s.keys) ((identifiers s.src).map nameOf)).length) ∧
    (¬ Overflows s → ∀ name entry, Gives s name entry ↔
      (name, entry) ∈ interned finds (spellings s.keys) ((identifiers s.src).map nameOf))

theorem length_spellings (keys : List Key) : (spellings keys).length = keys.length := List.length_map _

theorem interns_of_nothing (hroom : s.symbols.length ≤ lexMaxSymbols) (hnames : identifiers s.src = [])
    (hover : ¬ Overflows s) (hgives : ∀ name entry, ¬ Gives s name entry) : Interns s := by
  rw [Interns, hnames]
  refine ⟨iff_of_false hover ?_, fun _ name entry => iff_of_false (hgives name entry) List.not_mem_nil⟩
  rw [List.map_nil, internAll_nil, length_spellings, length_keys]
  exact Nat.not_lt_of_le hroom

theorem interns_end (hroom : s.symbols.length ≤ lexMaxSymbols) (hsrc : s.src = []) : Interns s :=
  interns_of_nothing hroom (by rw [hsrc, identifiers]) (ended hsrc).1 (ended hsrc).2

/-- A token that is no identifier. -/
theorem Interns.other (h : Interns s') (hnext : s.next = .ok s') (hfirst : firstIdentifier s.src = none)
    (hkeys : s'.keys = s.keys) (hnames : identifiers s'.src = identifiers s.src) : Interns s := by
  rw [Interns, hkeys, hnames] at h
  rw [Interns, overflows_of_next hnext]
  refine ⟨h.1, fun hno name entry => ?_⟩
  rw [gives_iff, ← h.2 hno, hfirst, hnext]
  simp

/-- An identifier gets its entry, and the rest of the text is interned behind it. -/
theorem Interns.identifier {src' : List UInt8} (h : Interns s') (hhashed : Hashed s.keys)
    (hid : s.identifier src' = .ok s') (hnext : s.next = .ok s') (hfirst : firstIdentifier s.src = some src')
    (hnames : identifiers s.src = src' :: identifiers s'.src) : Interns s := by
  rw [Interns, (keys_identifier hid).1, (spellings_addName hhashed src').1] at h
  rw [Interns, hnames, List.map_cons, internAll_cons, interned, overflows_of_next hnext]
  refine ⟨h.1, fun hno name entry => ?_⟩
  rw [gives_iff, List.mem_cons, ← h.2 hno, hfirst, Option.map_some, hnext, ← currentId_identifier hhashed hid]
  simp only [Except.ok.injEq, exists_eq_left', Option.some.injEq, Prod.mk.injEq]
  rw [eq_comm (a := nameOf src'), eq_comm (a := s'.currentId)]

/-- An identifier for which the table has no place. -/
theorem interns_full {src' : List UInt8} {names : List (List UInt8)} {e : Stop} (hhashed : Hashed s.keys)
    (hid : s.identifier src' = .error e) (hnext : s.next = .error e) (hnames : identifiers s.src = src' :: names) :
    Interns s := by
  obtain rfl := identifier_error_symbols hid
  have hover : Overflows s := overflows_iff.mpr (.inl hnext)
  rw [Interns, hnames, List.map_cons, internAll_cons, ← (spellings_addName hhashed src').1]
  refine ⟨iff_of_true hover ?_, fun hno => absurd hover hno⟩
  calc lexMaxSymbols < (addName s.keys src').length := identifier_error hid
    _ = (spellings (addName s.keys src')).length := (length_spellings _).symm
    _ ≤ _ := (prefix_internAll _ _).length_le

/-- By induction on the text that is left. -/
theorem run_interned (n : Nat) : ∀ s : LexerContext, s.src.length ≤ n → Hashed s.keys →
    s.symbols.length ≤ lexMaxSymbols → Interns s := by
  induction n with
  | zero =>
    intro s hn _ hroom
    exact interns_end hroom (List.length_eq_zero_iff.mp (Nat.le_zero.mp hn))
  | succ n ih =>
    intro s hn hhashed hroom
    cases call_nextFrom s s.src with
    | identifier src' first names next lt =>
      cases hid : s.identifier src' with
      | ok s' =>
        obtain ⟨hkeys, hsrc⟩ := keys_identifier hid
        have hrest : Interns s' := ih s' (by rw [hsrc]; omega) (hkeys ▸ (spellings_addName hhashed src').2)
          (room_identifier hid hroom)
        exact hrest.identifier hhashed hid (next.trans hid) first (hsrc ▸ names)
      | error e => exact interns_full hhashed hid (next.trans hid) names
    | other s' first names next symbols lt =>
      rcases lt with lt | ⟨hsrc, -⟩
      · have hkeys : s'.keys = s.keys := congrArg (List.map Symbol.key) symbols
        have hrest : Interns s' := ih s' (by omega) (hkeys ▸ hhashed) (symbols ▸ hroom)
        exact hrest.other next first hkeys names
      · exact interns_end hroom hsrc
    | overrun first names next =>
      have hnext : s.next = .error .overrun := next
      refine interns_of_nothing hroom names (fun hover => ?_) fun name entry hgives => ?_
      · rw [overflows_iff, hnext] at hover
        simp at hover
      · rw [gives_iff, hnext] at hgives
        simp at hgives

end Calls

/-! ## The whole text -/

section Whole
variable {base data : Word} {mem : Memory} {src name : List UInt8} {entry : Nat}

/-- The names of `lex_init` are different, and none is found at another one. -/
theorem interned_predefined :
    interned finds [] (spellings predefined) = (spellings predefined).zipIdx ∧
      internAll finds [] (spellings predefined) = spellings predefined := by
  decide +kernel

theorem hashed_predefined : Hashed predefined := by
  unfold Hashed
  decide +kernel

theorem run_opened (base data : Word) (mem : Memory) (src : List UInt8) :
    ((∃ k, (opened base data mem src >>= nexts k) = .error .symbols) ↔
      lexMaxSymbols < (internAll finds [] (allNames src)).length) ∧
    ((∀ k, (opened base data mem src >>= nexts k) ≠ .error .symbols) → ∀ name entry,
      Given base data mem src name entry ↔ (name, entry) ∈ interned finds [] (allNames src)) := by
  obtain ⟨s, hs, hkeys, hsrc⟩ := opened_eq base data mem src
  have hopened (k : Nat) : (opened base data mem src >>= nexts k) = nexts k s := by
    rw [hs]
    rfl
  have hroom : s.symbols.length ≤ lexMaxSymbols := by
    rw [← length_keys, hkeys, length_predefined]
    decide
  obtain ⟨hinterned, hall⟩ := interned_predefined
  have hrun : Interns s := run_interned _ s le_rfl (hkeys ▸ hashed_predefined) hroom
  rw [Interns, hkeys, hsrc] at hrun
  rw [allNames, internAll_append, interned_append, hall, hinterned]
  simp only [hopened, Given]
  refine ⟨hrun.1, fun hno name entry => ?_⟩
  rw [List.mem_append, ← hrun.2 (not_exists.mpr hno), List.mem_zipIdx_iff_getElem?]
  rfl

/-- Identifiers have the same entry exactly if they have the same name, and the table has room for them, iff no name
occurs first behind a longer one that has its characters in front and its hash, and there are at most 128 names, those of
`lex_init` with them. -/
theorem interned_iff (base data : Word) (mem : Memory) (src : List UInt8) :
    Interned base data mem src ↔ ¬ Shadowed finds (allNames src) ∧ (allNames src).dedup.length ≤ lexMaxSymbols := by
  obtain ⟨hover, hgiven⟩ := run_opened base data mem src
  constructor
  · rintro ⟨hsame, hroom⟩
    have howned : Owned finds (allNames src) := by
      rw [← same_iff_owned finds_self]
      intro p hp q hq
      exact hsame p.1 q.1 p.2 q.2 ((hgiven hroom p.1 p.2).mpr hp) ((hgiven hroom q.1 q.2).mpr hq)
    have hshadow := (owned_iff finds_self _).mp howned
    refine ⟨hshadow, ?_⟩
    rw [← length_internAll finds_self hshadow]
    by_contra hlt
    obtain ⟨k, hk⟩ := hover.mpr (Nat.lt_of_not_le hlt)
    exact hroom k hk
  · rintro ⟨hshadow, hlen⟩
    rw [← length_internAll finds_self hshadow] at hlen
    have hroom : ∀ k, (opened base data mem src >>= nexts k) ≠ .error .symbols := fun k hk =>
      Nat.not_lt_of_le hlen (hover.mp ⟨k, hk⟩)
    refine ⟨fun name name' entry entry' h h' => ?_, hroom⟩
    have hsame := (same_iff_owned finds_self _).mpr ((owned_iff finds_self _).mpr hshadow)
    exact hsame _ ((hgiven hroom name entry).mp h) _ ((hgiven hroom name' entry').mp h')

/-- `apdvtms apd`: two names with the same hash, the second one in front of the first. -/
def collision : List UInt8 := [97, 112, 100, 118, 116, 109, 115, 32, 97, 112, 100]

/-- Both names get the entry 19. -/
theorem not_interned_collision : ¬ Interned 0 0 (fun _ => 0) collision := by
  rintro ⟨hsame, hroom⟩
  have hgiven := (run_opened 0 0 (fun _ => 0) collision).2 hroom
  have hlong : Given 0 0 (fun _ => 0) collision [97, 112, 100, 118, 116, 109, 115] 19 :=
    (hgiven _ _).mpr (by decide +kernel)
  have hshort : Given 0 0 (fun _ => 0) collision [97, 112, 100] 19 := (hgiven _ _).mpr (by decide +kernel)
  exact absurd ((hsame _ _ _ _ hlong hshort).mp rfl) (by decide)

end Whole

end RetrOS.Lex
