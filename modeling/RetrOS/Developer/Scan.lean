import RetrOS.Developer.Parser
import Mathlib.Algebra.Module.Submodule.Lattice
import Mathlib.Data.List.Permutation

/-!
# What is in a source text

* `scan` : the identifiers of a text, outside its literals, comments and macros; `none` if a literal is not closed;
* `addName` : the entries of the table of symbols, as `next` finds and adds them;
* `LexerContext.total` : the table behind the whole of the text, which `next` does not change (`next_total`);
* `LexerContext.left` : what is left of the text, with the token that has been read.
-/

namespace RetrOS.Lex
open RetrOS.Interpreter

/-! ## The text behind a token -/

theorem length_drop_nameOf_lt {c : UInt8} {rest : List UInt8} (h : isLetter c = true) :
    ((c :: rest).drop (nameOf (c :: rest)).length).length < (c :: rest).length := by
  have hname : isNameChar c = true := by rw [isNameChar, h, Bool.true_or]
  have hpos : 0 < (nameOf (c :: rest)).length := by
    rw [nameOf, List.takeWhile_cons_of_pos hname]
    exact Nat.succ_pos _
  rw [List.length_drop, List.length_cons]
  omega

theorem length_readNumber_le (c : UInt8) (rest : List UInt8) : (readNumber c rest).2.length ≤ rest.length := by
  unfold readNumber
  split
  · exact (List.dropWhile_suffix _).length_le
  · split
    · next x rest' =>
      split
      · exact Nat.le_succ_of_le (List.dropWhile_suffix _).length_le
      · exact (List.dropWhile_suffix _).length_le
    · exact Nat.le_refl 0

theorem length_readLiteral_lt {quote : UInt8} {src : List UInt8} {out : List Word × List UInt8}
    (h : readLiteral quote src = some out) : out.2.length < src.length := by
  induction src using readLiteral.induct quote generalizing out with
  | case1 => cases h
  | case2 =>
    rw [readLiteral.eq_def] at h
    dsimp only at h
    rw [if_pos rfl] at h
    cases h
    exact Nat.lt_succ_self _
  | case3 hq =>
    rw [readLiteral, if_neg hq, if_pos rfl] at h
    cases h
  | case4 d rest' hq ih =>
    rw [readLiteral, if_neg hq, if_pos rfl] at h
    obtain ⟨out', hout', rfl⟩ := Option.map_eq_some_iff.mp h
    have hlt := ih hout'
    exact Nat.lt_succ_of_lt (Nat.lt_succ_of_lt hlt)
  | case5 c rest hq hb ih =>
    rw [readLiteral.eq_def] at h
    dsimp only at h
    rw [if_neg hq, if_neg hb] at h
    obtain ⟨out', hout', rfl⟩ := Option.map_eq_some_iff.mp h
    have hlt := ih hout'
    exact Nat.lt_succ_of_lt hlt

/-- The identifiers of a text, each with what follows it. -/
def scan (src : List UInt8) : Option (List (List UInt8)) :=
  match src with
  | [] => some []
  | c :: rest =>
    if c = 35 ∨ c = 47 ∧ rest.head? = some 47 then scan (skipLine rest)
    else if isLetter c then (scan ((c :: rest).drop (nameOf (c :: rest)).length)).map fun names => (c :: rest) :: names
    else if isDigit c then scan (readNumber c rest).2
    else if isQuote c then
      match _h : readLiteral c rest with
      | none => none
      | some out => scan out.2
    else scan rest
termination_by src.length
decreasing_by
  · exact Nat.lt_succ_of_le (length_skipLine_le rest)
  · exact length_drop_nameOf_lt (by assumption)
  · exact Nat.lt_succ_of_le (length_readNumber_le c rest)
  · exact Nat.lt_succ_of_lt (length_readLiteral_lt (by assumption))
  · exact Nat.lt_succ_self _

theorem scan_skip {c : UInt8} {rest : List UInt8} (hcomment : ¬ (c = 35 ∨ c = 47 ∧ rest.head? = some 47))
    (hletter : ¬ isLetter c = true) (hdigit : ¬ isDigit c = true) (hquote : ¬ isQuote c = true) :
    scan (c :: rest) = scan rest := by
  rw [scan, if_neg hcomment, if_neg hletter, if_neg hdigit, if_neg hquote]

theorem scan_literal {c : UInt8} {rest : List UInt8} (hcomment : ¬ (c = 35 ∨ c = 47 ∧ rest.head? = some 47))
    (hletter : ¬ isLetter c = true) (hdigit : ¬ isDigit c = true) (hquote : isQuote c = true) :
    scan (c :: rest) = (readLiteral c rest).bind fun out => scan out.2 := by
  rw [scan, if_neg hcomment, if_neg hletter, if_neg hdigit, if_pos hquote]
  split
  · next h => rw [h, Option.bind_none]
  · next h => rw [h, Option.bind_some]

/-- The second character of an operator. -/
structure Second (d : UInt8) : Prop where
  comment : d ≠ 35 ∧ d ≠ 47
  letter : isLetter d = false
  digit : isDigit d = false
  quote : isQuote d = false

instance (d : UInt8) : Decidable (Second d) :=
  decidable_of_iff ((d ≠ 35 ∧ d ≠ 47) ∧ isLetter d = false ∧ isDigit d = false ∧ isQuote d = false)
    ⟨fun ⟨a, b, c, e⟩ => ⟨a, b, c, e⟩, fun h => ⟨h.comment, h.letter, h.digit, h.quote⟩⟩

theorem scan_second {d : UInt8} (h : Second d) (rest : List UInt8) : scan (d :: rest) = scan rest :=
  scan_skip (fun hc => hc.elim h.comment.1 fun hc => h.comment.2 hc.1) (by rw [h.letter]; exact Bool.false_ne_true)
    (by rw [h.digit]; exact Bool.false_ne_true) (by rw [h.quote]; exact Bool.false_ne_true)

/-- An operator and the text behind it, if `rest` follows its first character. -/
structure Behind (rest : List UInt8) (out : Tok × List UInt8) : Prop where
  token : out.1 ≠ .eof
  scan : scan out.2 = scan rest
  length : out.2.length ≤ rest.length

theorem Behind.one {tk : Tok} {rest : List UInt8} (h : tk ≠ .eof) : Behind rest (tk, rest) := ⟨h, rfl, Nat.le_refl _⟩

theorem Behind.two {tk : Tok} {rest : List UInt8} {d : UInt8} (htk : tk ≠ .eof) (hd : Second d)
    (h : rest.head? = some d) : Behind rest (tk, rest.tail) := by
  cases rest with
  | nil => cases h
  | cons d' rest =>
    cases h
    exact ⟨htk, (scan_second hd rest).symm, Nat.le_succ _⟩

theorem Behind.pair {rest : List UInt8} {d : UInt8} {two one : Tok} (htwo : two ≠ .eof) (hone : one ≠ .eof)
    (hd : Second d) : Behind rest (pair rest d two one) := by
  unfold Lex.pair
  split
  · next h => exact .two htwo hd h
  · exact .one hone

theorem Behind.of_ite {rest : List UInt8} {c : Prop} [Decidable c] {x y : Option (Tok × List UInt8)}
    (hx : c → ∀ out ∈ x, Behind rest out) (hy : ∀ out ∈ y, Behind rest out) :
    ∀ out ∈ (if c then x else y), Behind rest out := by
  split
  · next hc => exact hx hc
  · exact hy

theorem Behind.of_some {rest : List UInt8} {o : Tok × List UInt8} (h : Behind rest o) :
    ∀ out ∈ some o, Behind rest out := by
  rintro out ⟨⟩
  exact h

theorem readOperator_behind (c : UInt8) (rest : List UInt8) : ∀ out ∈ readOperator c rest, Behind rest out := by
  unfold readOperator
  repeat' first
    | exact fun _ => Behind.of_some (.one (by decide))
    | exact fun _ => Behind.of_some (.pair (by decide) (by decide) (by decide))
    | exact fun h => Behind.of_some (.two (by decide) (by decide) h)
    | exact Behind.of_some (.pair (by decide) (by decide) (by decide))
    | refine fun _ => Behind.of_ite ?_ ?_
    | refine Behind.of_ite ?_ ?_
  rintro out ⟨⟩

/-! ## The table of symbols -/

/-- `hash` and `name` of an entry. -/
abbrev Key := Word × List UInt8

/-- What an identifier does to the table: it is found, or it is added. -/
def addName (keys : List Key) (src : List UInt8) : List Key :=
  if keys.any fun k => matchesName src k.1 k.2 then keys else keys ++ [(hashOf (nameOf src), src)]

theorem length_le_addName (keys : List Key) (src : List UInt8) : keys.length ≤ (addName keys src).length := by
  unfold addName
  split
  · exact Nat.le_refl _
  · rw [List.length_append]
    exact Nat.le_add_right _ _

theorem length_le_foldl_addName (names : List (List UInt8)) (keys : List Key) :
    keys.length ≤ (names.foldl addName keys).length := by
  induction names generalizing keys with
  | nil => exact Nat.le_refl _
  | cons src names ih => exact Nat.le_trans (length_le_addName keys src) (ih _)

/-- The keywords, the library, `void` and `main`. -/
def predefined : List Key := ((scan LexerContext.initText).getD []).foldl addName []

/-- The entries that a text needs; `none` if one of its literals is not closed. -/
def namesOf (src : List UInt8) : Option (List Key) := (scan src).map fun names => names.foldl addName predefined

def Symbol.key (y : Symbol) : Key := (y.hash, y.name)

namespace LexerContext

def keys (s : LexerContext) : List Key := s.symbols.map Symbol.key

/-- The entries behind a text. -/
def totalFrom (s : LexerContext) (src : List UInt8) : Option (List Key) :=
  (scan src).map fun names => names.foldl addName s.keys

/-- The entries behind the rest of the text. -/
def total (s : LexerContext) : Option (List Key) := s.totalFrom s.src

/-- The characters that are left, and the token that has been read. -/
def left (s : LexerContext) : Nat := s.src.length + if s.token = .eof then 0 else 1

end LexerContext

theorem addName_of_find {keys : List Key} {src : List UInt8} (h : ∃ k ∈ keys, matchesName src k.1 k.2 = true) :
    addName keys src = keys := if_pos (List.any_eq_true.mpr h)

theorem addName_of_new {keys : List Key} {src : List UInt8} (h : ∀ k ∈ keys, matchesName src k.1 k.2 = false) :
    addName keys src = keys ++ [(hashOf (nameOf src), src)] :=
  if_neg fun hany => by
    obtain ⟨k, hk, hm⟩ := List.any_eq_true.mp hany
    rw [h k hk] at hm
    exact Bool.false_ne_true hm

namespace LexerContext

theorem keys_identifier {s s' : LexerContext} {src : List UInt8} (h : s.identifier src = .ok s') :
    s'.keys = addName s.keys src ∧ s'.src = src.drop (nameOf src).length := by
  unfold identifier at h
  split at h
  · next k hk =>
    cases h
    obtain ⟨hlt, hm, -⟩ := List.findIdx?_eq_some_iff_getElem.mp hk
    exact ⟨(addName_of_find ⟨_, List.mem_map_of_mem (List.getElem_mem hlt), hm⟩).symm, rfl⟩
  · next hnone =>
    split at h
    · cases h
      refine ⟨?_, rfl⟩
      rw [addName_of_new fun k hk => ?_]
      · exact List.map_append
      · obtain ⟨y, hy, rfl⟩ := List.mem_map.mp hk
        exact List.findIdx?_eq_none_iff.mp hnone y hy
    · cases h

theorem length_keys (s : LexerContext) : s.keys.length = s.symbols.length := List.length_map _

/-- The table is full, and the name is not in it. -/
theorem identifier_error {s : LexerContext} {src : List UInt8} {e : Stop} (h : s.identifier src = .error e) :
    lexMaxSymbols < (addName s.keys src).length := by
  unfold identifier at h
  split at h
  · cases h
  · next hnone =>
    split at h
    · cases h
    · next hfull =>
      rw [addName_of_new fun k hk => ?_, List.length_append, length_keys, List.length_singleton]
      · omega
      · obtain ⟨y, hy, rfl⟩ := List.mem_map.mp hk
        exact List.findIdx?_eq_none_iff.mp hnone y hy

theorem room_identifier {s s' : LexerContext} {src : List UInt8} (h : s.identifier src = .ok s')
    (hroom : s.symbols.length ≤ lexMaxSymbols) : s'.symbols.length ≤ lexMaxSymbols := by
  unfold identifier at h
  split at h
  · cases h
    exact hroom
  · split at h
    · next hlt =>
      cases h
      rw [List.length_append]
      exact hlt
    · cases h

theorem storeData_keys (s : LexerContext) (chars : List Word) : (s.storeData chars).symbols = s.symbols := by
  unfold storeData
  induction chars generalizing s with
  | nil => rfl
  | cons v chars ih => exact ih _

/-- A token has been read from the text `src`, and the entries behind the text stay. -/
structure Advance (s : LexerContext) (src : List UInt8) (s' : LexerContext) : Prop where
  total : s'.total = s.totalFrom src
  src : s'.src.length < src.length ∨ s'.src = [] ∧ s'.token = .eof
  room : s.symbols.length ≤ lexMaxSymbols → s'.symbols.length ≤ lexMaxSymbols

/-- What `next` does: a token is read, or the entries are too many or a literal is not closed. -/
def Reads (s : LexerContext) (src : List UInt8) : Parsed → Prop
  | .ok s' => s.Advance src s'
  | .error _ => ∀ keys, s.totalFrom src = some keys → lexMaxSymbols < keys.length

theorem Advance.left_le {s s' : LexerContext} {src : List UInt8} (h : s.Advance src s') : s'.left ≤ src.length := by
  unfold left
  rcases h.src with hlt | ⟨hsrc, htoken⟩
  · split <;> omega
  · rw [hsrc, htoken]
    exact Nat.zero_le _

theorem reads_of_scan {s : LexerContext} {src src' : List UInt8} {r : Parsed} (h : s.Reads src' r)
    (hscan : scan src = scan src') (hlen : src'.length ≤ src.length) : s.Reads src r := by
  have htotal : s.totalFrom src = s.totalFrom src' := by rw [totalFrom, totalFrom, hscan]
  cases r with
  | ok s' => exact ⟨h.total.trans htotal.symm, h.src.imp_left fun hlt => Nat.lt_of_lt_of_le hlt hlen, h.room⟩
  | error e => exact fun keys hk => h keys (htotal ▸ hk)

theorem reads_identifier (s : LexerContext) {c : UInt8} {rest : List UInt8}
    (hcomment : ¬ (c = 35 ∨ c = 47 ∧ rest.head? = some 47)) (hletter : isLetter c = true) :
    s.Reads (c :: rest) (s.identifier (c :: rest)) := by
  have htotal : s.totalFrom (c :: rest) = (scan ((c :: rest).drop (nameOf (c :: rest)).length)).map fun names =>
      names.foldl addName (addName s.keys (c :: rest)) := by
    rw [totalFrom, scan, if_neg hcomment, if_pos hletter, Option.map_map]
    rfl
  match h : s.identifier (c :: rest) with
  | .ok s' =>
    obtain ⟨hkeys, hsrc⟩ := keys_identifier h
    refine ⟨?_, .inl (hsrc ▸ length_drop_nameOf_lt hletter), room_identifier h⟩
    rw [htotal, total, totalFrom, hkeys, hsrc]
  | .error e =>
    intro keys hk
    rw [htotal] at hk
    obtain ⟨names, -, rfl⟩ := Option.map_eq_some_iff.mp hk
    exact Nat.lt_of_lt_of_le (identifier_error h) (length_le_foldl_addName _ _)

theorem reads_literal (s : LexerContext) {c : UInt8} {rest : List UInt8}
    (hcomment : ¬ (c = 35 ∨ c = 47 ∧ rest.head? = some 47)) (hletter : ¬ isLetter c = true)
    (hdigit : ¬ isDigit c = true) (hquote : isQuote c = true) : s.Reads (c :: rest) (s.literal c rest) := by
  have hscan := scan_literal hcomment hletter hdigit hquote
  unfold literal
  match h : readLiteral c rest with
  | none =>
    rw [h] at hscan
    intro keys hk
    rw [totalFrom, hscan] at hk
    cases hk
  | some (chars, rest') =>
    rw [h] at hscan
    have hlt := length_readLiteral_lt h
    dsimp only
    split
    · refine ⟨?_, .inl (Nat.lt_succ_of_lt hlt), fun hroom => (s.storeData_keys chars).symm ▸ hroom⟩
      rw [total, totalFrom, totalFrom, hscan, keys, storeData_keys]
      rfl
    · refine ⟨?_, .inl (Nat.lt_succ_of_lt hlt), id⟩
      rw [total, totalFrom, totalFrom, hscan]
      rfl

theorem reads_nextFrom (s : LexerContext) (src : List UInt8) : s.Reads src (s.nextFrom src) := by
  induction src using nextFrom.induct with
  | case1 =>
    rw [nextFrom]
    exact ⟨rfl, .inr ⟨rfl, rfl⟩, id⟩
  | case2 c rest hcomment ih =>
    rw [nextFrom, if_pos hcomment]
    exact reads_of_scan ih (by rw [scan, if_pos hcomment]) (Nat.le_succ_of_le (length_skipLine_le rest))
  | case3 c rest hcomment hletter =>
    rw [nextFrom, if_neg hcomment, if_pos hletter]
    exact reads_identifier s hcomment hletter
  | case4 c rest hcomment hletter hdigit =>
    rw [nextFrom, if_neg hcomment, if_neg hletter, if_pos hdigit]
    refine ⟨?_, .inl (Nat.lt_succ_of_le (length_readNumber_le c rest)), id⟩
    rw [total, totalFrom, totalFrom, scan, if_neg hcomment, if_neg hletter, if_pos hdigit]
    rfl
  | case5 c rest hcomment hletter hdigit hquote =>
    rw [nextFrom, if_neg hcomment, if_neg hletter, if_neg hdigit, if_pos hquote]
    exact reads_literal s hcomment hletter hdigit hquote
  | case6 c rest hcomment hletter hdigit hquote token rest' hop =>
    rw [nextFrom, if_neg hcomment, if_neg hletter, if_neg hdigit, if_neg hquote, hop]
    have hbehind := readOperator_behind c rest _ hop
    refine ⟨?_, .inl (Nat.lt_succ_of_le hbehind.length), id⟩
    rw [total, totalFrom, totalFrom, scan_skip hcomment hletter hdigit hquote, ← hbehind.scan]
    rfl
  | case7 c rest hcomment hletter hdigit hquote hop ih =>
    rw [nextFrom, if_neg hcomment, if_neg hletter, if_neg hdigit, if_neg hquote, hop]
    exact reads_of_scan ih (scan_skip hcomment hletter hdigit hquote) (Nat.le_succ _)

end LexerContext

theorem opened_eq (base data : Word) (mem : Memory) (src : List UInt8) :
    ∃ s, opened base data mem src = .ok s ∧ s.keys = predefined ∧ s.src = src := by
  have h : (opened base data mem src).map (fun s => (s.keys, s.src)) = .ok (predefined, src) := by cbv
  generalize opened base data mem src = r at h
  cases r with
  | ok s =>
    rw [Except.map, Except.ok.injEq, Prod.mk.injEq] at h
    exact ⟨s, rfl, h.1, h.2⟩
  | error e => cases h

theorem length_predefined : predefined.length = 19 := by decide +kernel

end RetrOS.Lex
