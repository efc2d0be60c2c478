import Mathlib.Tactic.Common

/-!
# Tokens (`developer/lex.h`, `next` and `match` of `developer/lex.c`)

The source is the list of its tokens. A number and a string set `token_val`, an identifier and a keyword set
`current_id`; both keep their values over other tokens.
-/

namespace RetrOS.Interpreter

abbrev Word := BitVec 32

/-- The values of `token`: characters, and the enumeration of `lex.h`. -/
inductive Tok
  | eof
  | not
  | quote
  | lparen
  | rparen
  | comma
  | colon
  | semicolon
  | rbrack
  | lbrace
  | rbrace
  | tilde
  | num
  | id
  | char
  | else_
  | enum
  | if_
  | int
  | return_
  | sizeof
  | while_
  | assign
  | cond
  | lor
  | lan
  | or
  | xor
  | and
  | eq
  | ne
  | lt
  | gt
  | le
  | ge
  | shl
  | shr
  | add
  | sub
  | mul
  | div
  | mod
  | inc
  | dec
  | brak
  deriving DecidableEq

def Tok.code : Tok → Nat
  | .eof => 0
  | .not => 33
  | .quote => 34
  | .lparen => 40
  | .rparen => 41
  | .comma => 44
  | .colon => 58
  | .semicolon => 59
  | .rbrack => 93
  | .lbrace => 123
  | .rbrace => 125
  | .tilde => 126
  | .num => 128
  | .id => 133
  | .char => 134
  | .else_ => 135
  | .enum => 136
  | .if_ => 137
  | .int => 138
  | .return_ => 139
  | .sizeof => 140
  | .while_ => 141
  | .assign => 142
  | .cond => 143
  | .lor => 144
  | .lan => 145
  | .or => 146
  | .xor => 147
  | .and => 148
  | .eq => 149
  | .ne => 150
  | .lt => 151
  | .gt => 152
  | .le => 153
  | .ge => 154
  | .shl => 155
  | .shr => 156
  | .add => 157
  | .sub => 158
  | .mul => 159
  | .div => 160
  | .mod => 161
  | .inc => 162
  | .dec => 163
  | .brak => 164

/-- The system functions, from `OPEN` to `FREE`. -/
inductive SysCall
  | open_
  | read
  | clos
  | prtf
  | malc
  | mset
  | mcmp
  | exit
  | free
  deriving DecidableEq

/-- `class` of an identifier, with its `value`. -/
inductive IdClass
  | undefined
  | num (value : Word)
  | fun_ (value : Word)
  | sys (value : SysCall)
  | glo (value : Word)
  | loc (value : Word)
  deriving DecidableEq

/-- The fields of `struct identifier` that `expression` looks at. -/
structure Identifier where
  class_ : IdClass
  type : Nat
  deriving DecidableEq

abbrev CHAR : Nat := 0
abbrev INT : Nat := 1
abbrev PTR : Nat := 2

/-- A token, with what `next` sets. -/
inductive Lexeme
  | num (val : Word)
  | string (val : Word)
  | id (id : Identifier)
  /-- a keyword or an operator -/
  | tok (t : Tok)
  deriving DecidableEq

def Lexeme.token : Lexeme → Tok
  | .num _ => .num
  | .string _ => .quote
  | .id _ => .id
  | .tok t => t

/-- A keyword is a symbol without a class. -/
def Tok.IsKeyword : Tok → Prop
  | .char | .else_ | .enum | .if_ | .int | .return_ | .sizeof | .while_ => True
  | _ => False

instance (t : Tok) : Decidable t.IsKeyword := by
  cases t <;> first | exact isTrue trivial | exact isFalse not_false

/-- The tokens from the current one on, and what the last ones have set. -/
structure Input where
  lexemes : List Lexeme
  tokenVal : Word
  currentId : Identifier
  deriving DecidableEq

namespace Input

def token (i : Input) : Tok :=
  match i.lexemes with
  | [] => .eof
  | x :: _ => x.token

/-- What `next` sets at a new token. -/
def enter (i : Input) : Input :=
  match i.lexemes with
  | .num val :: _ => { i with tokenVal := val }
  | .string val :: _ => { i with tokenVal := val }
  | .id id :: _ => { i with currentId := id }
  | .tok t :: _ => if t.IsKeyword then { i with currentId := ⟨.undefined, 0⟩ } else i
  | [] => i

def next (i : Input) : Input := enter { i with lexemes := i.lexemes.tail }

/-- `match` -/
def matchTok (i : Input) (tk : Tok) : Option Input := if i.token = tk then some i.next else none

/-- `if (token == tk) match(tk);` -/
def optional (i : Input) (tk : Tok) : Input := if i.token = tk then i.next else i

/-- `while (token == tk) match(tk);`, and how often. -/
def skip (tk : Tok) : Nat → Input → Nat × Input
  | 0, i => (0, i)
  | n + 1, i => if i.token = tk then ((skip tk n i.next).1 + 1, (skip tk n i.next).2) else (0, i)

/-- The name of a type, which is `int` if it is left out. -/
def typeName (i : Input) : Nat × Input :=
  let (type, i) :=
    match i.token with
    | .int => (INT, i.next)
    | .char => (CHAR, i.next)
    | _ => (INT, i)
  let (stars, i) := skip .mul i.lexemes.length i
  (type + stars * PTR, i)

@[simp] theorem lexemes_enter (i : Input) : i.enter.lexemes = i.lexemes := by
  unfold enter
  split <;> first | rfl | (split <;> rfl)

@[simp] theorem lexemes_next (i : Input) : i.next.lexemes = i.lexemes.tail := lexemes_enter _

theorem lexemes_matchTok {i j : Input} {tk : Tok} (h : i.matchTok tk = some j) (htk : tk ≠ .eof) :
    ∃ x, x.token = tk ∧ i.lexemes = x :: j.lexemes := by
  unfold matchTok at h
  split at h
  · next heq =>
    obtain rfl := Option.some.inj h
    unfold token at heq
    split at heq
    · exact absurd heq.symm htk
    · next x rest hx => exact ⟨x, heq, by rw [lexemes_next, hx, List.tail_cons]⟩
  · exact absurd h (Option.some_ne_none j).symm

theorem matchTok_suffix {i j : Input} {tk : Tok} (h : i.matchTok tk = some j) : j.lexemes <:+ i.lexemes := by
  unfold matchTok at h
  split at h
  · rw [← Option.some.inj h, lexemes_next]
    exact List.tail_suffix _
  · exact absurd h (Option.some_ne_none j).symm

theorem optional_suffix (i : Input) (tk : Tok) : (i.optional tk).lexemes <:+ i.lexemes := by
  unfold optional
  split
  · rw [lexemes_next]
    exact List.tail_suffix _
  · exact List.suffix_rfl

theorem skip_suffix (tk : Tok) (n : Nat) (i : Input) : (skip tk n i).2.lexemes <:+ i.lexemes := by
  induction n generalizing i with
  | zero => exact List.suffix_rfl
  | succ n ih =>
    rw [skip]
    split
    · exact (ih i.next).trans (lexemes_next i ▸ List.tail_suffix _)
    · exact List.suffix_rfl

theorem typeName_suffix (i : Input) : i.typeName.2.lexemes <:+ i.lexemes := by
  have hnext : i.next.lexemes <:+ i.lexemes := lexemes_next i ▸ List.tail_suffix _
  unfold typeName
  cases i.token with
  | int => exact (skip_suffix ..).trans hnext
  | char => exact (skip_suffix ..).trans hnext
  | _ => exact skip_suffix ..

end Input

end RetrOS.Interpreter
