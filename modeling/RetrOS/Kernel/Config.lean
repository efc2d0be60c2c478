import RetrOS.Admin.Users
import RetrOS.Apps.Common

/-!
# Loading a configuration file (`kernel/conf.c`)

The loader goes through the text round by round, and outside a section a round moves on only over newlines and comments.

* `ConfigSection`, `configAddSection`, `configAddEntry` : the table, and what the loader stores in it;
* `Parse`, `Parse.round`, `parse` : a position in the text, a round of the outer loop, and the loop;
* `kernelConfigLoad` : the loop, and its calls on a cleared table;
* `round_some` : a round with a section shortens the text; `parse_stuck` : a round that changes nothing is repeated for
  ever;
* `kernelConfigLoad_terminates_iff` : the load ends iff behind the newlines and comments in front the text is over or has
  a section header.

The loader writes only behind its position, so the position is the rest of the text as it was in the file. At its end
stands the NUL that the loader puts there.
-/

namespace RetrOS.Conf
open RetrOS.Admin (strcmp)
open RetrOS.Apps (newline)

/-- A C string, without its NUL. -/
abbrev Str := List UInt8

/-! ## The table -/

structure ConfigEntry where
  key : Str
  value : Str
  deriving DecidableEq, Repr

structure ConfigSection where
  sectionName : Str
  entries : List ConfigEntry
  deriving DecidableEq, Repr

/-- The `sections` up to `section_count`. -/
abbrev Config := List ConfigSection

/-- A name, a key and a value have this many bytes, the NUL with them. -/
abbrev nameSize : Nat := 32

/-- `strcpy` to a name, a key or a value; none where it would write past it. -/
def strcpy (src : Str) : Option Str := if src.length < nameSize then some src else none

/-- With what is returned, which the loader does not look at. -/
def configAddSection (config : Config) (name : Str) : Option (Config × Int) :=
  if 16 ≤ config.length then some (config, -1)
  else (strcpy name).map fun name => (config ++ [⟨name, []⟩], 0)

/-- The end of `config_add_entry`, in the section that was found. -/
def ConfigSection.add (sec : ConfigSection) (key value : Str) : Option (ConfigSection × Int) :=
  if 16 ≤ sec.entries.length then some (sec, -1)
  else
    (strcpy key).bind fun key =>
      (strcpy value).map fun value => ({ sec with entries := sec.entries ++ [⟨key, value⟩] }, 0)

def configAddEntry (sectionName key value : Str) : Config → Option (Config × Int)
  | [] => some ([], -1)
  | sec :: config =>
    if strcmp sec.sectionName sectionName then
      (sec.add key value).map fun (sec, result) => (sec :: config, result)
    else (configAddEntry sectionName key value config).map fun (config, result) => (sec :: config, result)

/-- What the loader calls. -/
inductive Call where
  | addSection (name : Str)
  | addEntry (sectionName key value : Str)
  deriving DecidableEq, Repr

def perform (config : Config) : Call → Option Config
  | .addSection name => (configAddSection config name).map Prod.fst
  | .addEntry sectionName key value => (configAddEntry sectionName key value config).map Prod.fst

/-! ## The loop -/

/-- `*line` -/
def peek (line : Str) : UInt8 := line.headD 0

def isNewline (c : UInt8) : Bool := c = newline || c = '\r'.toUInt8

/-- The characters that a scan to one of `stops` passes. -/
def passes (stops : List UInt8) (c : UInt8) : Bool := c ∉ stops && c ≠ 0

def skipTo (stops : List UInt8) (line : Str) : Str := line.dropWhile (passes stops)

def textTo (stops : List UInt8) (line : Str) : Str := line.takeWhile (passes stops)

/-- The text from `line` on, `section` (`none` is NULL), and the calls so far. -/
structure Parse where
  line : Str
  sec : Option Str
  calls : List Call
  deriving DecidableEq, Repr

namespace Parse

/-- The key and the value, if `section` is one. -/
def keyValue (s : Parse) : Parse :=
  match s.sec with
  | none => s
  | some sec =>
    let name := textTo ['='.toUInt8, newline] s.line
    let line := skipTo ['='.toUInt8, newline] s.line
    if peek line = '='.toUInt8 then
      let value := textTo [newline] line.tail
      let line := skipTo [newline] line.tail
      { s with
        line := if peek line ≠ 0 then line.tail else line
        calls := s.calls ++ [.addEntry sec name value] }
    else { s with line }

/-- What a round does behind a header: it skips a comment or takes an entry. -/
def body (s : Parse) : Parse :=
  if peek s.line = '#'.toUInt8 then { s with line := skipTo [newline] s.line } else s.keyValue

/-- A round of the outer loop. -/
def round (s : Parse) : Parse :=
  let line := s.line.dropWhile isNewline
  if peek line = '['.toUInt8 then
    let name := textTo [']'.toUInt8] line.tail
    let line := skipTo [']'.toUInt8] line
    if peek line = ']'.toUInt8 then
      body { line := line.tail, sec := some name, calls := s.calls ++ [.addSection name] }
    else { s with sec := none, line := skipTo [newline] line }
  else body { s with line }

end Parse

/-- The outer loop, from a position on; none if it takes more than `fuel` rounds. -/
def parse : Nat → Parse → Option (List Call)
  | 0, _ => none
  | fuel + 1, s => if peek s.line = 0 then some s.calls else parse fuel s.round

def start (text : Str) : Parse := ⟨text, none, []⟩

/-- A file that fits into the buffer of the loader, with the NUL behind it. -/
abbrev Content := { text : Str // text.length < 1024 }

/-- `kernel_config_load`: what the table is then, and none if a string was written past its array. An empty file is not
loaded. -/
def kernelConfigLoad (fuel : Nat) (config : Config) (content : Content) : Option (Option Config) :=
  if content.val = [] then some (some config)
  else (parse fuel (start content.val)).map fun calls => calls.foldlM perform []

/-! ## Scans -/

section Scans
variable {stops : List UInt8} {line : Str} {p : UInt8 → Bool}

theorem peek_dropWhile (h : ¬ p (peek line)) : line.dropWhile p = line := by
  cases line with
  | nil => rfl
  | cons c rest => exact List.dropWhile_cons_of_neg h

theorem peek_stopped (line : Str) : peek (line.dropWhile p) = 0 ∨ ¬ p (peek (line.dropWhile p)) := by
  cases h : line.dropWhile p with
  | nil => exact .inl rfl
  | cons c rest =>
    have hc := List.head_dropWhile_not p (l := line) (by simp [h])
    simp only [h, List.head_cons] at hc
    exact .inr (by simpa [peek] using hc)

theorem peek_skipTo (stops : List UInt8) (line : Str) :
    peek (skipTo stops line) ∈ stops ∨ peek (skipTo stops line) = 0 := by
  rcases peek_stopped line with h | h
  · exact .inr h
  · simpa [skipTo, passes, imp_iff_or_not, or_comm] using h

theorem skipTo_of_peek (h : peek line ∈ stops ∨ peek line = 0) : skipTo stops line = line :=
  peek_dropWhile (by rcases h with h | h <;> simp [passes, h])

theorem length_skipTo (stops : List UInt8) (line : Str) : (skipTo stops line).length ≤ line.length :=
  (List.dropWhile_suffix _).length_le

theorem length_skipTo_lt (h : peek line ≠ 0) (hstop : peek line ∉ stops) : (skipTo stops line).length < line.length := by
  cases line with
  | nil => exact absurd rfl h
  | cons c rest =>
    rw [skipTo, List.dropWhile_cons_of_pos (by simpa [passes, peek] using ⟨hstop, h⟩)]
    exact Nat.lt_succ_of_le (length_skipTo stops rest)

theorem length_tail_lt (h : peek line ≠ 0) : line.tail.length < line.length := by
  cases line with
  | nil => exact absurd rfl h
  | cons c rest => exact Nat.lt_succ_self _

end Scans

/-! ## A round -/

section Round
variable {s : Parse} {line sec : Str} {calls : List Call}

@[simp] theorem Parse.keyValue_sec (s : Parse) : s.keyValue.sec = s.sec := by
  unfold Parse.keyValue
  split
  · rfl
  · dsimp only
    split <;> rfl

@[simp] theorem Parse.body_sec (s : Parse) : s.body.sec = s.sec := by
  unfold Parse.body
  split
  · rfl
  · exact s.keyValue_sec

theorem keyValue_length (s : Parse) : s.keyValue.line.length ≤ s.line.length := by
  unfold Parse.keyValue
  split
  · exact le_rfl
  · dsimp only
    have hname := length_skipTo ['='.toUInt8, newline] s.line
    split
    · have hvalue := length_skipTo [newline] (skipTo ['='.toUInt8, newline] s.line).tail
      simp only [List.length_tail] at hvalue
      split <;> simp only [List.length_tail] <;> omega
    · exact hname

theorem body_length (s : Parse) : s.body.line.length ≤ s.line.length := by
  unfold Parse.body
  split
  · exact length_skipTo _ _
  · exact keyValue_length s

/-- A line has a character before its end, or a '='. -/
theorem keyValue_lt (hsec : s.sec = some sec) (hline : peek s.line ≠ 0) (hnew : peek s.line ≠ newline) :
    s.keyValue.line.length < s.line.length := by
  unfold Parse.keyValue
  rw [hsec]
  dsimp only
  split
  · next heq =>
    have hname := length_skipTo ['='.toUInt8, newline] s.line
    have htail : (skipTo ['='.toUInt8, newline] s.line).tail.length < (skipTo ['='.toUInt8, newline] s.line).length :=
      length_tail_lt (by rw [heq]; decide)
    have hvalue := length_skipTo [newline] (skipTo ['='.toUInt8, newline] s.line).tail
    simp only [List.length_tail] at hvalue htail
    split <;> simp only [List.length_tail] <;> omega
  · next hne =>
    refine length_skipTo_lt hline fun hmem => ?_
    rcases List.mem_pair.mp hmem with heq | hn
    · exact hne (by rwa [skipTo_of_peek (.inl (by simp [heq]))])
    · exact hnew hn

theorem body_lt (hsec : s.sec = some sec) (hline : peek s.line ≠ 0) (hnew : peek s.line ≠ newline) :
    s.body.line.length < s.line.length := by
  unfold Parse.body
  split
  · next hcomment => exact length_skipTo_lt hline (by rw [hcomment]; decide)
  · exact keyValue_lt hsec hline hnew

/-- At the end of the text there is nothing to take. -/
theorem body_end (h : peek s.line = 0) : s.body = s := by
  have hskip : skipTo ['='.toUInt8, newline] s.line = s.line := skipTo_of_peek (.inr h)
  unfold Parse.body Parse.keyValue
  rw [if_neg (by rw [h]; decide)]
  split
  · rfl
  · next hsec =>
    simp only [hskip]
    rw [if_neg (by rw [h]; decide)]

theorem round_body (h : peek (s.line.dropWhile isNewline) ≠ '['.toUInt8) :
    s.round = Parse.body { s with line := s.line.dropWhile isNewline } := if_neg h

/-- A header opens a section behind it, or the text has no end of the header. -/
theorem round_header (h : peek (s.line.dropWhile isNewline) = '['.toUInt8) :
    (∃ name rest calls, rest.length < s.line.length ∧ s.round = Parse.body ⟨rest, some name, calls⟩) ∨
      peek s.round.line = 0 := by
  unfold Parse.round
  dsimp only
  rw [if_pos h]
  have hlen : (s.line.dropWhile isNewline).length ≤ s.line.length := (List.dropWhile_suffix _).length_le
  split
  · next hclose =>
    refine .inl ⟨_, _, _, ?_, rfl⟩
    calc (skipTo [']'.toUInt8] (s.line.dropWhile isNewline)).tail.length
        < (skipTo [']'.toUInt8] (s.line.dropWhile isNewline)).length := length_tail_lt (by rw [hclose]; decide)
      _ ≤ (s.line.dropWhile isNewline).length := length_skipTo _ _
      _ ≤ s.line.length := hlen
  · next hopen =>
    have hend := (peek_skipTo [']'.toUInt8] (s.line.dropWhile isNewline)).resolve_left (by simpa using hopen)
    exact .inr (by dsimp only; rwa [skipTo_of_peek (.inr hend)])

end Round

/-! ## Where the load ends -/

/-- The loop ends. -/
def Ends (s : Parse) : Prop := ∃ fuel calls, parse fuel s = some calls

/-- What stands behind the newlines and comments in front; in a comment, behind its line. -/
def afterPreamble : Bool → Str → Str
  | _, [] => []
  | true, c :: line =>
    if c = newline then afterPreamble false line
    else if c = 0 then c :: line
    else afterPreamble true line
  | false, c :: line =>
    if isNewline c then afterPreamble false line
    else if c = '#'.toUInt8 then afterPreamble true line
    else c :: line

/-- The text in front of the first line of another kind ends there, or that line begins with a header. -/
def Opens (text : Str) : Prop :=
  peek (afterPreamble false text) = 0 ∨ peek (afterPreamble false text) = '['.toUInt8

instance (text : Str) : Decidable (Opens text) := inferInstanceAs (Decidable (_ ∨ _))

section Preamble
variable {line : Str}

theorem afterPreamble_newlines (line : Str) :
    afterPreamble false (line.dropWhile isNewline) = afterPreamble false line := by
  induction line with
  | nil => rfl
  | cons c line ih =>
    by_cases h : isNewline c
    · rw [List.dropWhile_cons_of_pos h, ih, afterPreamble, if_pos h]
    · rw [List.dropWhile_cons_of_neg h]

theorem afterPreamble_comment (line : Str) :
    afterPreamble true line = afterPreamble false (skipTo [newline] line) := by
  induction line with
  | nil => rfl
  | cons c line ih =>
    rw [afterPreamble]
    split
    · next h =>
      rw [skipTo_of_peek (.inl (by simp [peek, h])), afterPreamble, if_pos (by simp [isNewline, h])]
    · next h =>
      split
      · next h0 =>
        subst h0
        rw [skipTo_of_peek (.inr rfl), afterPreamble, if_neg (by decide), if_neg (by decide)]
      · next h0 => rw [ih, skipTo, skipTo, List.dropWhile_cons_of_pos (by simp [passes, h, h0])]

/-- A comment at the beginning of a line. -/
theorem afterPreamble_hash (h : peek line = '#'.toUInt8) :
    afterPreamble false line = afterPreamble false (skipTo [newline] line) := by
  cases line with
  | nil => exact absurd h (by decide)
  | cons c line =>
    obtain rfl : c = '#'.toUInt8 := h
    rw [afterPreamble, if_neg (by decide), if_pos rfl, afterPreamble_comment, skipTo, skipTo,
      List.dropWhile_cons_of_pos (by decide)]

theorem afterPreamble_plain (hnew : ¬ isNewline (peek line)) (h : peek line ≠ '#'.toUInt8) :
    afterPreamble false line = line := by
  cases line with
  | nil => rfl
  | cons c line => exact (if_neg hnew).trans (if_neg h)

end Preamble

section Ends
variable {s : Parse}

theorem ends_done (h : peek s.line = 0) : Ends s := ⟨1, s.calls, if_pos h⟩

theorem ends_round (h : peek s.line ≠ 0) : Ends s ↔ Ends s.round := by
  constructor
  · rintro ⟨fuel, calls, hp⟩
    cases fuel with
    | zero => exact absurd hp (by simp [parse])
    | succ fuel => exact ⟨fuel, calls, by rwa [parse, if_neg h] at hp⟩
  · rintro ⟨fuel, calls, hp⟩
    exact ⟨fuel + 1, calls, by rwa [parse, if_neg h]⟩

/-- The loop of a round that changes nothing. -/
theorem parse_stuck (h : peek s.line ≠ 0) (hround : s.round = s) : ¬ Ends s := by
  rintro ⟨fuel, calls, hp⟩
  induction fuel with
  | zero => exact absurd hp (by simp [parse])
  | succ fuel ih => exact ih (by rwa [parse, if_neg h, hround] at hp)

/-- Within a section, by induction on what is left of the text: each round shortens it, and the section stays one up to
a header without an end, behind which nothing is left. -/
theorem ends_section : ∀ (n : Nat) (s : Parse), s.line.length ≤ n → ∀ sec, s.sec = some sec → Ends s
  | 0, s, hn, _, _ => ends_done (by simp [List.length_eq_zero_iff.mp (Nat.le_zero.mp hn), peek])
  | n + 1, s, hn, sec, hsec => by
    by_cases h : peek s.line = 0
    · exact ends_done h
    rw [ends_round h]
    have hlen : (s.line.dropWhile isNewline).length ≤ s.line.length := (List.dropWhile_suffix _).length_le
    by_cases hhead : peek (s.line.dropWhile isNewline) = '['.toUInt8
    · rcases round_header hhead with ⟨name, rest, calls, hrest, hround⟩ | hend
      · rw [hround]
        have hbody := body_length ⟨rest, some name, calls⟩
        exact ends_section n _ (by dsimp only at hbody; omega) name (by simp)
      · exact ends_done hend
    · rw [round_body hhead]
      rcases peek_stopped (p := isNewline) s.line with hend | hnew
      · rw [body_end hend]
        exact ends_done hend
      · by_cases hend : peek (s.line.dropWhile isNewline) = 0
        · rw [body_end hend]
          exact ends_done hend
        have hbody := body_lt (s := { s with line := s.line.dropWhile isNewline }) hsec hend
          fun heq => hnew (by simp [isNewline, heq])
        exact ends_section n _ (by dsimp only at hbody; omega) sec (by simpa using hsec)

/-- In front of the first section, by induction on what is left of the text. -/
theorem ends_preamble : ∀ (n : Nat) (line : Str) (calls : List Call), line.length ≤ n →
    (Ends ⟨line, none, calls⟩ ↔ Opens line)
  | 0, line, calls, hn => by
    obtain rfl := List.length_eq_zero_iff.mp (Nat.le_zero.mp hn)
    exact iff_of_true (ends_done rfl) (.inl rfl)
  | n + 1, line, calls, hn => by
    by_cases h : peek line = 0
    · refine iff_of_true (ends_done h) (.inl ?_)
      rwa [afterPreamble_plain (by rw [h]; decide) (by rw [h]; decide)]
    have hlen : (line.dropWhile isNewline).length ≤ line.length := (List.dropWhile_suffix _).length_le
    rw [ends_round h, Opens, ← afterPreamble_newlines]
    by_cases hhead : peek (line.dropWhile isNewline) = '['.toUInt8
    · refine iff_of_true ?_ (.inr ?_)
      · rcases round_header (s := ⟨line, none, calls⟩) hhead with ⟨name, rest, calls', -, hround⟩ | hend
        · rw [hround]
          exact ends_section _ _ le_rfl name (by simp)
        · exact ends_done hend
      · rwa [afterPreamble_plain (by rw [hhead]; decide) (by rw [hhead]; decide)]
    rw [round_body hhead]
    by_cases hend : peek (line.dropWhile isNewline) = 0
    · rw [body_end hend, afterPreamble_plain (by rw [hend]; decide) (by rw [hend]; decide)]
      exact iff_of_true (ends_done hend) (.inl hend)
    by_cases hcomment : peek (line.dropWhile isNewline) = '#'.toUInt8
    · have hskip : (skipTo [newline] (line.dropWhile isNewline)).length < _ :=
        length_skipTo_lt hend (by rw [hcomment]; decide)
      rw [Parse.body, if_pos hcomment, afterPreamble_hash hcomment]
      exact ends_preamble n (skipTo [newline] (line.dropWhile isNewline)) calls (by omega)
    -- The round leaves the position where it is.
    have hnew := (peek_stopped (p := isNewline) line).resolve_left hend
    have hbody : Parse.body ⟨line.dropWhile isNewline, none, calls⟩ = ⟨line.dropWhile isNewline, none, calls⟩ :=
      if_neg hcomment
    rw [hbody, afterPreamble_plain hnew hcomment]
    refine iff_of_false (parse_stuck hend ?_) (not_or.mpr ⟨hend, hhead⟩)
    rw [round_body (by dsimp only; rwa [peek_dropWhile hnew])]
    dsimp only
    rw [peek_dropWhile hnew, hbody]

end Ends

/-- The load of a file ends iff the first line of it that is neither empty nor a comment begins with a header, or there
is no such line. -/
theorem kernelConfigLoad_terminates_iff (config : Config) (content : Content) :
    (∃ fuel, (kernelConfigLoad fuel config content).isSome) ↔ Opens content.val := by
  unfold kernelConfigLoad
  split
  · next hempty =>
    rw [hempty]
    exact iff_of_true ⟨0, rfl⟩ (.inl rfl)
  · rw [← ends_preamble _ content.val [] le_rfl]
    simp only [Option.isSome_map, Option.isSome_iff_exists]
    rfl

/-- The file "a=1" is never loaded. -/
theorem not_terminates_plain :
    ¬ ∃ fuel, (kernelConfigLoad fuel [] ⟨['a'.toUInt8, '='.toUInt8, '1'.toUInt8], by decide⟩).isSome := by
  rintro ⟨fuel, h⟩
  rw [kernelConfigLoad, if_neg (by decide), Option.isSome_map, Option.isSome_iff_exists] at h
  exact parse_stuck (by decide) (by decide) ⟨fuel, h⟩

end RetrOS.Conf
