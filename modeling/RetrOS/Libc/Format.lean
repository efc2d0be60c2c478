import RetrOS.Libc.Numbers

/-!
# Formatted output (`lib/libc.c`)

* `Args` : the arguments, words on the stack, and the strings that words point to;
* `Output` : the stores into the buffer, in their order, and the number of characters `written`;
* `csprintf` : the function. Literal characters, `%s` and `%c` stop in front of the last byte of `MAX_FMT_STR_SIZE`,
  converted numbers and their padding do not;
* `InBounds` : the stores stay in the buffer, the last one is a NUL behind the characters that are counted;
* `pieces` : the pieces of a format, with their lengths; `NumbersFit` : no number that starts in front of the last byte
  goes beyond it (`inBounds_iff`).
-/

namespace RetrOS.Libc
open RetrOS.Lib

def MAX_FMT_STR_SIZE : Nat := 256

/-- The arguments of `csprintf`: the words of the `va_list`, and the string at an address. -/
structure Args where
  word : Nat → UInt32
  string : UInt32 → Str

structure Output where
  stores : List (Nat × UInt8)
  written : Nat

namespace Output

/-- `buffer[written++] = c` -/
def put (o : Output) (c : UInt8) : Output := ⟨o.stores ++ [(o.written, c)], o.written + 1⟩

/-- The loop that copies `str` up to its NUL. -/
def copy (o : Output) : Str → Output
  | [] => o
  | c :: str => if c ≠ 0 then (o.put c).copy str else o

/-- The loop of `%s`. -/
def putString (o : Output) : Str → Output
  | [] => o
  | c :: str => if c ≠ 0 ∧ o.written < MAX_FMT_STR_SIZE - 1 then (o.put c).putString str else o

/-- A single character. -/
def putChar (o : Output) (c : UInt8) : Output := if o.written < MAX_FMT_STR_SIZE - 1 then o.put c else o

end Output

/-- The zeros that `%p` puts in front of a number. -/
def padding (str : Str) : Str := if strlen str < 5 then List.replicate (5 - strlen str) '0'.toUInt8 else []

/-- The switch over the format specifier and the copy of `str`, with the number of the next argument. -/
def convert (args : Args) (specifier : UInt8) (next : Nat) (o : Output) : Output × Nat :=
  let word := args.word next
  if specifier = 'd'.toUInt8 ∨ specifier = 'i'.toUInt8 then (o.copy (itoa word.toInt32), next + 1)
  else if specifier = 'x'.toUInt8 ∨ specifier = 'X'.toUInt8 then (o.copy (itohex word), next + 1)
  else if specifier = 'p'.toUInt8 then
    let str := itoa word.toInt32
    ((o.copy (padding str)).copy str, next + 1)
  else if specifier = 's'.toUInt8 then (o.putString (args.string word), next + 1)
  else if specifier = 'c'.toUInt8 then (o.putChar word.toUInt8, next + 1)
  else (o, next)

/-- A conversion is passed over where the buffer is full. -/
def conversion (args : Args) (specifier : UInt8) (next : Nat) (o : Output) : Output × Nat :=
  if o.written < MAX_FMT_STR_SIZE - 1 then convert args specifier next o else (o, next)

/-- The loop over the format, a list with the NUL and what is in memory behind it: a `%` in front of the NUL skips it. -/
def csprintfLoop (args : Args) : Str → Nat → Output → Output
  | [], _, o => o
  | c :: fmt, next, o =>
    if c ≠ 0 ∧ o.written < MAX_FMT_STR_SIZE then
      if c = '%'.toUInt8 then
        match fmt with
        | [] => o
        | specifier :: fmt =>
          let converted := conversion args specifier next o
          csprintfLoop args fmt converted.2 converted.1
      else csprintfLoop args fmt next (o.putChar c)
    else o

/-- `csprintf`: the stores into the buffer, and the result. -/
def csprintf (args : Args) (fmt : Str) : List (Nat × UInt8) × Nat :=
  let o := csprintfLoop args fmt 0 ⟨[], 0⟩
  (o.stores ++ [(if o.written < MAX_FMT_STR_SIZE then o.written else MAX_FMT_STR_SIZE - 1, 0)], o.written)

/-- Nothing is stored behind the first `MAX_FMT_STR_SIZE` bytes, and the NUL is stored last, behind as many characters
as the result says. -/
structure InBounds (args : Args) (fmt : Str) : Prop where
  stores : ∀ store ∈ (csprintf args fmt).1, store.1 < MAX_FMT_STR_SIZE
  terminated : (csprintf args fmt).1.getLast? = some ((csprintf args fmt).2, 0)

/-! ## The pieces of a format -/

/-- A piece of a format, with its number of characters. -/
inductive Piece
  | text (length : Nat)
  | number (length : Nat)

def Piece.length : Piece → Nat
  | .text n => n
  | .number n => n

/-- The piece of a specifier, with the number of the next argument. -/
def piece (args : Args) (specifier : UInt8) (next : Nat) : Piece × Nat :=
  let word := args.word next
  if specifier = 'd'.toUInt8 ∨ specifier = 'i'.toUInt8 then (.number (strlen (itoa word.toInt32)), next + 1)
  else if specifier = 'x'.toUInt8 ∨ specifier = 'X'.toUInt8 then (.number (strlen (itohex word)), next + 1)
  else if specifier = 'p'.toUInt8 then (.number (max 5 (strlen (itoa word.toInt32))), next + 1)
  else if specifier = 's'.toUInt8 then (.text (strlen (args.string word)), next + 1)
  else if specifier = 'c'.toUInt8 then (.text 1, next + 1)
  else (.text 0, next)

def pieces (args : Args) : Str → Nat → List Piece
  | [], _ => []
  | c :: fmt, next =>
    if c ≠ 0 then
      if c = '%'.toUInt8 then
        match fmt with
        | [] => []
        | specifier :: fmt => (piece args specifier next).1 :: pieces args fmt (piece args specifier next).2
      else .text 1 :: pieces args fmt next
    else []

/-- The characters of the pieces, all of them. -/
def total (ps : List Piece) : Nat := (ps.map Piece.length).sum

/-- No number that starts at `w` characters or more in front of the last byte goes beyond it. -/
def NumbersFitFrom (w : Nat) (ps : List Piece) : Prop :=
  ∀ before n behind, ps = before ++ .number n :: behind →
    w + total before < MAX_FMT_STR_SIZE - 1 → w + total before + n ≤ MAX_FMT_STR_SIZE - 1

/-- No number of the format starts in front of the last byte and goes beyond it. -/
def NumbersFit (args : Args) (fmt : Str) : Prop := NumbersFitFrom 0 (pieces args fmt 0)

section Fits
variable {w n : Nat} {ps : List Piece}

theorem NumbersFitFrom.of_full (h : MAX_FMT_STR_SIZE - 1 ≤ w) : NumbersFitFrom w ps := by
  intro before n behind _ hlt
  omega

theorem numbersFitFrom_nil : NumbersFitFrom w [] := by
  intro before n behind h
  simp at h

theorem numbersFitFrom_text : NumbersFitFrom w (.text n :: ps) ↔ NumbersFitFrom (w + n) ps := by
  constructor
  · rintro h before m behind rfl hlt
    have hfit := h (.text n :: before) m behind rfl
    simp only [total, List.map_cons, List.sum_cons, Piece.length] at hfit hlt ⊢
    omega
  · intro h before m behind heq hlt
    cases before with
    | nil => simp at heq
    | cons p before =>
      obtain ⟨rfl, rfl⟩ := List.cons.inj heq
      have hfit := h before m behind rfl
      simp only [total, List.map_cons, List.sum_cons, Piece.length] at hfit hlt ⊢
      omega

/-- Where the buffer is full, the rest does not matter. -/
theorem numbersFitFrom_min : NumbersFitFrom (min (MAX_FMT_STR_SIZE - 1) w) ps ↔ NumbersFitFrom w ps := by
  rcases Nat.le_total w (MAX_FMT_STR_SIZE - 1) with h | h
  · rw [Nat.min_eq_right h]
  · rw [Nat.min_eq_left h]
    exact iff_of_true (.of_full (Nat.le_refl _)) (.of_full h)

theorem numbersFitFrom_number (hw : w < MAX_FMT_STR_SIZE - 1) :
    NumbersFitFrom w (.number n :: ps) ↔ w + n ≤ MAX_FMT_STR_SIZE - 1 ∧ NumbersFitFrom (w + n) ps := by
  constructor
  · intro h
    refine ⟨h [] n ps rfl hw, ?_⟩
    rintro before m behind rfl hlt
    have hfit := h (.number n :: before) m behind rfl
    simp only [total, List.map_cons, List.sum_cons, Piece.length] at hfit hlt ⊢
    omega
  · rintro ⟨hn, h⟩ before m behind heq hlt
    cases before with
    | nil =>
      obtain ⟨hm, rfl⟩ := List.cons.inj heq
      cases hm
      exact hn
    | cons p before =>
      obtain ⟨rfl, rfl⟩ := List.cons.inj heq
      have hfit := h before m behind rfl
      simp only [total, List.map_cons, List.sum_cons, Piece.length] at hfit hlt ⊢
      omega

end Fits

/-! ## What is written -/

namespace Output

/-- The characters one after another. -/
def puts (o : Output) (cs : Str) : Output := cs.foldl put o

/-- Characters are put behind those of `o`. -/
def Extends (o o' : Output) : Prop := ∃ cs, o' = o.puts cs

/-- Every store is in front of the next one. -/
def Counted (o : Output) : Prop := ∀ store ∈ o.stores, store.1 < o.written

variable {o o' o'' : Output}

theorem Extends.refl (o : Output) : o.Extends o := ⟨[], rfl⟩

theorem Extends.trans (h : o.Extends o') (h' : o'.Extends o'') : o.Extends o'' := by
  obtain ⟨cs, rfl⟩ := h
  obtain ⟨cs', rfl⟩ := h'
  exact ⟨cs ++ cs', (List.foldl_append ..).symm⟩

theorem Extends.put (c : UInt8) (h : (o.put c).Extends o') : o.Extends o' := .trans ⟨[c], rfl⟩ h

theorem Extends.invariant {P : Output → Prop} (hP : ∀ o c, P o → P (o.put c)) (h : o.Extends o') (ho : P o) : P o' := by
  obtain ⟨cs, rfl⟩ := h
  induction cs generalizing o with
  | nil => exact ho
  | cons c cs ih => exact ih (hP o c ho)

theorem Extends.counted (h : o.Extends o') (ho : o.Counted) : o'.Counted := by
  apply h.invariant _ ho
  intro o c ho store hs
  rcases List.mem_append.mp hs with hs | hs
  · exact Nat.lt_succ_of_lt (ho store hs)
  · rw [List.mem_singleton.mp hs]
    exact Nat.lt_succ_self _

theorem Extends.le (h : o.Extends o') : o.written ≤ o'.written :=
  h.invariant (P := fun o' => o.written ≤ o'.written) (fun _ _ => Nat.le_succ_of_le) (Nat.le_refl _)

theorem extends_copy (o : Output) (str : Str) : o.Extends (o.copy str) := by
  induction str generalizing o with
  | nil => exact .refl o
  | cons c str ih =>
    rw [copy]
    split
    · exact .put c (ih _)
    · exact .refl o

theorem extends_putString (o : Output) (str : Str) : o.Extends (o.putString str) := by
  induction str generalizing o with
  | nil => exact .refl o
  | cons c str ih =>
    rw [putString]
    split
    · exact .put c (ih _)
    · exact .refl o

theorem extends_putChar (o : Output) (c : UInt8) : o.Extends (o.putChar c) := by
  unfold putChar
  split
  · exact .put c (.refl _)
  · exact .refl o

theorem written_copy (o : Output) (str : Str) : (o.copy str).written = o.written + strlen str := by
  induction str generalizing o with
  | nil => rfl
  | cons c str ih =>
    rw [copy, strlen]
    by_cases hc : c = 0
    · simp [hc]
    · rw [if_pos hc, ih, List.takeWhile_cons_of_pos (by simpa using hc), strlen]
      simp only [put, List.length_cons]
      omega

theorem written_putString (str : Str) (h : o.written ≤ MAX_FMT_STR_SIZE - 1) :
    (o.putString str).written = min (MAX_FMT_STR_SIZE - 1) (o.written + strlen str) := by
  induction str generalizing o with
  | nil => simpa [putString, strlen] using h
  | cons c str ih =>
    rw [putString, strlen]
    by_cases hc : c = 0
    · simpa [hc] using h
    rw [List.takeWhile_cons_of_pos (by simpa using hc), List.length_cons]
    by_cases hw : o.written < MAX_FMT_STR_SIZE - 1
    · rw [if_pos ⟨hc, hw⟩, ih (by exact hw), strlen]
      simp only [put]
      omega
    · rw [if_neg fun h => hw h.2]
      omega

theorem written_putChar (c : UInt8) (h : o.written ≤ MAX_FMT_STR_SIZE - 1) :
    (o.putChar c).written = min (MAX_FMT_STR_SIZE - 1) (o.written + 1) := by
  unfold putChar
  split
  · simp only [put]
    omega
  · omega

end Output

section Convert
variable {args : Args} {specifier : UInt8} {next : Nat} {o : Output}

theorem strlen_replicate (n : Nat) {c : UInt8} (hc : c ≠ 0) : strlen (List.replicate n c) = n := by
  rw [strlen_eq, List.length_replicate]
  intro h
  exact hc (List.eq_of_mem_replicate h).symm

theorem strlen_padding (str : Str) : strlen (padding str) + strlen str = max 5 (strlen str) := by
  unfold padding
  split
  · rw [strlen_replicate _ (by decide)]
    omega
  · rw [show strlen [] = 0 from rfl]
    omega

theorem extends_convert (args : Args) (specifier : UInt8) (next : Nat) (o : Output) :
    o.Extends (convert args specifier next o).1 := by
  unfold convert
  dsimp only
  split
  · exact o.extends_copy _
  split
  · exact o.extends_copy _
  split
  · exact (o.extends_copy _).trans (Output.extends_copy _ _)
  split
  · exact o.extends_putString _
  split
  · exact o.extends_putChar _
  · exact .refl o

/-- The characters of a conversion: those of its piece, cut off unless they are a number. -/
theorem written_convert (h : o.written ≤ MAX_FMT_STR_SIZE - 1) :
    (convert args specifier next o).2 = (piece args specifier next).2 ∧
      match (piece args specifier next).1 with
      | .text n => (convert args specifier next o).1.written = min (MAX_FMT_STR_SIZE - 1) (o.written + n)
      | .number n => (convert args specifier next o).1.written = o.written + n := by
  unfold convert piece
  dsimp only
  by_cases hd : specifier = 'd'.toUInt8 ∨ specifier = 'i'.toUInt8
  · simp only [if_pos hd]
    exact ⟨trivial, o.written_copy _⟩
  simp only [if_neg hd]
  by_cases hx : specifier = 'x'.toUInt8 ∨ specifier = 'X'.toUInt8
  · simp only [if_pos hx]
    exact ⟨trivial, o.written_copy _⟩
  simp only [if_neg hx]
  by_cases hp : specifier = 'p'.toUInt8
  · simp only [if_pos hp]
    refine ⟨trivial, ?_⟩
    rw [Output.written_copy, Output.written_copy, Nat.add_assoc, strlen_padding]
  simp only [if_neg hp]
  by_cases hs : specifier = 's'.toUInt8
  · simp only [if_pos hs]
    exact ⟨trivial, Output.written_putString _ h⟩
  simp only [if_neg hs]
  by_cases hc : specifier = 'c'.toUInt8
  · simp only [if_pos hc]
    exact ⟨trivial, Output.written_putChar _ h⟩
  simp only [if_neg hc]
  exact ⟨trivial, by omega⟩

end Convert

section Loop
variable {args : Args} {next : Nat} {o : Output}

theorem extends_csprintfLoop (args : Args) (fmt : Str) (next : Nat) (o : Output) :
    o.Extends (csprintfLoop args fmt next o) := by
  fun_induction csprintfLoop args fmt next o with
  | case1 next o => exact .refl o
  | case2 next o h => exact .refl o
  | case3 next o specifier fmt converted h ih =>
    refine .trans ?_ ih
    unfold converted conversion
    split
    · exact extends_convert ..
    · exact .refl o
  | case4 c fmt next o h hc ih => exact (o.extends_putChar _).trans ih
  | case5 c fmt next o h => exact .refl o

/-- **When the characters fit**: exactly if the numbers do. -/
theorem written_csprintfLoop (fmt : Str) (ho : o.written ≤ MAX_FMT_STR_SIZE - 1) :
    (csprintfLoop args fmt next o).written ≤ MAX_FMT_STR_SIZE - 1 ↔ NumbersFitFrom o.written (pieces args fmt next) := by
  fun_induction csprintfLoop args fmt next o with
  | case1 next o => exact iff_of_true ho numbersFitFrom_nil
  | case2 next o h =>
    rw [pieces, if_pos h.1, if_pos rfl]
    exact iff_of_true ho numbersFitFrom_nil
  | case3 next o specifier fmt converted h ih =>
    rw [pieces, if_pos h.1, if_pos rfl]
    unfold converted conversion at ih ⊢
    by_cases hw : o.written < MAX_FMT_STR_SIZE - 1
    · rw [if_pos hw] at ih ⊢
      obtain ⟨hnext, hwritten⟩ := @written_convert args specifier next o ho
      rw [hnext] at ih ⊢
      cases hpiece : (piece args specifier next).1 with
      | text n =>
        rw [hpiece] at hwritten
        have hconv := ih (by rw [hwritten]; exact Nat.min_le_left ..)
        rw [hconv, hwritten, numbersFitFrom_text]
        exact numbersFitFrom_min
      | number n =>
        rw [hpiece] at hwritten
        rw [numbersFitFrom_number hw]
        by_cases hn : o.written + n ≤ MAX_FMT_STR_SIZE - 1
        · rw [ih (by rwa [hwritten]), hwritten, and_iff_right hn]
        · refine iff_of_false ?_ fun h => hn h.1
          have hle := (extends_csprintfLoop args fmt (piece args specifier next).2
            (convert args specifier next o).1).le
          omega
    · rw [if_neg hw] at ih ⊢
      have hfull : ∀ ps, NumbersFitFrom o.written ps := fun ps => .of_full (Nat.le_of_not_lt hw)
      exact iff_of_true ((ih ho).mpr (hfull _)) (hfull _)
  | case4 c fmt next o h hc ih =>
    have hwritten := Output.written_putChar c ho
    have hpieces : pieces args (c :: fmt) next = .text 1 :: pieces args fmt next := by
      rw [pieces.eq_def]
      exact (if_pos h.1).trans (if_neg hc)
    rw [hpieces, ih (by rw [hwritten]; exact Nat.min_le_left ..), hwritten, numbersFitFrom_text]
    exact numbersFitFrom_min
  | case5 c fmt next o h =>
    have hc : c = 0 := by
      by_contra hc
      exact h ⟨hc, Nat.lt_of_le_of_lt ho (by decide)⟩
    rw [pieces.eq_def]
    dsimp only
    rw [if_neg (not_not_intro hc)]
    exact iff_of_true ho numbersFitFrom_nil

/-- The NUL is the last store; it is stored behind the characters if these fit. -/
theorem inBounds_iff_written (args : Args) (fmt : Str) :
    InBounds args fmt ↔ (csprintfLoop args fmt 0 ⟨[], 0⟩).written ≤ MAX_FMT_STR_SIZE - 1 := by
  have hcounted := (extends_csprintfLoop args fmt 0 ⟨[], 0⟩).counted fun store hs => absurd hs List.not_mem_nil
  have hlast : (csprintf args fmt).1.getLast? = some (if (csprintf args fmt).2 < MAX_FMT_STR_SIZE then
      (csprintf args fmt).2 else MAX_FMT_STR_SIZE - 1, 0) := List.getLast?_concat ..
  constructor
  · intro h
    have hterm := h.terminated
    rw [hlast] at hterm
    by_contra hgt
    have hge : ¬ (csprintf args fmt).2 < MAX_FMT_STR_SIZE := fun hlt => hgt (Nat.le_of_lt_succ hlt)
    rw [if_neg hge] at hterm
    have heq : MAX_FMT_STR_SIZE - 1 = (csprintf args fmt).2 := (Prod.mk.inj (Option.some.inj hterm)).1
    exact hgt (Nat.le_of_eq heq.symm)
  · intro h
    have hlt : (csprintf args fmt).2 < MAX_FMT_STR_SIZE := Nat.lt_of_le_of_lt h (by decide)
    constructor
    · intro store hs
      rcases List.mem_append.mp hs with hs | hs
      · exact Nat.lt_trans (hcounted store hs) hlt
      · rw [List.mem_singleton.mp hs]
        exact lt_of_eq_of_lt (if_pos hlt) hlt
    · rw [hlast, if_pos hlt]

/-- **When `csprintf` keeps to the buffer**: exactly if no number that starts in front of its last byte goes beyond
it. -/
theorem inBounds_iff (args : Args) (fmt : Str) : InBounds args fmt ↔ NumbersFit args fmt :=
  (inBounds_iff_written args fmt).trans (written_csprintfLoop fmt (Nat.zero_le _))

/-- The arguments of `"%s%d"` with a string of 254 characters and the number 100. -/
def longString : Args := ⟨fun _ => 100, fun _ => List.replicate 254 'a'.toUInt8⟩

theorem not_inBounds_longString : ¬ InBounds longString (['%', 's', '%', 'd'].map Char.toUInt8) := by
  have hnumber : strlen (itoa 100) = 3 := by
    have hitoa : itoa 100 = (Digits.places 10 100).reverse.map decChar := itoa_of_nonneg (k := 100) (by decide)
    rw [hitoa]
    decide
  have hpieces : pieces longString (['%', 's', '%', 'd'].map Char.toUInt8) 0 = [.text 254, .number 3] := by
    have hs : piece longString 's'.toUInt8 0 = (.text 254, 1) := by
      show (Piece.text (strlen (List.replicate 254 'a'.toUInt8)), 1) = _
      rw [strlen_replicate 254 (by decide)]
    have hd : piece longString 'd'.toUInt8 1 = (.number 3, 2) := by
      show (Piece.number (strlen (itoa 100)), 2) = _
      rw [hnumber]
    show [(piece longString 's'.toUInt8 0).1, (piece longString 'd'.toUInt8 (piece longString 's'.toUInt8 0).2).1] = _
    rw [hs, hd]
  rw [inBounds_iff_written, written_csprintfLoop _ (Nat.zero_le _), hpieces]
  intro h
  exact absurd (h [.text 254] 3 [] rfl (by decide)) (by decide)

end Loop

end RetrOS.Libc
