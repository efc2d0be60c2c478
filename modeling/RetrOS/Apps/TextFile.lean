import RetrOS.Apps.Typing

/-!
# Loading and saving a file in texed (`apps/texed/textbuffer.c`)

A file is typed into a new buffer, character by character. A character on a full line goes to a new line that is an
extension; a save puts no newline behind an extension, and one behind every other line.

* `loadFile`, `saveFile` : the source;
* `Row`, `typed` : the lines of a text with their flags, `saved` : what is written of them;
* `saved_typed_iff` : without long lines that is the text, and a newline;
* `Loaded` : a buffer into which a text was typed (`Loaded.loadChars`);
* `FitsFile` : the limits of the editor; `roundTrip_iff` : the files that are saved as they were loaded.
-/

namespace RetrOS.Apps
open RetrOS.Lib

/-! ## The source -/

/-- What the system calls of a load or a save do. -/
inductive Attempt (α : Type)
  | noMemory
  | noFile
  | failed
  | done (a : α)

/-- `HAS_FLAG(flags, LINE_FLAG_EXTENSION)` -/
def Line.isExtension (l : Line) : Bool := l.flags &&& LINE_FLAG_EXTENSION != 0

/-- `file` and `len`; `stored` is the end of what was stored in `file`. -/
structure SaveBuffer where
  file : Nat → UInt8
  len : Nat
  stored : Nat

namespace SaveBuffer

def store (f : SaveBuffer) (i : Nat) (bytes : List UInt8) : SaveBuffer :=
  ⟨Slice.write f.file i bytes, f.len, max f.stored (i + bytes.length)⟩

/-- The body of the loop over the lines. -/
def add (f : SaveBuffer) (l : Line) : SaveBuffer :=
  let f := f.store f.len (Slice.read l.text 0 l.length)
  let f := if l.isExtension then f else { f.store (f.len + l.length) [newline] with len := f.len + 1 }
  { f with len := f.len + l.length }

/-- The loop over the `n` lines from line `i` on. -/
def addLines (lines : Nat → Line) : Nat → Nat → SaveBuffer → SaveBuffer
  | 0, _, f => f
  | n + 1, i, f => addLines lines n (i + 1) (f.add (lines i))

end SaveBuffer

namespace TextBuffer

/-- The file that a save writes, in memory that `malloc` returned. -/
def collect (b : TextBuffer) (file : Nat → UInt8) : SaveBuffer := .addLines b.lines b.lineCount 0 ⟨file, 0, 0⟩

/-- `textbuffer_save_file`, with what it writes. -/
def saveFile (b : TextBuffer) (file : Nat → UInt8) : Attempt Unit → Int × Option (List UInt8)
  | .noMemory => (-1, none)
  | .noFile => (-1, none)
  | .failed => (-1, none)
  | .done _ => (0, some (Slice.read (b.collect file).file 0 (b.collect file).len))

/-- The loop over the characters; `memory i` says whether `malloc` has memory for another line at character `i`. -/
def loadChars (memory : Nat → Bool) : Nat → List UInt8 → TextBuffer → TextBuffer
  | _, [], b => b
  | i, c :: file, b => loadChars memory (i + 1) file (b.handleChar (memory i) c).2

/-- `textbuffer_load_file` of a file with this content, of which at most 2048 bytes are read. -/
def loadFile (b : TextBuffer) (memory : Nat → Bool) : Attempt (List UInt8) → Int × TextBuffer
  | .noMemory => (-1, b)
  | .noFile => (-1, b)
  | .failed => (-1, b)
  | .done content => (0, loadChars memory 0 (content.take 2048) b)

end TextBuffer

/-- The content is saved as it was loaded, and the save stays in its buffer. -/
structure RoundTrip (b : TextBuffer) (file : Nat → UInt8) (content : List UInt8) : Prop where
  bytes : (((b.loadFile (fun _ => true) (.done content)).2).saveFile file (.done ())).2 = some content
  bounds : (((b.loadFile (fun _ => true) (.done content)).2).collect file).stored ≤ 2048

/-! ## Rows -/

/-- A line of the buffer. -/
structure Row where
  text : List UInt8
  extension : Bool

/-- What is written of the lines. -/
def saved (rows : List Row) : List UInt8 := rows.flatMap fun r => if r.extension then r.text else r.text ++ [newline]

/-- The lines after a text is typed at the end of the last one. -/
def typed (above : List Row) (cur : Row) : List UInt8 → List Row
  | [] => above ++ [cur]
  | c :: rest =>
    if c = newline then typed (above ++ [cur]) ⟨[], false⟩ rest
    else if cur.text.length = LINE_CAPACITY then typed (above ++ [cur]) ⟨[c], true⟩ rest
    else typed above ⟨cur.text ++ [c], cur.extension⟩ rest

/-- The lines that a text begins, typed at column `x`. -/
def breaks : Nat → List UInt8 → Nat
  | _, [] => 0
  | x, c :: rest =>
    if c = newline then breaks 0 rest + 1
    else if x = LINE_CAPACITY then breaks 1 rest + 1
    else breaks (x + 1) rest

/-- The lines of a file; its last newline begins none. -/
def linesTaken (content : List UInt8) : Nat :=
  breaks 0 content + if content = [] ∨ content.getLast? = some newline then 0 else 1

/-- A text file that fits: no byte is that of a key, it is read in one piece, and its lines fit, long ones taken as
several. -/
structure FitsFile (content : List UInt8) : Prop where
  plain : ∀ c ∈ content, c ∉ [backspace, KEY_RIGHT, KEY_LEFT, KEY_UP, KEY_DOWN]
  size : content.length ≤ 2048
  lines : linesTaken content ≤ MAX_LINES

section Rows
variable {above : List Row} {cur : Row} {content rest : List UInt8} {c : UInt8} {x : Nat}

theorem count_le_breaks (x : Nat) (rest : List UInt8) : rest.count newline ≤ breaks x rest := by
  induction rest generalizing x with
  | nil => exact Nat.le_refl 0
  | cons c rest ih =>
    rw [breaks]
    by_cases hc : c = newline
    · rw [if_pos hc, hc, List.count_cons_self]
      exact Nat.succ_le_succ (ih 0)
    · rw [if_neg hc, List.count_cons_of_ne hc]
      split
      · exact Nat.le_succ_of_le (ih 1)
      · exact ih (x + 1)

theorem breaks_concat (x : Nat) (rest : List UInt8) : breaks x (rest ++ [newline]) = breaks x rest + 1 := by
  induction rest generalizing x with
  | nil => rfl
  | cons c rest ih =>
    rw [List.cons_append, breaks, breaks, ih, ih, ih]
    split_ifs
    all_goals rfl

theorem saved_concat (above : List Row) (cur : Row) :
    saved (above ++ [cur]) = saved above ++ (if cur.extension then cur.text else cur.text ++ [newline]) := by
  rw [saved, List.flatMap_append, List.flatMap_singleton]
  rfl

theorem length_typed (above : List Row) (cur : Row) (rest : List UInt8) :
    (typed above cur rest).length = above.length + 1 + breaks cur.text.length rest := by
  induction rest generalizing above cur with
  | nil => simp [typed, breaks]
  | cons c rest ih =>
    rw [typed, breaks]
    split_ifs
    · rw [ih, List.length_append, List.length_singleton, List.length_nil]
      omega
    · rw [ih, List.length_append, List.length_singleton, List.length_singleton]
      omega
    · rw [ih, List.length_append, List.length_singleton]

/-- Each character is one more in the file. -/
theorem length_saved_typed (above : List Row) (cur : Row) (rest : List UInt8) :
    (saved (typed above cur rest)).length = (saved (above ++ [cur])).length + rest.length := by
  induction rest generalizing above cur with
  | nil => rfl
  | cons c rest ih =>
    rw [typed, List.length_cons]
    split_ifs
    · rw [ih, saved_concat (above ++ [cur])]
      simp
      omega
    · rw [ih, saved_concat (above ++ [cur])]
      simp
      omega
    · rw [ih, saved_concat, saved_concat]
      cases cur.extension
      all_goals simp
      all_goals omega

theorem saved_prefix_typed (above : List Row) (cur : Row) (rest : List UInt8) :
    saved above <+: saved (typed above cur rest) := by
  induction rest generalizing above cur with
  | nil =>
    rw [typed, saved_concat]
    exact List.prefix_append ..
  | cons c rest ih =>
    have habove : saved above <+: saved (above ++ [cur]) := by
      rw [saved_concat]
      exact List.prefix_append ..
    rw [typed]
    split_ifs
    · exact habove.trans (ih ..)
    · exact habove.trans (ih ..)
    · exact ih ..

/-- The text and a newline are written exactly if no line is wrapped. -/
theorem saved_typed_iff (hcur : cur.extension = false) :
    saved (typed above cur rest) = saved above ++ cur.text ++ rest ++ [newline] ↔
      breaks cur.text.length rest = rest.count newline := by
  induction rest generalizing above cur with
  | nil =>
    rw [typed, saved_concat, hcur]
    simp [breaks]
  | cons c rest ih =>
    have hline : saved (above ++ [cur]) = saved above ++ cur.text ++ [newline] := by
      rw [saved_concat, hcur]
      simp
    rw [typed, breaks]
    by_cases hc : c = newline
    · have hnext := @ih (above ++ [cur]) ⟨[], false⟩ rfl
      rw [if_pos hc, if_pos hc, hc, List.count_cons_self, Nat.add_right_cancel_iff]
      rw [hline] at hnext
      simpa using hnext
    rw [if_neg hc, if_neg hc, List.count_cons_of_ne hc]
    by_cases hfull : cur.text.length = LINE_CAPACITY
    · rw [if_pos hfull, if_pos hfull]
      apply iff_of_false
      · intro heq
        have hbegins := saved_prefix_typed (above ++ [cur]) ⟨[c], true⟩ rest
        rw [heq, hline, List.append_assoc (saved above ++ cur.text), List.prefix_append_right_inj, List.cons_append,
          List.cons_prefix_cons] at hbegins
        exact hc hbegins.1.symm
      · have hle := count_le_breaks 1 rest
        omega
    · rw [if_neg hfull, if_neg hfull]
      have hnext := @ih above ⟨cur.text ++ [c], cur.extension⟩ hcur
      rw [List.length_append, List.length_singleton] at hnext
      rw [← hnext]
      simp

end Rows
/-! ## Loading -/

/-- The buffer holds the lines, with the cursor at their end. -/
structure Loaded (b : TextBuffer) (above : List Row) (cur : Row) : Prop where
  shows : b.Shows ⟨above.map Row.text, cur.text, [], []⟩
  flags : ∀ i r, (above ++ [cur])[i]? = some r → (b.lines i).isExtension = r.extension

section Loading
variable {b : TextBuffer} {above : List Row} {cur : Row} {content rest : List UInt8} {c : UInt8} {i : Nat}

theorem isExtension_dirty (l : Line) : (l.mark LINE_FLAG_DIRTY).isExtension = l.isExtension := by
  have hapart : LINE_FLAG_DIRTY &&& LINE_FLAG_EXTENSION = 0 := rfl
  rw [Line.isExtension, Line.mark, Nat.and_or_distrib_right, hapart, Nat.or_zero, Line.isExtension]

theorem isExtension_extension (l : Line) : (l.mark LINE_FLAG_EXTENSION).isExtension = true := by
  rw [Line.isExtension, Line.mark, Nat.and_or_distrib_right, Nat.and_self, bne_iff_ne]
  intro h
  exact absurd (Nat.or_eq_zero_iff.mp h).2 (by decide)

theorem lines_scrollDown (b : TextBuffer) : b.scrollDown.lines = b.lines := by
  rw [TextBuffer.scrollDown]
  split <;> rfl

theorem isExtension_newLine (hcount : b.lineCount ≠ MAX_LINES) : ∃ b', b.newLine true = some b' ∧ b'.y = b.y ∧
    b'.lineCount = b.lineCount + 1 ∧
    ∀ i, (b'.lines i).isExtension = if i = b.lineCount then false else (b.lines i).isExtension := by
  refine ⟨_, (if_neg hcount).trans (if_pos rfl), rfl, rfl, ?_⟩
  intro i
  simp only [TextBuffer.setLine]
  by_cases hi : i = b.lineCount
  · rw [if_pos hi, hi, Function.update_self]
    show (0 &&& LINE_FLAG_EXTENSION != 0) = false
    decide
  · rw [if_neg hi, Function.update_of_ne hi]

/-- An enter at the end of the last line: the new one is no extension. -/
theorem isExtension_handleEnter (hx : b.x = b.line.length) (hy : b.y + 1 = b.lineCount)
    (hcount : b.lineCount ≠ MAX_LINES) (i : Nat) :
    ((b.handleEnter true).2.lines i).isExtension = if i = b.lineCount then false else (b.lines i).isExtension := by
  obtain ⟨b', hnew, hy', hcount', hflags⟩ := isExtension_newLine hcount
  have hlast : b'.y ≠ b'.lineCount - 1 := by omega
  have hmoved : b'.lineCount - 1 - (b'.y + 1) = 0 := by omega
  rw [TextBuffer.handleEnter, if_pos hx, if_neg hcount, hnew]
  dsimp only
  rw [if_pos hlast, hmoved, moveDown, lines_scrollDown, TextBuffer.toNextLine, ← hflags i]
  simp only [TextBuffer.setLine]
  by_cases hi : i = b'.y + 1
  · rw [hi, Function.update_self, isExtension_dirty, Function.update_self]
    rfl
  · rw [Function.update_of_ne hi, Function.update_of_ne hi]

/-- A character does not change the flag of a line; on a full line there is an enter in front of it. -/
theorem isExtension_handleText (b : TextBuffer) (c : UInt8) (i : Nat) :
    ((b.handleText true c).lines i).isExtension =
      ((if b.line.length = b.line.capacity then
        (b.handleEnter true).2.setLine (b.handleEnter true).2.y ((b.handleEnter true).2.line.mark LINE_FLAG_EXTENSION)
        else b).lines i).isExtension := by
  rw [TextBuffer.handleText]
  dsimp only
  generalize (if b.line.length = b.line.capacity then
    (b.handleEnter true).2.setLine (b.handleEnter true).2.y ((b.handleEnter true).2.line.mark LINE_FLAG_EXTENSION)
    else b) = b'
  simp only [TextBuffer.setLine]
  by_cases hi : i = b'.y
  · rw [hi, Function.update_self, isExtension_dirty]
    rfl
  · rw [Function.update_of_ne hi]

/-! ### One character -/

theorem Loaded.count (h : Loaded b above cur) : b.lineCount = above.length + 1 := by
  have hcount := h.shows.count
  rw [List.length_map] at hcount
  exact hcount

theorem Loaded.y (h : Loaded b above cur) : b.y + 1 = b.lineCount := by
  rw [h.count, h.shows.y, List.length_map]

theorem Loaded.length (h : Loaded b above cur) : b.line.length = cur.text.length ∧ b.x = b.line.length := by
  have hlen := h.shows.current.length
  rw [Page.current, List.append_nil] at hlen
  exact ⟨hlen, h.shows.x.trans hlen.symm⟩

theorem page_room {above : List Row} {cur : List UInt8} (hcount : above.length + 1 ≠ MAX_LINES) :
    (Page.mk (above.map Row.text) cur [] []).room true = true := by
  simpa [Page.room, Page.lines] using hcount

theorem getElem?_concat_eq {rows : List Row} {r s : Row} (h : (rows ++ [s])[i]? = some r) :
    i < rows.length ∧ rows[i]? = some r ∨ i = rows.length ∧ s = r := by
  rcases Nat.lt_or_ge i rows.length with hi | hi
  · rw [List.getElem?_append_left hi] at h
    exact .inl ⟨hi, h⟩
  · rw [List.getElem?_append_right hi, List.getElem?_singleton] at h
    split at h
    · exact .inr ⟨by omega, Option.some.inj h⟩
    · exact absurd h.symm (Option.some_ne_none _)

/-- A newline. -/
theorem Loaded.newline (h : Loaded b above cur) (hcount : above.length + 1 ≠ MAX_LINES) :
    Loaded (b.handleChar true newline).2 (above ++ [cur]) ⟨[], false⟩ := by
  have hshows := h.shows.handleChar (show b.Fits (true, Apps.newline) from trivial)
  refine ⟨?_, ?_⟩
  · rw [Page.step, if_neg (by decide), if_pos rfl, if_pos (page_room hcount)] at hshows
    rw [List.map_append]
    exact hshows
  · intro i r hr
    rw [TextBuffer.handleChar, if_neg (by decide), if_pos rfl,
      isExtension_handleEnter h.length.2 h.y (by rw [h.count]; exact hcount), h.count]
    rcases getElem?_concat_eq hr with ⟨hi, hr⟩ | ⟨rfl, rfl⟩
    · rw [List.length_append, List.length_singleton] at hi
      rw [if_neg (Nat.ne_of_lt hi)]
      exact h.flags i r hr
    · rw [if_pos (by rw [List.length_append, List.length_singleton])]

/-- A byte of a text is a newline, or goes into a line. -/
theorem handleChar_text (hc : c ∉ [backspace, KEY_RIGHT, KEY_LEFT, KEY_UP, KEY_DOWN]) (hne : c ≠ Apps.newline)
    (b : TextBuffer) : b.handleChar true c = (0, b.handleText true c) := by
  simp only [List.mem_cons, List.not_mem_nil, or_false, not_or] at hc
  rw [TextBuffer.handleChar, if_neg hc.1, if_neg hne, if_neg]
  simp only [not_or]
  exact hc.2

theorem Loaded.full_iff (h : Loaded b above cur) :
    b.line.length = b.line.capacity ↔ cur.text.length = LINE_CAPACITY := by
  rw [h.length.1, h.shows.current.capacity]

theorem Loaded.fits (h : Loaded b above cur)
    (hroom : cur.text.length = LINE_CAPACITY → above.length + 1 ≠ MAX_LINES) :
    b.line.length ≠ b.line.capacity ∨ 0 < b.x ∧ b.lineCount ≠ MAX_LINES ∧ true = true := by
  by_cases hfull : cur.text.length = LINE_CAPACITY
  · refine .inr ⟨?_, ?_, rfl⟩
    · rw [h.length.2, h.length.1, hfull]
      decide
    · rw [h.count]
      exact hroom hfull
  · exact .inl fun heq => hfull (h.full_iff.mp heq)

/-- A character of the text, in a line with room. -/
theorem Loaded.text (h : Loaded b above cur) (hc : c ∉ [backspace, KEY_RIGHT, KEY_LEFT, KEY_UP, KEY_DOWN])
    (hne : c ≠ Apps.newline) (hroom : cur.text.length ≠ LINE_CAPACITY) :
    Loaded (b.handleChar true c).2 above ⟨cur.text ++ [c], cur.extension⟩ := by
  have hfull : b.line.length ≠ b.line.capacity := fun heq => hroom (h.full_iff.mp heq)
  rw [handleChar_text hc hne]
  refine ⟨?_, ?_⟩
  · have hshows := h.shows.handleText c (h.fits fun heq => absurd heq hroom)
    rw [if_neg (by rwa [Page.current, List.append_nil])] at hshows
    exact hshows
  · intro i r hr
    rw [isExtension_handleText, if_neg hfull]
    rcases getElem?_concat_eq hr with ⟨hi, hr⟩ | ⟨rfl, rfl⟩
    · apply h.flags
      rw [List.getElem?_append_left hi, hr]
    · apply h.flags above.length cur
      exact List.getElem?_concat_length

/-- A character on a full line: an extension begins. -/
theorem Loaded.wrap (h : Loaded b above cur) (hc : c ∉ [backspace, KEY_RIGHT, KEY_LEFT, KEY_UP, KEY_DOWN])
    (hne : c ≠ Apps.newline) (hfull : cur.text.length = LINE_CAPACITY) (hcount : above.length + 1 ≠ MAX_LINES) :
    Loaded (b.handleChar true c).2 (above ++ [cur]) ⟨[c], true⟩ := by
  have henter := h.shows.handleEnter true
  rw [if_pos (page_room hcount)] at henter
  have hy : (b.handleEnter true).2.y = above.length + 1 := by
    rw [henter.y]
    simp [Page.enter]
  rw [handleChar_text hc hne]
  refine ⟨?_, ?_⟩
  · have hshows := h.shows.handleText c (h.fits fun _ => hcount)
    rw [if_pos (by rwa [Page.current, List.append_nil])] at hshows
    rw [List.map_append]
    exact hshows
  · intro i r hr
    rw [isExtension_handleText, if_pos (h.full_iff.mpr hfull)]
    simp only [TextBuffer.setLine]
    rw [hy]
    rcases getElem?_concat_eq hr with ⟨hi, hr⟩ | ⟨rfl, rfl⟩
    · rw [List.length_append, List.length_singleton] at hi
      rw [Function.update_of_ne (Nat.ne_of_lt hi),
        isExtension_handleEnter h.length.2 h.y (by rw [h.count]; exact hcount), h.count, if_neg (Nat.ne_of_lt hi)]
      exact h.flags i r hr
    · rw [List.length_append, List.length_singleton, Function.update_self]
      exact isExtension_extension _

/-! ### All characters -/

/-- A text that fits behind the lines is typed. -/
theorem Loaded.loadChars (h : Loaded b above cur)
    (hplain : ∀ c ∈ rest, c ∉ [backspace, KEY_RIGHT, KEY_LEFT, KEY_UP, KEY_DOWN])
    (hfits : above.length + 1 + breaks cur.text.length rest ≤ MAX_LINES) (i : Nat) :
    ∃ above' cur', typed above cur rest = above' ++ [cur'] ∧
      Loaded (TextBuffer.loadChars (fun _ => true) i rest b) above' cur' := by
  induction rest generalizing b above cur i with
  | nil => exact ⟨above, cur, rfl, h⟩
  | cons c rest ih =>
    obtain ⟨hc, hrest⟩ := List.forall_mem_cons.mp hplain
    rw [breaks] at hfits
    rw [typed, TextBuffer.loadChars]
    by_cases hne : c = Apps.newline
    · rw [if_pos hne] at hfits ⊢
      rw [hne]
      apply ih (h.newline (by omega)) hrest
      rw [List.length_append, List.length_singleton, List.length_nil]
      omega
    rw [if_neg hne] at hfits ⊢
    by_cases hfull : cur.text.length = LINE_CAPACITY
    · rw [if_pos hfull] at hfits ⊢
      apply ih (h.wrap hc hne hfull (by omega)) hrest
      rw [List.length_append, List.length_singleton, List.length_singleton]
      omega
    · rw [if_neg hfull] at hfits ⊢
      apply ih (h.text hc hne hfull) hrest
      rw [List.length_append, List.length_singleton]
      exact hfits

/-- Behind the last line that there can be a newline is dropped. -/
theorem handleChar_newline_full (h : Loaded b above cur) (hcount : above.length + 1 = MAX_LINES) :
    (b.handleChar true Apps.newline).2 = b := by
  rw [TextBuffer.handleChar, if_neg (by decide), if_pos rfl, TextBuffer.handleEnter, if_pos h.length.2,
    if_pos (h.count.trans hcount)]

end Loading

/-! ## Saving -/

section Saving
variable {lines : Nat → Line} {rows : List Row} {f : SaveBuffer} {bytes : List UInt8} {i : Nat}

/-- The bytes are stored, and nothing behind them. -/
structure SaveBuffer.Stores (f : SaveBuffer) (bytes : List UInt8) : Prop where
  stored : f.stored = bytes.length
  file : Slice.read f.file 0 bytes.length = bytes

theorem SaveBuffer.Stores.store (h : f.Stores bytes) (more : List UInt8) :
    (f.store bytes.length more).Stores (bytes ++ more) := by
  refine ⟨?_, ?_⟩
  · rw [SaveBuffer.store, h.stored, List.length_append]
    exact Nat.max_eq_right (Nat.le_add_right ..)
  · have hfile := Slice.read_write_append f.file 0 bytes.length more
    rw [Nat.zero_add, h.file] at hfile
    rw [List.length_append]
    exact hfile

/-- One line. -/
theorem SaveBuffer.Stores.add {l : Line} {r : Row} (h : f.Stores bytes) (hlen : f.len = bytes.length)
    (hl : l.Holds r.text) (hflag : l.isExtension = r.extension) :
    (f.add l).Stores (bytes ++ if r.extension then r.text else r.text ++ [newline]) ∧
      (f.add l).len = (bytes ++ if r.extension then r.text else r.text ++ [newline]).length := by
  have htext := h.store r.text
  rw [SaveBuffer.add, hlen, hl.length, hl.text, hflag]
  cases r.extension with
  | true =>
    refine ⟨⟨htext.stored, htext.file⟩, ?_⟩
    show f.len + r.text.length = _
    rw [hlen, if_pos rfl, List.length_append]
  | false =>
    have hline := htext.store [newline]
    have hsame : (f.store bytes.length r.text).len = bytes.length := hlen
    rw [List.length_append, List.append_assoc] at hline
    simp only [Bool.false_eq_true, ↓reduceIte, hsame]
    refine ⟨⟨hline.stored, hline.file⟩, ?_⟩
    rw [List.length_append, List.length_append, List.length_singleton]
    omega

theorem SaveBuffer.Stores.addLines (h : f.Stores bytes) (hlen : f.len = bytes.length)
    (hlines : HoldsFrom lines i (rows.map Row.text))
    (hflags : ∀ k r, rows[k]? = some r → (lines (i + k)).isExtension = r.extension) :
    (SaveBuffer.addLines lines rows.length i f).Stores (bytes ++ saved rows) ∧
      (SaveBuffer.addLines lines rows.length i f).len = (bytes ++ saved rows).length := by
  induction rows generalizing f bytes i with
  | nil =>
    rw [saved, List.flatMap_nil, List.append_nil]
    exact ⟨h, hlen⟩
  | cons r rows ih =>
    obtain ⟨hnext, hnextlen⟩ := h.add hlen hlines.1 (hflags 0 r rfl)
    have hrest : ∀ k r, rows[k]? = some r → (lines (i + 1 + k)).isExtension = r.extension := by
      intro k r hr
      rw [Nat.add_assoc, Nat.add_comm 1]
      exact hflags (k + 1) r hr
    rw [saved, List.flatMap_cons, ← List.append_assoc]
    exact ih hnext hnextlen hlines.2 hrest

/-- What is written of a buffer with these lines. -/
theorem Loaded.collect {b : TextBuffer} {above : List Row} {cur : Row} (h : Loaded b above cur) (file : Nat → UInt8) :
    (b.collect file).stored = (saved (above ++ [cur])).length ∧
      Slice.read (b.collect file).file 0 (b.collect file).len = saved (above ++ [cur]) := by
  have hstart : SaveBuffer.Stores ⟨file, 0, 0⟩ [] := ⟨rfl, rfl⟩
  have hlines : HoldsFrom b.lines 0 ((above ++ [cur]).map Row.text) := by
    have hholds := h.shows.holdsFrom
    rw [Page.lines, Page.current, List.append_nil] at hholds
    rw [List.map_append]
    exact hholds
  have hcount : b.lineCount = (above ++ [cur]).length := by
    rw [h.count, List.length_append, List.length_singleton]
  have hflags : ∀ k r, (above ++ [cur])[k]? = some r → (b.lines (0 + k)).isExtension = r.extension := by
    intro k r hr
    rw [Nat.zero_add]
    exact h.flags k r hr
  obtain ⟨hstores, hlen⟩ := hstart.addLines rfl hlines hflags
  rw [TextBuffer.collect, hcount]
  rw [List.nil_append] at hstores hlen
  refine ⟨hstores.stored, ?_⟩
  rw [hlen]
  exact hstores.file

end Saving

/-! ## The round trip -/

section RoundTrip
variable {b : TextBuffer} {content : List UInt8}

/-- A buffer into which a file was loaded, whose lines are those of its text. -/
theorem roundTrip_iff_saved {rows : List Row} {file : Nat → UInt8} (hsize : content.length ≤ 2048)
    (h : ∃ above cur, rows = above ++ [cur] ∧ Loaded (TextBuffer.loadChars (fun _ => true) 0 content b) above cur) :
    RoundTrip b file content ↔ saved rows = content := by
  obtain ⟨above, cur, rfl, hloaded⟩ := h
  have hload : (b.loadFile (fun _ => true) (.done content)).2 = TextBuffer.loadChars (fun _ => true) 0 content b := by
    rw [TextBuffer.loadFile, List.take_of_length_le hsize]
  obtain ⟨hstored, hfile⟩ := hloaded.collect file
  constructor
  · intro hround
    have hbytes := hround.bytes
    rw [hload, TextBuffer.saveFile, hfile] at hbytes
    exact Option.some.inj hbytes
  · intro hsaved
    refine ⟨?_, ?_⟩
    · rw [hload, TextBuffer.saveFile, hfile, hsaved]
    · rw [hload, hstored, hsaved]
      exact hsize

theorem loadChars_append (memory : Nat → Bool) (i : Nat) (file more : List UInt8) (b : TextBuffer) :
    TextBuffer.loadChars memory i (file ++ more) b =
      TextBuffer.loadChars memory (i + file.length) more (TextBuffer.loadChars memory i file b) := by
  induction file generalizing i b with
  | nil => rfl
  | cons c file ih =>
    rw [List.cons_append, TextBuffer.loadChars, TextBuffer.loadChars, ih, List.length_cons, Nat.add_assoc,
      Nat.add_comm 1]

/-- A new buffer has one line. -/
theorem loaded_create {lines : Nat → Line} (hcreate : TextBuffer.create lines 0 = some b) :
    Loaded b [] ⟨[], false⟩ := by
  obtain ⟨b', hb', hblank⟩ := TextBuffer.create_shows lines
  obtain rfl := Option.some.inj (hb'.symm.trans hcreate)
  refine ⟨hblank, ?_⟩
  intro i r hr
  obtain ⟨b'', hnew, -, -, hflags⟩ := isExtension_newLine (b := ⟨lines, 0, 0, 0, 0, MAX_VISABLE_LINES⟩)
    (show (0 : Nat) ≠ MAX_LINES by decide)
  obtain rfl := Option.some.inj (hnew.symm.trans hcreate)
  rcases getElem?_concat_eq hr with ⟨hi, -⟩ | ⟨rfl, rfl⟩
  · exact absurd hi (Nat.not_lt_zero i)
  · exact hflags 0

/-- A file with a line too many ends with a newline, which is not kept. -/
theorem FitsFile.breaks_le (hfits : FitsFile content) (hmany : MAX_LINES < 1 + breaks 0 content) :
    ∃ front, content = front ++ [newline] ∧ 1 + breaks 0 front = MAX_LINES := by
  have hlines := hfits.lines
  rw [linesTaken] at hlines
  split at hlines
  · next hlast =>
    rcases hlast with rfl | hlast
    · exact absurd hmany (by decide)
    · obtain ⟨front, rfl⟩ := List.getLast?_eq_some_iff.mp hlast
      refine ⟨front, rfl, ?_⟩
      rw [breaks_concat] at hlines hmany
      omega
  · omega

/-- **The files that are saved as they were loaded** are those of 512 lines that each end with a newline. -/
theorem roundTrip_iff (lines : Nat → Line) (file : Nat → UInt8) (hcreate : TextBuffer.create lines 0 = some b)
    (hfits : FitsFile content) : RoundTrip b file content ↔ content.count newline = MAX_LINES := by
  have hloaded := loaded_create hcreate
  rcases Nat.lt_or_ge MAX_LINES (1 + breaks 0 content) with hmany | hfew
  · obtain ⟨front, rfl, hfront⟩ := hfits.breaks_le hmany
    have hplain : ∀ c ∈ front, c ∉ [backspace, KEY_RIGHT, KEY_LEFT, KEY_UP, KEY_DOWN] := fun c hc =>
      hfits.plain c (List.mem_append_left _ hc)
    obtain ⟨above, cur, htyped, hend⟩ := hloaded.loadChars hplain (by simpa using Nat.le_of_eq hfront) 0
    have hfull : above.length + 1 = MAX_LINES := by
      have hlen := congrArg List.length htyped
      rw [length_typed, List.length_append, List.length_singleton, List.length_nil, List.length_nil] at hlen
      omega
    have hkept : TextBuffer.loadChars (fun _ => true) 0 (front ++ [newline]) b =
        TextBuffer.loadChars (fun _ => true) 0 front b := by
      rw [loadChars_append]
      exact handleChar_newline_full hend hfull
    rw [roundTrip_iff_saved hfits.size ⟨above, cur, htyped, by rw [hkept]; exact hend⟩]
    have hsaved := @saved_typed_iff [] ⟨[], false⟩ front rfl
    have hcount : (front ++ [newline]).count newline = front.count newline + 1 := by simp
    rw [hcount]
    apply hsaved.trans
    show breaks 0 front = front.count newline ↔ _
    omega
  · rw [roundTrip_iff_saved hfits.size (hloaded.loadChars hfits.plain (by simpa using hfew) 0)]
    apply iff_of_false
    · intro hsaved
      have hlen := length_saved_typed [] ⟨[], false⟩ content
      rw [hsaved] at hlen
      simp [saved] at hlen
    · have hle := count_le_breaks 0 content
      omega

theorem fitsFile_a : FitsFile [97] where
  plain := List.forall_mem_singleton.mpr (by decide)
  size := by decide
  lines := by decide

theorem roundTrip_iff_a : ∃ b, TextBuffer.create TextBuffer.zeroes 0 = some b ∧
    (RoundTrip b (fun _ => 0) [97] ↔ [97].count newline = MAX_LINES) :=
  ⟨_, rfl, roundTrip_iff TextBuffer.zeroes _ rfl fitsFile_a⟩

/-- The file `a` is saved with a newline behind it. -/
theorem not_roundTrip_a : ∃ b, TextBuffer.create TextBuffer.zeroes 0 = some b ∧ FitsFile [97] ∧
    ¬ RoundTrip b (fun _ => 0) [97] := by
  refine ⟨_, rfl, fitsFile_a, ?_⟩
  intro h
  exact absurd h.bytes (by decide)

end RoundTrip

end RetrOS.Apps
