import RetrOS.Apps.TextBuffer
import RetrOS.Apps.Document

/-!
# What the text buffer of texed is for

A page is a list of lines with a cursor in one of them; its text is the lines joined by newlines.

* `Page.step` : the keys. A character on a full line is put on a new line, in front of what was behind the cursor;
* `Page.joined_step` : on the text, a key is one edit.
-/

namespace RetrOS.Apps
open RetrOS.Lib

/-! ## Pages -/

structure Page where
  above : List (List UInt8)
  left : List UInt8
  right : List UInt8
  below : List (List UInt8)

/-- The lines as one text. -/
def joined (lines : List (List UInt8)) : List UInt8 := [newline].intercalate lines

namespace Page

def current (p : Page) : List UInt8 := p.left ++ p.right

def lines (p : Page) : List (List UInt8) := p.above ++ p.current :: p.below

/-- The text with the cursor. -/
def document (p : Page) : Document := ⟨joined (p.above ++ [p.left]), joined (p.right :: p.below)⟩

/-- There may be another line. -/
def room (p : Page) (memory : Bool) : Bool := p.lines.length ≠ MAX_LINES && memory

def enter (p : Page) : Page := ⟨p.above ++ [p.left], [], p.right, p.below⟩

def put (p : Page) (c : UInt8) : Page := { p with left := p.left ++ [c] }

/-- The cursor in column `x` of a line, or at its end. -/
def inLine (above : List (List UInt8)) (l : List UInt8) (x : Nat) (below : List (List UInt8)) : Page :=
  ⟨above, l.take x, l.drop x, below⟩

/-- The last line above, joined with this one; or a character less in this one. -/
def erase (p : Page) : Page :=
  if p.left = [] then
    match p.above.getLast? with
    | none => p
    | some l => { p with above := p.above.dropLast, left := l }
  else { p with left := p.left.dropLast }

def arrow (p : Page) (c : UInt8) : Page :=
  if c = KEY_RIGHT then { p with left := p.left ++ p.right.take 1, right := p.right.drop 1 }
  else if c = KEY_LEFT then { p with left := p.left.dropLast, right := p.left.getLast?.toList ++ p.right }
  else if c = KEY_UP then
    match p.above.getLast? with
    | none => p
    | some l => inLine p.above.dropLast l p.left.length (p.current :: p.below)
  else
    match p.below with
    | [] => p
    | l :: below => inLine (p.above ++ [p.current]) l p.left.length below

def step (p : Page) (memory : Bool) (c : UInt8) : Page :=
  if c = backspace then p.erase
  else if c = newline then if p.room memory then p.enter else p
  else if c = KEY_RIGHT ∨ c = KEY_LEFT ∨ c = KEY_UP ∨ c = KEY_DOWN then p.arrow c
  else (if p.current.length = LINE_CAPACITY then p.enter else p).put c

/-- The text after a key: a character less or more before the cursor, or a newline, or both on a full line. -/
def edit (p : Page) (memory : Bool) (c : UInt8) : List UInt8 :=
  let d := p.document
  if c = backspace then d.before.dropLast ++ d.after
  else if c = newline then if p.room memory then d.before ++ newline :: d.after else d.text
  else if c = KEY_RIGHT ∨ c = KEY_LEFT ∨ c = KEY_UP ∨ c = KEY_DOWN then d.text
  else if p.current.length = LINE_CAPACITY then d.before ++ newline :: c :: d.after
  else d.before ++ c :: d.after

end Page

/-! ## The text of a page -/

section Text
variable {a b : List (List UInt8)} {l m : List UInt8} {p : Page} {c : UInt8} {memory : Bool}

theorem joined_cons (l : List UInt8) (h : b ≠ []) : joined (l :: b) = l ++ newline :: joined b := by
  obtain ⟨m, b, rfl⟩ := List.exists_cons_of_ne_nil h
  simp [joined, List.intercalate]

theorem joined_append (a : List (List UInt8)) (l m : List UInt8) (b : List (List UInt8)) :
    joined (a ++ [l]) ++ joined (m :: b) = joined (a ++ (l ++ m) :: b) := by
  induction a with
  | nil =>
    cases b with
    | nil => simp [joined, List.intercalate]
    | cons n b =>
      rw [List.nil_append, List.nil_append, joined_cons m (List.cons_ne_nil n b),
        joined_cons (l ++ m) (List.cons_ne_nil n b), List.append_assoc]
      simp [joined, List.intercalate]
  | cons n a ih =>
    rw [List.cons_append, List.cons_append, joined_cons n (by simp), joined_cons n (by simp), List.append_assoc,
      List.cons_append, ih]

theorem joined_concat (a : List (List UInt8)) (l m : List UInt8) :
    joined (a ++ [l ++ m]) = joined (a ++ [l]) ++ m := by
  rw [← joined_append a l m []]
  simp [joined, List.intercalate]

/-- A line more, at the end. -/
theorem joined_newline (a : List (List UInt8)) (l m : List UInt8) :
    joined (a ++ [l] ++ [m]) = joined (a ++ [l]) ++ newline :: m := by
  induction a with
  | nil => simp [joined, List.intercalate]
  | cons n a ih =>
    rw [List.cons_append, List.cons_append, joined_cons n (by simp), joined_cons n (by simp), ih, List.append_assoc,
      List.cons_append]

namespace Page

theorem text_document (p : Page) : p.document.text = joined p.lines := joined_append ..

theorem lines_inLine (above : List (List UInt8)) (l : List UInt8) (x : Nat) (below : List (List UInt8)) :
    (inLine above l x below).lines = above ++ l :: below := by
  rw [lines, current, inLine, List.take_append_drop]

theorem document_enter (p : Page) : p.enter.document = ⟨p.document.before ++ [newline], p.document.after⟩ :=
  congrArg (Document.mk · _) (joined_newline ..)

theorem document_put (p : Page) (c : UInt8) : (p.put c).document = ⟨p.document.before ++ [c], p.document.after⟩ :=
  congrArg (Document.mk · _) (joined_concat ..)

theorem document_erase (p : Page) : p.erase.document = ⟨p.document.before.dropLast, p.document.after⟩ := by
  obtain ⟨above, left, right, below⟩ := p
  rcases List.eq_nil_or_concat' left with rfl | ⟨left, c, rfl⟩
  · rw [erase, if_pos rfl]
    rcases List.eq_nil_or_concat' above with rfl | ⟨above, l, rfl⟩
    · simp [document, joined, List.intercalate]
    · have hbefore : joined (above ++ [l] ++ [[]]) = joined (above ++ [l]) ++ [newline] := joined_newline ..
      rw [List.getLast?_concat, document, document, hbefore, List.dropLast_concat]
      simp only [List.dropLast_concat]
  · have hbefore : joined (above ++ [left ++ [c]]) = joined (above ++ [left]) ++ [c] := joined_concat ..
    rw [erase, if_neg (by simp), document, document, hbefore, List.dropLast_concat]
    simp only [List.dropLast_concat]

theorem lines_arrow (p : Page) (c : UInt8) : (p.arrow c).lines = p.lines := by
  obtain ⟨above, left, right, below⟩ := p
  unfold arrow
  split
  · rw [lines, current, List.append_assoc, List.take_append_drop]
    rfl
  split
  · rcases List.eq_nil_or_concat' left with rfl | ⟨left, d, rfl⟩ <;> simp [lines, current]
  split
  · rcases List.eq_nil_or_concat' above with rfl | ⟨above, l, rfl⟩
    · rfl
    · rw [List.getLast?_concat]
      dsimp only
      rw [lines_inLine, List.dropLast_concat, lines, List.append_assoc]
      rfl
  · cases below with
    | nil => rfl
    | cons l below =>
      dsimp only
      rw [lines_inLine, List.append_assoc]
      rfl

/-- **A key is one edit of the text.** -/
theorem joined_step (p : Page) (memory : Bool) (c : UInt8) : joined (p.step memory c).lines = p.edit memory c := by
  unfold step edit
  rw [← text_document]
  split
  · rw [document_erase, Document.text]
  split
  · split
    · simp [document_enter, Document.text]
    · rfl
  split
  · rw [text_document, text_document, lines_arrow]
  · rw [document_put]
    split <;> simp [document_enter, Document.text]

end Page

end Text

end RetrOS.Apps
