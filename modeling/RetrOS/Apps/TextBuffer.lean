import RetrOS.Apps.Common
import Mathlib.Algebra.Group.Nat.Defs

/-!
# The text buffer of texed (`apps/texed/textbuffer.c`)

* `Line`, `TextBuffer` : a line has memory for 78 characters, what lies behind them is other memory;
* `newLine`, `freeLine` : a line more at the end, and a line less;
* `moveDown`, `moveUp`, `moveTail` : the loops that move lines, and the end of a line to the next one;
* `handleBackspace`, `handleEnter`, `handleArrow`, `handleText` : the branches of `textbuffer_handle_char`;
* `handleChar` : one key; `memory` says whether `malloc` has memory for another line;
* `create` : the buffer at the start, in memory that `malloc` returned.

The screen and the colours are left out.
-/

namespace RetrOS.Apps
open RetrOS.Lib

def MAX_LINES : Nat := 512
def LINE_CAPACITY : Nat := 78
def MAX_VISABLE_LINES : Nat := 21
def LINE_FLAG_DIRTY : Nat := 1 <<< 1
def LINE_FLAG_EXTENSION : Nat := 1 <<< 2

structure Line where
  text : Nat → UInt8
  length : Nat
  capacity : Nat
  flags : Nat

structure TextBuffer where
  lines : Nat → Line
  lineCount : Nat
  x : Nat
  y : Nat
  scrollStart : Nat
  scrollEnd : Nat

namespace Line

def mark (l : Line) (flag : Nat) : Line := { l with flags := l.flags ||| flag }

/-- `memset(text, 0, capacity)` -/
def clear (l : Line) : Line := { l with text := Slice.write l.text 0 (List.replicate l.capacity 0) }

/-- The text and the length of another line. -/
def copy (l src : Line) : Line :=
  { l with text := Slice.write l.text 0 (Slice.read src.text 0 src.length), length := src.length }

/-- The line with the text of the next one behind it, if there is room, and the length of both. -/
def join (prev cur : Line) : Line :=
  { prev with
    text := if cur.length > 0 ∧ (prev.capacity + 2 ^ 32 - prev.length) % 2 ^ 32 > cur.length then
      Slice.write prev.text prev.length (Slice.read cur.text 0 cur.length) else prev.text
    length := prev.length + cur.length }

end Line

/-- The loop that moves `k` lines one up, from line `i + 1` on. -/
def moveUp : Nat → (Nat → Line) → Nat → Nat → Line
  | 0, lines, _ => lines
  | k + 1, lines, i => moveUp k (Function.update lines i ((lines i).clear.copy (lines (i + 1)))) (i + 1)

/-- The loop that moves `k` lines one down, the last one to `i`. -/
def moveDown (clear : Line → Line) : Nat → (Nat → Line) → Nat → Nat → Line
  | 0, lines, _ => lines
  | k + 1, lines, i =>
    moveDown clear k (Function.update lines i (((clear (lines i)).copy (lines (i - 1))).mark LINE_FLAG_DIRTY)) (i - 1)

/-- The loop that moves the `k` characters behind `x`. -/
def moveTail (src : Nat → UInt8) (x : Nat) : Nat → (Nat → UInt8) → Nat → UInt8
  | 0, text => text
  | k + 1, text => moveTail src x k (Function.update text k (src (x + k)))

namespace TextBuffer

def line (b : TextBuffer) : Line := b.lines b.y

def setLine (b : TextBuffer) (i : Nat) (l : Line) : TextBuffer := { b with lines := Function.update b.lines i l }

/-- `textbuffer_new_line`, `none` for -1. -/
def newLine (b : TextBuffer) (memory : Bool) : Option TextBuffer :=
  if b.lineCount = MAX_LINES then none
  else if memory then
    let fresh : Line := ⟨(b.lines b.lineCount).text, 0, LINE_CAPACITY, 0⟩
    some { b.setLine b.lineCount fresh.clear with lineCount := b.lineCount + 1 }
  else none

/-- `textbuffer_free_line` -/
def freeLine (b : TextBuffer) (line : Nat) : TextBuffer :=
  if line ≥ b.lineCount then b
  else { b with lines := moveUp (b.lineCount - 1 - line) b.lines line, lineCount := b.lineCount - 1 }

def handleBackspace (b : TextBuffer) : Int × TextBuffer :=
  if b.x = 0 then
    if b.y = 0 then (-1, b)
    else
      let prev := b.lines (b.y - 1)
      let joined := b.setLine (b.y - 1) (prev.join b.line)
      let freed := { joined with x := prev.length }.freeLine b.y
      let b := { freed with y := freed.y - 1 }
      (0, b.setLine b.y (b.line.mark LINE_FLAG_DIRTY))
  else
    let cur := b.line
    if b.x < cur.length then
      let text := copyUnits 1 (cur.length - b.x) cur.text (b.x - 1) b.x
      let cur := { cur with text := Function.update text (cur.length - 1) 0, length := cur.length - 1 }
      (-1, { b.setLine b.y (cur.mark LINE_FLAG_DIRTY) with x := b.x - 1 })
    else
      let cur := { cur with text := Function.update cur.text (b.x - 1) 0, length := cur.length - 1 }
      (0, { b.setLine b.y (cur.mark LINE_FLAG_DIRTY) with x := b.x - 1 })

/-- The screen follows the cursor down. -/
def scrollDown (b : TextBuffer) : TextBuffer :=
  if b.y ≥ b.scrollEnd + b.scrollStart then { b with scrollStart := b.scrollStart + 1 } else b

/-- The cursor at the start of the next line. -/
def toNextLine (b : TextBuffer) : TextBuffer :=
  { b.setLine (b.y + 1) ((b.lines (b.y + 1)).mark LINE_FLAG_DIRTY) with x := 0, y := b.y + 1 }

def handleEnter (b : TextBuffer) (memory : Bool) : Int × TextBuffer :=
  if b.x = b.line.length then
    if b.lineCount = MAX_LINES then (-1, b)
    else
      match b.newLine memory with
      | none => (-1, b)
      | some b =>
        let b :=
          if b.y ≠ b.lineCount - 1 then
            let lines := moveDown Line.clear (b.lineCount - 1 - (b.y + 1)) b.lines (b.lineCount - 1)
            { b with lines := Function.update lines (b.y + 1) { (lines (b.y + 1)).clear with length := 0 } }
          else b
        (0, b.toNextLine.scrollDown)
  else
    match b.newLine memory with
    | none => (-1, b)
    | some b =>
      let lines := moveDown id (b.lineCount - 1 - (b.y + 1)) b.lines (b.lineCount - 1)
      let cur := lines b.y
      let next := (lines (b.y + 1)).clear
      let next := { next with text := moveTail cur.text b.x (cur.length - b.x) next.text, length := cur.length - b.x }
      let cleared := Slice.write cur.text b.x (List.replicate (cur.capacity - b.x) 0)
      let cur := { cur with text := cleared, length := b.x }
      let b := { b with lines := Function.update (Function.update lines (b.y + 1) next) b.y cur }
      (0, b.toNextLine.scrollDown)

/-- The column in a line that may be shorter. -/
def clampX (b : TextBuffer) : TextBuffer := if b.x > b.line.length then { b with x := b.line.length } else b

def handleArrow (b : TextBuffer) (c : UInt8) : TextBuffer :=
  if c = KEY_RIGHT then if b.x < b.line.length then { b with x := b.x + 1 } else b
  else if c = KEY_LEFT then if b.x > 0 then { b with x := b.x - 1 } else b
  else if c = KEY_UP then
    if b.y > 0 then
      let b := { b with y := b.y - 1 }.clampX
      if b.scrollStart > 0 ∧ b.y < b.scrollStart then { b with scrollStart := b.scrollStart - 1 } else b
    else b
  else if b.y < b.lineCount - 1 then { b with y := b.y + 1 }.clampX.scrollDown
  else b

def handleText (b : TextBuffer) (memory : Bool) (c : UInt8) : TextBuffer :=
  let b :=
    if b.line.length = b.line.capacity then
      let b := (b.handleEnter memory).2
      b.setLine b.y (b.line.mark LINE_FLAG_EXTENSION)
    else b
  let cur := b.line
  let text := if b.x < cur.length then moveForward (cur.length - b.x) cur.text cur.length else cur.text
  let cur := { cur with text := Function.update text b.x c, length := cur.length + 1 }
  { b.setLine b.y (cur.mark LINE_FLAG_DIRTY) with x := b.x + 1 }

def handleChar (b : TextBuffer) (memory : Bool) (c : UInt8) : Int × TextBuffer :=
  if c = backspace then b.handleBackspace
  else if c = newline then b.handleEnter memory
  else if c = KEY_RIGHT ∨ c = KEY_LEFT ∨ c = KEY_UP ∨ c = KEY_DOWN then (0, b.handleArrow c)
  else (0, b.handleText memory c)

/-- `textbuffer_create`. Nothing sets `line_count`: it is what the memory of the buffer holds. -/
def create (lines : Nat → Line) (lineCount : Nat) : Option TextBuffer :=
  newLine ⟨lines, lineCount, 0, 0, 0, MAX_VISABLE_LINES⟩ true

end TextBuffer
end RetrOS.Apps
