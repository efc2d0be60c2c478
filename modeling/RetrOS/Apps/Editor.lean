import RetrOS.Apps.Common

/-!
# The editor's text buffer (`apps/editor/edit.cpp`)

* `Editor` : the buffer, its size, the number of characters and the cursor. Positions are integers, and what lies before
  and behind the buffer is other memory;
* `nextNewline`, `prevNewline` : the distance to a newline. The first one may leave the buffer;
* `Editor.putChar` : one key. Drawing, scrolling, the help and saving leave the buffer as it is, and the distances that
  were meant for drawing are left out;
* `Editor.new`, `Editor.load` : the buffer of the constructor, and of `Open`.
-/

namespace RetrOS.Apps
open RetrOS.Lib

/-- The distance to the character behind the next newline or end of string. -/
def nextNewline (memory : Nat → UInt8) : Nat → Nat → Option Nat
  | 0, _ => none
  | fuel + 1, str =>
    if memory str ≠ newline ∧ memory str ≠ 0 then (nextNewline memory fuel (str + 1)).map (· + 1) else some 1

/-- The distance back to the newline, or to `limit`, from the address `n` behind it. -/
def prevNewline (memory : Nat → UInt8) (limit : Nat) : Nat → Nat
  | 0 => 0
  | n + 1 => if memory (limit + (n + 1)) ≠ newline then prevNewline memory limit n + 1 else 0

/-! ## The editor -/

structure Editor where
  memory : Nat → UInt8
  textBuffer : Nat
  bufferSize : Int
  bufferHead : Int
  bufferEdit : Int

namespace Editor

/-- The address `&m_textBuffer[i]`. -/
def address (e : Editor) (i : Int) : Nat := (e.textBuffer + i).toNat

def putBackspace (e : Editor) : Editor :=
  if e.bufferEdit = 0 then e
  else if e.bufferEdit < e.bufferHead - 1 then
    let diff := (e.bufferHead - e.bufferEdit).toNat
    { e with
      memory := memcpy e.memory (e.address (e.bufferEdit - 1)) (e.address e.bufferEdit) (diff + 1)
      bufferHead := e.bufferHead - 1
      bufferEdit := e.bufferEdit - 1 }
  else
    { e with
      memory := Function.update e.memory (e.address (e.bufferEdit - 1)) 0
      bufferHead := e.bufferHead - 1
      bufferEdit := e.bufferEdit - 1 }

def putLeft (e : Editor) : Editor :=
  if e.bufferEdit = 0 then e
  else if e.bufferEdit < 0 then { e with bufferEdit := 0 }
  else { e with bufferEdit := e.bufferEdit - 1 }

def putRight (e : Editor) : Editor :=
  if e.bufferEdit = e.bufferHead then e
  else if e.bufferEdit > e.bufferHead then { e with bufferEdit := e.bufferHead }
  else { e with bufferEdit := e.bufferEdit + 1 }

def putDown (fuel : Nat) (e : Editor) : Option Editor :=
  if e.bufferEdit = e.bufferHead then some e
  else if e.bufferEdit > e.bufferHead then some { e with bufferEdit := e.bufferHead }
  else (nextNewline e.memory fuel (e.address (e.bufferEdit - 1))).map fun (moveto : Nat) =>
    { e with bufferEdit := e.bufferEdit + (moveto : Int) }

def putUp (e : Editor) : Editor :=
  if e.bufferEdit ≤ 0 then e
  else
    let moveto := prevNewline e.memory e.textBuffer (e.bufferEdit - 1).toNat
    { e with bufferEdit := e.bufferEdit - (moveto + 1) }

def insert (e : Editor) (c : UInt8) : Editor :=
  if c = 0 then e
  else
    let diff := (e.bufferHead - e.bufferEdit + 1).toNat
    let memory :=
      if e.bufferEdit < e.bufferHead then moveForward diff e.memory (e.address e.bufferHead) else e.memory
    { e with
      memory := Function.update memory (e.address e.bufferEdit) c
      bufferEdit := e.bufferEdit + 1
      bufferHead := e.bufferHead + 1 }

def putChar (fuel : Nat) (e : Editor) (c : UInt8) : Option Editor :=
  if c = backspace then some e.putBackspace
  else if c = KEY_LEFT then some e.putLeft
  else if c = KEY_RIGHT then some e.putRight
  else if c = KEY_DOWN then e.putDown fuel
  else if c = KEY_UP then some e.putUp
  else if c = KEY_F3 ∨ c = KEY_F2 ∨ c = KEY_F9 ∨ c = KEY_F1 then some e
  else some (e.insert c)

/-- The constructor, with the buffer at the address that `malloc` returned. -/
def new (memory : Nat → UInt8) (textBuffer : Nat) : Editor where
  memory := Function.update (Slice.write memory textBuffer (List.replicate (10 * 1024) 0)) (textBuffer + 1) newline
  textBuffer := textBuffer
  bufferSize := 10 * 1024
  bufferHead := 1
  bufferEdit := 0

/-- `Open`, with the bytes that `read` returned. -/
def load (e : Editor) (bytes : List UInt8) : Editor :=
  { e with memory := Slice.write e.memory e.textBuffer bytes, bufferHead := bytes.length }

end Editor
end RetrOS.Apps
