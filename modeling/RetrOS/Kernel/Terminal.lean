import RetrOS.Apps.Common
import RetrOS.Kernel.Vmem
import RetrOS.Lib.Run
import Mathlib.Tactic.SplitIfs

/-!
# The text of a terminal (`kernel/terminal.c`)

The text is what stands in front of `head` in a buffer of 1024 bytes. A line is removed where a counter of the lines says
that the screen is full; it does not know of the newlines that a backspace has taken back.

* `Terminal`, `Terminal.removeLine`, `Terminal.putchar`, `Terminal.backspace` : the buffer and what moves `head`;
* `TerminalOp`, `Terminal.step` : a character that is written, or a key in one of the two loops of `scan`;
* `nextNewline_of_mem`, `contents_removeLine` : where the text has a newline, its first line is dropped;
* `Session` : the terminal, with the newlines that were counted and those that were taken back;
* `terminalRun_iff` : the text stays in the buffer and loses only its first lines exactly if there is room for each
  character, something to take back for each backspace, and a newline left for each line that is removed.

The address space behind the buffer is any memory; drawing does not change the text.
-/

namespace RetrOS
open RetrOS.Lib RetrOS.Apps RetrOS.Vmem

abbrev terminalBufferSize : Nat := 1024

abbrev screenHeight : Int := 25

/-- `CTRLC` -/
abbrev ctrlC : Nat := 227

/-- The fields of `struct terminal` for the text, and the memory. -/
structure Terminal where
  memory : Nat → UInt8
  textbuffer : Nat
  head : Int
  lines : Int

/-- The loop of `__next_newline`: the address behind the first newline from `data` on. -/
def nextNewline (memory : Nat → UInt8) : Nat → Nat → Option Nat
  | 0, _ => none
  | fuel + 1, data => if memory data = newline then some (data + 1) else nextNewline memory fuel (data + 1)

namespace Terminal

/-- `&textbuffer[i]` -/
def place (t : Terminal) (i : Int) : Nat := (t.textbuffer + i).toNat

/-- `__terminal_remove_line`; none if the copy has a negative length, which is that of all memory. -/
def removeLine (fuel : Nat) (t : Terminal) : Option Terminal :=
  (nextNewline t.memory fuel t.textbuffer).bind fun next =>
    let skip := next - t.textbuffer
    if t.head - skip < 0 then none
    else
      some { t with
        memory := memcpy t.memory t.textbuffer (t.textbuffer + skip) (t.head - skip).toNat
        head := t.head - skip }

/-- `textbuffer[head] = c; head++` -/
def put (t : Terminal) (c : UInt8) : Terminal :=
  { t with memory := Function.update t.memory (t.place t.head) c, head := t.head + 1 }

/-- Both functions that write a character; `scrolls` tells whether a newline removes a line. -/
def putchar (fuel : Nat) (t : Terminal) (scrolls : Bool) (c : UInt8) : Option Terminal :=
  let scrolled :=
    if c = newline then
      if scrolls then t.removeLine fuel else some { t with lines := wrapInt (t.lines + 1) }
    else some t
  scrolled.map fun t => t.put c

/-- The condition of `__terminal_putchar_graphics`. -/
def fullGraphics (innerHeight : BitVec 16) (t : Terminal) : Bool := (innerHeight.toNat / 8 : Int) - 1 = t.lines

/-- The condition of `__terminal_putchar_textmode`. -/
def fullTextmode (t : Terminal) : Bool := screenHeight - 2 ≤ t.lines

def putcharGraphics (fuel : Nat) (innerHeight : BitVec 16) (t : Terminal) (c : UInt8) : Option Terminal :=
  t.putchar fuel (t.fullGraphics innerHeight) c

def putcharTextmode (fuel : Nat) (t : Terminal) (c : UInt8) : Option Terminal := t.putchar fuel t.fullTextmode c

/-- The backspace of both loops. -/
def backspace (t : Terminal) : Terminal :=
  { t with memory := Function.update t.memory (t.place (t.head - 1)) 0, head := t.head - 1 }

/-- A key in the loop of `__terminal_scan_textmode`. -/
def scanTextmode (fuel : Nat) (t : Terminal) (c : UInt8) : Option Terminal :=
  if c = 0 then some t
  else if c.toNat = ctrlC then some t
  else if c = newline then some t
  else if c = Apps.backspace then some t.backspace
  else t.putcharTextmode fuel c

/-- The data of a keyboard event in the loop of `__terminal_scan_graphics`. -/
def scanGraphics (fuel : Nat) (innerHeight : BitVec 16) (t : Terminal) (data : BitVec 16) : Option Terminal :=
  if data.toNat = ctrlC then some t
  else
    let c := UInt8.ofBitVec (data.setWidth 8)
    if c = Apps.backspace then some t.backspace else t.putcharGraphics fuel innerHeight c

end Terminal

/-- A character that is written, or a key that is typed. -/
inductive TerminalOp
  | putcharGraphics (innerHeight : BitVec 16) (c : UInt8)
  | putcharTextmode (c : UInt8)
  | scanGraphics (innerHeight : BitVec 16) (data : BitVec 16)
  | scanTextmode (c : UInt8)

namespace Terminal

def step (fuel : Nat) (t : Terminal) : TerminalOp → Option Terminal
  | .putcharGraphics innerHeight c => t.putcharGraphics fuel innerHeight c
  | .putcharTextmode c => t.putcharTextmode fuel c
  | .scanGraphics innerHeight data => t.scanGraphics fuel innerHeight data
  | .scanTextmode c => t.scanTextmode fuel c

/-- The text on the terminal. -/
def contents (t : Terminal) : List UInt8 := Slice.read t.memory t.textbuffer t.head.toNat

end Terminal

/-- The text without its first line. -/
def dropLine : List UInt8 → List UInt8
  | [] => []
  | c :: text => if c = newline then text else dropLine text

/-! ## What an operation is -/

/-- What an operation does to the text. -/
inductive Edit
  | nothing
  | append (c : UInt8)
  /-- a newline that removes the first line -/
  | scroll
  | takeBack
deriving DecidableEq

namespace Terminal

/-- The edit of a character that is written. -/
def editPut (scrolls : Bool) (c : UInt8) : Edit := if c = newline ∧ scrolls then .scroll else .append c

def edit (t : Terminal) : TerminalOp → Edit
  | .putcharGraphics innerHeight c => editPut (t.fullGraphics innerHeight) c
  | .putcharTextmode c => editPut t.fullTextmode c
  | .scanGraphics innerHeight data =>
    if data.toNat = ctrlC then .nothing
    else
      let c := UInt8.ofBitVec (data.setWidth 8)
      if c = Apps.backspace then .takeBack else editPut (t.fullGraphics innerHeight) c
  | .scanTextmode c =>
    if c = 0 then .nothing
    else if c.toNat = ctrlC then .nothing
    else if c = newline then .nothing
    else if c = Apps.backspace then .takeBack
    else editPut t.fullTextmode c

/-- The edit on the terminal. -/
def perform (fuel : Nat) (t : Terminal) : Edit → Option Terminal
  | .nothing => some t
  | .append c => t.putchar fuel false c
  | .scroll => t.putchar fuel true newline
  | .takeBack => some t.backspace

section
variable {t : Terminal} {fuel : Nat} {c : UInt8}

theorem putchar_eq_perform (scrolls : Bool) : t.putchar fuel scrolls c = t.perform fuel (editPut scrolls c) := by
  unfold editPut
  split
  · next h =>
    obtain ⟨rfl, rfl⟩ := h
    rfl
  · next h =>
    rw [perform]
    unfold putchar
    by_cases hc : c = newline
    · have hscrolls : scrolls = false := by simpa [hc] using h
      rw [hscrolls]
    · rw [if_neg hc, if_neg hc]

theorem step_eq_perform (op : TerminalOp) : t.step fuel op = t.perform fuel (t.edit op) := by
  cases op with
  | putcharGraphics innerHeight c => exact putchar_eq_perform _
  | putcharTextmode c => exact putchar_eq_perform _
  | scanGraphics innerHeight data =>
    rw [step, scanGraphics, edit]
    split
    · rfl
    · dsimp only
      split
      · rfl
      · exact putchar_eq_perform _
  | scanTextmode c =>
    rw [step, scanTextmode, edit]
    split
    · rfl
    · split
      · rfl
      · split
        · rfl
        · split
          · rfl
          · exact putchar_eq_perform _

end

end Terminal

/-! ## The text -/

section
variable {memory : Nat → UInt8} {fuel start n : Nat} {text : List UInt8}

theorem count_dropLine (h : newline ∈ text) : (dropLine text).count newline + 1 = text.count newline := by
  induction text with
  | nil => exact absurd h List.not_mem_nil
  | cons c text ih =>
    rw [dropLine, List.count_cons]
    split
    · next hc => simp [hc]
    · next hc =>
      rw [ih (List.mem_of_ne_of_mem (Ne.symm hc) h)]
      simp [hc]

/-- The search ends at the first newline of the text, if it has one. -/
theorem nextNewline_of_mem (h : newline ∈ Slice.read memory start n) (hfuel : n ≤ fuel) : ∃ skip,
    nextNewline memory fuel start = some (start + skip) ∧ (0 < skip ∧ skip ≤ n) ∧
      Slice.read memory (start + skip) (n - skip) = dropLine (Slice.read memory start n) := by
  induction n generalizing start fuel with
  | zero => exact absurd h List.not_mem_nil
  | succ n ih =>
    obtain ⟨fuel, rfl⟩ := Nat.exists_eq_add_of_le' (Nat.zero_lt_of_lt hfuel)
    rw [Slice.read_succ] at h
    rw [nextNewline, Slice.read_succ, dropLine]
    split
    · exact ⟨1, rfl, ⟨Nat.one_pos, Nat.succ_pos n⟩, rfl⟩
    · next hc =>
      obtain ⟨skip, hskip, ⟨hpos, hle⟩, hread⟩ := ih (List.mem_of_ne_of_mem (Ne.symm hc) h) (Nat.le_of_succ_le_succ hfuel)
      refine ⟨skip + 1, ?_, ⟨by omega, by omega⟩, ?_⟩
      · rw [hskip, Nat.add_assoc, Nat.add_comm 1 skip]
      · rw [← hread, Nat.add_right_comm start, Nat.add_sub_add_right]
        rfl

theorem nextNewline_mono {next : Nat} (h : nextNewline memory fuel start = some next) (k : Nat) :
    nextNewline memory (fuel + k) start = some next := by
  induction fuel generalizing start with
  | zero => exact absurd h nofun
  | succ fuel ih =>
    rw [Nat.add_right_comm, nextNewline]
    rw [nextNewline] at h
    split at h
    · next hc => rw [if_pos hc, h]
    · next hc => rw [if_neg hc, ih h]

theorem read_update_end (memory : Nat → UInt8) (start n : Nat) (c : UInt8) :
    Slice.read (Function.update memory (start + n) c) start (n + 1) = Slice.read memory start n ++ [c] := by
  rw [← Slice.write_singleton]
  exact Slice.read_write_append memory start n [c]

end

/-- The terminal, the newlines that `lines` has counted, and those of them that a backspace has taken back. -/
structure Session where
  term : Terminal
  counted : Nat
  erased : Nat

namespace Session

def counts (s : Session) (e : Edit) : Nat := if e = .append newline then s.counted + 1 else s.counted

def erases (s : Session) (e : Edit) : Nat :=
  if e = .takeBack ∧ s.term.contents.getLast? = some newline then s.erased + 1 else s.erased

/-- A step of the terminal. -/
def Step (s : Session) (op : TerminalOp) (s' : Session) : Prop :=
  (∃ fuel, s.term.step fuel op = some s'.term) ∧
    s'.counted = s.counts (s.term.edit op) ∧ s'.erased = s.erases (s.term.edit op)

end Session

/-- The text after an edit. A line is removed from a text that has one. -/
def Edited (text text' : List UInt8) : Edit → Prop
  | .nothing => text' = text
  | .append c => text' = text ++ [c]
  | .scroll => newline ∈ text ∧ text' = dropLine text ++ [newline]
  | .takeBack => text' = text.dropLast

/-- The edit has been made, inside the buffer. -/
structure EditOk (t t' : Terminal) (e : Edit) : Prop where
  head : 0 ≤ t'.head ∧ t'.head < terminalBufferSize
  frame : ∀ a, a < t.textbuffer ∨ t.textbuffer + terminalBufferSize ≤ a → t'.memory a = t.memory a
  text : Edited t.contents t'.contents e

namespace Session

/-- The operation ends, and makes its edit. -/
def Kept (s : Session) (op : TerminalOp) : Prop :=
  ∃ fuel t', s.term.step fuel op = some t' ∧ EditOk s.term t' (s.term.edit op)

/-- There is room, something to take back, or a newline that has not been taken back. -/
def Room (s : Session) : Edit → Prop
  | .nothing => True
  | .append _ => s.term.head < terminalBufferSize - 1
  | .scroll => s.erased < s.counted
  | .takeBack => 0 < s.term.head

def Allowed (s : Session) (op : TerminalOp) : Prop := s.Room (s.term.edit op)

/-- The invariant: `head` is in the buffer, and the text has the newlines that were counted and not taken back. -/
structure Inv (s : Session) : Prop where
  head : 0 ≤ s.term.head ∧ s.term.head < terminalBufferSize
  lines : s.term.lines = wrapInt s.counted
  newlines : s.term.contents.count newline + s.erased = s.counted

end Session

namespace Terminal

section
variable {t t' : Terminal} {fuel : Nat} {c : UInt8} {e : Edit}

/-- A terminal whose text is `n` characters long. -/
theorem contents_eq {n : Nat} (h : t.head = n) : t.contents = Slice.read t.memory t.textbuffer n := by
  rw [contents, h, Int.toNat_natCast]

theorem removeLine_mono (h : t.removeLine fuel = some t') (k : Nat) : t.removeLine (fuel + k) = some t' := by
  unfold removeLine at h ⊢
  obtain ⟨next, hnext, ht⟩ := Option.bind_eq_some_iff.mp h
  rw [nextNewline_mono hnext, Option.bind_some, ht]

theorem perform_mono (h : t.perform fuel e = some t') (k : Nat) : t.perform (fuel + k) e = some t' := by
  cases e with
  | nothing => exact h
  | append c => exact h
  | takeBack => exact h
  | scroll =>
    simp only [perform, putchar, if_true] at h ⊢
    obtain ⟨u, hu, rfl⟩ := Option.map_eq_some_iff.mp h
    rw [removeLine_mono hu, Option.map_some]

theorem perform_unique {fuel' : Nat} {u : Terminal} (h : t.perform fuel e = some t') (h' : t.perform fuel' e = some u) :
    t' = u := by
  have heq := perform_mono h fuel'
  rw [Nat.add_comm, perform_mono h' fuel] at heq
  exact (Option.some.inj heq).symm

/-- A newline that removes no line is counted. -/
theorem perform_append (fuel : Nat) (t : Terminal) (c : UInt8) : t.perform fuel (.append c) =
    some (put { t with lines := if c = newline then wrapInt (t.lines + 1) else t.lines } c) := by
  rw [perform, putchar]
  by_cases hc : c = newline
  · simp [hc]
  · simp [hc]

theorem perform_scroll (fuel : Nat) (t : Terminal) :
    t.perform fuel .scroll = (t.removeLine fuel).map fun t => t.put newline := by
  simp [perform, putchar]

theorem lines_removeLine (h : t.removeLine fuel = some t') : t'.lines = t.lines := by
  obtain ⟨next, -, ht⟩ := Option.bind_eq_some_iff.mp h
  dsimp only at ht
  split at ht
  · exact absurd ht nofun
  · rw [← Option.some.inj ht]

theorem lines_perform (h : t.perform fuel e = some t') :
    t'.lines = if e = .append newline then wrapInt (t.lines + 1) else t.lines := by
  cases e with
  | nothing =>
    rw [← Option.some.inj h]
    rfl
  | takeBack =>
    rw [← Option.some.inj h]
    rfl
  | scroll =>
    rw [perform_scroll] at h
    obtain ⟨u, hu, rfl⟩ := Option.map_eq_some_iff.mp h
    have hlines : u.lines = t.lines := lines_removeLine hu
    rw [if_neg nofun]
    exact hlines
  | append c =>
    rw [perform_append] at h
    rw [← Option.some.inj h]
    simp only [Edit.append.injEq]
    rfl

/-- The first line is removed, and the others have moved to its place. -/
theorem removeLine_of_mem {n : Nat} (hhead : t.head = n) (hmem : newline ∈ t.contents) : ∃ t',
    t.removeLine n = some t' ∧ (t'.textbuffer = t.textbuffer ∧ 0 ≤ t'.head ∧ t'.head < n) ∧
      (∀ a, a < t.textbuffer ∨ t.textbuffer + n ≤ a → t'.memory a = t.memory a) ∧
      t'.contents = dropLine t.contents := by
  rw [contents_eq hhead] at hmem ⊢
  obtain ⟨skip, hnext, ⟨hpos, hle⟩, hread⟩ := nextNewline_of_mem hmem (Nat.le_refl n)
  have hlen : (Slice.read t.memory (t.textbuffer + skip) (n - skip)).length = n - skip := Slice.length_read ..
  have hrest : (n : Int) - (skip : Nat) = (n - skip : Nat) := by omega
  unfold removeLine
  rw [hnext, Option.bind_some]
  dsimp only
  rw [Nat.add_sub_cancel_left, hhead, hrest, if_neg (by omega), Int.toNat_natCast, memcpy_eq _ _ (Nat.le_add_right _ _)]
  refine ⟨_, rfl, ⟨rfl, by dsimp only; omega, by dsimp only; omega⟩, fun a ha => ?_, ?_⟩
  · dsimp only
    rcases ha with hlt | hge
    · exact Slice.write_of_lt _ _ hlt
    · exact Slice.write_of_ge _ (by omega)
  · rw [contents_eq rfl, ← hread]
    dsimp only
    generalize Slice.read t.memory (t.textbuffer + skip) (n - skip) = rest at hlen ⊢
    rw [← hlen, Slice.read_write_self]

/-- A character behind the text. -/
theorem contents_put {n : Nat} (hhead : t.head = n) (c : UInt8) : (t.put c).contents = t.contents ++ [c] := by
  have hsucc : (t.put c).head = (n + 1 : Nat) := by
    show t.head + 1 = _
    omega
  have hplace : t.place t.head = t.textbuffer + n := by
    unfold place
    omega
  rw [contents_eq hsucc, contents_eq hhead]
  show Slice.read (Function.update t.memory (t.place t.head) c) _ _ = _
  rw [hplace]
  exact read_update_end t.memory t.textbuffer n c

/-- What makes an edit possible. -/
def Fits (t : Terminal) : Edit → Prop
  | .nothing => True
  | .append _ => t.head < terminalBufferSize - 1
  | .scroll => newline ∈ t.contents
  | .takeBack => 0 < t.head

/-- A character is put into the buffer. -/
theorem put_editOk {u : Terminal} {n : Nat} (hhead : t.head = n) (hn : n < terminalBufferSize - 1)
    (hframe : ∀ a, a < u.textbuffer ∨ u.textbuffer + terminalBufferSize ≤ a → t.memory a = u.memory a)
    (hbase : t.textbuffer = u.textbuffer) (hedit : Edited u.contents (t.contents ++ [c]) e) : EditOk u (t.put c) e := by
  have hplace : t.place t.head = t.textbuffer + n := by
    unfold place
    omega
  have hput : (t.put c).head = t.head + 1 := rfl
  refine ⟨⟨by omega, by omega⟩, fun a ha => ?_, ?_⟩
  · rw [← hframe a ha]
    show Function.update t.memory (t.place t.head) c a = _
    exact Function.update_of_ne (by omega) ..
  · rw [contents_put hhead]
    exact hedit

theorem perform_editOk (hhead : 0 ≤ t.head ∧ t.head < terminalBufferSize) (hfits : t.Fits e) :
    ∃ fuel t', t.perform fuel e = some t' ∧ EditOk t t' e ∧ t'.textbuffer = t.textbuffer := by
  obtain ⟨n, hn⟩ := Int.eq_ofNat_of_zero_le hhead.1
  cases e with
  | nothing => exact ⟨0, t, rfl, ⟨hhead, fun _ _ => rfl, rfl⟩, rfl⟩
  | append c =>
    have hroom : t.head < terminalBufferSize - 1 := hfits
    have hedit : Edited t.contents (t.contents ++ [c]) (.append c) := rfl
    refine ⟨0, _, perform_append 0 t c, ?_, rfl⟩
    exact put_editOk hn (by omega) (fun _ _ => rfl) rfl hedit
  | scroll =>
    obtain ⟨u, hu, ⟨hbase, hu0, hun⟩, hframe, htext⟩ := removeLine_of_mem hn hfits
    obtain ⟨m, hm⟩ := Int.eq_ofNat_of_zero_le hu0
    have hedit : Edited t.contents (u.contents ++ [newline]) .scroll := ⟨hfits, by rw [htext]⟩
    refine ⟨n, u.put newline, by rw [perform_scroll, hu, Option.map_some], ?_, hbase⟩
    exact put_editOk hm (by omega) (fun a ha => hframe a (by omega)) hbase hedit
  | takeBack =>
    have hpos : 0 < t.head := hfits
    have hpred : t.head - 1 = (n - 1 : Nat) := by omega
    have hplace : t.place (t.head - 1) = t.textbuffer + (n - 1) := by
      unfold place
      omega
    refine ⟨0, t.backspace, rfl, ⟨⟨?_, ?_⟩, fun a ha => ?_, ?_⟩, rfl⟩
    · show 0 ≤ t.head - 1
      omega
    · show t.head - 1 < _
      omega
    · show Function.update t.memory (t.place (t.head - 1)) 0 a = _
      rw [hplace, Function.update_of_ne (by omega)]
    · show t.backspace.contents = t.contents.dropLast
      rw [contents_eq (t := t.backspace) hpred, contents_eq hn, List.dropLast_eq_take, Slice.length_read,
        Slice.take_read _ _ (Nat.sub_le n 1)]
      refine Slice.read_congr fun a ha halt => ?_
      show Function.update t.memory (t.place (t.head - 1)) 0 a = _
      exact Function.update_of_ne (by have : a < t.textbuffer + (n - 1) := halt; omega) ..

/-- An edit that does not fit leaves the buffer, or removes a line from a text that has none. -/
theorem EditOk.fits (h : t.perform fuel e = some t') (hok : EditOk t t' e) : t.Fits e := by
  cases e with
  | nothing => trivial
  | append c =>
    have hlen := hok.head.2
    rw [perform_append] at h
    rw [← Option.some.inj h] at hlen
    show t.head < _
    have hput : t.head + 1 < terminalBufferSize := hlen
    omega
  | scroll => exact hok.text.1
  | takeBack =>
    have hneg := hok.head.1
    rw [← Option.some.inj h] at hneg
    show 0 < t.head
    have hback : 0 ≤ t.head - 1 := hneg
    omega

end

end Terminal

/-! ## Runs -/

namespace Session

section
variable {s s' : Session} {op : TerminalOp} {e : Edit}

/-- The text has a newline exactly if one of those counted has not been taken back. -/
theorem Inv.room_iff (h : s.Inv) (e : Edit) : s.Room e ↔ s.term.Fits e := by
  cases e with
  | scroll =>
    have hcount := h.newlines
    show s.erased < s.counted ↔ newline ∈ s.term.contents
    rw [← List.count_pos_iff]
    omega
  | _ => exact Iff.rfl

theorem Inv.kept_iff (h : s.Inv) (op : TerminalOp) : s.Kept op ↔ s.Allowed op := by
  unfold Kept Allowed
  rw [h.room_iff]
  simp only [Terminal.step_eq_perform]
  constructor
  · rintro ⟨fuel, t', hperform, hok⟩
    exact Terminal.EditOk.fits hperform hok
  · intro hfits
    obtain ⟨fuel, t', hperform, hok, -⟩ := Terminal.perform_editOk h.head hfits
    exact ⟨fuel, t', hperform, hok⟩

theorem getLast?_count {text : List UInt8} (h : text ≠ []) :
    text.count newline = text.dropLast.count newline + if text.getLast? = some newline then 1 else 0 := by
  obtain ⟨init, c, rfl⟩ := List.eq_nil_or_concat' text |>.resolve_left h
  simp [List.count_append, List.count_singleton]

/-- The newlines of the text after an edit. -/
theorem newlines_edited {text text' : List UInt8} (h : Edited text text' e) (hback : e = .takeBack → text ≠ []) :
    text'.count newline + (if e = .takeBack ∧ text.getLast? = some newline then 1 else 0) =
      text.count newline + if e = .append newline then 1 else 0 := by
  cases e with
  | nothing =>
    obtain rfl : text' = text := h
    simp
  | append c =>
    obtain rfl : text' = text ++ [c] := h
    simp [List.count_append, List.count_singleton]
  | scroll =>
    obtain ⟨hmem, rfl⟩ := h
    have hcount := count_dropLine hmem
    simp [List.count_append, hcount]
  | takeBack =>
    obtain rfl : text' = text.dropLast := h
    rw [getLast?_count (hback rfl)]
    simp

theorem wrapInt_succ (n : Nat) : wrapInt (wrapInt n + 1) = wrapInt ((n + 1 : Nat) : Int) := by
  rw [wrapInt, wrapInt, Int.bmod_add_bmod, wrapInt, Int.natCast_add, Int.natCast_one]

theorem Inv.step (h : s.Inv) (hallowed : s.Allowed op) (hstep : s.Step op s') : s'.Inv := by
  obtain ⟨⟨fuel, hterm⟩, hcounted, herased⟩ := hstep
  rw [Terminal.step_eq_perform] at hterm
  have hfits : s.term.Fits (s.term.edit op) := (h.room_iff _).mp hallowed
  obtain ⟨fuel', t', hperform, hok, hbase⟩ := Terminal.perform_editOk h.head hfits
  obtain rfl := Terminal.perform_unique hterm hperform
  have hlines := Terminal.lines_perform hterm
  have hinv := h.newlines
  rw [h.lines] at hlines
  generalize s.term.edit op = e at *
  have hback : e = .takeBack → s.term.contents ≠ [] := by
    rintro rfl hnil
    have hpos : 0 < s.term.head := hfits
    have hlen : s.term.contents.length = s.term.head.toNat := Slice.length_read ..
    rw [hnil, List.length_nil] at hlen
    omega
  have hnewlines := newlines_edited hok.text hback
  refine ⟨hok.head, ?_, ?_⟩
  · rw [hlines, hcounted, counts]
    split
    · exact wrapInt_succ s.counted
    · rfl
  · rw [hcounted, herased, counts, erases]
    split_ifs at hnewlines ⊢ <;> omega

end

/-- A new terminal, whatever its buffer holds. -/
def start (memory : Nat → UInt8) (textbuffer : Nat) : Session :=
  { term := { memory, textbuffer, head := 0, lines := 0 }, counted := 0, erased := 0 }

theorem inv_start (memory : Nat → UInt8) (textbuffer : Nat) : (start memory textbuffer).Inv := by
  have hlines : wrapInt 0 = 0 := by decide
  have hhead : (0 : Int) < terminalBufferSize := Int.natCast_pos.mpr (by decide)
  exact ⟨⟨le_refl 0, hhead⟩, hlines.symm, rfl⟩

/-- In a run of characters and keys every edit stays in the buffer and loses only first lines exactly if each has room,
something to take back, or a newline left to scroll. -/
theorem terminalRun_iff (memory : Nat → UInt8) (textbuffer : Nat) (ops : List TerminalOp) (s : Session) :
    Run Step Kept (start memory textbuffer) ops s ↔ Run Step Allowed (start memory textbuffer) ops s := by
  have hstep : ∀ s op s', Inv s → Allowed s op → Step s op s' → Inv s' := fun _ _ _ hs hallowed hst =>
    hs.step hallowed hst
  have hiff : ∀ s op, Inv s → (Allowed s op ↔ Kept s op) := fun _ op hs => (hs.kept_iff op).symm
  exact (Run.congr hstep hiff (inv_start memory textbuffer)).symm

/-- A backspace on an empty terminal. -/
theorem backspace_empty : ¬ ∀ (memory : Nat → UInt8) (textbuffer : Nat) (ops : List TerminalOp) (s : Session),
    AnyRun Step (start memory textbuffer) ops s → 0 ≤ s.term.head ∧ s.term.head < terminalBufferSize := by
  intro h
  let s : Session := { term := (start (fun _ => 0) 4096).term.backspace, counted := 0, erased := 0 }
  have hrun : AnyRun Step (start (fun _ => 0) 4096) [.scanTextmode 8] s := .single trivial ⟨⟨0, rfl⟩, rfl, rfl⟩
  exact absurd (h _ _ _ _ hrun).1 (by decide)

end Session

end RetrOS
