import RetrOS.Apps.Editor
import RetrOS.Lib.Run
import Mathlib.Data.List.Count

/-!
# What the editor is for

A document is a list of characters with a cursor.

* `Document.Step` : what a key stands for. A line up or down leaves the text, and the column open;
* `Editor.Shows` : the first characters of the buffer are the document, the cursor is in them and they fit;
* `Editor.Fits` : the condition on a key. A backspace in front of the last character is none, unless that is NUL; the
  cursor can be taken down where `DownFits` holds; a character needs room;
* `Shows.putChar` : one key;
* `putChar_run` : all keys.
-/

namespace RetrOS.Apps
open RetrOS.Lib

/-! ## Documents -/

structure Document where
  before : List UInt8
  after : List UInt8

namespace Document

def text (d : Document) : List UInt8 := d.before ++ d.after

/-- The line of the cursor. -/
def line (d : Document) : Nat := d.before.count newline

/-- A key and the document after it. -/
def Step (d : Document) (c : UInt8) (d' : Document) : Prop :=
  if c = backspace then d' = ⟨d.before.dropLast, d.after⟩
  else if c = KEY_LEFT then d' = ⟨d.before.dropLast, d.before.getLast?.toList ++ d.after⟩
  else if c = KEY_RIGHT then d' = ⟨d.before ++ d.after.take 1, d.after.drop 1⟩
  else if c = KEY_DOWN then d'.text = d.text ∧ d'.line = min (d.line + 1) (d.text.count newline)
  else if c = KEY_UP then d'.text = d.text ∧ d'.line = d.line - 1
  else if c = KEY_F3 ∨ c = KEY_F2 ∨ c = KEY_F9 ∨ c = KEY_F1 then d' = d
  else if c = 0 then d' = d
  else d' = ⟨d.before ++ [c], d.after⟩

end Document

/-! ## The buffer of a document -/

namespace Editor

structure Shows (e : Editor) (d : Document) : Prop where
  pos : 0 < e.textBuffer
  before : Slice.read e.memory e.textBuffer d.before.length = d.before
  after : Slice.read e.memory (e.textBuffer + d.before.length) d.after.length = d.after
  edit : e.bufferEdit = d.before.length
  head : e.bufferHead = d.before.length + d.after.length
  size : e.bufferHead ≤ e.bufferSize

/-- The cursor can be taken a line down: `b` is the character before it. The next newline or NUL from `b` on is `x`, and
`y` follows it in the text. If `x` is a newline behind the cursor, the line behind it is not empty; otherwise the line
of the cursor ends with `y`, or is the last one. -/
def DownFits (b : UInt8) (after : List UInt8) : Prop :=
  after = [] ∨ ∃ a x y z, b :: after = a ++ x :: y :: z ∧ (∀ c ∈ a, c ≠ newline ∧ c ≠ 0) ∧ (x = newline ∨ x = 0) ∧
    if a ≠ [] ∧ x = newline then y ≠ newline else y = newline ∨ newline ∉ z

/-- The key is a character of the text. -/
def IsText (c : UInt8) : Prop :=
  c ∉ [backspace, KEY_LEFT, KEY_RIGHT, KEY_DOWN, KEY_UP, KEY_F3, KEY_F2, KEY_F9, KEY_F1, 0]

/-- The condition on a key. -/
def Fits (e : Editor) (c : UInt8) : Prop :=
  if c = backspace then
    e.bufferEdit = 0 ∨ e.bufferEdit ≠ e.bufferHead - 1 ∨ e.memory (e.address e.bufferEdit) = 0
  else if c = KEY_DOWN then
    DownFits (e.memory (e.address (e.bufferEdit - 1)))
      (Slice.read e.memory (e.address e.bufferEdit) (e.bufferHead - e.bufferEdit).toNat)
  else IsText c → e.bufferHead < e.bufferSize

section Distances
variable {memory : Nat → UInt8} {str limit n fuel : Nat} {a r : List UInt8} {x : UInt8}

theorem nextNewline_eq (h : Slice.read memory str n = a ++ x :: r) (ha : ∀ c ∈ a, c ≠ newline ∧ c ≠ 0)
    (hx : x = newline ∨ x = 0) (fuel : Nat) :
    nextNewline memory fuel str = if a.length < fuel then some (a.length + 1) else none := by
  induction a generalizing str n fuel with
  | nil =>
    cases n with
    | zero => exact absurd h.symm (List.cons_ne_nil x r)
    | succ n =>
      obtain ⟨rfl, -⟩ := List.cons.inj h
      cases fuel with
      | zero => rfl
      | succ fuel =>
        rw [nextNewline, if_neg fun hc => hx.elim hc.1 hc.2]
        exact (if_pos (Nat.succ_pos fuel)).symm
  | cons y a ih =>
    cases n with
    | zero => exact absurd h.symm (List.cons_ne_nil y _)
    | succ n =>
      obtain ⟨rfl, hrest⟩ := List.cons.inj h
      cases fuel with
      | zero => rfl
      | succ fuel =>
        rw [nextNewline, if_pos (ha _ (List.mem_cons_self ..)), ih hrest fun c hc => ha c (List.mem_cons_of_mem _ hc)]
        by_cases hlen : a.length < fuel
        · rw [if_pos hlen, if_pos (by rw [List.length_cons]; omega)]
          rfl
        · rw [if_neg hlen, if_neg (by rw [List.length_cons]; omega)]
          rfl

theorem prevNewline_eq (memory : Nat → UInt8) (limit n : Nat) : ∃ u x v,
    Slice.read memory limit (n + 1) = u ++ x :: v ∧ newline ∉ v ∧ (x = newline ∨ u = []) ∧
      prevNewline memory limit n = v.length := by
  induction n with
  | zero => exact ⟨[], memory limit, [], rfl, List.not_mem_nil, .inr rfl, rfl⟩
  | succ n ih =>
    have hblock : Slice.read memory limit (n + 1 + 1) =
        Slice.read memory limit (n + 1) ++ [memory (limit + (n + 1))] := Slice.read_add ..
    by_cases hc : memory (limit + (n + 1)) = newline
    · refine ⟨_, _, [], hblock, List.not_mem_nil, .inl hc, ?_⟩
      rw [prevNewline, if_neg (not_not.mpr hc)]
      rfl
    · obtain ⟨u, x, v, hl, hv, hx, hlen⟩ := ih
      refine ⟨u, x, v ++ [memory (limit + (n + 1))], ?_, ?_, hx, ?_⟩
      · rw [hblock, hl, List.append_assoc, List.cons_append]
      · rw [List.mem_append, not_or]
        exact ⟨hv, fun hm => hc (List.mem_singleton.mp hm).symm⟩
      · rw [prevNewline, if_pos hc, hlen, List.length_append, List.length_singleton]

end Distances

/-! ## The keys -/

section Keys
variable {e e' : Editor} {d : Document} {c : UInt8}

theorem address_edit (h : e.Shows d) : e.address e.bufferEdit = e.textBuffer + d.before.length := by
  rw [address, h.edit]
  rfl

/-- Another cursor in the same text. -/
theorem Shows.move (h : e.Shows d) {d' : Document} (htext : d'.text = d.text) (hedit : e'.bufferEdit = d'.before.length)
    (he : e' = { e with bufferEdit := e'.bufferEdit }) : e'.Shows d' := by
  have hlen : d'.before.length + d'.after.length = d.before.length + d.after.length := by
    rw [← List.length_append, ← List.length_append]
    exact congrArg List.length htext
  have hall : Slice.read e.memory e.textBuffer (d'.before.length + d'.after.length) = d'.before ++ d'.after := by
    rw [hlen, Slice.read_add, h.before, h.after]
    exact htext.symm
  rw [Slice.read_add] at hall
  obtain ⟨hbefore, hafter⟩ := List.append_inj hall (Slice.length_read ..)
  rw [he]
  refine ⟨h.pos, hbefore, hafter, hedit, ?_, h.size⟩
  rw [h.head]
  omega

theorem Shows.left (h : e.Shows d) :
    e.putLeft.Shows ⟨d.before.dropLast, d.before.getLast?.toList ++ d.after⟩ := by
  have hedit := h.edit
  rcases List.eq_nil_or_concat' d.before with hnil | ⟨b, x, hb⟩
  · rw [hnil, List.length_nil] at hedit
    rw [putLeft, if_pos (by omega)]
    refine h.move ?_ (by rw [hedit, hnil]; rfl) rfl
    rw [Document.text, Document.text, hnil]
    rfl
  · rw [hb, List.length_append, List.length_singleton] at hedit
    rw [putLeft, if_neg (by omega), if_neg (by omega)]
    refine h.move ?_ ?_ rfl
    · rw [Document.text, Document.text, hb, List.dropLast_concat, List.getLast?_concat, List.append_assoc]
      rfl
    · show e.bufferEdit - 1 = (d.before.dropLast.length : Int)
      rw [hb, List.dropLast_concat]
      omega

theorem Shows.right (h : e.Shows d) : e.putRight.Shows ⟨d.before ++ d.after.take 1, d.after.drop 1⟩ := by
  have hedit := h.edit
  have hhead := h.head
  have htext : Document.text ⟨d.before ++ d.after.take 1, d.after.drop 1⟩ = d.text := by
    simp only [Document.text, List.append_assoc, List.take_append_drop]
  by_cases hnil : d.after = []
  · rw [putRight, if_pos (by rw [hedit, hhead, hnil]; simp)]
    exact h.move htext (by rw [hedit, hnil]; simp) rfl
  · have hpos := List.length_pos_of_ne_nil hnil
    rw [putRight, if_neg (by omega), if_neg (by omega)]
    refine h.move htext ?_ rfl
    rw [List.length_append, List.length_take, Nat.min_eq_left hpos, hedit]
    rfl

theorem Shows.up (h : e.Shows d) : ∃ d' : Document, d'.text = d.text ∧ d'.line = d.line - 1 ∧ e.putUp.Shows d' := by
  have hedit := h.edit
  by_cases hnil : d.before = []
  · refine ⟨d, rfl, ?_, ?_⟩
    · rw [Document.line, hnil]
      rfl
    · rwa [putUp, if_pos (by rw [hedit, hnil]; simp)]
  · have hpos := List.length_pos_of_ne_nil hnil
    obtain ⟨n, hn⟩ := Nat.exists_eq_add_of_le' hpos
    obtain ⟨u, x, v, hl, hv, hx, hprev⟩ := prevNewline_eq e.memory e.textBuffer n
    rw [← hn, h.before] at hl
    have hlen := congrArg List.length hl
    rw [List.length_append, List.length_cons] at hlen
    have htext : Document.text ⟨u, x :: v ++ d.after⟩ = d.text := by
      rw [Document.text, Document.text, hl, List.append_assoc]
    refine ⟨⟨u, x :: v ++ d.after⟩, htext, ?_, ?_⟩
    · have hline : d.line = u.count newline + [x].count newline := by
        rw [Document.line, hl, List.append_cons, List.count_append, List.count_append,
          List.count_eq_zero_of_not_mem hv, Nat.add_zero]
      have hone : [x].count newline ≤ 1 := List.count_le_length
      rw [hline, Document.line]
      rcases hx with rfl | rfl
      · rw [List.count_singleton_self, Nat.add_sub_cancel]
      · rw [List.count_nil]
        omega
    · rw [putUp, if_neg (by omega), show (e.bufferEdit - 1).toNat = n by omega, hprev]
      refine h.move htext ?_ rfl
      show e.bufferEdit - (v.length + 1) = (u.length : Int)
      omega

theorem min_count {u z : List UInt8} (hone : u.count newline ≤ 1) (h : newline ∈ u ∨ newline ∉ z) :
    u.count newline = min 1 (u.count newline + z.count newline) := by
  rcases h with hu | hz
  · have := List.count_pos_iff.mpr hu
    omega
  · rw [List.count_eq_zero_of_not_mem hz]
    omega

/-- What the cursor passes on its way down is one line, or none if it is the last. -/
theorem DownFits.passes {b : UInt8} {after : List UInt8} (h : DownFits b after) (hne : after ≠ []) :
    ∃ a x r u z, b :: after = a ++ x :: r ∧ (∀ c ∈ a, c ≠ newline ∧ c ≠ 0) ∧ (x = newline ∨ x = 0) ∧
      after = u ++ z ∧ u.length = a.length + 1 ∧ u.count newline = min 1 (u.count newline + z.count newline) := by
  obtain ⟨a, x, y, z, hl, ha, hx, hcond⟩ := h.resolve_left hne
  cases a with
  | nil =>
    obtain ⟨rfl, rfl⟩ := List.cons.inj hl
    rw [if_neg fun hc => hc.1 rfl] at hcond
    exact ⟨[], b, y :: z, [y], z, rfl, ha, hx, rfl, rfl, min_count List.count_le_length
      (hcond.imp_left fun hy => List.mem_singleton.mpr hy.symm)⟩
  | cons a0 a =>
    obtain ⟨rfl, rfl⟩ := List.cons.inj hl
    have hfree : newline ∉ a := fun hm => (ha _ (List.mem_cons_of_mem b hm)).1 rfl
    refine ⟨b :: a, x, y :: z, a ++ [x, y], z, rfl, ha, hx, by simp, by simp, ?_⟩
    have hcount : (a ++ [x, y]).count newline = [x, y].count newline := by
      rw [List.count_append, List.count_eq_zero_of_not_mem hfree, Nat.zero_add]
    rw [hcount]
    by_cases hxn : x = newline
    · rw [if_pos ⟨List.cons_ne_nil b a, hxn⟩] at hcond
      refine min_count ?_ (.inl (hxn ▸ List.mem_cons_self ..))
      have hone : [x, y].count newline = 1 := by
        rw [hxn, List.count_cons_self, List.count_eq_zero_of_not_mem fun hm => hcond (List.mem_singleton.mp hm).symm]
      exact Nat.le_of_eq hone
    · rw [if_neg fun hc => hxn hc.2] at hcond
      refine min_count ?_ (hcond.imp_left fun hy => List.mem_cons_of_mem x (List.mem_singleton.mpr hy.symm))
      rw [List.count_cons, beq_false_of_ne hxn]
      exact List.count_le_length

theorem Shows.down (h : e.Shows d) (hfits : DownFits (e.memory (e.address (e.bufferEdit - 1))) d.after) :
    ∃ t : Editor, (∃ d' : Document, d'.text = d.text ∧ d'.line = min (d.line + 1) (d.text.count newline) ∧ t.Shows d') ∧
      (∀ fuel, e.putDown fuel = none ∨ e.putDown fuel = some t) ∧ ∃ fuel, e.putDown fuel = some t := by
  have hedit := h.edit
  have hhead := h.head
  by_cases hnil : d.after = []
  · have heq : e.bufferEdit = e.bufferHead := by rw [hedit, hhead, hnil]; simp
    refine ⟨e, ⟨d, rfl, ?_, h⟩, fun fuel => .inr (if_pos heq), 0, if_pos heq⟩
    rw [Document.text, hnil, List.append_nil, ← Document.line]
    omega
  · have hpos := List.length_pos_of_ne_nil hnil
    have hbase := h.pos
    obtain ⟨a, x, r, u, z, hl, ha, hx, hafter, hlen, hcount⟩ := hfits.passes hnil
    have haddress : e.address (e.bufferEdit - 1) + 1 = e.textBuffer + d.before.length := by
      rw [address, hedit]
      omega
    have hblock : Slice.read e.memory (e.address (e.bufferEdit - 1)) (d.after.length + 1) = a ++ x :: r := by
      rw [Slice.read_succ, haddress, h.after, hl]
    have hrun := nextNewline_eq hblock ha hx
    have htext : Document.text ⟨d.before ++ u, z⟩ = d.text := by
      rw [Document.text, Document.text, hafter, List.append_assoc]
    have hdown : ∀ fuel, e.putDown fuel = (nextNewline e.memory fuel (e.address (e.bufferEdit - 1))).map
        fun (moveto : Nat) => { e with bufferEdit := e.bufferEdit + (moveto : Int) } := fun fuel => by
      rw [putDown, if_neg (by omega), if_neg (by omega)]
    refine ⟨{ e with bufferEdit := e.bufferEdit + (a.length + 1 : Nat) }, ⟨⟨d.before ++ u, z⟩, htext, ?_, ?_⟩,
      fun fuel => ?_, a.length + 1, ?_⟩
    · have hline : Document.line ⟨d.before ++ u, z⟩ = d.line + u.count newline := List.count_append ..
      have hall : d.text.count newline = d.line + (u.count newline + z.count newline) := by
        rw [Document.text, hafter, List.count_append, List.count_append, Document.line]
      rw [hline, hall]
      omega
    · refine h.move htext ?_ rfl
      show e.bufferEdit + (a.length + 1 : Nat) = ((d.before ++ u).length : Int)
      rw [List.length_append, hlen, hedit]
      omega
    · rw [hdown, hrun]
      split
      · exact .inr rfl
      · exact .inl rfl
    · rw [hdown, hrun, if_pos (by omega)]
      rfl

theorem address_of_pred {k : Nat} (hpos : 0 < e.textBuffer) (h : e.bufferEdit = (k + 1 : Nat)) :
    e.address (e.bufferEdit - 1) = e.textBuffer + k := by
  rw [address, h]
  omega

/-- A character less before the cursor, in a memory that holds what is left. -/
theorem Shows.erase {b after : List UInt8} {x : UInt8} {memory : Nat → UInt8} (h : e.Shows ⟨b ++ [x], after⟩)
    (hbefore : Slice.read memory e.textBuffer b.length = b)
    (hafter : Slice.read memory (e.textBuffer + b.length) after.length = after) :
    ({ e with memory, bufferHead := e.bufferHead - 1, bufferEdit := e.bufferEdit - 1 } : Editor).Shows ⟨b, after⟩ := by
  have hedit : e.bufferEdit = ((b ++ [x]).length : Nat) := h.edit
  have hhead : e.bufferHead = ((b ++ [x]).length : Nat) + after.length := h.head
  have hsize := h.size
  rw [List.length_append, List.length_singleton] at hedit hhead
  refine ⟨h.pos, hbefore, hafter, ?_, ?_, ?_⟩
  · show e.bufferEdit - 1 = (b.length : Int)
    omega
  · show e.bufferHead - 1 = (b.length : Int) + after.length
    omega
  · show e.bufferHead - 1 ≤ e.bufferSize
    omega

/-- A backspace at the end of the text, or in front of a last character that is NUL. -/
theorem Shows.eraseLast {b after : List UInt8} {x : UInt8} (h : e.Shows ⟨b ++ [x], after⟩)
    (hlast : after = [] ∨ after = [0]) (hbefore : Slice.read e.memory e.textBuffer b.length = b) :
    ({ e with
      memory := Function.update e.memory (e.textBuffer + b.length) 0
      bufferHead := e.bufferHead - 1
      bufferEdit := e.bufferEdit - 1 } : Editor).Shows ⟨b, after⟩ := by
  rw [← Slice.write_singleton]
  refine h.erase ((Slice.read_write_of_apart _ (.inl (Nat.le_refl _))).trans hbefore) ?_
  rcases hlast with rfl | rfl
  · rfl
  · exact Slice.read_write_self _ _ [0]

theorem Shows.putBackspace (h : e.Shows d)
    (hfits : e.bufferEdit = 0 ∨ e.bufferEdit ≠ e.bufferHead - 1 ∨ e.memory (e.address e.bufferEdit) = 0) :
    e.putBackspace.Shows ⟨d.before.dropLast, d.after⟩ := by
  obtain ⟨before, after⟩ := d
  rcases List.eq_nil_or_concat' before with rfl | ⟨b, x, rfl⟩
  · have h0 : e.bufferEdit = 0 := h.edit
    rwa [Editor.putBackspace, if_pos h0]
  · have hlen : (b ++ [x]).length = b.length + 1 := by rw [List.length_append, List.length_singleton]
    have hedit : e.bufferEdit = ((b ++ [x]).length : Nat) := h.edit
    have hhead : e.bufferHead = ((b ++ [x]).length : Nat) + after.length := h.head
    have hbefore : Slice.read e.memory e.textBuffer (b ++ [x]).length = b ++ [x] := h.before
    have hafter : Slice.read e.memory (e.textBuffer + (b ++ [x]).length) after.length = after := h.after
    rw [hlen] at hedit hhead hbefore hafter
    have haddress : e.address (e.bufferEdit - 1) = e.textBuffer + b.length := address_of_pred h.pos hedit
    have haddress' : e.address e.bufferEdit = e.textBuffer + (b.length + 1) := by
      rw [address, hedit]
      rfl
    have hb : Slice.read e.memory e.textBuffer b.length = b := by
      rw [Slice.read_add] at hbefore
      exact (List.append_inj' hbefore (Slice.length_read ..)).1
    dsimp only
    rw [List.dropLast_concat, Editor.putBackspace, if_neg (by omega)]
    by_cases hmiddle : e.bufferEdit < e.bufferHead - 1
    · rw [if_pos hmiddle, haddress, haddress', show (e.bufferHead - e.bufferEdit).toNat = after.length by omega]
      dsimp only
      rw [memcpy_eq _ _ (by omega)]
      refine h.erase ((Slice.read_write_of_apart _ (.inl (Nat.le_refl _))).trans hb) ?_
      have hcopied := Slice.read_write_self e.memory (e.textBuffer + b.length)
        (Slice.read e.memory (e.textBuffer + (b.length + 1)) (after.length + 1))
      rw [Slice.length_read] at hcopied
      rw [← Slice.take_read _ _ (Nat.le_succ after.length), hcopied, Slice.take_read _ _ (Nat.le_succ _), hafter]
    · rw [if_neg hmiddle, haddress]
      refine h.eraseLast ?_ hb
      rcases after with _ | ⟨y, _ | ⟨z, rest⟩⟩
      · exact .inl rfl
      · -- the last character has to be NUL already
        have hlast : e.bufferEdit = e.bufferHead - 1 := by
          rw [hedit, hhead]
          simp
        have hnul := (hfits.resolve_left (by omega)).resolve_left (not_not.mpr hlast)
        rw [haddress'] at hnul
        exact .inr (congrArg ([·]) ((List.cons.inj hafter).1.symm.trans hnul))
      · simp only [List.length_cons] at hhead
        omega

/-- What the insertion of a character stores. -/
theorem Shows.memory_insert (h : e.Shows d) (hc : c ≠ 0) :
    (e.insert c).memory = Slice.write e.memory (e.textBuffer + d.before.length) (c :: d.after) := by
  have hedit := h.edit
  have hhead := h.head
  have hbase := h.pos
  have haddress := address_edit h
  rw [insert, if_neg hc]
  dsimp only
  rw [haddress]
  by_cases hnil : d.after = []
  · rw [if_neg (by rw [hedit, hhead, hnil]; simp), hnil, Slice.write_singleton]
  · have hpos := List.length_pos_of_ne_nil hnil
    have haddress' : e.address e.bufferHead = (e.textBuffer + d.before.length - 1) + (d.after.length + 1) := by
      rw [address, hhead]
      omega
    have hsucc : e.textBuffer + d.before.length - 1 + 1 = e.textBuffer + d.before.length := by omega
    rw [if_pos (by omega), haddress', show (e.bufferHead - e.bufferEdit + 1).toNat = d.after.length + 1 by omega,
      moveForward_eq, Slice.read_succ, hsucc, h.after, Slice.update_write_cons]

theorem Shows.insert (h : e.Shows d) (hc : c ≠ 0) (hroom : e.bufferHead < e.bufferSize) :
    (e.insert c).Shows ⟨d.before ++ [c], d.after⟩ := by
  have hmemory := h.memory_insert hc
  have hedit := h.edit
  have hhead := h.head
  obtain ⟨hfirst, hrest⟩ := List.cons.inj
    (Slice.read_write_self e.memory (e.textBuffer + d.before.length) (c :: d.after))
  have hlen : (d.before ++ [c]).length = d.before.length + 1 := List.length_append
  have hfields : (e.insert c).textBuffer = e.textBuffer ∧ (e.insert c).bufferSize = e.bufferSize ∧
      (e.insert c).bufferEdit = e.bufferEdit + 1 ∧ (e.insert c).bufferHead = e.bufferHead + 1 := by
    rw [Editor.insert, if_neg hc]
    exact ⟨rfl, rfl, rfl, rfl⟩
  obtain ⟨hbuffer, hsize, hedit', hhead'⟩ := hfields
  refine ⟨?_, ?_, ?_, ?_, ?_, ?_⟩
  · rw [hbuffer]
    exact h.pos
  · rw [hmemory, hbuffer, hlen, Slice.read_add, Slice.read_write_of_apart _ (.inl (Nat.le_refl _)), h.before]
    exact congrArg (d.before ++ [·]) hfirst
  · rw [hmemory, hbuffer, hlen, ← Nat.add_assoc]
    exact hrest
  · rw [hedit', hlen]
    omega
  · rw [hhead', hhead, hlen]
    show (d.before.length + d.after.length + 1 : Int) = (d.before.length + 1 : Nat) + d.after.length
    omega
  · rw [hhead', hsize]
    omega

/-- A key that fits is handled, with enough fuel for the scan, and does to the text what it stands for. -/
theorem Shows.putChar (h : e.Shows d) (hfits : e.Fits c) : ∃ t : Editor, (∃ d', d.Step c d' ∧ t.Shows d') ∧
    (∀ fuel, e.putChar fuel c = none ∨ e.putChar fuel c = some t) ∧ ∃ fuel, e.putChar fuel c = some t := by
  unfold Editor.putChar Document.Step
  unfold Fits at hfits
  by_cases hback : c = backspace
  · simp only [if_pos hback] at hfits ⊢
    exact ⟨_, ⟨_, rfl, h.putBackspace hfits⟩, fun _ => .inr rfl, 0, rfl⟩
  simp only [if_neg hback] at hfits ⊢
  by_cases hleft : c = KEY_LEFT
  · simp only [if_pos hleft]
    exact ⟨_, ⟨_, rfl, h.left⟩, fun _ => .inr rfl, 0, rfl⟩
  simp only [if_neg hleft]
  by_cases hright : c = KEY_RIGHT
  · simp only [if_pos hright]
    exact ⟨_, ⟨_, rfl, h.right⟩, fun _ => .inr rfl, 0, rfl⟩
  simp only [if_neg hright]
  by_cases hdown : c = KEY_DOWN
  · simp only [if_pos hdown] at hfits ⊢
    have hafter : Slice.read e.memory (e.address e.bufferEdit) (e.bufferHead - e.bufferEdit).toNat = d.after := by
      have hlen : (e.bufferHead - e.bufferEdit).toNat = d.after.length := by
        rw [h.head, h.edit]
        omega
      rw [address_edit h, hlen, h.after]
    rw [hafter] at hfits
    obtain ⟨t, ⟨d', htext, hline, ht⟩, hruns⟩ := h.down hfits
    exact ⟨t, ⟨d', ⟨htext, hline⟩, ht⟩, hruns⟩
  simp only [if_neg hdown] at hfits ⊢
  by_cases hup : c = KEY_UP
  · simp only [if_pos hup]
    obtain ⟨d', htext, hline, ht⟩ := h.up
    exact ⟨_, ⟨d', ⟨htext, hline⟩, ht⟩, fun _ => .inr rfl, 0, rfl⟩
  simp only [if_neg hup]
  by_cases hfunction : c = KEY_F3 ∨ c = KEY_F2 ∨ c = KEY_F9 ∨ c = KEY_F1
  · simp only [if_pos hfunction]
    exact ⟨e, ⟨d, rfl, h⟩, fun _ => .inr rfl, 0, rfl⟩
  simp only [if_neg hfunction]
  by_cases hzero : c = 0
  · have hinsert : e.insert c = e := if_pos hzero
    simp only [hinsert, if_pos hzero]
    exact ⟨e, ⟨d, rfl, h⟩, fun _ => .inr rfl, 0, rfl⟩
  · have htext : IsText c := by
      simp only [not_or] at hfunction
      simp [IsText, hback, hleft, hright, hdown, hup, hfunction, hzero]
    simp only [if_neg hzero]
    exact ⟨_, ⟨_, rfl, h.insert hzero (hfits htext)⟩, fun _ => .inr rfl, 0, rfl⟩

end Keys

/-! ## Runs -/

section Runs
variable {e t : Editor} {d : Document} {keys : List UInt8}

theorem new_shows (memory : Nat → UInt8) {textBuffer : Nat} (hpos : 0 < textBuffer) :
    (new memory textBuffer).Shows ⟨[], [0]⟩ := by
  have hfirst : (new memory textBuffer).memory textBuffer = 0 := by
    refine (Function.update_of_ne (by omega) ..).trans ?_
    rw [Slice.write, if_pos (Nat.le_refl _), Nat.sub_self, List.getElem?_replicate_of_lt (by omega)]
    rfl
  refine ⟨hpos, rfl, congrArg ([·]) hfirst, rfl, rfl, ?_⟩
  show (1 : Int) ≤ 10 * 1024
  omega

theorem load_shows (hpos : 0 < e.textBuffer) (hedit : e.bufferEdit = 0) (bytes : List UInt8)
    (hsize : bytes.length ≤ e.bufferSize) : (e.load bytes).Shows ⟨[], bytes⟩ :=
  ⟨hpos, rfl, Slice.read_write_self .., hedit, (Int.zero_add _).symm, hsize⟩

/-- A key, with enough fuel for the scan. -/
def Steps (e : Editor) (c : UInt8) (t : Editor) : Prop := ∃ fuel, e.putChar fuel c = some t

theorem Shows.run (hrun : Run Steps Fits e keys t) (h : e.Shows d) :
    ∃ d', AnyRun Document.Step d keys d' ∧ t.Shows d' := by
  induction hrun generalizing d with
  | nil => exact ⟨d, .nil d, h⟩
  | cons hfits hstep _ ih =>
    obtain ⟨u, ⟨d1, hd1, hu⟩, hruns, -⟩ := h.putChar hfits
    obtain ⟨fuel, hstep⟩ := hstep
    rcases hruns fuel with hnone | hsome
    · rw [hnone] at hstep
      exact absurd hstep.symm (Option.some_ne_none _)
    · obtain rfl := Option.some.inj (hsome.symm.trans hstep)
      obtain ⟨d', hd', ht⟩ := ih hu
      exact ⟨d', .cons trivial hd1 hd', ht⟩

/-- **Every run of keys that fit**: the document that the keys stand for is what the buffer shows, with the cursor in it
and all of it in the buffer; and the next key that fits is handled. -/
theorem putChar_run (e t : Editor) (d : Document) (keys : List UInt8) (h : e.Shows d)
    (hrun : Run Steps Fits e keys t) :
    (∃ d', AnyRun Document.Step d keys d' ∧ t.Shows d' ∧
      Slice.read t.memory t.textBuffer t.bufferHead.toNat = d'.text) ∧
      0 ≤ t.bufferEdit ∧ t.bufferEdit ≤ t.bufferHead ∧ t.bufferHead ≤ t.bufferSize ∧
      ∀ c, t.Fits c → ∃ u, Steps t c u := by
  obtain ⟨d', hdoc, ht⟩ := h.run hrun
  have hedit := ht.edit
  have hhead := ht.head
  refine ⟨⟨d', hdoc, ht, ?_⟩, by omega, by omega, ht.size, fun c hc => ?_⟩
  · have hlen : t.bufferHead.toNat = d'.before.length + d'.after.length := by omega
    rw [hlen, Slice.read_add, ht.before, ht.after, Document.text]
  · obtain ⟨u, -, -, hu⟩ := ht.putChar hc
    exact ⟨u, hu⟩

/-- The editor with the text "ab", in a memory of zeros. -/
def abEditor : Editor := (new (fun _ => 0) 16).load [97, 98]

theorem abEditor_shows : abEditor.Shows ⟨[], [97, 98]⟩ :=
  load_shows (by decide) rfl [97, 98] (by decide)

theorem putChar_run_typed : ∃ t, Run Steps Fits abEditor [99] t ∧ (∃ d', AnyRun Document.Step ⟨[], [97, 98]⟩ [99] d' ∧
    t.Shows d' ∧ Slice.read t.memory t.textBuffer t.bufferHead.toNat = d'.text) ∧
    0 ≤ t.bufferEdit ∧ t.bufferEdit ≤ t.bufferHead ∧ t.bufferHead ≤ t.bufferSize ∧
    ∀ c, t.Fits c → ∃ u, Steps t c u := by
  have hfits : abEditor.Fits 99 := by
    unfold Fits
    rw [if_neg (by decide), if_neg (by decide)]
    exact fun _ => by decide
  have hrun : Run Steps Fits abEditor [99] (abEditor.insert 99) := .single hfits ⟨0, rfl⟩
  exact ⟨_, hrun, putChar_run _ _ _ _ abEditor_shows hrun⟩

/-- A backspace between "a" and "b" leaves NUL instead of "b". -/
theorem putChar_backspace_last : ∃ t, AnyRun Steps abEditor [KEY_RIGHT, backspace] t ∧
    ¬ ∃ d', AnyRun Document.Step ⟨[], [97, 98]⟩ [KEY_RIGHT, backspace] d' ∧ t.Shows d' := by
  refine ⟨_, .cons trivial ⟨0, rfl⟩ (.single trivial ⟨0, rfl⟩), ?_⟩
  rintro ⟨d', hdoc, ht⟩
  cases hdoc with
  | cons _ hright hrest =>
    rw [Document.Step, if_neg (by decide), if_neg (by decide), if_pos rfl] at hright
    subst hright
    cases hrest with
    | cons _ hback hnil =>
      rw [Document.Step, if_pos rfl] at hback
      subst hback
      cases hnil
      exact absurd ht.after (by decide)

end Runs

end Editor
end RetrOS.Apps
