import RetrOS.Apps.Page

/-!
# The lines of texed hold a page

* `Line.Holds`, `HoldsFrom` : a line of the buffer holds a line of the page, consecutive lines hold a list of them;
* `moveUp_apply`, `moveDown_apply`, `moveTail_eq` : the loops;
* `TextBuffer.Shows` : the buffer holds the page, with the cursor, at most 512 lines of at most 78 characters;
* `Shows.handleEnter`, `Shows.join`, `Shows.erase`, `Shows.handleArrow`, `Shows.handleText` : the branches.
-/

namespace RetrOS.Apps
open RetrOS.Lib

/-! ## A line -/

/-- The line holds `s`, and has memory for as much as every line. -/
structure Line.Holds (l : Line) (s : List UInt8) : Prop where
  length : l.length = s.length
  capacity : l.capacity = LINE_CAPACITY
  fits : s.length ≤ LINE_CAPACITY
  text : Slice.read l.text 0 s.length = s

namespace Line
variable {l m : Line} {s : List UInt8}

@[simp] theorem capacity_mark (l : Line) (flag : Nat) : (l.mark flag).capacity = l.capacity := rfl

@[simp] theorem capacity_clear (l : Line) : l.clear.capacity = l.capacity := rfl

theorem Holds.mark (h : l.Holds s) (flag : Nat) : (l.mark flag).Holds s := ⟨h.length, h.capacity, h.fits, h.text⟩

theorem Holds.copy (h : m.Holds s) (hl : l.capacity = LINE_CAPACITY) : (l.copy m).Holds s := by
  refine ⟨h.length, hl, h.fits, ?_⟩
  show Slice.read (Slice.write l.text 0 (Slice.read m.text 0 m.length)) 0 s.length = s
  rw [h.length, h.text, Slice.read_write_self]

/-- The text on both sides of a column. -/
theorem Holds.split {a b : List UInt8} (h : l.Holds (a ++ b)) :
    Slice.read l.text 0 a.length = a ∧ Slice.read l.text a.length b.length = b := by
  have htext := h.text
  rw [List.length_append, Slice.read_add, Nat.zero_add] at htext
  exact List.append_inj htext (Slice.length_read ..)

theorem holds_nil (h : l.capacity = LINE_CAPACITY) : { l with length := 0 }.Holds [] := ⟨rfl, h, Nat.zero_le _, rfl⟩

end Line

/-! ## Consecutive lines -/

/-- The lines from `i` on hold the list. -/
def HoldsFrom (lines : Nat → Line) : Nat → List (List UInt8) → Prop
  | _, [] => True
  | i, s :: ls => (lines i).Holds s ∧ HoldsFrom lines (i + 1) ls

section Lines
variable {lines lines' : Nat → Line} {ls a b : List (List UInt8)} {s : List UInt8} {i j k : Nat}

theorem holdsFrom_append : HoldsFrom lines i (a ++ b) ↔ HoldsFrom lines i a ∧ HoldsFrom lines (i + a.length) b := by
  induction a generalizing i with
  | nil => simp [HoldsFrom]
  | cons s a ih =>
    rw [List.cons_append, HoldsFrom, HoldsFrom, ih, and_assoc, List.length_cons, Nat.add_assoc, Nat.add_comm 1]

theorem holdsFrom_concat : HoldsFrom lines i (a ++ [s]) ↔ HoldsFrom lines i a ∧ (lines (i + a.length)).Holds s := by
  rw [holdsFrom_append, HoldsFrom, HoldsFrom, and_true]

/-- Lines that hold what other lines hold. -/
theorem HoldsFrom.imp (h : HoldsFrom lines i ls)
    (himp : ∀ k s, k < ls.length → (lines (i + k)).Holds s → (lines' (j + k)).Holds s) : HoldsFrom lines' j ls := by
  induction ls generalizing i j with
  | nil => trivial
  | cons s ls ih =>
    refine ⟨himp 0 s (Nat.succ_pos _) h.1, ih h.2 fun k s hk hs => ?_⟩
    rw [Nat.add_assoc, Nat.add_comm 1] at hs ⊢
    exact himp (k + 1) s (Nat.succ_lt_succ hk) hs

theorem HoldsFrom.congr (h : HoldsFrom lines i ls) (heq : ∀ j, i ≤ j → j < i + ls.length → lines' j = lines j) :
    HoldsFrom lines' i ls :=
  h.imp fun k s hk hs => by rwa [heq _ (by omega) (by omega)]

theorem HoldsFrom.capacity (h : HoldsFrom lines i ls) (hi : i ≤ j) (hj : j < i + ls.length) :
    (lines j).capacity = LINE_CAPACITY := by
  induction ls generalizing i with
  | nil => exact absurd hj (by simpa using hi)
  | cons s ls ih =>
    rcases Nat.eq_or_lt_of_le hi with rfl | hlt
    · exact h.1.capacity
    · exact ih h.2 hlt (by rw [List.length_cons] at hj; omega)

/-! ## The loops -/

theorem moveUp_apply (k : Nat) (lines : Nat → Line) (i j : Nat) : moveUp k lines i j =
    if i ≤ j ∧ j < i + k then (lines j).clear.copy (lines (j + 1)) else lines j := by
  induction k generalizing lines i with
  | zero => rw [moveUp, if_neg (by omega)]
  | succ k ih =>
    rw [moveUp, ih]
    rcases Nat.lt_trichotomy j i with hj | rfl | hj
    · rw [if_neg (by omega), if_neg (by omega), Function.update_of_ne (by omega)]
    · rw [if_neg (by omega), if_pos (by omega), Function.update_self]
    · rw [Function.update_of_ne (by omega), Function.update_of_ne (by omega)]
      exact if_congr (by omega) rfl rfl

theorem moveDown_apply (clear : Line → Line) (k : Nat) (lines : Nat → Line) (i j : Nat) (hk : k ≤ i) :
    moveDown clear k lines i j = if i < j + k ∧ j ≤ i then
      ((clear (lines j)).copy (lines (j - 1))).mark LINE_FLAG_DIRTY else lines j := by
  induction k generalizing lines i with
  | zero => rw [moveDown, if_neg (by omega)]
  | succ k ih =>
    rw [moveDown, ih _ _ (by omega)]
    rcases Nat.lt_trichotomy j i with hj | rfl | hj
    · rw [Function.update_of_ne (by omega), Function.update_of_ne (by omega)]
      exact if_congr (by omega) rfl rfl
    · rw [if_neg (by omega), if_pos (by omega), Function.update_self]
    · rw [if_neg (by omega), if_neg (by omega), Function.update_of_ne (by omega)]

theorem moveTail_eq (src : Nat → UInt8) (x k : Nat) (text : Nat → UInt8) :
    moveTail src x k text = Slice.write text 0 (Slice.read src x k) := by
  induction k generalizing text with
  | zero => rw [moveTail, Slice.read_zero, Slice.write_nil]
  | succ k ih =>
    have hblock : Slice.read src x (k + 1) = Slice.read src x k ++ [src (x + k)] := Slice.read_add ..
    have hlen : 0 + (Slice.read src x k).length = k := by rw [Slice.length_read, Nat.zero_add]
    rw [moveTail, ih, hblock, ← Slice.write_append, hlen, Slice.write_singleton,
      Slice.write_update_of_apart text _ (.inr (Nat.le_of_eq hlen))]

/-- The lines behind `i` come one up, over line `i`. -/
theorem HoldsFrom.moveUp (h : HoldsFrom lines i (s :: ls)) : HoldsFrom (moveUp ls.length lines i) i ls := by
  refine h.2.imp fun k s hk hs => ?_
  rw [moveUp_apply, if_pos (by omega)]
  refine Line.Holds.copy ?_ (h.capacity (j := i + k) (by omega) (by rw [List.length_cons]; omega))
  rwa [Nat.add_right_comm]

/-- The lines from `i` on go one down, over a line behind them. -/
theorem HoldsFrom.moveDown (h : HoldsFrom lines i (ls ++ [s])) (clear : Line → Line)
    (hclear : ∀ l, (clear l).capacity = l.capacity) :
    HoldsFrom (moveDown clear ls.length lines (i + ls.length)) (i + 1) ls := by
  refine (holdsFrom_concat.mp h).1.imp fun k s hk hs => ?_
  rw [moveDown_apply _ _ _ _ _ (by omega), if_pos (by omega), show i + 1 + k - 1 = i + k by omega]
  refine Line.Holds.mark (hs.copy ((hclear _).trans ?_)) _
  exact h.capacity (by omega) (by rw [List.length_append, List.length_singleton]; omega)

/-- The new line of an enter in the middle of a line, and what is left of that. -/
theorem Line.Holds.cut {cur next : Line} {left right : List UInt8} (hcur : cur.Holds (left ++ right))
    (hnext : next.capacity = LINE_CAPACITY) {x : Nat} (hx : x = left.length) :
    ({ next with
      text := moveTail cur.text x (cur.length - x) next.text, length := cur.length - x } : Line).Holds right ∧
    ({ cur with
      text := Slice.write cur.text x (List.replicate (cur.capacity - x) 0), length := x } : Line).Holds left := by
  obtain ⟨hleft, hright⟩ := hcur.split
  have hlen := hcur.length
  have hfits := hcur.fits
  rw [List.length_append] at hlen hfits
  have htail : cur.length - x = right.length := by omega
  subst hx
  refine ⟨⟨htail, hnext, by omega, ?_⟩, rfl, hcur.capacity, by omega, ?_⟩
  · show Slice.read (moveTail cur.text left.length (cur.length - left.length) next.text) 0 right.length = right
    rw [htail, moveTail_eq, hright, Slice.read_write_self]
  · show Slice.read (Slice.write cur.text left.length _) 0 left.length = left
    rw [Slice.read_write_of_apart _ (.inl (Nat.le_of_eq (Nat.zero_add _))), hleft]

/-- The line that two lines are joined in: the test for room leaves a character of it free. -/
theorem Line.Holds.join {prev cur : Line} {l r : List UInt8} (hprev : prev.Holds l) (hcur : cur.Holds r)
    (hfits : cur.length = 0 ∨ prev.length + cur.length < prev.capacity) : (prev.join cur).Holds (l ++ r) := by
  have hlen := hcur.length
  have hcapacity := hprev.capacity
  have hprevFits := hprev.fits
  rw [hcapacity, hprev.length] at hfits
  rw [LINE_CAPACITY] at hfits hprevFits
  rw [Line.join, hcapacity, hprev.length, LINE_CAPACITY]
  refine ⟨by rw [List.length_append, hlen], rfl, ?_, ?_⟩
  · rw [LINE_CAPACITY, List.length_append]
    omega
  by_cases hnil : cur.length = 0
  · have hr : r = [] := List.length_eq_zero_iff.mp (by omega)
    dsimp only
    rw [if_neg (by omega), hr, List.append_nil, hprev.text]
  · dsimp only
    rw [if_pos (by omega), hlen, hcur.text, List.length_append]
    have hread := Slice.read_write_append prev.text 0 l.length r
    rwa [Nat.zero_add, hprev.text] at hread

/-- A line without the character before the cursor. -/
theorem Line.Holds.erase {cur : Line} {left right : List UInt8} {c : UInt8} (h : cur.Holds (left ++ [c] ++ right)) :
    ({ cur with
      text := Function.update (copyUnits 1 right.length cur.text left.length (left.length + 1)) (cur.length - 1) 0,
      length := cur.length - 1 } : Line).Holds (left ++ right) := by
  have hlen := h.length
  have hfits := h.fits
  obtain ⟨hleft, hright⟩ := h.split
  rw [List.length_append, List.length_append, List.length_singleton] at hlen hfits
  rw [List.length_append, List.length_singleton] at hleft hright
  have hlast : cur.length - 1 = left.length + right.length := by omega
  refine ⟨by rw [List.length_append, hlast], h.capacity, by rw [List.length_append]; omega, ?_⟩
  dsimp only
  rw [hlast, List.length_append, copyUnits_eq 1 _ _ (Nat.le_succ _), Nat.one_mul, hright, ← Slice.write_singleton,
    Slice.read_write_of_apart _ (.inl (by omega))]
  have hread := Slice.read_write_append cur.text 0 left.length right
  rw [Nat.zero_add] at hread
  rw [hread, ← Slice.take_read cur.text 0 (Nat.le_succ _), hleft, List.take_left']
  rfl

/-- A line with a character more before the cursor. -/
theorem Line.Holds.insert {cur : Line} {left right : List UInt8} (h : cur.Holds (left ++ right))
    (hroom : cur.length < LINE_CAPACITY) (c : UInt8) {x : Nat} (hx : x = left.length) :
    ({ cur with
      text := Function.update
        (if x < cur.length then moveForward (cur.length - x) cur.text cur.length else cur.text) x c,
      length := cur.length + 1 } : Line).Holds (left ++ [c] ++ right) := by
  have hlen := h.length
  obtain ⟨hleft, hright⟩ := h.split
  rw [List.length_append] at hlen
  subst hx
  have hmoved : (if left.length < cur.length then moveForward (cur.length - left.length) cur.text cur.length
      else cur.text) = Slice.write cur.text (left.length + 1) right := by
    rw [← hright, ← moveForward_eq, ← hlen]
    split
    · rw [hlen, Nat.add_sub_cancel_left]
    · rw [show right.length = 0 by omega]
      rfl
  have htext : Function.update (Slice.write cur.text (left.length + 1) right) left.length c =
      Slice.write cur.text (0 + left.length) ([c] ++ right) := by
    rw [← Slice.write_update_of_apart _ _ (.inl (Nat.lt_succ_self _)), ← Slice.write_singleton, ← Slice.write_append,
      Nat.zero_add]
    rfl
  have htotal : (left ++ [c] ++ right).length = left.length + ([c] ++ right).length := by
    rw [List.append_assoc, List.length_append]
  refine ⟨?_, h.capacity, ?_, ?_⟩
  · show cur.length + 1 = (left ++ [c] ++ right).length
    rw [htotal, hlen, List.length_append, List.length_singleton]
    omega
  · rw [htotal, List.length_append, List.length_singleton]
    omega
  · dsimp only
    rw [hmoved, htext, htotal, Slice.read_write_append, hleft, List.append_assoc]

end Lines

/-! ## The buffer of a page -/

namespace TextBuffer

structure Shows (b : TextBuffer) (p : Page) : Prop where
  above : HoldsFrom b.lines 0 p.above
  current : b.line.Holds p.current
  below : HoldsFrom b.lines (b.y + 1) p.below
  count : b.lineCount = p.above.length + 1 + p.below.length
  limit : b.lineCount ≤ MAX_LINES
  x : b.x = p.left.length
  y : b.y = p.above.length

/-- The lines of the buffer. -/
def contents (b : TextBuffer) : List (List UInt8) :=
  (Slice.read b.lines 0 b.lineCount).map fun l => Slice.read l.text 0 l.length

section Keys
variable {b : TextBuffer} {p : Page} {memory : Bool} {c : UInt8}

theorem Shows.holdsFrom (h : b.Shows p) : HoldsFrom b.lines 0 p.lines := by
  refine holdsFrom_append.mpr ⟨h.above, ?_⟩
  have hcurrent := h.current
  have hbelow := h.below
  rw [line, h.y] at hcurrent
  rw [h.y] at hbelow
  rw [Nat.zero_add]
  exact ⟨hcurrent, hbelow⟩

theorem map_holdsFrom {lines : Nat → Line} {ls : List (List UInt8)} {i : Nat} (h : HoldsFrom lines i ls) :
    (Slice.read lines i ls.length).map (fun l => Slice.read l.text 0 l.length) = ls := by
  induction ls generalizing i with
  | nil => rfl
  | cons s ls ih =>
    rw [List.length_cons, Slice.read_succ, List.map_cons, ih h.2, h.1.length, h.1.text]

theorem Shows.contents (h : b.Shows p) : b.contents = p.lines := by
  have hlen : b.lineCount = p.lines.length := by
    rw [h.count, Page.lines, List.length_append, List.length_cons, Nat.add_assoc, Nat.add_comm 1]
  rw [TextBuffer.contents, hlen, map_holdsFrom h.holdsFrom]

/-- Lines whose marks differ, and a screen that has moved. -/
theorem Shows.congr {b' : TextBuffer} (h : b.Shows p) (hlines : ∀ i s, (b.lines i).Holds s → (b'.lines i).Holds s)
    (hcount : b'.lineCount = b.lineCount) (hx : b'.x = b.x) (hy : b'.y = b.y) : b'.Shows p := by
  refine ⟨h.above.imp fun k s _ => hlines _ s, ?_, ?_, by rw [hcount, h.count], by rw [hcount]; exact h.limit,
    by rw [hx, h.x], by rw [hy, h.y]⟩
  · rw [line, hy]
    exact hlines _ _ h.current
  · rw [hy]
    exact h.below.imp fun k s _ => hlines _ s

theorem Shows.mark (h : b.Shows p) (i flag : Nat) : (b.setLine i ((b.lines i).mark flag)).Shows p := by
  refine h.congr (fun j s hs => ?_) rfl rfl rfl
  show (Function.update b.lines i ((b.lines i).mark flag) j).Holds s
  by_cases hj : j = i
  · subst hj
    rw [Function.update_self]
    exact hs.mark flag
  · rwa [Function.update_of_ne hj]

theorem Shows.scrollDown (h : b.Shows p) : b.scrollDown.Shows p := by
  rw [TextBuffer.scrollDown]
  split
  · exact h.congr (fun _ _ hs => hs) rfl rfl rfl
  · exact h

/-- Another line at the cursor, and the cursor in it. -/
theorem Shows.setCurrent (h : b.Shows p) {l : Line} {left right : List UInt8} (hl : l.Holds (left ++ right)) {x : Nat}
    (hx : x = left.length) : ({ b.setLine b.y l with x := x } : TextBuffer).Shows ⟨p.above, left, right, p.below⟩ := by
  have hy := h.y
  refine ⟨h.above.congr fun j _ hj => Function.update_of_ne (by omega) .., ?_,
    h.below.congr fun j (hj : b.y + 1 ≤ j) _ => Function.update_of_ne (by omega) .., h.count, h.limit, hx, hy⟩
  show (Function.update b.lines b.y l b.y).Holds _
  rwa [Function.update_self]

/-- A line more, at the end. -/
theorem Shows.newLine (h : b.Shows p) (hcount : b.lineCount ≠ MAX_LINES) : ∃ b', b.newLine true = some b' ∧
    b'.Shows { p with below := p.below ++ [[]] } ∧ b'.x = b.x ∧ b'.y = b.y ∧ b'.lineCount = b.lineCount + 1 := by
  have hy := h.y
  have hlen := h.count
  refine ⟨{ b.setLine b.lineCount (Line.clear ⟨(b.lines b.lineCount).text, 0, LINE_CAPACITY, 0⟩) with
    lineCount := b.lineCount + 1 }, ?_, ⟨?_, ?_, ?_, ?_, ?_, h.x, h.y⟩, rfl, rfl, rfl⟩
  · rw [TextBuffer.newLine, if_neg hcount, if_pos rfl]
  · exact h.above.congr fun j _ hj => Function.update_of_ne (by omega) ..
  · show (Function.update b.lines b.lineCount _ b.y).Holds _
    rw [Function.update_of_ne (by omega)]
    exact h.current
  · refine holdsFrom_concat.mpr ⟨h.below.congr fun j (hj : b.y + 1 ≤ j) hj' => Function.update_of_ne (by omega) .., ?_⟩
    show (Function.update b.lines b.lineCount _ (b.y + 1 + p.below.length)).Holds []
    rw [show b.y + 1 + p.below.length = b.lineCount by omega, Function.update_self]
    exact ⟨rfl, rfl, Nat.zero_le _, rfl⟩
  · rw [List.length_append, List.length_singleton, ← Nat.add_assoc, ← hlen]
  · have := h.limit
    show b.lineCount + 1 ≤ MAX_LINES
    omega

/-- The line of the cursor in two, and the lines behind it one down. -/
theorem Shows.toNextLine {lines : Nat → Line} {below : List (List UInt8)} (h : b.Shows { p with below := below })
    (habove : ∀ j, j < b.y → lines j = b.lines j) (hcurrent : (lines b.y).Holds p.left)
    (hnext : (lines (b.y + 1)).Holds p.right) (hbelow : HoldsFrom lines (b.y + 2) p.below)
    (hcount : below.length = p.below.length + 1) :
    ({ b with lines := lines } : TextBuffer).toNextLine.scrollDown.Shows p.enter := by
  have hy := h.y
  have hlen : b.lineCount = p.above.length + 1 + below.length := h.count
  have hmoved : ({ b with lines := lines, x := 0, y := b.y + 1 } : TextBuffer).Shows p.enter := by
    refine ⟨?_, hnext, hbelow, ?_, h.limit, rfl, ?_⟩
    · refine holdsFrom_concat.mpr ⟨h.above.congr fun j _ hj => habove j (by omega), ?_⟩
      rwa [Nat.zero_add, ← hy]
    · show b.lineCount = (p.above ++ [p.left]).length + 1 + p.below.length
      rw [hlen, List.length_append, List.length_singleton]
      omega
    · show b.y + 1 = (p.above ++ [p.left]).length
      rw [hy, List.length_append, List.length_singleton]
  exact (hmoved.mark (b.y + 1) LINE_FLAG_DIRTY).scrollDown

theorem Shows.room_iff (h : b.Shows p) : p.room memory = true ↔ b.lineCount ≠ MAX_LINES ∧ memory = true := by
  have hlen : p.lines.length = b.lineCount := by
    rw [h.count, Page.lines, List.length_append, List.length_cons, Nat.add_assoc, Nat.add_comm 1]
  rw [Page.room, Bool.and_eq_true, decide_eq_true_iff, hlen]

theorem Shows.newLine_none (h : b.Shows p) (hroom : ¬ p.room memory = true) : b.newLine memory = none := by
  rw [h.room_iff, not_and_or, not_not, Bool.not_eq_true] at hroom
  rw [TextBuffer.newLine]
  rcases hroom with hcount | rfl
  · rw [if_pos hcount]
  · simp

/-- The lines below the cursor go down, into the new line. -/
theorem Shows.moveDown {below : List (List UInt8)} (h : b.Shows { p with below := below ++ [[]] }) (clear : Line → Line)
    (hclear : ∀ l, (clear l).capacity = l.capacity) {lines : Nat → Line}
    (hlines : Apps.moveDown clear (b.lineCount - 1 - (b.y + 1)) b.lines (b.lineCount - 1) = lines) :
    (∀ j, j ≤ b.y + 1 → lines j = b.lines j) ∧ HoldsFrom lines (b.y + 2) below := by
  have hlen : b.lineCount = p.above.length + 1 + (below ++ [[]]).length := h.count
  have hy : b.y = p.above.length := h.y
  rw [List.length_append, List.length_singleton] at hlen
  rw [show b.lineCount - 1 = b.y + 1 + below.length by omega, Nat.add_sub_cancel_left] at hlines
  subst hlines
  refine ⟨fun j hj => ?_, h.below.moveDown clear hclear⟩
  rw [moveDown_apply _ _ _ _ _ (by omega), if_neg (by omega)]

/-- **Enter.** -/
theorem Shows.handleEnter (h : b.Shows p) (memory : Bool) :
    (b.handleEnter memory).2.Shows (if p.room memory then p.enter else p) := by
  by_cases hroom : p.room memory = true
  · obtain ⟨hcount, rfl⟩ := h.room_iff.mp hroom
    obtain ⟨b', hnew, hb', hx, hy, hlen⟩ := h.newLine hcount
    have hcapacity : (b'.lines (b'.y + 1)).capacity = LINE_CAPACITY :=
      hb'.below.capacity (Nat.le_refl _) (by rw [List.length_append, List.length_singleton]; omega)
    rw [if_pos hroom, TextBuffer.handleEnter]
    by_cases hend : b.x = b.line.length
    · rw [if_pos hend, if_neg hcount, hnew]
      have hlast : b'.y ≠ b'.lineCount - 1 := by
        have := h.count
        have := h.y
        omega
      dsimp only
      rw [if_pos hlast]
      generalize hlines : Apps.moveDown Line.clear _ b'.lines (b'.lineCount - 1) = lines
      obtain ⟨hsame, hbelow⟩ := hb'.moveDown Line.clear Line.capacity_clear hlines
      have hright : p.right = [] := by
        have hcurrent := h.current.length
        rw [Page.current, List.length_append, ← hend, h.x] at hcurrent
        exact List.length_eq_zero_iff.mp (by omega)
      refine hb'.toNextLine (fun j hj => ?_) ?_ ?_ ?_ (by simp)
      · rw [Function.update_of_ne (by omega), hsame j (by omega)]
      · rw [Function.update_of_ne (by omega), hsame _ (by omega)]
        have hcurrent := hb'.current
        rw [Page.current, hright, List.append_nil] at hcurrent
        exact hcurrent
      · rw [Function.update_self, hright, hsame _ (Nat.le_refl _)]
        exact Line.holds_nil hcapacity
      · exact hbelow.congr fun j hj _ => Function.update_of_ne (by omega) ..
    · rw [if_neg hend, hnew]
      dsimp only
      generalize hlines : Apps.moveDown id _ b'.lines (b'.lineCount - 1) = lines
      obtain ⟨hsame, hbelow⟩ := hb'.moveDown id (fun _ => rfl) hlines
      have hcurrent : (lines b'.y).Holds (p.left ++ p.right) := by
        rw [hsame _ (by omega)]
        exact hb'.current
      have hnext : (lines (b'.y + 1)).clear.capacity = LINE_CAPACITY := by
        rw [Line.capacity_clear, hsame _ (Nat.le_refl _), hcapacity]
      obtain ⟨hright, hleft⟩ := hcurrent.cut hnext hb'.x
      refine hb'.toNextLine (fun j hj => ?_) ?_ ?_ ?_ (by simp)
      · rw [Function.update_of_ne (by omega), Function.update_of_ne (by omega), hsame j (by omega)]
      · rwa [Function.update_self]
      · rwa [Function.update_of_ne (by omega), Function.update_self]
      · exact hbelow.congr fun j hj _ => by rw [Function.update_of_ne (by omega), Function.update_of_ne (by omega)]
  · rw [if_neg hroom, TextBuffer.handleEnter, h.newLine_none hroom]
    split
    · split <;> exact h
    · exact h

/-- The buffer after a backspace at the start of a line, but for the marks. -/
def joinedBuffer (b : TextBuffer) : TextBuffer :=
  { b with
    lines := moveUp (b.lineCount - 1 - b.y) (Function.update b.lines (b.y - 1) ((b.lines (b.y - 1)).join b.line)) b.y
    lineCount := b.lineCount - 1
    x := (b.lines (b.y - 1)).length
    y := b.y - 1 }

theorem line_joinedBuffer (hy : 0 < b.y) : b.joinedBuffer.line = (b.lines (b.y - 1)).join b.line := by
  show moveUp _ _ b.y (b.y - 1) = _
  rw [moveUp_apply, if_neg (by omega), Function.update_self]

theorem handleBackspace_join (hx : b.x = 0) (hy : 0 < b.y) (hlast : b.y < b.lineCount) : b.handleBackspace.2 =
    b.joinedBuffer.setLine (b.y - 1) ((b.joinedBuffer.lines (b.y - 1)).mark LINE_FLAG_DIRTY) := by
  have hfree : ({ b.setLine (b.y - 1) ((b.lines (b.y - 1)).join b.line) with
      x := (b.lines (b.y - 1)).length } : TextBuffer).freeLine b.y = { b.joinedBuffer with y := b.y } :=
    if_neg (show ¬ b.y ≥ b.lineCount by omega)
  rw [TextBuffer.handleBackspace, if_pos hx, if_neg (by omega)]
  dsimp only
  rw [hfree]
  rfl

/-- **Backspace at the start of a line.** -/
theorem Shows.join {above below : List (List UInt8)} {l right : List UInt8}
    (h : b.Shows ⟨above ++ [l], [], right, below⟩)
    (hfits : b.line.length = 0 ∨ (b.lines (b.y - 1)).length + b.line.length < (b.lines (b.y - 1)).capacity) :
    b.handleBackspace.2.Shows ⟨above, l, right, below⟩ := by
  have hy : b.y = above.length + 1 := by rw [h.y, List.length_append, List.length_singleton]
  have hcount : b.lineCount = above.length + 1 + 1 + below.length := by
    rw [h.count, List.length_append, List.length_singleton]
  have hlimit := h.limit
  obtain ⟨habove, hprev⟩ := holdsFrom_concat.mp h.above
  rw [Nat.zero_add, show above.length = b.y - 1 by omega] at hprev
  have hlines : HoldsFrom (Function.update b.lines (b.y - 1) ((b.lines (b.y - 1)).join b.line)) b.y
      (right :: below) := by
    have hlast : HoldsFrom b.lines b.y (right :: below) := ⟨h.current, h.below⟩
    refine hlast.congr fun j hj _ => ?_
    exact Function.update_of_ne (by omega) ..
  have hbelow := hlines.moveUp
  rw [show below.length = b.lineCount - 1 - b.y by omega] at hbelow
  have hshown : b.joinedBuffer.Shows ⟨above, l, right, below⟩ := by
    refine ⟨habove.congr fun j _ hj => ?_, ?_, ?_, ?_, ?_, hprev.length, ?_⟩
    · show moveUp _ _ b.y j = b.lines j
      rw [moveUp_apply, if_neg (by omega), Function.update_of_ne (by omega)]
    · rw [line_joinedBuffer (by omega)]
      exact hprev.join h.current hfits
    · show HoldsFrom _ (b.y - 1 + 1) below
      rwa [Nat.sub_add_cancel (by omega)]
    · show b.lineCount - 1 = above.length + 1 + below.length
      omega
    · show b.lineCount - 1 ≤ MAX_LINES
      omega
    · show b.y - 1 = above.length
      omega
  rw [handleBackspace_join h.x (by omega) (by omega)]
  exact hshown.mark (b.y - 1) LINE_FLAG_DIRTY

/-- **Backspace behind a character.** -/
theorem Shows.erase {above below : List (List UInt8)} {left right : List UInt8} {c : UInt8}
    (h : b.Shows ⟨above, left ++ [c], right, below⟩) : b.handleBackspace.2.Shows ⟨above, left, right, below⟩ := by
  have hx : b.x = left.length + 1 := by rw [h.x, List.length_append, List.length_singleton]
  have hlen : b.line.length = left.length + 1 + right.length := by
    rw [h.current.length, Page.current, List.length_append, List.length_append, List.length_singleton]
  have herased := Line.Holds.erase h.current
  have hcursor : b.x - 1 = left.length := by omega
  rw [handleBackspace, if_neg (by omega)]
  dsimp only
  by_cases hmid : b.x < b.line.length
  · rw [if_pos hmid, show b.line.length - b.x = right.length by omega, hcursor, hx]
    exact h.setCurrent (herased.mark _) rfl
  · have hright : right.length = 0 := by omega
    rw [if_neg hmid, hcursor]
    rw [hright, copyUnits, show b.line.length - 1 = left.length by omega] at herased
    rw [show b.line.length - 1 = left.length by omega]
    exact h.setCurrent (herased.mark _) rfl

/-- **Backspace.** -/
theorem Shows.handleBackspace (h : b.Shows p) (hfits : b.x ≠ 0 ∨ b.y = 0 ∨ b.line.length = 0 ∨
    (b.lines (b.y - 1)).length + b.line.length < (b.lines (b.y - 1)).capacity) :
    b.handleBackspace.2.Shows p.erase := by
  obtain ⟨above, left, right, below⟩ := p
  rcases List.eq_nil_or_concat' left with rfl | ⟨left, c, rfl⟩
  · have hx : b.x = 0 := h.x
    rw [Page.erase, if_pos rfl]
    rcases List.eq_nil_or_concat' above with rfl | ⟨above, l, rfl⟩
    · have hy : b.y = 0 := h.y
      rw [TextBuffer.handleBackspace, if_pos hx, if_pos hy]
      exact h
    · have hy : b.y = above.length + 1 := by rw [h.y, List.length_append, List.length_singleton]
      dsimp only
      rw [List.getLast?_concat, List.dropLast_concat]
      exact h.join ((hfits.resolve_left (not_not.mpr hx)).resolve_left (by omega))
  · rw [Page.erase, if_neg (by simp)]
    dsimp only
    rw [List.dropLast_concat]
    exact h.erase

/-- The cursor somewhere else in its line. -/
theorem Shows.moveCursor (h : b.Shows p) {left right : List UInt8} (hline : left ++ right = p.current) {x : Nat}
    (hx : x = left.length) : ({ b with x := x } : TextBuffer).Shows ⟨p.above, left, right, p.below⟩ :=
  ⟨h.above, by rw [Page.current, hline]; exact h.current, h.below, h.count, h.limit, hx, h.y⟩

/-- The cursor in another line. -/
theorem Shows.clampX {above below : List (List UInt8)} {l : List UInt8} {x : Nat} (hx : b.x = x)
    (h : ({ b with x := 0 } : TextBuffer).Shows ⟨above, [], l, below⟩) :
    b.clampX.Shows (Page.inLine above l x below) := by
  have hlen : b.line.length = l.length := h.current.length
  rw [TextBuffer.clampX, Page.inLine]
  split
  · exact h.moveCursor (List.take_append_drop x l) (by rw [List.length_take]; omega)
  · exact h.moveCursor (x := b.x) (List.take_append_drop x l) (by rw [List.length_take]; omega)

theorem Shows.lineUp {above below : List (List UInt8)} {l left right : List UInt8}
    (h : b.Shows ⟨above ++ [l], left, right, below⟩) :
    ({ b with y := b.y - 1, x := 0 } : TextBuffer).Shows ⟨above, [], l, (left ++ right) :: below⟩ := by
  have hy : b.y = above.length + 1 := by rw [h.y, List.length_append, List.length_singleton]
  have hup : b.y - 1 = above.length := by omega
  obtain ⟨habove, hl⟩ := holdsFrom_concat.mp h.above
  rw [Nat.zero_add, ← hup] at hl
  refine ⟨habove, hl, ?_, ?_, h.limit, rfl, hup⟩
  · show HoldsFrom b.lines (b.y - 1 + 1) ((left ++ right) :: below)
    rw [Nat.sub_add_cancel (by omega)]
    exact ⟨h.current, h.below⟩
  · show b.lineCount = above.length + 1 + (below.length + 1)
    rw [h.count, List.length_append, List.length_singleton]
    exact Nat.add_right_comm ..

theorem Shows.lineDown {above below : List (List UInt8)} {l left right : List UInt8}
    (h : b.Shows ⟨above, left, right, l :: below⟩) :
    ({ b with y := b.y + 1, x := 0 } : TextBuffer).Shows ⟨above ++ [left ++ right], [], l, below⟩ := by
  have hy : b.y = above.length := h.y
  refine ⟨holdsFrom_concat.mpr ⟨h.above, ?_⟩, h.below.1, h.below.2, ?_, h.limit, rfl, ?_⟩
  · rw [Nat.zero_add, ← hy]
    exact h.current
  · have hcount : b.lineCount = above.length + 1 + (below.length + 1) := h.count
    show b.lineCount = (above ++ [left ++ right]).length + 1 + below.length
    rw [List.length_append, List.length_singleton, hcount]
    omega
  · show b.y + 1 = (above ++ [left ++ right]).length
    rw [List.length_append, List.length_singleton, hy]

/-- **The arrows.** -/
theorem Shows.handleArrow (h : b.Shows p) (c : UInt8) : (b.handleArrow c).Shows (p.arrow c) := by
  obtain ⟨above, left, right, below⟩ := p
  have hx : b.x = left.length := h.x
  have hy : b.y = above.length := h.y
  have hcount : b.lineCount = above.length + 1 + below.length := h.count
  have hlen : b.line.length = left.length + right.length := by rw [h.current.length, Page.current, List.length_append]
  rw [TextBuffer.handleArrow, Page.arrow]
  by_cases hright : c = KEY_RIGHT
  · rw [if_pos hright, if_pos hright]
    cases right with
    | nil =>
      rw [if_neg (by rw [hx, hlen]; exact Nat.lt_irrefl _)]
      simpa using h
    | cons d right =>
      rw [if_pos (by rw [hx, hlen, List.length_cons]; omega)]
      exact h.moveCursor (by simp [Page.current]) (by simp [hx])
  rw [if_neg hright, if_neg hright]
  by_cases hleft : c = KEY_LEFT
  · rw [if_pos hleft, if_pos hleft]
    rcases List.eq_nil_or_concat' left with rfl | ⟨left, d, rfl⟩
    · rw [if_neg (by rw [hx]; exact Nat.lt_irrefl _)]
      exact h
    · rw [if_pos (by rw [hx, List.length_append, List.length_singleton]; omega)]
      exact h.moveCursor (by simp [Page.current]) (by simp [hx])
  rw [if_neg hleft, if_neg hleft]
  by_cases hup : c = KEY_UP
  · rw [if_pos hup, if_pos hup]
    rcases List.eq_nil_or_concat' above with rfl | ⟨above, l, rfl⟩
    · rw [if_neg (by rw [hy]; exact Nat.lt_irrefl _)]
      exact h
    · have hshown := Shows.clampX (b := { b with y := b.y - 1 }) hx h.lineUp
      rw [if_pos (by rw [hy, List.length_append, List.length_singleton]; omega)]
      dsimp only
      rw [List.getLast?_concat, List.dropLast_concat]
      split
      · exact hshown.congr (fun _ _ hs => hs) rfl rfl rfl
      · exact hshown
  · rw [if_neg hup, if_neg hup]
    cases below with
    | nil =>
      rw [if_neg (by rw [hy, hcount]; exact Nat.lt_irrefl _)]
      exact h
    | cons l below =>
      rw [if_pos (by rw [hy, hcount, List.length_cons]; omega)]
      exact (Shows.clampX (b := { b with y := b.y + 1 }) hx h.lineDown).scrollDown

/-- **A character.** -/
theorem Shows.handleText (h : b.Shows p) (c : UInt8)
    (hfits : b.line.length ≠ b.line.capacity ∨ 0 < b.x ∧ b.lineCount ≠ MAX_LINES ∧ memory = true) :
    (b.handleText memory c).Shows ((if p.current.length = LINE_CAPACITY then p.enter else p).put c) := by
  have hlen := h.current.length
  have hcapacity := h.current.capacity
  have hmax := h.current.fits
  rw [TextBuffer.handleText]
  generalize hb : (if b.line.length = b.line.capacity then _ else b) = b'
  have hroom : b'.Shows (if p.current.length = LINE_CAPACITY then p.enter else p) ∧ b'.line.length < LINE_CAPACITY := by
    rw [hcapacity, hlen] at hb hfits
    by_cases hfull : p.current.length = LINE_CAPACITY
    · obtain ⟨hx, hroom⟩ := hfits.resolve_left (not_not.mpr hfull)
      rw [if_pos hfull] at hb ⊢
      have hshown := (h.handleEnter memory)
      rw [if_pos (h.room_iff.mpr hroom)] at hshown
      subst hb
      have hshown' := hshown.mark (b.handleEnter memory).2.y LINE_FLAG_EXTENSION
      rw [h.x] at hx
      rw [Page.current, List.length_append] at hfull
      refine ⟨hshown', Nat.lt_of_le_of_lt (Nat.le_of_eq hshown'.current.length) ?_⟩
      show p.right.length < LINE_CAPACITY
      omega
    · rw [if_neg hfull] at hb ⊢
      subst hb
      exact ⟨h, by omega⟩
  obtain ⟨hshown, hroom⟩ := hroom
  exact hshown.setCurrent ((hshown.current.insert hroom c hshown.x).mark LINE_FLAG_DIRTY)
    (by rw [hshown.x, List.length_append, List.length_singleton])

end Keys
end TextBuffer
end RetrOS.Apps
