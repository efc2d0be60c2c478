import RetrOS.Apps.Lines

/-!
# Typing in texed

A key comes with whether `malloc` has memory for another line.

* `TextBuffer.Sound` : the limits of the buffer and of the cursor;
* `TextBuffer.Fits` : the condition on a key. Two lines that a backspace joins leave a character of the first one free;
  a character on a full line is not put in front of it, and there may be another line;
* `Shows.handleChar` : one key;
* `handleChar_run` : all keys.
-/

namespace RetrOS.Apps
open RetrOS.Lib

/-- The empty page. -/
def Page.blank : Page := ⟨[], [], [], []⟩

namespace TextBuffer

structure Sound (b : TextBuffer) : Prop where
  lines : 1 ≤ b.lineCount
  limit : b.lineCount ≤ MAX_LINES
  y : b.y < b.lineCount
  x : b.x ≤ b.line.length
  capacity : b.line.length ≤ b.line.capacity

/-- The condition on a key. -/
def Fits (b : TextBuffer) (key : Bool × UInt8) : Prop :=
  if key.2 = backspace then
    b.x ≠ 0 ∨ b.y = 0 ∨ b.line.length = 0 ∨
      (b.lines (b.y - 1)).length + b.line.length < (b.lines (b.y - 1)).capacity
  else if key.2 = newline then True
  else if key.2 = KEY_RIGHT ∨ key.2 = KEY_LEFT ∨ key.2 = KEY_UP ∨ key.2 = KEY_DOWN then True
  else b.line.length ≠ b.line.capacity ∨ 0 < b.x ∧ b.lineCount ≠ MAX_LINES ∧ key.1 = true

/-- A key. -/
def Steps (b : TextBuffer) (key : Bool × UInt8) (t : TextBuffer) : Prop := t = (b.handleChar key.1 key.2).2

section Runs
variable {b t : TextBuffer} {p : Page} {memory : Bool} {c : UInt8} {keys : List (Bool × UInt8)}

theorem Shows.sound (h : b.Shows p) : b.Sound := by
  have hcount := h.count
  have hlen := h.current.length
  rw [Page.current, List.length_append] at hlen
  refine ⟨by omega, h.limit, by rw [h.y]; omega, by rw [h.x]; omega, ?_⟩
  rw [h.current.length, h.current.capacity]
  exact h.current.fits

/-- **A key that fits.** -/
theorem Shows.handleChar (h : b.Shows p) (hfits : b.Fits (memory, c)) :
    (b.handleChar memory c).2.Shows (p.step memory c) := by
  unfold TextBuffer.handleChar Page.step
  unfold Fits at hfits
  by_cases hback : c = backspace
  · simp only [if_pos hback] at hfits ⊢
    exact h.handleBackspace hfits
  simp only [if_neg hback] at hfits ⊢
  by_cases hnewline : c = newline
  · simp only [if_pos hnewline]
    exact h.handleEnter memory
  simp only [if_neg hnewline] at hfits ⊢
  by_cases harrow : c = KEY_RIGHT ∨ c = KEY_LEFT ∨ c = KEY_UP ∨ c = KEY_DOWN
  · simp only [if_pos harrow]
    exact h.handleArrow c
  · simp only [if_neg harrow] at hfits ⊢
    exact h.handleText c hfits

/-- A new buffer, where the memory of `line_count` was zero. -/
theorem create_shows (lines : Nat → Line) : ∃ b, create lines 0 = some b ∧ b.Shows Page.blank :=
  ⟨_, rfl, trivial, ⟨rfl, rfl, Nat.zero_le _, rfl⟩, trivial, rfl, (by decide : 1 ≤ 512), rfl, rfl⟩

theorem Shows.run (hrun : Run Steps Fits b keys t) (h : b.Shows p) :
    t.Shows (keys.foldl (fun p key => p.step key.1 key.2) p) := by
  induction hrun generalizing p with
  | nil => exact h
  | cons hfits hstep _ ih =>
    subst hstep
    exact ih (h.handleChar hfits)

/-- **Every run of keys that fit**, on a buffer whose `line_count` was zero before it was created: the buffer keeps to
its limits and shows the page that the keys stand for, and the next key that fits does one edit to the text. -/
theorem handleChar_run (lines : Nat → Line) (b t : TextBuffer) (keys : List (Bool × UInt8))
    (hcreate : create lines 0 = some b) (hrun : Run Steps Fits b keys t) :
    t.Sound ∧ ∃ p, p = keys.foldl (fun p key => p.step key.1 key.2) Page.blank ∧ t.Shows p ∧
      joined t.contents = p.document.text ∧
      ∀ memory c, t.Fits (memory, c) → (t.handleChar memory c).2.Sound ∧
        joined (t.handleChar memory c).2.contents = p.edit memory c := by
  obtain ⟨b', hb', hblank⟩ := create_shows lines
  obtain rfl := Option.some.inj (hb'.symm.trans hcreate)
  have ht := hblank.run hrun
  refine ⟨ht.sound, _, rfl, ht, ?_, fun memory c hfits => ⟨(ht.handleChar hfits).sound, ?_⟩⟩
  · rw [ht.contents, Page.text_document]
  · rw [(ht.handleChar hfits).contents, Page.joined_step]

/-- Memory that `malloc` returned. -/
def zeroes : Nat → Line := fun _ => ⟨fun _ => 0, 0, 0, 0⟩

theorem handleChar_run_typed : ∃ b t, create zeroes 0 = some b ∧ Run Steps Fits b [(true, 97)] t ∧ t.Sound ∧
    ∃ p, p = [(true, 97)].foldl (fun p key => p.step key.1 key.2) Page.blank ∧ t.Shows p ∧
      joined t.contents = p.document.text ∧
      ∀ memory c, t.Fits (memory, c) → (t.handleChar memory c).2.Sound ∧
        joined (t.handleChar memory c).2.contents = p.edit memory c := by
  have hfits : ∀ b, create zeroes 0 = some b → b.Fits (true, 97) := by
    rintro b hb
    obtain rfl := Option.some.inj hb
    unfold Fits
    rw [if_neg (by decide), if_neg (by decide), if_neg (by decide)]
    exact .inl (by decide : (0 : Nat) ≠ 78)
  have hrun := @Run.single _ _ Steps Fits _ _ (true, 97) (hfits _ rfl) rfl
  exact ⟨_, _, rfl, hrun, handleChar_run zeroes _ _ _ rfl hrun⟩

/-- A key that is a character of the text, where the line has room. -/
theorem Shows.put (h : b.Shows p) (hc : c ∉ [backspace, newline, KEY_RIGHT, KEY_LEFT, KEY_UP, KEY_DOWN])
    (hroom : p.current.length < LINE_CAPACITY) : b.Fits (true, c) ∧ (b.handleChar true c).2.Shows (p.put c) := by
  simp only [List.mem_cons, List.not_mem_nil, or_false, not_or] at hc
  have harrow : ¬ (c = KEY_RIGHT ∨ c = KEY_LEFT ∨ c = KEY_UP ∨ c = KEY_DOWN) := by simp [hc]
  have hfits : b.Fits (true, c) := by
    unfold Fits
    rw [if_neg hc.1, if_neg hc.2.1, if_neg harrow]
    refine .inl ?_
    rw [h.current.length, h.current.capacity]
    exact Nat.ne_of_lt hroom
  have hshown := h.handleChar hfits
  rw [Page.step, if_neg hc.1, if_neg hc.2.1, if_neg harrow, if_neg (Nat.ne_of_lt hroom)] at hshown
  exact ⟨hfits, hshown⟩

theorem exists_run_replicate (h : b.Shows Page.blank) {n : Nat} (hn : n ≤ LINE_CAPACITY) :
    ∃ t, Run Steps Fits b (List.replicate n (true, 97)) t ∧ t.Shows ⟨[], List.replicate n 97, [], []⟩ := by
  induction n with
  | zero => exact ⟨b, .nil b, h⟩
  | succ n ih =>
    obtain ⟨t, hrun, ht⟩ := ih (by omega)
    have hroom : (List.replicate n (97 : UInt8) ++ []).length < LINE_CAPACITY := by
      rw [List.append_nil, List.length_replicate]
      omega
    obtain ⟨hfits, hput⟩ := ht.put (c := 97) (by decide) hroom
    rw [List.replicate_succ', List.replicate_succ']
    exact ⟨_, hrun.snoc hfits rfl, hput⟩

/-- A backspace at the start of a line joins it to the line above it, whether or not they fit. -/
theorem line_handleBackspace (hx : b.x = 0) (hy : 0 < b.y) (hlast : b.y < b.lineCount) :
    b.handleBackspace.2.line = ((b.lines (b.y - 1)).join b.line).mark LINE_FLAG_DIRTY := by
  have hline := line_joinedBuffer hy
  rw [handleBackspace_join hx hy hlast, ← hline]
  exact Function.update_self ..

/-- 79 characters, of which the last is on a line of its own, and a backspace in front of that: a line of 79 characters
in the memory of 78. -/
theorem handleChar_join : ∃ b t, create zeroes 0 = some b ∧
    AnyRun Steps b (List.replicate 79 (true, 97) ++ [(true, KEY_LEFT), (true, backspace)]) t ∧ ¬ t.Sound := by
  obtain ⟨b, hb, hblank⟩ := create_shows zeroes
  obtain ⟨u, hrun, hu⟩ := exists_run_replicate hblank (n := 78) (Nat.le_refl _)
  have hfits : u.Fits (true, 97) := by
    unfold Fits
    rw [if_neg (by decide), if_neg (by decide), if_neg (by decide)]
    refine .inr ⟨?_, ?_, rfl⟩
    · rw [hu.x]
      decide
    · rw [hu.count]
      decide
  have hwrap : (u.handleChar true 97).2.Shows ⟨[List.replicate 78 97], [97], [], []⟩ := hu.handleChar hfits
  have hleft : ((u.handleChar true 97).2.handleChar true KEY_LEFT).2.Shows ⟨[List.replicate 78 97], [], [97], []⟩ :=
    hwrap.handleArrow KEY_LEFT
  generalize hv : ((u.handleChar true 97).2.handleChar true KEY_LEFT).2 = v at hleft
  refine ⟨b, v.handleBackspace.2, hb, ?_, fun hsound => ?_⟩
  · rw [List.replicate_succ', List.append_assoc]
    exact (hrun.mono fun _ _ _ => trivial).append (.cons trivial rfl (.cons trivial hv.symm (.single trivial rfl)))
  · have hy : v.y = 1 := hleft.y
    have hcount : v.lineCount = 2 := hleft.count
    have hprev : (v.lines (v.y - 1)).Holds (List.replicate 78 97) := by
      rw [hy]
      exact hleft.above.1
    have hcapacity := hsound.capacity
    rw [line_handleBackspace hleft.x (by omega) (by omega)] at hcapacity
    have hlong : (v.lines (v.y - 1)).length + v.line.length ≤ (v.lines (v.y - 1)).capacity := hcapacity
    rw [hprev.length, hprev.capacity, hleft.current.length] at hlong
    exact absurd hlong (by decide)

end Runs
end TextBuffer
end RetrOS.Apps
