import RetrOS.Lib.Bresenham

/-!
# Lines (`kernel_gfx_draw_line`)

The loop is the one of the comment above it, except that it hands `putpixel` the row first: where the comment plots
`(x0, y0)`, the pixel in column `y0` and row `x0` is written.

* `Pixel`, `Window` : the arguments of `putpixel`, and the size of a window;
* `lineLoop`, `kernelGfxDrawLine` : the loop, and the function, by the pixels that they write;
* `lineLoop_walk` : the loop is the walk along the error term, without an early end;
* `kernelGfxDrawLine_iff` : what is drawn is the line from `(y0, x0)` to `(y1, x1)`, so it is the one that is asked for
  exactly if both end points are on the diagonal.

After the clipping all coordinates fit into 16 bits, and `OnTrack.bounds` keeps the error within three times that: no
`int` overflows in the loop.
-/

namespace RetrOS.Gfx
open RetrOS.Lib

/-- A pixel that is written: the `x` and `y` of `putpixel`. -/
@[ext] structure Pixel where
  x : Int
  y : Int
deriving DecidableEq, Repr

/-- The size of the memory of a `struct window`. -/
structure Window where
  innerWidth : BitVec 16
  innerHeight : BitVec 16

/-- The pixel is one of the window. -/
def Window.Contains (w : Window) (p : Pixel) : Prop :=
  (0 ≤ p.x ∧ p.x < w.innerWidth.toNat) ∧ 0 ≤ p.y ∧ p.y < w.innerHeight.toNat

instance (w : Window) (p : Pixel) : Decidable (w.Contains p) := by
  unfold Window.Contains
  infer_instance

/-- `ABS` -/
def ABS (N : Int) : Int := if N < 0 then -N else N

/-- The `while(1)` of `kernel_gfx_draw_line`, by the pixels that it writes; `none` if it is not at its end. -/
def lineLoop (x1 y1 dx dy sx sy : Int) : Nat → Int → Int → Int → Option (List Pixel)
  | 0, _, _, _ => none
  | fuel + 1, x0, y0, error =>
    let pixel : Pixel := { x := y0, y := x0 }
    if x0 = x1 ∧ y0 = y1 then some [pixel]
    else
      let e2 := 2 * error
      if e2 ≥ dy ∧ x0 = x1 then some [pixel]
      else
        let error' := if e2 ≥ dy then error + dy else error
        let x0' := if e2 ≥ dy then x0 + sx else x0
        if e2 ≤ dx ∧ y0 = y1 then some [pixel]
        else
          let error'' := if e2 ≤ dx then error' + dx else error'
          let y0' := if e2 ≤ dx then y0 + sy else y0
          (lineLoop x1 y1 dx dy sx sy fuel x0' y0' error'').map (pixel :: ·)

def kernelGfxDrawLine (fuel : Nat) (w : Window) (x0 y0 x1 y1 : Int) : Option (List Pixel) :=
  if x0 < 0 ∨ y0 < 0 ∨ x1 < 0 ∨ y1 < 0 then some []
  else if x0 > w.innerWidth.toNat ∨ y0 > w.innerHeight.toNat ∨ x1 > w.innerWidth.toNat ∨ y1 > w.innerHeight.toNat then
    some []
  else
    let t1 := x1 - x0
    let t2 := y1 - y0
    let dx := ABS t1
    let sx := if x0 < x1 then 1 else -1
    let dy := -ABS t2
    let sy := if y0 < y1 then 1 else -1
    lineLoop x1 y1 dx dy sx sy fuel x0 y0 (dx + dy)

/-! ## The loop and the walk -/

section
variable {A B X Y sx sy : Int} {p : Int × Int} {n : Nat}

theorem ABS_eq (N : Int) : ABS N = |N| := by
  unfold ABS
  split
  · next h => rw [abs_of_neg h]
  · next h => rw [abs_of_nonneg (not_lt.mp h)]

/-- From a point of the walk on, the loop writes the rest of it, and needs a round for each point. -/
theorem lineLoop_walk (hsx : sx ≠ 0) (hsy : sy ≠ 0) (h : OnTrack A B p n) (k : Nat) :
    lineLoop (X + sx * A) (Y + sy * B) A (-B) sx sy (n + 1 + k) (X + sx * p.1) (Y + sy * p.2) (lineErr A B p.1 p.2) =
      some ((walk A B n p).map fun q => ⟨Y + sy * q.2, X + sx * q.1⟩) := by
  have hx : ∀ p : Int × Int, X + sx * p.1 = X + sx * A ↔ p.1 = A := fun p => by
    rw [add_right_inj, mul_right_inj' hsx]
  have hy : ∀ p : Int × Int, Y + sy * p.2 = Y + sy * B ↔ p.2 = B := fun p => by
    rw [add_right_inj, mul_right_inj' hsy]
  induction n generalizing p with
  | zero =>
    rw [Nat.add_right_comm, Nat.zero_add, lineLoop]
    dsimp only
    rw [if_pos ⟨(hx p).mpr h.done.1, (hy p).mpr h.done.2⟩]
    rfl
  | succ n ih =>
    obtain ⟨hroomx, hroomy⟩ := h.room
    rw [show n + 1 + 1 + k = (n + 1 + k) + 1 by omega, lineLoop]
    dsimp only
    rw [if_neg (by rw [hx, hy]; exact h.not_done), if_neg, if_neg]
    · have hnext := ih h.step
      rw [walkStep] at hnext
      dsimp only at hnext
      have hfst : (if 2 * lineErr A B p.1 p.2 ≥ -B then X + sx * p.1 + sx else X + sx * p.1) =
          X + sx * (if -B ≤ 2 * lineErr A B p.1 p.2 then p.1 + 1 else p.1) := by
        split
        · ring
        · rfl
      have hsnd : (if 2 * lineErr A B p.1 p.2 ≤ A then Y + sy * p.2 + sy else Y + sy * p.2) =
          Y + sy * (if 2 * lineErr A B p.1 p.2 ≤ A then p.2 + 1 else p.2) := by
        split
        · ring
        · rfl
      have herr : lineErr A B (if -B ≤ 2 * lineErr A B p.1 p.2 then p.1 + 1 else p.1)
          (if 2 * lineErr A B p.1 p.2 ≤ A then p.2 + 1 else p.2) =
          if 2 * lineErr A B p.1 p.2 ≤ A then
            (if 2 * lineErr A B p.1 p.2 ≥ -B then lineErr A B p.1 p.2 + -B else lineErr A B p.1 p.2) + A
          else if 2 * lineErr A B p.1 p.2 ≥ -B then lineErr A B p.1 p.2 + -B else lineErr A B p.1 p.2 := by
        split <;> split <;> simp only [lineErr_succ_fst, lineErr_succ_snd, *] <;> ring
      rw [hfst, hsnd, ← herr, hnext]
      rfl
    · rintro ⟨hle, heq⟩
      exact absurd ((hy p).mp heq) (hroomy hle).ne
    · rintro ⟨hle, heq⟩
      exact absurd ((hx p).mp heq) (hroomx hle).ne

/-- More rounds change nothing in a loop that has ended. -/
theorem lineLoop_mono {x1 y1 dx dy x0 y0 error : Int} {fuel : Nat} {l : List Pixel}
    (h : lineLoop x1 y1 dx dy sx sy fuel x0 y0 error = some l) (k : Nat) :
    lineLoop x1 y1 dx dy sx sy (fuel + k) x0 y0 error = some l := by
  induction fuel generalizing x0 y0 error l with
  | zero => exact absurd h nofun
  | succ fuel ih =>
    rw [Nat.add_right_comm, lineLoop]
    rw [lineLoop] at h
    dsimp only at h ⊢
    split at h
    · next hend => rw [if_pos hend, h]
    · next hend =>
      rw [if_neg hend]
      split at h
      · next hx => rw [if_pos hx, h]
      · next hx =>
        rw [if_neg hx]
        split at h
        · next hy => rw [if_pos hy, h]
        · next hy =>
          rw [if_neg hy]
          obtain ⟨rest, hrest, rfl⟩ := Option.map_eq_some_iff.mp h
          rw [ih hrest, Option.map_some]

end

/-! ## What is drawn -/

/-- A coordinate moves from `c` to `d` by at most one, and towards `e` if it moves. -/
def Towards (e c d : Int) : Prop := |d - c| ≤ 1 ∧ |d - c| + |e - d| = |e - c|

/-- The pixels of a line from `a` to `b`, one after another. -/
structure IsLine (a b : Pixel) (l : List Pixel) : Prop where
  length : (l.length : Int) = max |b.x - a.x| |b.y - a.y| + 1
  head : l.head? = some a
  last : l.getLast? = some b
  chain : l.IsChain fun p q => Towards b.x p.x q.x ∧ Towards b.y p.y q.y

/-- The function ends, and has drawn the line from `(x0, y0)` to `(x1, y1)`. -/
def DrawsLine (w : Window) (x0 y0 x1 y1 : Int) : Prop :=
  ∃ fuel l, kernelGfxDrawLine fuel w x0 y0 x1 y1 = some l ∧ IsLine ⟨x0, y0⟩ ⟨x1, y1⟩ l

/-- The clipping lets the line through. -/
def Window.Unclipped (w : Window) (x0 y0 x1 y1 : Int) : Prop :=
  (0 ≤ x0 ∧ 0 ≤ y0 ∧ 0 ≤ x1 ∧ 0 ≤ y1) ∧
    (x0 ≤ w.innerWidth.toNat ∧ y0 ≤ w.innerHeight.toNat) ∧ x1 ≤ w.innerWidth.toNat ∧ y1 ≤ w.innerHeight.toNat

/-- The direction of a coordinate, and the way from one end to the other in it. -/
def dir (a b : Int) : Int := if a < b then 1 else -1

theorem dir_ne_zero (a b : Int) : dir a b ≠ 0 := by
  unfold dir
  split <;> decide

theorem dir_mul_abs (a b : Int) : a + dir a b * |b - a| = b := by
  unfold dir
  split
  · next h => rw [abs_of_pos (by omega)]; omega
  · next h => rw [abs_of_nonpos (by omega)]; omega

/-- A step of the walk, in the direction of the line. -/
theorem towards_step {a b i k : Int} (hi : 0 ≤ i) (hk : k = i ∨ k = i + 1) (hle : k ≤ |b - a|) :
    Towards b (a + dir a b * i) (a + dir a b * k) := by
  unfold Towards dir
  split
  · next h =>
    rw [abs_of_pos (by omega)] at hle
    rcases hk with rfl | rfl
    · simp
    · rw [abs_of_nonneg (by omega), abs_of_nonneg (by omega), abs_of_nonneg (by omega)]
      omega
  · next h =>
    rw [abs_of_nonpos (by omega)] at hle
    rcases hk with rfl | rfl
    · simp
    · rw [abs_of_nonpos (by omega), abs_of_nonpos (by omega), abs_of_nonpos (by omega)]
      omega

/-- The pixels of the line: the walk, with the row in front of the column. -/
def linePixels (x0 y0 x1 y1 : Int) : List Pixel :=
  (walk |x1 - x0| |y1 - y0| (max |x1 - x0| |y1 - y0|).toNat (0, 0)).map fun q =>
    ⟨y0 + dir y0 y1 * q.2, x0 + dir x0 x1 * q.1⟩

section
variable {w : Window} {x0 y0 x1 y1 : Int}

theorem onTrack_start (x0 y0 x1 y1 : Int) :
    OnTrack |x1 - x0| |y1 - y0| (0, 0) (max |x1 - x0| |y1 - y0|).toNat :=
  .start (abs_nonneg _) (abs_nonneg _)

theorem isLine_linePixels (x0 y0 x1 y1 : Int) : IsLine ⟨y0, x0⟩ ⟨y1, x1⟩ (linePixels x0 y0 x1 y1) := by
  have htrack := onTrack_start x0 y0 x1 y1
  refine ⟨?_, ?_, ?_, ?_⟩
  · have hmax : 0 ≤ max |x1 - x0| |y1 - y0| := le_max_of_le_left (abs_nonneg _)
    rw [linePixels, List.length_map, length_walk]
    dsimp only
    rw [max_comm |y1 - y0|]
    omega
  · rw [linePixels, List.head?_map, walk_eq_cons, List.head?_cons, Option.map_some, mul_zero, mul_zero, add_zero,
      add_zero]
  · rw [linePixels, List.getLast?_map, walk_last htrack, Option.map_some, dir_mul_abs, dir_mul_abs]
  · rw [linePixels, List.isChain_map]
    refine walk_chain.imp_of_mem_imp fun p q hp hq hstep => ?_
    have hpbox := walk_box htrack hp
    have hqbox := walk_box htrack hq
    exact ⟨towards_step hpbox.2.1 hstep.2 hqbox.2.2, towards_step hpbox.1.1 hstep.1 hqbox.1.2⟩

/-- A line that is not clipped is drawn in as many rounds as it has pixels. -/
theorem kernelGfxDrawLine_eq (h : w.Unclipped x0 y0 x1 y1) {fuel : Nat}
    (hfuel : (max |x1 - x0| |y1 - y0|).toNat < fuel) :
    kernelGfxDrawLine fuel w x0 y0 x1 y1 = some (linePixels x0 y0 x1 y1) := by
  obtain ⟨⟨hx0, hy0, hx1, hy1⟩, ⟨hx0w, hy0h⟩, hx1w, hy1h⟩ := h
  obtain ⟨k, rfl⟩ := Nat.exists_eq_add_of_le (Nat.succ_le_of_lt hfuel)
  have hloop := lineLoop_walk (X := x0) (Y := y0) (dir_ne_zero x0 x1) (dir_ne_zero y0 y1) (onTrack_start x0 y0 x1 y1) k
  rw [dir_mul_abs, dir_mul_abs, mul_zero, mul_zero, add_zero, add_zero] at hloop
  have herr : lineErr |x1 - x0| |y1 - y0| 0 0 = |x1 - x0| + -|y1 - y0| := by
    unfold lineErr
    ring
  rw [herr] at hloop
  rw [kernelGfxDrawLine, if_neg (by omega), if_neg (by omega)]
  dsimp only
  rw [ABS_eq, ABS_eq]
  exact hloop

/-- What the function has drawn whenever it ends. -/
theorem eq_linePixels (h : w.Unclipped x0 y0 x1 y1) {fuel : Nat} {l : List Pixel}
    (hl : kernelGfxDrawLine fuel w x0 y0 x1 y1 = some l) : l = linePixels x0 y0 x1 y1 := by
  have hall := kernelGfxDrawLine_eq h (Nat.lt_succ_of_le (Nat.le_add_left _ fuel))
  obtain ⟨⟨hx0, hy0, hx1, hy1⟩, ⟨hx0w, hy0h⟩, hx1w, hy1h⟩ := h
  rw [kernelGfxDrawLine, if_neg (by omega), if_neg (by omega)] at hl hall
  rw [Nat.succ_eq_add_one, Nat.add_assoc, lineLoop_mono hl] at hall
  exact Option.some.inj hall

theorem drawsLine_iff (h : w.Unclipped x0 y0 x1 y1) : DrawsLine w x0 y0 x1 y1 ↔ x0 = y0 ∧ x1 = y1 := by
  have hline := isLine_linePixels x0 y0 x1 y1
  constructor
  · rintro ⟨fuel, l, hl, hdrawn⟩
    rw [eq_linePixels h hl] at hdrawn
    have hhead := Option.some.inj (hdrawn.head.symm.trans hline.head)
    have hlast := Option.some.inj (hdrawn.last.symm.trans hline.last)
    exact ⟨congrArg Pixel.x hhead, congrArg Pixel.x hlast⟩
  · rintro ⟨rfl, rfl⟩
    exact ⟨_, _, kernelGfxDrawLine_eq h (Nat.lt_succ_self _), hline⟩

theorem Window.Contains.unclipped (h0 : w.Contains ⟨x0, y0⟩) (h1 : w.Contains ⟨x1, y1⟩) : w.Unclipped x0 y0 x1 y1 := by
  obtain ⟨⟨hx0, hx0w⟩, hy0, hy0h⟩ := h0
  obtain ⟨⟨hx1, hx1w⟩, hy1, hy1h⟩ := h1
  exact ⟨⟨hx0, hy0, hx1, hy1⟩, ⟨hx0w.le, hy0h.le⟩, hx1w.le, hy1h.le⟩

/-- Between end points in the window, the function ends after `max |dx| |dy| + 1` rounds, and has drawn the line from
`(y0, x0)` to `(y1, x1)`. -/
theorem kernelGfxDrawLine_iff (h0 : w.Contains ⟨x0, y0⟩) (h1 : w.Contains ⟨x1, y1⟩) :
    (DrawsLine w x0 y0 x1 y1 ↔ x0 = y0 ∧ x1 = y1) ∧
      ∃ l, (∀ fuel, (max |x1 - x0| |y1 - y0|).toNat < fuel → kernelGfxDrawLine fuel w x0 y0 x1 y1 = some l) ∧
        IsLine ⟨y0, x0⟩ ⟨y1, x1⟩ l :=
  ⟨drawsLine_iff (h0.unclipped h1), linePixels x0 y0 x1 y1,
    fun _ hfuel => kernelGfxDrawLine_eq (h0.unclipped h1) hfuel, isLine_linePixels x0 y0 x1 y1⟩

end

theorem kernelGfxDrawLine_iff_diagonal : DrawsLine ⟨10, 10⟩ 1 1 4 4 :=
  have h0 : (⟨10, 10⟩ : Window).Contains ⟨1, 1⟩ := by decide
  have h1 : (⟨10, 10⟩ : Window).Contains ⟨4, 4⟩ := by decide
  (kernelGfxDrawLine_iff h0 h1).1.mpr ⟨rfl, rfl⟩

/-- A horizontal line is drawn as a vertical one. -/
theorem not_drawsLine_horizontal : ¬ ∀ (w : Window) (x0 y0 x1 y1 : Int), w.Contains ⟨x0, y0⟩ → w.Contains ⟨x1, y1⟩ →
    DrawsLine w x0 y0 x1 y1 := by
  intro h
  have h0 : (⟨10, 10⟩ : Window).Contains ⟨0, 5⟩ := by decide
  have h1 : (⟨10, 10⟩ : Window).Contains ⟨4, 5⟩ := by decide
  exact absurd ((drawsLine_iff (h0.unclipped h1)).mp (h _ 0 5 4 5 h0 h1)).1 (by decide)

end RetrOS.Gfx
