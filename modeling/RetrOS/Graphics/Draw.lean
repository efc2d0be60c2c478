import RetrOS.Graphics.Line
import RetrOS.Kernel.Vmem

/-!
# The drawing functions, by the pixels that they write (`graphics/gfxlib.c`)

An `int` that overflows is taken to wrap. The window is not NULL, and `color` is passed on as it is.

* `kernelGfxDrawPixel`, `kernelGfxDrawChar`, `kernelGfxDrawRectangle`, `kernelGfxDrawCircle` : the functions;
* `Primitive`, `Primitive.written` : a call, and what it has written after some rounds of its loop;
* `Primitive.Fits`, `written_contained_iff` : all of it is in the window exactly if nothing is to be drawn in the first
  column or row behind the window, where a comparison lets it through, a line would also fit with `x` and `y`
  exchanged, and a circle fits whole.
-/

namespace RetrOS.Gfx
open RetrOS.Lib RetrOS.Vmem

/-- `for (i = a; i < b; i++)` -/
def upTo (a b : Int) : List Int := (List.range (b - a).toNat).map fun k : Nat => a + k

def kernelGfxDrawRectangle (w : Window) (x y width height : Int) : Int × List Pixel :=
  if x < 0 ∨ y < 0 ∨ wrapInt (x + width) > w.innerWidth.toNat ∨ wrapInt (y + height) > w.innerHeight.toNat then (-2, [])
  else
    (0, (upTo y (wrapInt (y + height))).flatMap fun j => (upTo x (wrapInt (x + width))).map fun i => { x := i, y := j })

def kernelGfxDrawPixel (w : Window) (x y : Int) : Int × List Pixel :=
  if x < 0 ∨ y < 0 ∨ x > w.innerWidth.toNat ∨ y > w.innerHeight.toNat then (-2, [])
  else (0, [{ x, y }])

/-- `font c l` is `font8x8_basic[c][l]`: the memory behind the table for a `c` from 128 on. -/
def kernelGfxDrawChar (font : BitVec 8 → Nat → BitVec 8) (w : Window) (x y : Int) (c : BitVec 8) : Int × List Pixel :=
  (0, (List.range 8).flatMap fun l => (List.range 9).reverse.flatMap fun i =>
    if (font c l).getLsbD i then
      if wrapInt (x + i) < 0 ∨ wrapInt (y + l) < 0 ∨ wrapInt (x + i) > w.innerWidth.toNat ∨
          wrapInt (y + l) > w.innerHeight.toNat then []
      else [{ x := wrapInt (x + i), y := wrapInt (y + l) }]
    else [])

/-- The first pair of loops that fill a circle; the second one has `x` and `y` exchanged. -/
def circleFill (xc yc x y : Int) : List Pixel :=
  (upTo (wrapInt (xc - x)) (wrapInt (xc + x) + 1)).flatMap fun i =>
    (upTo (wrapInt (yc - y + 1)) (wrapInt (yc + y))).map fun j => { x := i, y := j }

def kernelGfxDrawCircleHelper (xc yc x y : Int) (fill : Bool) : List Pixel :=
  [⟨wrapInt (xc + x), wrapInt (yc + y)⟩, ⟨wrapInt (xc - x), wrapInt (yc + y)⟩,
    ⟨wrapInt (xc + x), wrapInt (yc - y)⟩, ⟨wrapInt (xc - x), wrapInt (yc - y)⟩,
    ⟨wrapInt (xc + y), wrapInt (yc + x)⟩, ⟨wrapInt (xc - y), wrapInt (yc + x)⟩,
    ⟨wrapInt (xc + y), wrapInt (yc - x)⟩, ⟨wrapInt (xc - y), wrapInt (yc - x)⟩] ++
  if fill then circleFill xc yc x y ++ circleFill xc yc y x else []

/-- The first rounds of `while (y >= x)`. -/
def circleLoop (xc yc : Int) (fill : Bool) : Nat → Int → Int → Int → List Pixel
  | 0, _, _, _ => []
  | rounds + 1, x, y, d =>
    if y ≥ x then
      let x := wrapInt (x + 1)
      if d > 0 then
        let y := wrapInt (y - 1)
        let d := wrapInt (d + 4 * (x - y) + 10)
        kernelGfxDrawCircleHelper xc yc x y fill ++ circleLoop xc yc fill rounds x y d
      else
        let d := wrapInt (d + 4 * x + 6)
        kernelGfxDrawCircleHelper xc yc x y fill ++ circleLoop xc yc fill rounds x y d
    else []

def kernelGfxDrawCircle (rounds : Nat) (xc yc r : Int) (fill : Bool) : List Pixel :=
  kernelGfxDrawCircleHelper xc yc 0 r fill ++ circleLoop xc yc fill rounds 0 r (wrapInt (3 - 2 * r))

/-- A call of one of the functions. -/
inductive Primitive
  | pixel (x y : BitVec 32)
  | char (x y : BitVec 32) (c : BitVec 8)
  | rectangle (x y width height : BitVec 32)
  | line (x0 y0 x1 y1 : BitVec 32)
  | circle (xc yc r : BitVec 32) (fill : Bool)

/-- What a call has written after so many rounds of the loop. -/
def Primitive.written (font : BitVec 8 → Nat → BitVec 8) (w : Window) (rounds : Nat) : Primitive → List Pixel
  | .pixel x y => (kernelGfxDrawPixel w x.toInt y.toInt).2
  | .char x y c => (kernelGfxDrawChar font w x.toInt y.toInt c).2
  | .rectangle x y width height => (kernelGfxDrawRectangle w x.toInt y.toInt width.toInt height.toInt).2
  | .line x0 y0 x1 y1 => (kernelGfxDrawLine rounds w x0.toInt y0.toInt x1.toInt y1.toInt).getD []
  | .circle xc yc r fill => kernelGfxDrawCircle rounds xc.toInt yc.toInt r.toInt fill

/-- A place in the first column or row behind the window. -/
def Window.Edge (w : Window) (x y : Int) : Prop :=
  (0 ≤ x ∧ x ≤ w.innerWidth.toNat ∧ 0 ≤ y ∧ y ≤ w.innerHeight.toNat) ∧ (x = w.innerWidth.toNat ∨ y = w.innerHeight.toNat)

/-- How far a circle reaches: one with the radius 0 is drawn as the corners of a square around its center. -/
def reach (r : Int) : Int := if r = 0 then 1 else |r|

/-- The square with sides `2 e + 1` around a center is in the window. -/
def Window.Square (w : Window) (xc yc e : Int) : Prop :=
  (e ≤ xc ∧ xc + e < w.innerWidth.toNat) ∧ e ≤ yc ∧ yc + e < w.innerHeight.toNat

def Primitive.Fits (font : BitVec 8 → Nat → BitVec 8) (w : Window) : Primitive → Prop
  | .pixel x y => ¬ w.Edge x.toInt y.toInt
  | .char x y c => ∀ l < 8, ∀ i < 8, (font c l).getLsbD i → ¬ w.Edge (x.toInt + i) (y.toInt + l)
  | .rectangle _ _ _ _ => True
  | .line x0 y0 x1 y1 => w.Unclipped x0.toInt y0.toInt x1.toInt y1.toInt →
    w.Contains ⟨y0.toInt, x0.toInt⟩ ∧ w.Contains ⟨y1.toInt, x1.toInt⟩
  | .circle xc yc r _ => w.Square xc.toInt yc.toInt (reach r.toInt)

section
variable {w : Window} {p : Pixel}

theorem mem_upTo {a b i : Int} : i ∈ upTo a b ↔ a ≤ i ∧ i < b := by
  rw [upTo, List.mem_map]
  constructor
  · rintro ⟨k, hk, rfl⟩
    rw [List.mem_range] at hk
    omega
  · rintro ⟨hle, hlt⟩
    exact ⟨(i - a).toNat, List.mem_range.mpr (by omega), by omega⟩

theorem wrapInt_eq {z : Int} (hlower : -2 ^ 31 ≤ z) (hupper : z < 2 ^ 31) : wrapInt z = z := by
  rw [wrapInt]
  exact Int.bmod_eq_of_le (by omega) (by omega)

/-- A sum or difference of two `int`s, one of them a coordinate, that wraps is no coordinate. -/
theorem wrapInt_eq_of_coordinate {z : Int} (hlower : -2 ^ 32 + 65536 ≤ z) (hupper : z < 2 ^ 32) (hnonneg : 0 ≤ wrapInt z)
    (hsmall : wrapInt z < 65536) : wrapInt z = z := by
  rw [wrapInt, Int.bmod_def] at *
  split at hnonneg <;> split <;> omega

theorem rectangle_contained (x y width height : Int) :
    ∀ p ∈ (kernelGfxDrawRectangle w x y width height).2, w.Contains p := by
  intro p hp
  unfold kernelGfxDrawRectangle at hp
  split at hp
  · exact absurd hp List.not_mem_nil
  · next hclip =>
    obtain ⟨j, hj, hp⟩ := List.mem_flatMap.mp hp
    obtain ⟨i, hi, rfl⟩ := List.mem_map.mp hp
    rw [mem_upTo] at hi hj
    refine ⟨⟨?_, ?_⟩, ?_, ?_⟩ <;> dsimp only <;> omega

/-- What passes the comparisons of a pixel is in the window or just behind it. -/
theorem contains_iff_not_edge {x y : Int} (h : ¬ (x < 0 ∨ y < 0 ∨ x > w.innerWidth.toNat ∨ y > w.innerHeight.toNat)) :
    w.Contains ⟨x, y⟩ ↔ ¬ w.Edge x y := by
  unfold Window.Contains Window.Edge
  dsimp only
  omega

theorem pixel_contained_iff (x y : Int) : (∀ p ∈ (kernelGfxDrawPixel w x y).2, w.Contains p) ↔ ¬ w.Edge x y := by
  unfold kernelGfxDrawPixel
  split
  · next hclip =>
    refine iff_of_true (fun p hp => absurd hp List.not_mem_nil) fun hedge => ?_
    obtain ⟨hbox, -⟩ := hedge
    omega
  · next hclip => rw [List.forall_mem_singleton, contains_iff_not_edge hclip]

theorem innerWidth_lt (w : Window) : w.innerWidth.toNat < 65536 := w.innerWidth.isLt

theorem innerHeight_lt (w : Window) : w.innerHeight.toNat < 65536 := w.innerHeight.isLt

theorem char_contained_iff (font : BitVec 8 → Nat → BitVec 8) (x y : BitVec 32) (c : BitVec 8) :
    (∀ p ∈ (kernelGfxDrawChar font w x.toInt y.toInt c).2, w.Contains p) ↔
      ∀ l < 8, ∀ i < 8, (font c l).getLsbD i → ¬ w.Edge (x.toInt + i) (y.toInt + l) := by
  have hx := x.toInt_lt
  have hx' := x.le_toInt
  have hy := y.toInt_lt
  have hy' := y.le_toInt
  have hwidth := innerWidth_lt w
  have hheight := innerHeight_lt w
  unfold kernelGfxDrawChar
  simp only [List.mem_flatMap, List.mem_range, List.mem_reverse, forall_exists_index, and_imp]
  constructor
  · intro h l hl i hi hbit hedge
    obtain ⟨⟨hx0, hxw, hy0, hyh⟩, -⟩ := id hedge
    have hxwrap : wrapInt (x.toInt + i) = x.toInt + i := wrapInt_eq (by omega) (by omega)
    have hywrap : wrapInt (y.toInt + l) = y.toInt + l := wrapInt_eq (by omega) (by omega)
    have hclip : ¬ (x.toInt + i < 0 ∨ y.toInt + l < 0 ∨ x.toInt + i > w.innerWidth.toNat ∨
        y.toInt + l > w.innerHeight.toNat) := by omega
    have hp := h ⟨x.toInt + i, y.toInt + l⟩ l hl i (by omega)
    rw [if_pos hbit, hxwrap, hywrap, if_neg hclip] at hp
    exact (contains_iff_not_edge hclip).mp (hp (List.mem_singleton_self _)) hedge
  · intro h p l hl i hi hp
    split at hp
    · next hbit =>
      have hi8 : i < 8 := BitVec.lt_of_getLsbD hbit
      split at hp
      · exact absurd hp List.not_mem_nil
      · next hclip =>
        obtain rfl := List.mem_singleton.mp hp
        have hxwrap : wrapInt (x.toInt + i) = x.toInt + i :=
          wrapInt_eq_of_coordinate (by omega) (by omega) (by omega) (by omega)
        have hywrap : wrapInt (y.toInt + l) = y.toInt + l :=
          wrapInt_eq_of_coordinate (by omega) (by omega) (by omega) (by omega)
        rw [hxwrap, hywrap] at hclip ⊢
        exact (contains_iff_not_edge hclip).mpr (h l hl i hi8 hbit)
    · exact absurd hp List.not_mem_nil

theorem dir_between {a b i : Int} (hi : 0 ≤ i) (hle : i ≤ |b - a|) :
    min a b ≤ a + dir a b * i ∧ a + dir a b * i ≤ max a b := by
  unfold dir
  split
  · next h =>
    rw [abs_of_pos (by omega)] at hle
    omega
  · next h =>
    rw [abs_of_nonpos (by omega)] at hle
    omega

theorem linePixels_contained_iff {x0 y0 x1 y1 : Int} :
    (∀ p ∈ linePixels x0 y0 x1 y1, w.Contains p) ↔ w.Contains ⟨y0, x0⟩ ∧ w.Contains ⟨y1, x1⟩ := by
  have hline := isLine_linePixels x0 y0 x1 y1
  constructor
  · exact fun h => ⟨h _ (List.mem_of_head? hline.head), h _ (List.mem_of_getLast? hline.last)⟩
  · rintro ⟨⟨⟨hy0, hy0w⟩, hx0, hx0h⟩, ⟨hy1, hy1w⟩, hx1, hx1h⟩ p hp
    obtain ⟨q, hq, rfl⟩ := List.mem_map.mp hp
    obtain ⟨⟨hq1, hq1'⟩, hq2, hq2'⟩ := walk_box (onTrack_start x0 y0 x1 y1) hq
    obtain ⟨hxmin, hxmax⟩ := dir_between hq1 hq1'
    obtain ⟨hymin, hymax⟩ := dir_between hq2 hq2'
    dsimp only at *
    exact ⟨⟨by dsimp only; omega, by dsimp only; omega⟩, by dsimp only; omega, by dsimp only; omega⟩

theorem line_contained_iff (x0 y0 x1 y1 : Int) :
    (∀ rounds, ∀ p ∈ (kernelGfxDrawLine rounds w x0 y0 x1 y1).getD [], w.Contains p) ↔
      (w.Unclipped x0 y0 x1 y1 → w.Contains ⟨y0, x0⟩ ∧ w.Contains ⟨y1, x1⟩) := by
  by_cases hclip : w.Unclipped x0 y0 x1 y1
  · simp only [hclip, true_imp_iff, ← linePixels_contained_iff]
    constructor
    · intro h
      have hdrawn := h ((max |x1 - x0| |y1 - y0|).toNat + 1)
      rw [kernelGfxDrawLine_eq hclip (Nat.lt_succ_self _), Option.getD_some] at hdrawn
      exact hdrawn
    · intro h rounds p hp
      cases hl : kernelGfxDrawLine rounds w x0 y0 x1 y1 with
      | none =>
        rw [hl] at hp
        exact absurd hp List.not_mem_nil
      | some l =>
        rw [hl, Option.getD_some, eq_linePixels hclip hl] at hp
        exact h p hp
  · refine iff_of_true (fun rounds p hp => ?_) fun h => absurd h hclip
    have hnil : kernelGfxDrawLine rounds w x0 y0 x1 y1 = some [] := by
      unfold kernelGfxDrawLine
      unfold Window.Unclipped at hclip
      split
      · rfl
      · rw [if_pos (by omega)]
    rw [hnil] at hp
    exact absurd hp List.not_mem_nil

/-! ## Circles -/

section
variable {xc yc x y d r e : Int} {fill : Bool}

theorem Window.Square.wrapInt_eq (h : w.Square xc yc e) (hx : -e ≤ x ∧ x ≤ e + 1) :
    (wrapInt (xc + x) = xc + x ∧ wrapInt (yc + x) = yc + x) ∧ wrapInt (xc - x) = xc - x ∧ wrapInt (yc - x) = yc - x := by
  obtain ⟨⟨hxe, hxw⟩, hye, hyh⟩ := h
  have hwidth := innerWidth_lt w
  have hheight := innerHeight_lt w
  refine ⟨⟨?_, ?_⟩, ?_, ?_⟩ <;> exact Gfx.wrapInt_eq (by omega) (by omega)

theorem circleFill_contained (h : w.Square xc yc e) (hx : -e ≤ x ∧ x ≤ e) (hy : -e ≤ y ∧ y ≤ e) :
    ∀ p ∈ circleFill xc yc x y, w.Contains p := by
  obtain ⟨⟨hxe, hxw⟩, hye, hyh⟩ := id h
  intro p hp
  have hxwrap := h.wrapInt_eq (x := x) (by omega)
  have hywrap := h.wrapInt_eq (x := y) (by omega)
  have hlower := (h.wrapInt_eq (x := -y + 1) (by omega)).1.2
  rw [show yc + (-y + 1) = yc - y + 1 by omega] at hlower
  rw [circleFill, hxwrap.1.1, hxwrap.2.1, hywrap.1.2, hlower] at hp
  obtain ⟨i, hi, hp⟩ := List.mem_flatMap.mp hp
  obtain ⟨j, hj, rfl⟩ := List.mem_map.mp hp
  rw [mem_upTo] at hi hj
  exact ⟨⟨by dsimp only; omega, by dsimp only; omega⟩, by dsimp only; omega, by dsimp only; omega⟩

/-- With both arguments within the reach, the helper stays in the square. -/
theorem helper_contained (h : w.Square xc yc e) (hx : -e ≤ x ∧ x ≤ e) (hy : -e ≤ y ∧ y ≤ e) :
    ∀ p ∈ kernelGfxDrawCircleHelper xc yc x y fill, w.Contains p := by
  obtain ⟨⟨hxe, hxw⟩, hye, hyh⟩ := id h
  obtain ⟨⟨hx1, hx2⟩, hx3, hx4⟩ := h.wrapInt_eq (x := x) (by omega)
  obtain ⟨⟨hy1, hy2⟩, hy3, hy4⟩ := h.wrapInt_eq (x := y) (by omega)
  intro p hp
  rw [kernelGfxDrawCircleHelper, hx1, hx2, hx3, hx4, hy1, hy2, hy3, hy4] at hp
  rcases List.mem_append.mp hp with hp | hp
  · simp only [List.mem_cons, List.not_mem_nil, or_false] at hp
    rcases hp with rfl | rfl | rfl | rfl | rfl | rfl | rfl | rfl <;>
      exact ⟨⟨by dsimp only; omega, by dsimp only; omega⟩, by dsimp only; omega, by dsimp only; omega⟩
  · split at hp
    · rcases List.mem_append.mp hp with hp | hp
      · exact circleFill_contained h hx hy p hp
      · exact circleFill_contained h hy hx p hp
    · exact absurd hp List.not_mem_nil

/-- The outline alone shows how far the arguments reach. -/
theorem square_of_helper (hxc : -2 ^ 31 ≤ xc ∧ xc < 2 ^ 31) (hyc : -2 ^ 31 ≤ yc ∧ yc < 2 ^ 31)
    (hr : -2 ^ 31 ≤ r ∧ r < 2 ^ 31) (h : ∀ p ∈ kernelGfxDrawCircleHelper xc yc 0 r fill, w.Contains p) :
    w.Square xc yc |r| := by
  have hwidth := innerWidth_lt w
  have hheight := innerHeight_lt w
  have hpixel : ∀ x y, (⟨x, y⟩ : Pixel) ∈ kernelGfxDrawCircleHelper xc yc 0 r fill → w.Contains ⟨x, y⟩ :=
    fun x y hp => h _ hp
  simp only [kernelGfxDrawCircleHelper, add_zero, sub_zero, List.mem_append, List.mem_cons] at hpixel
  obtain ⟨⟨hx, hxw⟩, hyadd, hyaddh⟩ := hpixel (wrapInt xc) (wrapInt (yc + r)) (by simp)
  obtain ⟨-, hysub, hysubh⟩ := hpixel (wrapInt xc) (wrapInt (yc - r)) (by simp)
  obtain ⟨⟨hxadd, hxaddw⟩, hy, hyh⟩ := hpixel (wrapInt (xc + r)) (wrapInt yc) (by simp)
  obtain ⟨⟨hxsub, hxsubw⟩, -⟩ := hpixel (wrapInt (xc - r)) (wrapInt yc) (by simp)
  dsimp only at *
  rw [wrapInt_eq hxc.1 hxc.2] at hx hxw
  rw [wrapInt_eq hyc.1 hyc.2] at hy hyh
  have hxaddwrap := wrapInt_eq_of_coordinate (by omega) (by omega) hxadd (by omega)
  have hxsubwrap := wrapInt_eq_of_coordinate (by omega) (by omega) hxsub (by omega)
  have hyaddwrap := wrapInt_eq_of_coordinate (by omega) (by omega) hyadd (by omega)
  have hysubwrap := wrapInt_eq_of_coordinate (by omega) (by omega) hysub (by omega)
  rcases abs_cases r with ⟨habs, -⟩ | ⟨habs, -⟩ <;> rw [habs] <;> exact ⟨⟨by omega, by omega⟩, by omega, by omega⟩

/-- So do the corners around the center of a circle with the radius 0. -/
theorem square_of_corners (hxc : -2 ^ 31 ≤ xc ∧ xc < 2 ^ 31) (hyc : -2 ^ 31 ≤ yc ∧ yc < 2 ^ 31)
    (h : ∀ p ∈ kernelGfxDrawCircleHelper xc yc 1 (-1) fill, w.Contains p) : w.Square xc yc 1 := by
  have hwidth := innerWidth_lt w
  have hheight := innerHeight_lt w
  have hpixel : ∀ x y, (⟨x, y⟩ : Pixel) ∈ kernelGfxDrawCircleHelper xc yc 1 (-1) fill → w.Contains ⟨x, y⟩ :=
    fun x y hp => h _ hp
  simp only [kernelGfxDrawCircleHelper, List.mem_append, List.mem_cons] at hpixel
  obtain ⟨⟨hxadd, hxaddw⟩, hydown, hydownh⟩ := hpixel (wrapInt (xc + 1)) (wrapInt (yc + -1)) (by simp)
  obtain ⟨⟨hxsub, hxsubw⟩, hyup, hyuph⟩ := hpixel (wrapInt (xc - 1)) (wrapInt (yc - -1)) (by simp)
  dsimp only at *
  have hxaddwrap := wrapInt_eq_of_coordinate (by omega) (by omega) hxadd (by omega)
  have hxsubwrap := wrapInt_eq_of_coordinate (by omega) (by omega) hxsub (by omega)
  have hydownwrap := wrapInt_eq_of_coordinate (by omega) (by omega) hydown (by omega)
  have hyupwrap := wrapInt_eq_of_coordinate (by omega) (by omega) hyup (by omega)
  exact ⟨⟨by omega, by omega⟩, by omega, by omega⟩

/-- The state of the loop of a circle with the radius `r`: as long as `y` is `r`, the error is known, and it lets `y`
decrease before `x` is `r`. -/
structure InOctant (r x y d : Int) : Prop where
  x_nonneg : 0 ≤ x
  x_le : x ≤ r
  y_le : y ≤ r
  corner : x = r → y < r
  error : y = r → d = 3 - 2 * r + 2 * (x * x) + 8 * x

theorem InOctant.start (hr : 0 < r) : InOctant r 0 r (3 - 2 * r) where
  x_nonneg := le_refl 0
  x_le := hr.le
  y_le := le_refl r
  corner h := absurd h hr.ne
  error _ := by ring

/-- A round takes `x` on, and keeps both coordinates within the radius. -/
theorem InOctant.lt (h : InOctant r x y d) (hle : x ≤ y) : x < r := by
  refine lt_of_le_of_ne h.x_le fun hx => ?_
  have hy := h.corner hx
  omega

theorem InOctant.down (h : InOctant r x y d) (hle : x ≤ y) (d' : Int) : InOctant r (x + 1) (y - 1) d' := by
  have hx := h.x_nonneg
  have hlt := h.lt hle
  have hy := h.y_le
  exact ⟨by omega, by omega, by omega, fun _ => by omega, fun _ => by omega⟩

theorem InOctant.across (h : InOctant r x y d) (hr : r < 65536) (hle : x ≤ y) (hd : ¬ d > 0) :
    InOctant r (x + 1) y (wrapInt (d + 4 * (x + 1) + 6)) := by
  have hx := h.x_nonneg
  have hlt := h.lt hle
  refine ⟨by omega, by omega, h.y_le, fun hcorner => ?_, fun hy => ?_⟩
  · refine lt_of_le_of_ne h.y_le fun hy => hd ?_
    -- on the way to the corner the error has become positive
    rw [h.error hy, ← hcorner]
    nlinarith
  · have herror := h.error hy
    have hsquare : 0 ≤ x * x := mul_nonneg hx hx
    rw [wrapInt_eq (by omega) (by omega), herror]
    ring

/-- All rounds of the loop stay within the radius. -/
theorem circleLoop_contained (h : w.Square xc yc r) (hoct : InOctant r x y d) (rounds : Nat) :
    ∀ p ∈ circleLoop xc yc fill rounds x y d, w.Contains p := by
  obtain ⟨⟨hxe, hxw⟩, hye, hyh⟩ := id h
  have hwidth := innerWidth_lt w
  induction rounds generalizing x y d with
  | zero => exact fun p hp => absurd hp List.not_mem_nil
  | succ rounds ih =>
    intro p hp
    rw [circleLoop] at hp
    split at hp
    · next hle =>
      have hx0 := hoct.x_nonneg
      have hlt := hoct.lt hle
      have hyr := hoct.y_le
      dsimp only at hp
      rw [wrapInt_eq (z := x + 1) (by omega) (by omega), wrapInt_eq (z := y - 1) (by omega) (by omega)] at hp
      split at hp
      · rcases List.mem_append.mp hp with hp | hp
        · exact helper_contained h (by omega) (by omega) p hp
        · exact ih (hoct.down hle _) p hp
      · next hd =>
        rcases List.mem_append.mp hp with hp | hp
        · exact helper_contained h (by omega) (by omega) p hp
        · exact ih (hoct.across (by omega) hle hd) p hp
    · exact absurd hp List.not_mem_nil

/-- With a negative radius the loop is not entered. -/
theorem circleLoop_neg (hr : r < 0) (rounds : Nat) (d : Int) : circleLoop xc yc fill rounds 0 r d = [] := by
  cases rounds with
  | zero => rfl
  | succ rounds => rw [circleLoop, if_neg (by omega)]

/-- With the radius 0 there is one round, and it writes the corners around the center. -/
theorem circleLoop_zero (xc yc : Int) (fill : Bool) (rounds : Nat) :
    circleLoop xc yc fill (rounds + 1) 0 0 (wrapInt (3 - 2 * 0)) = kernelGfxDrawCircleHelper xc yc 1 (-1) fill := by
  have h3 : wrapInt (3 - 2 * 0) = 3 := rfl
  have h1 : wrapInt (0 + 1) = 1 := rfl
  have hdown : wrapInt (0 - 1) = -1 := rfl
  rw [circleLoop, if_pos (le_refl 0), h3]
  dsimp only
  rw [if_pos (by decide), h1, hdown]
  cases rounds with
  | zero => rw [circleLoop, List.append_nil]
  | succ rounds => rw [circleLoop, if_neg (by decide), List.append_nil]

/-- A circle is in the window exactly if it fits with its whole radius. -/
theorem circle_contained_iff (hxc : -2 ^ 31 ≤ xc ∧ xc < 2 ^ 31) (hyc : -2 ^ 31 ≤ yc ∧ yc < 2 ^ 31)
    (hr : -2 ^ 31 ≤ r ∧ r < 2 ^ 31) :
    (∀ rounds, ∀ p ∈ kernelGfxDrawCircle rounds xc yc r fill, w.Contains p) ↔ w.Square xc yc (reach r) := by
  have happend : ∀ rounds, (∀ p ∈ kernelGfxDrawCircle rounds xc yc r fill, w.Contains p) ↔
      (∀ p ∈ kernelGfxDrawCircleHelper xc yc 0 r fill, w.Contains p) ∧
        ∀ p ∈ circleLoop xc yc fill rounds 0 r (wrapInt (3 - 2 * r)), w.Contains p := fun rounds => by
    rw [kernelGfxDrawCircle, List.forall_mem_append]
  simp only [happend]
  have hwidth := innerWidth_lt w
  rcases lt_trichotomy r 0 with hneg | rfl | hpos
  · rw [reach, if_neg hneg.ne]
    constructor
    · exact fun h => square_of_helper hxc hyc hr (h 0).1
    · intro h rounds
      rw [circleLoop_neg hneg]
      rw [abs_of_neg hneg] at h
      exact ⟨helper_contained h (by omega) (by omega), fun p hp => absurd hp List.not_mem_nil⟩
  · rw [reach, if_pos rfl]
    constructor
    · intro h
      have hcorners := (h 1).2
      rw [circleLoop_zero xc yc fill 0] at hcorners
      exact square_of_corners hxc hyc hcorners
    · intro h rounds
      refine ⟨helper_contained h (by omega) (by omega), ?_⟩
      cases rounds with
      | zero => exact fun p hp => absurd hp List.not_mem_nil
      | succ rounds =>
        rw [circleLoop_zero]
        exact helper_contained h (by omega) (by omega)
  · rw [reach, if_neg hpos.ne', abs_of_pos hpos]
    constructor
    · intro h
      have hsquare := square_of_helper hxc hyc hr (h 0).1
      rwa [abs_of_pos hpos] at hsquare
    · intro h rounds
      obtain ⟨⟨hxe, hxw⟩, -⟩ := id h
      refine ⟨helper_contained h (by omega) (by omega), ?_⟩
      rw [wrapInt_eq (by omega) (by omega)]
      exact circleLoop_contained h (.start hpos) rounds

end

theorem int_bounds (v : BitVec 32) : -2 ^ 31 ≤ v.toInt ∧ v.toInt < 2 ^ 31 := ⟨v.le_toInt, v.toInt_lt⟩

end

/-- All pixels that a call writes are in the window exactly if the call fits it. -/
theorem written_contained_iff (font : BitVec 8 → Nat → BitVec 8) (w : Window) (call : Primitive) :
    (∀ rounds, ∀ p ∈ call.written font w rounds, w.Contains p) ↔ call.Fits font w := by
  cases call with
  | pixel x y => exact (forall_const Nat).trans (pixel_contained_iff x.toInt y.toInt)
  | char x y c => exact (forall_const Nat).trans (char_contained_iff font x y c)
  | rectangle x y width height =>
    exact iff_of_true (fun _ => rectangle_contained x.toInt y.toInt width.toInt height.toInt) trivial
  | line x0 y0 x1 y1 => exact line_contained_iff x0.toInt y0.toInt x1.toInt y1.toInt
  | circle xc yc r fill => exact circle_contained_iff (int_bounds xc) (int_bounds yc) (int_bounds r)

/-- A pixel in the column behind the window is written. -/
theorem pixel_behind : ¬ ∀ (font : BitVec 8 → Nat → BitVec 8) (w : Window) (call : Primitive) (rounds : Nat),
    ∀ p ∈ call.written font w rounds, w.Contains p := by
  intro h
  have hwritten : (Primitive.pixel 10 0).written (fun _ _ => 0) ⟨10, 10⟩ 0 = [⟨10, 0⟩] := by rfl
  have hbehind := h (fun _ _ => 0) ⟨10, 10⟩ (.pixel 10 0) 0 ⟨10, 0⟩ (by rw [hwritten]; exact List.mem_singleton_self _)
  exact absurd hbehind (by decide)

end RetrOS.Gfx
