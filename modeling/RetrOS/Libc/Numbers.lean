import RetrOS.Lib.Digits
import Mathlib.Data.List.Induction
import Mathlib.Data.List.TakeWhile

/-!
# Numbers as strings (`lib/libc.c`)

A string is the list of its characters, without the NUL that the code stores behind them; a `char` is a byte, an `int` an
`Int32`.

* `isdigit`, `isxdigit`, `tolower` : classes of characters;
* `reverse` : a string reversed in place (`reverse_eq`);
* `itoa`, `itohex` : a number written, last digit first, and reversed;
* `atoi`, `htoi` : a number read;
* `ReadsBack` : what was written is read back, and is made of digits (`readsBack_iff`).
-/

namespace RetrOS.Libc
open RetrOS.Lib

abbrev Str := List UInt8

/-- A `char` as an `int`. -/
def ofChar (c : UInt8) : Int32 := c.toInt8.toInt32

/-- An `int` stored in a `char`. -/
def toChar (n : Int32) : UInt8 := n.toInt8.toUInt8

def isdigit (c : UInt8) : Bool := '0'.toUInt8 ≤ c ∧ c ≤ '9'.toUInt8

def isxdigit (c : UInt8) : Bool :=
  ('0'.toUInt8 ≤ c ∧ c ≤ '9'.toUInt8) ∨ ('A'.toUInt8 ≤ c ∧ c ≤ 'F'.toUInt8) ∨ ('a'.toUInt8 ≤ c ∧ c ≤ 'f'.toUInt8)

def tolower (c : UInt8) : Int32 :=
  if 'A'.toUInt8 ≤ c ∧ c ≤ 'Z'.toUInt8 then ofChar c + 97 - 65 else ofChar c

def strlen (s : Str) : Nat := (s.takeWhile (· ≠ 0)).length

/-- The loop of `reverse`. -/
def reverseLoop (s : Str) (i j : Nat) : Str :=
  if i < j then reverseLoop ((s.set i (s.getD j 0)).set j (s.getD i 0)) (i + 1) (j - 1) else s
termination_by j - i

def reverse (s : Str) : Str := reverseLoop s 0 (strlen s - 1)

/-- Where the loop of `itoa` goes on, its number is not negative. -/
theorem toInt_div_ten {n : Int32} (h : 0 < n / 10) : (n / 10).toInt = n.toInt / 10 ∧ 0 < n.toInt / 10 := by
  have hdiv : (n / 10).toInt = n.toInt.tdiv 10 := Int32.toInt_div_of_ne_right n 10 (by decide)
  have hpos : 0 < n.toInt.tdiv 10 := by
    rw [← hdiv]
    exact Int32.lt_iff_toInt_lt.mp h
  have hn : 0 ≤ n.toInt := by
    by_contra hneg
    have hle := Int.tdiv_nonneg (a := -n.toInt) (b := 10) (by omega) (by decide)
    rw [Int.neg_tdiv] at hle
    omega
  rw [Int.tdiv_eq_ediv_of_nonneg hn] at hdiv hpos
  exact ⟨hdiv, hpos⟩

/-- `do { s[i++] = n % 10 + '0'; } while ((n /= 10) > 0);` -/
def itoaLoop (n : Int32) : Str := toChar (n % 10 + 48) :: if 0 < n / 10 then itoaLoop (n / 10) else []
termination_by n.toInt.toNat
decreasing_by
  rename_i h
  obtain ⟨hdiv, hpos⟩ := toInt_div_ten h
  omega

/-- The string that `itoa` stores; it returns its length. -/
def itoa (n : Int32) : Str := reverse (if n < 0 then itoaLoop (-n) ++ ['-'.toUInt8] else itoaLoop n)

/-- The loop of `itohex`. -/
def itohexLoop (n : UInt32) : Str :=
  let d := n % 16
  (if d < 10 then d.toUInt8 + '0'.toUInt8 else d.toUInt8 - 10 + 'a'.toUInt8) ::
    if 0 < n / 16 then itohexLoop (n / 16) else []
termination_by n.toNat
decreasing_by
  rename_i h
  rw [UInt32.lt_iff_toNat_lt, UInt32.toNat_div] at h
  rw [UInt32.toNat_div]
  exact Nat.div_lt_self (Nat.pos_of_div_pos h) (by decide)

/-- The string that `itohex` stores; it returns its length. -/
def itohex (n : UInt32) : Str := reverse (itohexLoop n)

def atoi (s : Str) : Int32 :=
  let s := s.dropWhile fun c => c == ' '.toUInt8 || c == '0'.toUInt8
  let sign : Int32 := if s.head? = some '-'.toUInt8 then -1 else 1
  let s := if s.head? = some '-'.toUInt8 ∨ s.head? = some '+'.toUInt8 then s.tail else s
  (s.takeWhile isdigit).foldl (fun n c => 10 * n + (ofChar c - 48)) 0 * sign

/-- The white space, the zeros and the optional 0x or 0X in front of a number. -/
def htoiSkip : Str → Str
  | [] => []
  | c :: s =>
    if c = ' '.toUInt8 ∨ c = '0'.toUInt8 then
      if c = '0'.toUInt8 ∧ (s.head? = some 'x'.toUInt8 ∨ s.head? = some 'X'.toUInt8) then s.tail else htoiSkip s
    else c :: s

def htoi (s : Str) : Int32 :=
  ((htoiSkip s).takeWhile isxdigit).foldl
    (fun n c => if isdigit c then 16 * n + (ofChar c - 48) else 16 * n + (tolower c - 97 + 10)) 0

/-! ## Reversing -/

section Reverse
variable {s : Str}

theorem strlen_eq (h : 0 ∉ s) : strlen s = s.length := by
  rw [strlen, List.takeWhile_eq_self_iff.mpr]
  intro c hc
  simpa using ne_of_mem_of_not_mem hc h

/-- The part between `i` and `j` is reversed. -/
theorem reverseLoop_eq (before middle behind : Str) :
    reverseLoop (before ++ middle ++ behind) before.length (before.length + middle.length - 1) =
      before ++ middle.reverse ++ behind := by
  induction middle using List.bidirectionalRec generalizing before behind with
  | nil => rw [reverseLoop, if_neg (by simp), List.reverse_nil]
  | singleton a => rw [reverseLoop, if_neg (by simp), List.reverse_singleton]
  | cons_append a middle b ih =>
    have hj : before.length + (a :: (middle ++ [b])).length - 1 = (before ++ a :: middle).length := by simp
    have hone : (before ++ [b]).length = before.length + 1 := by simp
    have hi : before.length + 1 + middle.length - 1 = (before ++ a :: middle).length - 1 := by
      rw [List.length_append, List.length_cons]
      omega
    have hswap : ((before ++ a :: (middle ++ [b]) ++ behind).set before.length b).set (before ++ a :: middle).length a =
        before ++ [b] ++ middle ++ (a :: behind) := by
      simp
    have ha : (before ++ a :: (middle ++ [b]) ++ behind).getD before.length 0 = a := by simp
    have hb : (before ++ a :: (middle ++ [b]) ++ behind).getD (before ++ a :: middle).length 0 = b := by simp
    rw [reverseLoop, hj, if_pos (by simp), ha, hb, hswap, ← hi]
    have hrec := ih (before ++ [b]) (a :: behind)
    rw [hone] at hrec
    rw [hrec]
    simp

theorem reverse_eq (h : 0 ∉ s) : reverse s = s.reverse := by
  have hloop := reverseLoop_eq [] s []
  simp only [List.append_nil, List.nil_append, List.length_nil, Nat.zero_add] at hloop
  rw [reverse, strlen_eq h, hloop]

end Reverse

/-! ## Digits -/

def decChar (d : Nat) : UInt8 := UInt8.ofNat (48 + d)

def hexChar (d : Nat) : UInt8 := if d < 10 then UInt8.ofNat (48 + d) else UInt8.ofNat (87 + d)

section Digits
variable {d : Nat} {l : List Nat}

theorem decChar_spec (hd : d < 10) : isdigit (decChar d) = true ∧ ofChar (decChar d) - 48 = Int32.ofNat d ∧
    (decChar d = '0'.toUInt8 ↔ d = 0) := by
  have hall : ∀ d : Fin 10, isdigit (decChar d) = true ∧ ofChar (decChar d) - 48 = Int32.ofNat d ∧
      (decChar d = '0'.toUInt8 ↔ d.val = 0) := by decide
  exact hall ⟨d, hd⟩

/-- The value of a hexadecimal digit. -/
def xvalue (c : UInt8) : Nat :=
  if isdigit c then c.toNat - 48 else if 'a'.toUInt8 ≤ c then c.toNat - 87 else c.toNat - 55

theorem hexChar_spec (hd : d < 16) : isxdigit (hexChar d) = true ∧ xvalue (hexChar d) = d := by
  have hall : ∀ d : Fin 16, isxdigit (hexChar d) = true ∧ xvalue (hexChar d) = d := by decide
  exact hall ⟨d, hd⟩

theorem xvalue_spec {c : UInt8} (hc : isxdigit c = true) :
    (if isdigit c then ofChar c - 48 else tolower c - 97 + 10) = Int32.ofNat (xvalue c) ∧
      (c = '0'.toUInt8 ↔ xvalue c = 0) := by
  have hall : ∀ k : Fin 256, isxdigit (UInt8.ofNat k) = true →
      (if isdigit (UInt8.ofNat k) then ofChar (UInt8.ofNat k) - 48 else tolower (UInt8.ofNat k) - 97 + 10) =
        Int32.ofNat (xvalue (UInt8.ofNat k)) ∧
      (UInt8.ofNat k = '0'.toUInt8 ↔ xvalue (UInt8.ofNat k) = 0) := by decide +kernel
  have hk := hall ⟨c.toNat, c.toNat_lt⟩
  rw [UInt8.ofNat_toNat] at hk
  exact hk hc

theorem toChar_ofNat (hd : d < 10) : toChar (Int32.ofNat d + 48) = decChar d := by
  have hall : ∀ d : Fin 10, toChar (Int32.ofNat d + 48) = decChar d := by decide
  exact hall ⟨d, hd⟩

theorem hexChar_eq {d : UInt32} (hd : d.toNat < 16) :
    (if d < 10 then d.toUInt8 + '0'.toUInt8 else d.toUInt8 - 10 + 'a'.toUInt8) = hexChar d.toNat := by
  have hall : ∀ k : Fin 16, (if UInt32.ofNat k < 10 then (UInt32.ofNat k).toUInt8 + '0'.toUInt8
      else (UInt32.ofNat k).toUInt8 - 10 + 'a'.toUInt8) = hexChar k := by decide
  have hk := hall ⟨d.toNat, hd⟩
  rwa [UInt32.ofNat_toNat] at hk

/-- The digits that `itoa` stores. -/
theorem itoaLoop_eq (k : Nat) (hk : k < 2 ^ 31) : itoaLoop (Int32.ofNat k) = (Digits.places 10 k).map decChar := by
  induction k using Nat.strong_induction_on with
  | _ k ih =>
    have hint : (Int32.ofNat k).toInt = k := Int32.toInt_ofNat_of_lt hk
    have hten : (10 : Int32).toInt = 10 := rfl
    have hmod : Int32.ofNat k % 10 = Int32.ofNat (k % 10) := by
      rw [← Int32.toInt_inj, Int32.toInt_mod, hint, hten, Int32.toInt_ofNat_of_lt (by omega)]
      rfl
    have hdiv : Int32.ofNat k / 10 = Int32.ofNat (k / 10) := by
      rw [← Int32.toInt_inj, Int32.toInt_div_of_ne_right _ _ (by decide), hint, hten,
        Int32.toInt_ofNat_of_lt (by omega)]
      rfl
    have hpos : 0 < Int32.ofNat (k / 10) ↔ 0 < k / 10 := by
      rw [Int32.lt_iff_toInt_lt, Int32.toInt_ofNat_of_lt (by omega)]
      exact Int.natCast_pos
    rw [itoaLoop, Digits.places_eq (by decide), List.map_cons, hmod, hdiv, toChar_ofNat (Nat.mod_lt k (by decide))]
    congr 1
    by_cases h : 0 < k / 10
    · rw [if_pos (hpos.mpr h), if_pos h]
      exact ih (k / 10) (by omega) (by omega)
    · rw [if_neg (mt hpos.mp h), if_neg h, List.map_nil]

theorem itohexLoop_eq (n : UInt32) : itohexLoop n = (Digits.places 16 n.toNat).map hexChar := by
  induction hk : n.toNat using Nat.strong_induction_on generalizing n with
  | _ k ih =>
    subst hk
    have hmod : (n % 16).toNat = n.toNat % 16 := UInt32.toNat_mod ..
    have hdiv : (n / 16).toNat = n.toNat / 16 := UInt32.toNat_div ..
    have hlt : n.toNat % 16 < 16 := Nat.mod_lt _ (by decide)
    rw [itohexLoop, Digits.places_eq (by decide), List.map_cons, hexChar_eq (by rwa [hmod]), hmod]
    congr 1
    by_cases h : 0 < n.toNat / 16
    · have h' : 0 < n / 16 := by
        rw [UInt32.lt_iff_toNat_lt, hdiv]
        exact h
      rw [if_pos h', if_pos h, ← hdiv]
      exact ih _ (by omega) _ rfl
    · have h' : ¬ 0 < n / 16 := by
        rw [UInt32.lt_iff_toNat_lt, hdiv]
        exact h
      rw [if_neg h', if_neg h, List.map_nil]

/-- A loop that reads digits, in machine arithmetic. -/
theorem foldl_ofNat {α : Type} {b : Nat} {step : Int32 → UInt8 → Int32} {char : α → UInt8} {val : α → Nat} {l : List α}
    (hstep : ∀ n, ∀ a ∈ l, step n (char a) = Int32.ofNat b * n + Int32.ofNat (val a)) :
    (l.map char).foldl step 0 = Int32.ofNat (Digits.value b (l.map val)) := by
  have hfrom (k : Nat) : (l.map char).foldl step (Int32.ofNat k) =
      Int32.ofNat ((l.map val).foldl (fun n d => b * n + d) k) := by
    induction l generalizing k with
    | nil => rfl
    | cons a l ih =>
      have ha := hstep (Int32.ofNat k) a (List.mem_cons_self ..)
      rw [List.map_cons, List.map_cons, List.foldl_cons, List.foldl_cons, ha, ← Int32.ofNat_mul, ← Int32.ofNat_add]
      exact ih (fun n e he => hstep n e (List.mem_cons_of_mem _ he)) _
  exact hfrom 0

end Digits

/-! ## Reading back -/

section ReadBack
variable {l : List Nat} {n : Int32}

/-- The strings of a number are made of digits, and it is read back from them. -/
structure ReadsBack (n : Int32) : Prop where
  decimal : atoi (itoa n) = n
  hex : htoi (itohex n.toUInt32) = n
  digits : ∃ ds, ds ≠ [] ∧ (∀ c ∈ ds, isdigit c = true) ∧ itoa n = if n < 0 then '-'.toUInt8 :: ds else ds
  xdigits : itohex n.toUInt32 ≠ [] ∧ ∀ c ∈ itohex n.toUInt32, isxdigit c = true

theorem isdigit_map (hl : ∀ d ∈ l, d < 10) : ∀ c ∈ l.map decChar, isdigit c = true := by
  intro c hc
  obtain ⟨d, hd, rfl⟩ := List.mem_map.mp hc
  exact (decChar_spec (hl d hd)).1

theorem isxdigit_map (hl : ∀ d ∈ l, d < 16) : ∀ c ∈ l.map hexChar, isxdigit c = true := by
  intro c hc
  obtain ⟨d, hd, rfl⟩ := List.mem_map.mp hc
  exact (hexChar_spec (hl d hd)).1

/-- What `atoi` makes of digits. -/
theorem foldl_decChar (hl : ∀ d ∈ l, d < 10) :
    ((l.map decChar).takeWhile isdigit).foldl (fun n c => 10 * n + (ofChar c - 48)) 0 =
      Int32.ofNat (Digits.value 10 l) := by
  have hstep : ∀ n : Int32, ∀ d ∈ l, 10 * n + (ofChar (decChar d) - 48) = Int32.ofNat 10 * n + Int32.ofNat (id d) := by
    intro n d hd
    rw [(decChar_spec (hl d hd)).2.1]
    rfl
  have hread := @foldl_ofNat _ 10 (fun n c => 10 * n + (ofChar c - 48)) decChar id l hstep
  rw [List.takeWhile_eq_self_iff.mpr (isdigit_map hl), hread, List.map_id]

theorem dropWhile_map (hl : ∀ d ∈ l, d < 10) :
    ((l.map decChar).dropWhile fun c => c == ' '.toUInt8 || c == '0'.toUInt8) =
      (l.dropWhile (· = 0)).map decChar := by
  induction l with
  | nil => rfl
  | cons d l ih =>
    obtain ⟨hdigit, -, hzero⟩ := decChar_spec (hl d (List.mem_cons_self ..))
    have hspace : decChar d ≠ ' '.toUInt8 := fun h => absurd (h ▸ hdigit) (by decide)
    by_cases hd : d = 0
    · rw [List.map_cons, List.dropWhile_cons_of_pos (by simp [hzero.mpr hd]),
        List.dropWhile_cons_of_pos (by simpa using hd)]
      exact ih fun e he => hl e (List.mem_cons_of_mem _ he)
    · rw [List.map_cons, List.dropWhile_cons_of_neg (by simp [hspace, mt hzero.mp hd]),
        List.dropWhile_cons_of_neg (by simpa using hd), List.map_cons]

theorem atoi_digits (hl : ∀ d ∈ l, d < 10) : atoi (l.map decChar) = Int32.ofNat (Digits.value 10 l) := by
  have hl' : ∀ d ∈ l.dropWhile (· = 0), d < 10 := fun d hd => hl d ((List.dropWhile_sublist _).mem hd)
  have hhead (c : UInt8) (hc : isdigit c = false) : ((l.dropWhile (· = 0)).map decChar).head? ≠ some c := by
    intro h
    rw [isdigit_map hl' c (List.mem_of_head? h)] at hc
    cases hc
  have hminus := hhead '-'.toUInt8 (by decide)
  have hplus := hhead '+'.toUInt8 (by decide)
  rw [atoi, dropWhile_map hl, if_neg hminus, if_neg (not_or.mpr ⟨hminus, hplus⟩), Int32.mul_one, foldl_decChar hl',
    Digits.value_dropWhile]

theorem atoi_minus (hl : ∀ d ∈ l, d < 10) :
    atoi ('-'.toUInt8 :: l.map decChar) = -Int32.ofNat (Digits.value 10 l) := by
  have hdrop : (('-'.toUInt8 :: l.map decChar).dropWhile fun c => c == ' '.toUInt8 || c == '0'.toUInt8) =
      '-'.toUInt8 :: l.map decChar := List.dropWhile_cons_of_neg (by decide)
  rw [atoi, hdrop, List.head?_cons, if_pos rfl, if_pos (.inl rfl), List.tail_cons, foldl_decChar hl, Int32.mul_neg,
    Int32.mul_one]

/-- The number with these hexadecimal digits. -/
def hexValue (s : Str) : Nat := Digits.value 16 (s.map xvalue)

/-- Behind zeros alone, `htoi` goes on. -/
theorem htoiSkip_append {s rest : Str} (hs : ∀ c ∈ s, isxdigit c = true)
    (hrest : rest.head? ≠ some 'x'.toUInt8 ∧ rest.head? ≠ some 'X'.toUInt8) :
    htoiSkip (s ++ rest) = if hexValue s = 0 then htoiSkip rest
      else s.dropWhile (fun c => decide (xvalue c = 0)) ++ rest := by
  induction s with
  | nil => rfl
  | cons c s ih =>
    have hs' : ∀ e ∈ s, isxdigit e = true := fun e he => hs e (List.mem_cons_of_mem _ he)
    have hc := hs c (List.mem_cons_self ..)
    have hspace : c ≠ ' '.toUInt8 := fun h => absurd (h ▸ hc) (by decide)
    have hx {e : UInt8} (he : isxdigit e = false) (hr : rest.head? ≠ some e) : (s ++ rest).head? ≠ some e := by
      cases s with
      | nil => exact hr
      | cons a s =>
        intro h
        rw [← Option.some.inj h, hs' a (List.mem_cons_self ..)] at he
        cases he
    have hbegins : ¬ ((s ++ rest).head? = some 'x'.toUInt8 ∨ (s ++ rest).head? = some 'X'.toUInt8) :=
      not_or.mpr ⟨hx (by decide) hrest.1, hx (by decide) hrest.2⟩
    have hzero := (xvalue_spec hc).2
    have hvalue : hexValue (c :: s) = 0 ↔ xvalue c = 0 ∧ hexValue s = 0 := by
      unfold hexValue
      rw [Digits.value_eq_zero_iff (by decide), Digits.value_eq_zero_iff (by decide), List.map_cons,
        List.forall_mem_cons]
    rw [List.cons_append, htoiSkip]
    by_cases hd : xvalue c = 0
    · rw [if_pos (.inr (hzero.mpr hd)), if_neg (fun h => hbegins h.2), List.dropWhile_cons_of_pos (by simpa using hd),
        ih hs']
      simp only [hvalue, hd, true_and]
    · rw [if_neg (not_or.mpr ⟨hspace, mt hzero.mp hd⟩), List.dropWhile_cons_of_neg (by simpa using hd),
        if_neg fun h => hd (hvalue.mp h).1, List.cons_append]

/-- What `htoi` makes of hexadecimal digits and what is behind them. -/
theorem htoi_append {s rest : Str} (hs : ∀ c ∈ s, isxdigit c = true)
    (hrest : ∀ c, rest.head? = some c → isxdigit c = false ∧ c ≠ 'x'.toUInt8 ∧ c ≠ 'X'.toUInt8) :
    htoi (s ++ rest) = if hexValue s = 0 then htoi rest else Int32.ofNat (hexValue s) := by
  have hx : rest.head? ≠ some 'x'.toUInt8 ∧ rest.head? ≠ some 'X'.toUInt8 :=
    ⟨fun h => (hrest _ h).2.1 rfl, fun h => (hrest _ h).2.2 rfl⟩
  rw [htoi, htoiSkip_append hs hx]
  split
  · rfl
  · have hread : ∀ c ∈ s.dropWhile (fun c => decide (xvalue c = 0)), isxdigit c = true := fun c hc =>
      hs c ((List.dropWhile_sublist _).mem hc)
    have htake : (s.dropWhile (fun c => decide (xvalue c = 0)) ++ rest).takeWhile isxdigit =
        (s.dropWhile (fun c => decide (xvalue c = 0))).map id := by
      rw [List.map_id, List.takeWhile_append_of_pos hread]
      cases rest with
      | nil => rw [List.takeWhile_nil, List.append_nil]
      | cons c rest => rw [List.takeWhile_cons_of_neg (by simp [(hrest c rfl).1]), List.append_nil]
    have hmap : (s.dropWhile (fun c => decide (xvalue c = 0))).map xvalue = (s.map xvalue).dropWhile (· = 0) := by
      rw [List.dropWhile_map]
      rfl
    rw [htake, @foldl_ofNat _ 16 _ id xvalue, hmap, Digits.value_dropWhile]
    · rfl
    · intro n c hc
      rw [← (xvalue_spec (hread c hc)).1]
      dsimp only [id]
      split <;> rfl

theorem htoi_digits (hl : ∀ d ∈ l, d < 16) : htoi (l.map hexChar) = Int32.ofNat (Digits.value 16 l) := by
  have hvalue : hexValue (l.map hexChar) = Digits.value 16 l := by
    rw [hexValue, List.map_map]
    exact congrArg _ ((List.map_congr_left fun d hd => (hexChar_spec (hl d hd)).2).trans (List.map_id' l))
  have hread := @htoi_append _ [] (isxdigit_map hl) (by simp)
  rw [List.append_nil, hvalue] at hread
  rw [hread]
  split
  · next h => rw [h]; rfl
  · rfl

theorem reverse_map {char : Nat → UInt8} (h : ∀ d ∈ l, char d ≠ 0) : reverse (l.map char) = l.reverse.map char := by
  rw [reverse_eq, List.map_reverse]
  intro hmem
  obtain ⟨d, hd, h0⟩ := List.mem_map.mp hmem
  exact h d hd h0

theorem decChar_ne_zero {d : Nat} (hd : d < 10) : decChar d ≠ 0 :=
  fun h => absurd (h ▸ (decChar_spec hd).1) (by decide)

theorem itoa_of_nonneg {k : Nat} (hk : k < 2 ^ 31) :
    itoa (Int32.ofNat k) = (Digits.places 10 k).reverse.map decChar := by
  have hneg : ¬ Int32.ofNat k < 0 := by
    rw [Int32.lt_iff_toInt_lt, Int32.toInt_ofNat_of_lt hk]
    exact Int.not_lt.mpr (Int.natCast_nonneg k)
  rw [itoa, if_neg hneg, itoaLoop_eq k hk]
  exact reverse_map fun d hd => decChar_ne_zero (Digits.lt_of_mem_places (by decide) hd)

theorem itoa_of_neg {k : Nat} (hk : k < 2 ^ 31) (hneg : -Int32.ofNat k < 0) :
    itoa (-Int32.ofNat k) = '-'.toUInt8 :: (Digits.places 10 k).reverse.map decChar := by
  have hmem : 0 ∉ (Digits.places 10 k).map decChar ++ ['-'.toUInt8] := by
    rw [List.mem_append, not_or]
    refine ⟨?_, by decide⟩
    intro h
    obtain ⟨d, hd, h0⟩ := List.mem_map.mp h
    exact decChar_ne_zero (Digits.lt_of_mem_places (by decide) hd) h0
  rw [itoa, if_pos hneg, Int32.neg_neg, itoaLoop_eq k hk, reverse_eq hmem, List.reverse_append, List.map_reverse]
  rfl

theorem itohex_eq (n : UInt32) : itohex n = (Digits.places 16 n.toNat).reverse.map hexChar := by
  rw [itohex, itohexLoop_eq]
  apply reverse_map
  intro d hd h0
  exact absurd (h0 ▸ (hexChar_spec (Digits.lt_of_mem_places (by decide) hd)).1) (by decide)

/-- `-n` is `n` again, and so the one digit is negative. -/
theorem itoa_minValue : itoa Int32.minValue = ['-'.toUInt8, '('.toUInt8] := by
  have hdigit : itoaLoop (-Int32.minValue) = ['('.toUInt8] := by
    rw [itoaLoop, if_neg (by decide)]
    decide
  rw [itoa, if_pos (by decide), hdigit, reverse_eq (by decide)]
  rfl

/-- A number that is not the least one is, or its negative is, a natural number below 2 ^ 31. -/
theorem eq_ofNat (hn : n ≠ Int32.minValue) : ∃ k < 2 ^ 31, if n < 0 then n = -Int32.ofNat k else n = Int32.ofNat k := by
  have hle := n.le_toInt
  have hlt := n.toInt_lt
  have hmin : n.toInt ≠ -2 ^ 31 := fun h => hn (Int32.toInt_inj.mp h)
  have hneg : n < 0 ↔ n.toInt < 0 := Int32.lt_iff_toInt_lt
  by_cases h : n.toInt < 0
  · refine ⟨(-n.toInt).toNat, by omega, ?_⟩
    rw [if_pos (hneg.mpr h), ← Int32.ofInt_eq_ofNat, Int.toNat_of_nonneg (by omega), Int32.ofInt_neg, Int32.ofInt_toInt,
      Int32.neg_neg]
  · refine ⟨n.toInt.toNat, by omega, ?_⟩
    rw [if_neg (mt hneg.mp h), ← Int32.ofInt_eq_ofNat, Int.toNat_of_nonneg (by omega), Int32.ofInt_toInt]

/-- **Every 32-bit number but the least one is read back.** -/
theorem readsBack_iff (n : Int32) : ReadsBack n ↔ n ≠ Int32.minValue := by
  constructor
  · rintro h rfl
    have hread := h.decimal
    rw [itoa_minValue] at hread
    exact absurd hread (by decide)
  · intro hn
    obtain ⟨k, hk, hnk⟩ := eq_ofNat hn
    have hdec : ∀ d ∈ (Digits.places 10 k).reverse, d < 10 := fun d hd =>
      Digits.lt_of_mem_places (by decide) (List.mem_reverse.mp hd)
    have hhex : ∀ d ∈ (Digits.places 16 n.toUInt32.toNat).reverse, d < 16 := fun d hd =>
      Digits.lt_of_mem_places (by decide) (List.mem_reverse.mp hd)
    have hne (b m : Nat) (char : Nat → UInt8) : (Digits.places b m).reverse.map char ≠ [] := by
      simp [Digits.places_ne_nil]
    constructor
    · by_cases hneg : n < 0
      · rw [if_pos hneg] at hnk
        subst hnk
        rw [itoa_of_neg hk hneg, atoi_minus hdec, Digits.value_reverse_places]
      · rw [if_neg hneg] at hnk
        subst hnk
        rw [itoa_of_nonneg hk, atoi_digits hdec, Digits.value_reverse_places]
    · rw [itohex_eq, htoi_digits hhex, Digits.value_reverse_places]
      show (UInt32.ofNat n.toUInt32.toNat).toInt32 = n
      rw [UInt32.ofNat_toNat]
      rfl
    · refine ⟨(Digits.places 10 k).reverse.map decChar, hne _ _ _, isdigit_map hdec, ?_⟩
      by_cases hneg : n < 0
      · rw [if_pos hneg] at hnk ⊢
        subst hnk
        exact itoa_of_neg hk hneg
      · rw [if_neg hneg] at hnk ⊢
        subst hnk
        exact itoa_of_nonneg hk
    · rw [itohex_eq]
      exact ⟨hne _ _ _, isxdigit_map hhex⟩

theorem not_readsBack_minValue : ¬ ReadsBack Int32.minValue := by
  intro h
  have hread := h.decimal
  rw [itoa_minValue] at hread
  exact absurd hread (by decide)

end ReadBack

end RetrOS.Libc
