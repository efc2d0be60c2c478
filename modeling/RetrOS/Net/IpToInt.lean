import RetrOS.Lib.Fields

/-!
# Addresses as text (`net/utils.c`)

`ip_to_int` reads digits into an `int` that wraps, four times, with a dot behind the first three. It neither asks for a
digit nor looks at what stops the last number.

* `readNumber`, `ipToInt` : the source, on the characters up to the `NUL`;
* `Dotted` : the texts of addresses; `Converts` : what `ip_to_int` should do with a text;
* `ipToInt_of_fields`, `ipToInt_of_none` : what it does;
* `Unambiguous` : the texts with which it does what it should (`ipToInt_iff`).

How many digits a number may have is a parameter.
-/

namespace RetrOS.Net

open RetrOS.Lib

/-! ## The source -/

abbrev dot : UInt8 := 46

def isDigit (c : UInt8) : Bool := 48 ≤ c && c ≤ 57

/-- `n *= 10; n += c - '0'`. -/
def addDigit (n : BitVec 32) (c : UInt8) : BitVec 32 := n * 10 + (c.toBitVec.signExtend 32 - 48)

/-- The inner loop: `n`, and the text from the character that stops it on. -/
def readNumber : List UInt8 → BitVec 32 → BitVec 32 × List UInt8
  | [], n => (n, [])
  | c :: rest, n => if isDigit c then readNumber rest (addDigit n c) else (n, c :: rest)

/-- The outer loop, with so many dots left to come. -/
def ipToIntLoop : Nat → List UInt8 → BitVec 32 → BitVec 32
  | 0, ip, v =>
    let (n, _) := readNumber ip 0
    if n.toInt ≥ 256 then 0 else v * 256 + n
  | left + 1, ip, v =>
    match readNumber ip 0 with
    | (_, []) => 0
    | (n, c :: rest) => if c ≠ dot then 0 else if n.toInt ≥ 256 then 0 else ipToIntLoop left rest (v * 256 + n)

def ipToInt (ip : List UInt8) : BitVec 32 := ipToIntLoop 3 ip 0

/-! ## Addresses -/

/-- The number that some digits stand for. -/
def decimal (part : List UInt8) : Nat := part.foldl (fun n c => n * 10 + (c.toNat - 48)) 0

/-- The number as an `int`. -/
def wrapped (part : List UInt8) : BitVec 32 := BitVec.ofNat 32 (decimal part)

/-- `a.b.c.d` in 32 bits. -/
def value (parts : List (List UInt8)) : BitVec 32 := parts.foldl (fun v part => v * 256 + wrapped part) 0

/-- A decimal number from 0 to 255 of at most `k` digits. -/
structure Octet (k : Nat) (part : List UInt8) : Prop where
  nonempty : part ≠ []
  digits : ∀ c ∈ part, isDigit c
  short : part.length ≤ k
  le : decimal part ≤ 255

/-- Exactly four of them, with dots between them. -/
def Dotted (k : Nat) (ip : List UInt8) (parts : List (List UInt8)) : Prop :=
  parts.length = 4 ∧ (∀ part ∈ parts, Octet k part) ∧ ip = joined dot parts []

/-- The value of an address, zero for any other text. -/
structure Converts (k : Nat) (ip : List UInt8) : Prop where
  address : ∀ parts, Dotted k ip parts → ipToInt ip = value parts
  other : (¬ ∃ parts, Dotted k ip parts) → ipToInt ip = 0

/-- The texts with which it does that: if the text starts with three dots, each behind digits, and the numbers before
the dots and behind the last one are all below 256 as an `int`, then it is an address or its value is zero. A number may
have no digits, and anything may follow the last one. -/
def Unambiguous (k : Nat) (ip : List UInt8) : Prop :=
  ∀ parts rest, Fields isDigit dot 3 ip parts rest → (∀ part ∈ parts, (wrapped part).toInt < 256) →
    ((∀ part ∈ parts, Octet k part) ∧ rest = []) ∨ value parts = 0

/-! ## Digits -/

theorem not_isDigit_dot : ¬ isDigit dot := by decide

theorem addDigit_ofNat {c : UInt8} (hc : isDigit c) (m : Nat) :
    addDigit (BitVec.ofNat 32 m) c = BitVec.ofNat 32 (m * 10 + (c.toNat - 48)) := by
  obtain ⟨hlow, hhigh⟩ : 48 ≤ c.toNat ∧ c.toNat ≤ 57 := by
    simpa [isDigit, UInt8.le_iff_toNat_le] using hc
  have hmsb : c.toBitVec.msb = false := by
    rw [BitVec.msb_eq_decide]
    exact decide_eq_false (by change ¬ 128 ≤ c.toNat; omega)
  have hchar : (c.toBitVec.signExtend 32).toNat = c.toNat := by
    rw [BitVec.signExtend_eq_setWidth_of_msb_false hmsb, BitVec.toNat_setWidth]
    exact Nat.mod_eq_of_lt (by change c.toNat < _; omega)
  apply BitVec.eq_of_toNat_eq
  rw [addDigit, BitVec.toNat_add, BitVec.toNat_mul, BitVec.toNat_sub, hchar, BitVec.toNat_ofNat, BitVec.toNat_ofNat]
  change (m % 2 ^ 32 * 10 % 2 ^ 32 + (2 ^ 32 - 48 + c.toNat) % 2 ^ 32) % 2 ^ 32 = _
  omega

theorem readNumber_eq (ip : List UInt8) (m : Nat) : readNumber ip (BitVec.ofNat 32 m) =
    (BitVec.ofNat 32 ((ip.takeWhile isDigit).foldl (fun n c => n * 10 + (c.toNat - 48)) m), ip.dropWhile isDigit) := by
  induction ip generalizing m with
  | nil => rfl
  | cons c rest ih =>
    by_cases hc : isDigit c
    · rw [readNumber, if_pos hc, addDigit_ofNat hc, ih, List.takeWhile_cons_of_pos hc, List.dropWhile_cons_of_pos hc,
        List.foldl_cons]
    · rw [readNumber, if_neg hc, List.takeWhile_cons_of_neg hc, List.dropWhile_cons_of_neg hc, List.foldl_nil]

theorem readNumber_zero (ip : List UInt8) :
    readNumber ip 0 = (wrapped (ip.takeWhile isDigit), ip.dropWhile isDigit) :=
  readNumber_eq ip 0

theorem Octet.wrapped_lt {k : Nat} {part : List UInt8} (h : Octet k part) : (wrapped part).toInt < 256 := by
  have hle := h.le
  rw [wrapped, BitVec.toInt_eq_toNat_cond, BitVec.toNat_ofNat]
  omega

/-! ## What it does -/

section
variable {left : Nat} {ip rest : List UInt8} {parts : List (List UInt8)}

theorem ipToIntLoop_of_fields (h : Fields isDigit dot left ip parts rest) (v : BitVec 32) :
    ipToIntLoop left ip v = if ∀ part ∈ parts, (wrapped part).toInt < 256 then
      parts.foldl (fun v part => v * 256 + wrapped part) v else 0 := by
  induction left generalizing ip parts v with
  | zero =>
    obtain ⟨rfl, rfl⟩ := Fields.zero_iff.mp h
    simp only [ipToIntLoop, readNumber_zero, List.mem_singleton, forall_eq, List.foldl_cons, List.foldl_nil]
    by_cases hn : (wrapped (ip.takeWhile isDigit)).toInt < 256
    · rw [if_pos hn, if_neg (Int.not_le.mpr hn)]
    · rw [if_neg hn, if_pos (Int.not_lt.mp hn)]
  | succ left ih =>
    obtain ⟨ip', parts', hdrop, h', rfl⟩ := (Fields.succ_iff not_isDigit_dot).mp h
    simp only [ipToIntLoop, readNumber_zero, hdrop, ne_eq, not_true_eq_false, if_false, List.forall_mem_cons,
      List.foldl_cons]
    by_cases hn : (wrapped (ip.takeWhile isDigit)).toInt < 256
    · rw [if_neg (Int.not_le.mpr hn), ih h']
      simp only [hn, true_and]
    · rw [if_pos (Int.not_lt.mp hn), if_neg fun hall => hn hall.1]

theorem ipToIntLoop_of_none (h : ∀ parts rest, ¬ Fields isDigit dot left ip parts rest) (v : BitVec 32) :
    ipToIntLoop left ip v = 0 := by
  induction left generalizing ip v with
  | zero => exact absurd (Fields.zero_iff.mpr ⟨rfl, rfl⟩) (h _ _)
  | succ left ih =>
    rw [ipToIntLoop, readNumber_zero]
    cases hdrop : ip.dropWhile isDigit with
    | nil => rfl
    | cons c ip' =>
      dsimp only
      split_ifs with hc hn
      · rfl
      · rfl
      · rw [ne_eq, not_not] at hc
        subst hc
        exact ih (fun parts rest h' => h _ _ ((Fields.succ_iff not_isDigit_dot).mpr ⟨ip', parts, hdrop, h', rfl⟩)) _

theorem ipToInt_of_fields (h : Fields isDigit dot 3 ip parts rest) :
    ipToInt ip = if ∀ part ∈ parts, (wrapped part).toInt < 256 then value parts else 0 :=
  ipToIntLoop_of_fields h 0

theorem ipToInt_of_none (h : ∀ parts rest, ¬ Fields isDigit dot 3 ip parts rest) : ipToInt ip = 0 :=
  ipToIntLoop_of_none h 0

variable {k : Nat}

/-- An address is a text whose fields are octets, with nothing behind them. -/
theorem dotted_iff : Dotted k ip parts ↔ Fields isDigit dot 3 ip parts [] ∧ ∀ part ∈ parts, Octet k part := by
  constructor
  · rintro ⟨hcount, hoctets, htext⟩
    exact ⟨⟨hcount, fun part hpart => (hoctets part hpart).digits, by simp, htext⟩, hoctets⟩
  · rintro ⟨h, hoctets⟩
    exact ⟨h.count, hoctets, h.text⟩

theorem converts_iff : Converts k ip ↔ Unambiguous k ip := by
  constructor
  · intro h parts rest hfields hlt
    by_cases haddress : (∀ part ∈ parts, Octet k part) ∧ rest = []
    · exact .inl haddress
    right
    have hnone : ¬ ∃ parts, Dotted k ip parts := by
      rintro ⟨parts', hdotted⟩
      obtain ⟨hfields', hoctets⟩ := dotted_iff.mp hdotted
      obtain ⟨rfl, rfl⟩ := hfields.unique not_isDigit_dot hfields'
      exact haddress ⟨hoctets, rfl⟩
    rw [← h.other hnone, ipToInt_of_fields hfields, if_pos hlt]
  · intro h
    refine ⟨fun parts hdotted => ?_, fun hnone => ?_⟩
    · obtain ⟨hfields, hoctets⟩ := dotted_iff.mp hdotted
      rw [ipToInt_of_fields hfields, if_pos fun part hpart => (hoctets part hpart).wrapped_lt]
    · by_cases hfields : ∃ parts rest, Fields isDigit dot 3 ip parts rest
      · obtain ⟨parts, rest, hfields⟩ := hfields
        rw [ipToInt_of_fields hfields]
        split_ifs with hlt
        · rcases h parts rest hfields hlt with ⟨hoctets, rfl⟩ | hzero
          · exact absurd ⟨parts, dotted_iff.mpr ⟨hfields, hoctets⟩⟩ hnone
          · exact hzero
        · rfl
      · exact ipToInt_of_none fun parts rest h => hfields ⟨parts, rest, h⟩

end

/-- **Exactly** the unambiguous texts are converted as they should be. -/
theorem ipToInt_iff (k : Nat) (ip : List UInt8) : Converts k ip ↔ Unambiguous k ip := converts_iff

/-- `1..2.3` is taken for 1.0.2.3. -/
theorem ipToInt_empty : ¬ ∃ k, Converts k [49, 46, 46, 50, 46, 51] := by
  rintro ⟨k, h⟩
  have hfields : Fields isDigit dot 3 [49, 46, 46, 50, 46, 51] [[49], [], [50], [51]] [] :=
    ⟨rfl, by simp [isDigit], by simp, rfl⟩
  rcases converts_iff.mp h _ _ hfields (by decide) with ⟨hoctets, -⟩ | hzero
  · exact (hoctets [] (by simp)).nonempty rfl
  · exact absurd hzero (by decide)

end RetrOS.Net
