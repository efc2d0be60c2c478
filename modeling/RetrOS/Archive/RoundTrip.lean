import RetrOS.Archive.Lz

/-!
# Decompression of what the compressor writes

The decompressor rebuilds the bytes that the compressor read, token by token, the bytes behind the input included: the
compressor compares them, too, so that its last match may run past the end of the input.

* `Begins` : where the tokens begin;
* `Overruns` : a token's longest match ends behind the input;
* `decompress_compress`, `lzDecompress_lzCompress` : the output is the input exactly if no token overruns.
-/

namespace RetrOS.Lz
open RetrOS.Lib

/-! ## The search -/

theorem search_isLongest {data : Nat → UInt8} {maxLen codePos window : Nat} {ps : List Nat} {best : Match}
    (hps : ∀ p ∈ ps, 1 ≤ p ∧ p ≤ window ∧ p ≤ codePos) (hbest : best.len ≤ maxLen)
    (hoffered : best.len ≠ 0 → 1 ≤ best.pos ∧ best.pos ≤ window ∧ best.pos ≤ codePos ∧
      Agrees data codePos best.pos best.len)
    (hseen : ∀ p m, 1 ≤ p → p ≤ window → p ≤ codePos → p ∉ ps → m ≤ maxLen → Agrees data codePos p m → m ≤ best.len) :
    let found := search data maxLen codePos ps best
    IsLongest data window maxLen codePos found.len ∧
      (found.len ≠ 0 → 1 ≤ found.pos ∧ found.pos ≤ window ∧ found.pos ≤ codePos ∧
        Agrees data codePos found.pos found.len) := by
  induction ps generalizing best with
  | nil =>
    refine ⟨⟨hbest, fun h => ⟨best.pos, hoffered h⟩, fun p m h1 hw hc hm hagrees => ?_⟩, hoffered⟩
    exact hseen p m h1 hw hc (List.not_mem_nil) hm hagrees
  | cons p ps ih =>
    obtain ⟨h1, hw, hc⟩ := hps p (List.mem_cons_self ..)
    have hrest : ∀ q ∈ ps, 1 ≤ q ∧ q ≤ window ∧ q ≤ codePos := fun q hq => hps q (List.mem_cons_of_mem p hq)
    have hlen : matchLength data maxLen codePos (codePos - p) ≤ maxLen := matchLength_le ..
    have hagrees : Agrees data codePos p (matchLength data maxLen codePos (codePos - p)) := agrees_matchLength data
    -- the matches at `p` are at most as long as the one that is compared with the best so far
    have hp (m : Nat) (hm : m ≤ maxLen) (h : Agrees data codePos p m) :
        m ≤ matchLength data maxLen codePos (codePos - p) := le_matchLength hm h
    simp only [search]
    split
    · next hlt =>
      split
      · next hmax =>
        refine ⟨⟨hlen, fun _ => ⟨p, h1, hw, hc, hagrees⟩, fun q m _ _ _ hm _ => ?_⟩, fun _ => ⟨h1, hw, hc, hagrees⟩⟩
        show m ≤ matchLength data maxLen codePos (codePos - p)
        omega
      · refine ih hrest hlen (fun _ => ⟨h1, hw, hc, hagrees⟩) fun q m hq1 hqw hqc hq hm h => ?_
        by_cases heq : q = p
        · exact hp m hm (heq ▸ h)
        · have hold := hseen q m hq1 hqw hqc (by simp [heq, hq]) hm h
          show m ≤ matchLength data maxLen codePos (codePos - p)
          omega
    · next hle =>
      refine ih hrest hbest hoffered fun q m hq1 hqw hqc hq hm h => ?_
      by_cases heq : q = p
      · have hlen' := hp m hm (heq ▸ h)
        omega
      · exact hseen q m hq1 hqw hqc (by simp [heq, hq]) hm h

/-- The longest match at a position. -/
abbrev Longest (input : Input) (width codePos len : Nat) : Prop :=
  IsLongest input.data (maxPPos width - 1) (maxPLen width) codePos len

theorem longestMatch_spec (input : Input) (width codePos : Nat) :
    Longest input width codePos (longestMatch input width codePos).len ∧
      ((longestMatch input width codePos).len ≠ 0 →
        1 ≤ (longestMatch input width codePos).pos ∧ (longestMatch input width codePos).pos ≤ maxPPos width - 1 ∧
        (longestMatch input width codePos).pos ≤ codePos ∧
        Agrees input.data codePos (longestMatch input width codePos).pos (longestMatch input width codePos).len) := by
  refine search_isLongest (fun p hp => ?_) (Nat.zero_le _) (fun h => absurd rfl h) fun p m h1 hw hc hp _ _ => ?_
  · rw [List.mem_range'_1] at hp
    omega
  · rw [List.mem_range'_1] at hp
    omega

theorem longestMatch_zero_pos {input : Input} {width codePos : Nat}
    (h : (longestMatch input width codePos).len = 0) : (longestMatch input width codePos).pos = 0 := by
  have hsearch (ps : List Nat) (best : Match) (hbest : best.len = 0 → best.pos = 0) :
      (search input.data (maxPLen width) codePos ps best).len = 0 →
        (search input.data (maxPLen width) codePos ps best).pos = 0 := by
    induction ps generalizing best with
    | nil => exact hbest
    | cons p ps ih =>
      simp only [search]
      split
      · next hlt =>
        split
        · exact fun hzero => absurd hzero (by simp only; omega)
        · exact ih _ fun hzero => absurd hzero (by simp only; omega)
      · exact ih _ hbest
  exact hsearch _ _ (fun _ => rfl) h

/-! ## Where the tokens begin -/

/-- A token begins at `c`: the first one at 0, the next one behind the longest match and the byte after it. -/
inductive Begins (input : Input) (width : Nat) : Nat → Prop
  | first : Begins input width 0
  | next {c len : Nat} : Begins input width c → c < input.size → Longest input width c len →
      Begins input width (c + len + 1)

/-- The longest match of a token ends behind the input. -/
def Overruns (input : Input) (width : Nat) : Prop :=
  ∃ c len, Begins input width c ∧ c < input.size ∧ Longest input width c len ∧ input.size < c + len

/-- The position behind the token that begins at `c`; a match that ends with the input gives up its last byte. -/
def behindToken (input : Input) (c len : Nat) : Nat :=
  if c + len = input.size ∧ len ≠ 0 then input.size else c + len + 1

/-! ## A token -/

theorem toNat_word {width p l : Nat} (hwidth : width ≤ 16) (hp : p < 2 ^ (16 - width)) (hl : l < 2 ^ width) :
    (BitVec.ofNat 16 p <<< width ||| BitVec.ofNat 16 l).toNat = 2 ^ width * p + l := by
  have hsplit : 2 ^ (16 - width) * 2 ^ width = 2 ^ 16 := by rw [← Nat.pow_add, Nat.sub_add_cancel hwidth]
  have hword : 2 ^ width * p + l < 2 ^ 16 := by
    have hmul := Nat.mul_le_mul_left (2 ^ width) (Nat.succ_le_of_lt hp)
    rw [Nat.mul_comm (2 ^ width) (2 ^ (16 - width)), hsplit, Nat.mul_succ] at hmul
    omega
  have hple : p ≤ 2 ^ width * p := Nat.le_mul_of_pos_left p (Nat.two_pow_pos width)
  rw [BitVec.toNat_or, BitVec.toNat_shiftLeft, BitVec.toNat_ofNat, BitVec.toNat_ofNat,
    Nat.mod_eq_of_lt (show p < 2 ^ 16 by omega), Nat.mod_eq_of_lt (show l < 2 ^ 16 by omega), Nat.shiftLeft_eq,
    Nat.mul_comm p, Nat.mod_eq_of_lt (by omega), Nat.two_pow_add_eq_or_of_lt hl]

/-- The distance and the length are read back. -/
theorem word_fields {width p l : Nat} (hwidth : width < 16) (hp : p < 2 ^ (16 - width)) (hl : l < 2 ^ width) :
    ((BitVec.ofNat 16 p <<< width ||| BitVec.ofNat 16 l) >>> width).toNat = p ∧
      ((BitVec.ofNat 16 p <<< width ||| BitVec.ofNat 16 l) &&& ((1#16 <<< width) - 1)).toNat = l := by
  have hmask : ((1#16 <<< width) - 1).toNat = 2 ^ width - 1 := by
    have hpow : 2 ^ width < 2 ^ 16 := Nat.pow_lt_pow_right (by decide) hwidth
    have hone : 1 ≤ 2 ^ width := Nat.one_le_two_pow
    have hshift : (1#16 <<< width).toNat = 2 ^ width := by
      rw [BitVec.toNat_shiftLeft, Nat.shiftLeft_eq]
      exact (Nat.mod_eq_of_lt (by simpa using hpow)).trans (Nat.one_mul _)
    rw [BitVec.toNat_sub_of_le (by rw [BitVec.le_def, hshift]; exact hone), hshift]
    rfl
  constructor
  · rw [BitVec.toNat_ushiftRight, toNat_word (Nat.le_of_lt hwidth) hp hl, Nat.shiftRight_eq_div_pow,
      Nat.mul_add_div (Nat.two_pow_pos width), Nat.div_eq_of_lt hl, Nat.add_zero]
  · rw [BitVec.toNat_and, toNat_word (Nat.le_of_lt hwidth) hp hl, hmask, Nat.and_two_pow_sub_one_eq_mod, Nat.mul_add_mod,
      Nat.mod_eq_of_lt hl]

/-- One turn of the decompressor on a token that points `p` places back for `n` bytes. -/
theorem decompressLoop_pointer {data : Nat → UInt8} {width size c p n : Nat} {byte : UInt8} {comp : List UInt8}
    (hwidth : width < 16) (hc : c < size) (hp : 1 ≤ p) (hpc : p ≤ c) (hpmax : p < 2 ^ (16 - width))
    (hn : n < 2 ^ width) (hagrees : Agrees data c p (n + 1)) (hbyte : byte = data (c + (n + 1))) :
    decompressLoop width size
        (bytes16 (BitVec.ofNat 16 p <<< width ||| BitVec.ofNat 16 n) ++ [byte] ++ comp) (Slice.read data 0 c) =
      decompressLoop width size comp (Slice.read data 0 (c + (n + 1) + 1)) := by
  obtain ⟨hpos, hlen⟩ := word_fields hwidth hpmax hn
  have hlt : (Slice.read data 0 c).length < size := by rw [Slice.length_read]; exact hc
  have hlast : Slice.read data 0 (c + (n + 1)) ++ [byte] = Slice.read data 0 (c + (n + 1) + 1) := by
    rw [hbyte, Slice.read_add data 0 (c + (n + 1)) 1, Nat.zero_add]
    rfl
  simp only [bytes16, List.cons_append, List.nil_append, decompressLoop, word16_bytes, if_pos hlt, hpos, hlen]
  rw [if_pos (by omega), copyBack_read data hp hpc hagrees, Option.bind_some, hlast]

/-- One turn of the decompressor on a token without a pointer. -/
theorem decompressLoop_literal {data : Nat → UInt8} {width size c : Nat} {byte : UInt8} {comp : List UInt8}
    (hc : c < size) (hbyte : byte = data c) :
    decompressLoop width size (bytes16 0 ++ [byte] ++ comp) (Slice.read data 0 c) =
      decompressLoop width size comp (Slice.read data 0 (c + 1)) := by
  have hlt : (Slice.read data 0 c).length < size := by rw [Slice.length_read]; exact hc
  have hlast : Slice.read data 0 c ++ [byte] = Slice.read data 0 (c + 1) := by
    rw [hbyte, Slice.read_add data 0 c 1, Nat.zero_add]
    rfl
  have hzero : ((0 : BitVec 16) >>> width).toNat = 0 := by simp
  simp only [bytes16, List.cons_append, List.nil_append, decompressLoop, word16_bytes, if_pos hlt, hzero]
  rw [if_neg (by simp), copyBack, Option.bind_some, hlast]

theorem maxPPos_eq (width : Nat) : maxPPos width = 2 ^ (16 - width) := by
  rw [maxPPos, Nat.shiftLeft_eq, Nat.one_mul]

theorem maxPLen_eq (width : Nat) : maxPLen width = 2 ^ width := by rw [maxPLen, Nat.shiftLeft_eq, Nat.one_mul]

/-- The decompressor reads what one turn of the compressor writes. -/
theorem decompressLoop_token {input : Input} {width c : Nat} {comp : List UInt8} (hwidth : 1 ≤ width ∧ width < 16)
    (hc : c < input.size) :
    let m := longestMatch input width c
    let out := token width input.size (c + m.len) m
    decompressLoop width input.size (bytes16 out.1 ++ [input.data out.2] ++ comp) (Slice.read input.data 0 c) =
      decompressLoop width input.size comp (Slice.read input.data 0 (behindToken input c m.len)) := by
  obtain ⟨hlongest, hoffered⟩ := longestMatch_spec input width c
  have hzero : (longestMatch input width c).len = 0 → (longestMatch input width c).pos = 0 := longestMatch_zero_pos
  have hcap : (longestMatch input width c).len ≤ 2 ^ width := maxPLen_eq width ▸ hlongest.le_cap
  have hwindow : maxPPos width - 1 < 2 ^ (16 - width) := by
    rw [maxPPos_eq]
    exact Nat.sub_lt (Nat.two_pow_pos _) Nat.one_pos
  intro m out
  change Longest input width c m.len at hlongest
  change m.len ≠ 0 → 1 ≤ m.pos ∧ m.pos ≤ maxPPos width - 1 ∧ m.pos ≤ c ∧ Agrees input.data c m.pos m.len at hoffered
  change m.len = 0 → m.pos = 0 at hzero
  change m.len ≤ 2 ^ width at hcap
  unfold behindToken
  by_cases hend : c + m.len = input.size ∧ m.len ≠ 0
  · obtain ⟨h1, hw, hpc, hagrees⟩ := hoffered hend.2
    rw [if_pos hend]
    by_cases hone : m.len = 1
    · have hout : out = (0, c) := by
        simp only [out, token]
        rw [if_pos hend, if_pos hone, hone, Nat.add_sub_cancel]
      rw [hout, decompressLoop_literal hc rfl, show c + 1 = input.size by omega]
    · have hout : out = (BitVec.ofNat 16 m.pos <<< width ||| BitVec.ofNat 16 (m.len - 2), c + m.len - 1) := by
        simp only [out, token]
        rw [if_pos hend, if_neg hone]
      rw [hout, @decompressLoop_pointer input.data width input.size c m.pos _ _ comp hwidth.2 hc h1 hpc (by omega)
        (by omega) (hagrees.mono (by omega)) (by congr 1; omega), show c + (m.len - 2 + 1) + 1 = input.size by omega]
  · rw [if_neg hend]
    by_cases hlen : m.len = 0
    · have hout : out = (0, c) := by
        simp only [out, token]
        rw [if_neg hend, hzero hlen, if_neg (not_not.mpr hlen), hlen, Nat.add_zero]
        simp
      rw [hout, decompressLoop_literal hc rfl, hlen, Nat.add_zero]
    · obtain ⟨h1, hw, hpc, hagrees⟩ := hoffered hlen
      have hout : out = (BitVec.ofNat 16 m.pos <<< width ||| BitVec.ofNat 16 (m.len - 1), c + m.len) := by
        simp only [out, token]
        rw [if_neg hend, if_pos hlen]
      rw [hout, @decompressLoop_pointer input.data width input.size c m.pos _ _ comp hwidth.2 hc h1 hpc (by omega)
        (by omega) (hagrees.mono (by omega)) (by congr 1; omega), show c + (m.len - 1 + 1) = c + m.len by omega]

/-! ## The whole input -/

theorem compressLoop_end {input : Input} {width c : Nat} (n : Nat) (hc : input.size ≤ c) :
    compressLoop input width n c = [] := by
  cases n with
  | zero => rfl
  | succ n => rw [compressLoop, if_neg (by omega)]

theorem decompressLoop_end {width size : Nat} {out : List UInt8} (hout : size ≤ out.length) :
    decompressLoop width size [] out = some out := by
  rw [decompressLoop, if_neg (by omega)]
  rintro lo hi byte comp ⟨⟩

theorem decompressLoop_turn {input : Input} {width c : Nat} (hwidth : 1 ≤ width ∧ width < 16) (hc : c < input.size)
    (n : Nat) :
    let len := (longestMatch input width c).len
    decompressLoop width input.size (compressLoop input width (n + 1) c) (Slice.read input.data 0 c) =
      decompressLoop width input.size (compressLoop input width n (c + len + 1))
        (Slice.read input.data 0 (behindToken input c len)) := by
  rw [compressLoop, if_pos hc]
  exact decompressLoop_token hwidth hc

/-- Turns that are not needed change nothing. -/
theorem compressLoop_congr {input : Input} {width : Nat} {n m c : Nat} (hn : input.size ≤ c + n)
    (hm : input.size ≤ c + m) : compressLoop input width n c = compressLoop input width m c := by
  induction n generalizing m c with
  | zero => rw [compressLoop_end m (by omega), compressLoop_end 0 (by omega)]
  | succ n ih =>
    cases m with
    | zero => rw [compressLoop_end 0 (by omega), compressLoop_end (n + 1) (by omega)]
    | succ m =>
      rw [compressLoop, compressLoop]
      simp only [ih (m := m) (c := c + (longestMatch input width c).len + 1) (by omega) (by omega)]

theorem behindToken_of_lt {input : Input} {c len : Nat} (h : c + len + 1 < input.size) :
    behindToken input c len = c + len + 1 := if_neg fun hend => by omega

/-- Every token that begins in the input is read, with everything before it rebuilt. -/
theorem decompressLoop_begins {input : Input} {width c : Nat} (hwidth : 1 ≤ width ∧ width < 16)
    (hbegins : Begins input width c) (hc : c < input.size) :
    decompressLoop width input.size (compressLoop input width input.size 0) [] =
      decompressLoop width input.size (compressLoop input width input.size c) (Slice.read input.data 0 c) := by
  induction hbegins with
  | first => rfl
  | @next c len hbegins hlt hlongest ih =>
    obtain rfl := hlongest.unique (longestMatch_spec input width c).1
    obtain ⟨n, hn⟩ : ∃ n, input.size = n + 1 := ⟨input.size - 1, by omega⟩
    rw [ih hlt, compressLoop_congr (m := n + 1) (by omega) (by omega), decompressLoop_turn hwidth hlt,
      behindToken_of_lt hc, compressLoop_congr (m := input.size) (by omega) (by omega)]

/-- Without a token that overruns the loop ends with the input. -/
theorem decompressLoop_compressLoop {input : Input} {width : Nat} (hwidth : 1 ≤ width ∧ width < 16)
    (hover : ¬ Overruns input width) {n c : Nat} (hn : input.size ≤ c + n) (hc : c ≤ input.size)
    (hbegins : c < input.size → Begins input width c) :
    decompressLoop width input.size (compressLoop input width n c) (Slice.read input.data 0 c) =
      some (Slice.read input.data 0 input.size) := by
  have hdone (n : Nat) {c : Nat} (hc : input.size ≤ c) :
      decompressLoop width input.size (compressLoop input width n c) (Slice.read input.data 0 input.size) =
        some (Slice.read input.data 0 input.size) := by
    rw [compressLoop_end n hc]
    exact decompressLoop_end (Nat.le_of_eq (Slice.length_read ..).symm)
  induction n generalizing c with
  | zero =>
    obtain rfl : c = input.size := by omega
    exact hdone 0 (Nat.le_refl _)
  | succ n ih =>
    rcases Nat.lt_or_ge c input.size with hlt | hge
    · have hlongest := (longestMatch_spec input width c).1
      have hinside : c + (longestMatch input width c).len ≤ input.size := by
        by_contra hbehind
        exact hover ⟨c, _, hbegins hlt, hlt, hlongest, by omega⟩
      rw [decompressLoop_turn hwidth hlt]
      by_cases hend : c + (longestMatch input width c).len = input.size
      · rw [behindToken, if_pos ⟨hend, by omega⟩]
        exact hdone n (by omega)
      · rw [behindToken, if_neg fun h => hend h.1]
        exact ih (by omega) (by omega) fun _ => .next (hbegins hlt) hlt hlongest
    · obtain rfl : c = input.size := by omega
      exact hdone (n + 1) hge

theorem decompress_eq (input : Input) {width : Nat} (hwidth : width < 256) (hsize : input.size < 2 ^ 32) :
    decompress (compress width input) =
      decompressLoop width input.size (compressLoop input width input.size 0) [] := by
  have hbyte : (UInt8.ofNat width).toNat = width := UInt8.toNat_ofNat_of_lt' hwidth
  simp only [compress, bytes32, List.cons_append, List.nil_append, decompress, word32_bytes, hbyte,
    BitVec.toNat_ofNat, Nat.mod_eq_of_lt hsize]

/-- The output is the input exactly if no match runs past its end. -/
theorem decompress_compress {input : Input} {width : Nat} (hwidth : 5 ≤ width ∧ width ≤ 8)
    (hsize : input.size < 2 ^ 32) :
    decompress (compress width input) = some input.bytes ↔ ¬ Overruns input width := by
  have hwidth' : 1 ≤ width ∧ width < 16 := ⟨by omega, by omega⟩
  rw [decompress_eq input (by omega) hsize, ← input.read_data]
  constructor
  · rintro hsame ⟨c, len, hbegins, hc, hlongest, hover⟩
    obtain rfl := hlongest.unique (longestMatch_spec input width c).1
    obtain ⟨n, hn⟩ : ∃ n, input.size = n + 1 := ⟨input.size - 1, by omega⟩
    -- the token that overruns is the last one, and the output is longer than the input
    rw [decompressLoop_begins hwidth' hbegins hc, compressLoop_congr (m := n + 1) (by omega) (by omega),
      decompressLoop_turn hwidth' hc, behindToken, if_neg fun hend => by omega, compressLoop_end n (by omega),
      decompressLoop_end (by rw [Slice.length_read]; omega)] at hsame
    have hlen := congrArg List.length (Option.some.inj hsame)
    rw [Slice.length_read, Slice.length_read] at hlen
    omega
  · exact fun hover => decompressLoop_compressLoop hwidth' hover (by omega) (Nat.zero_le _) fun _ => .first

/-- The same for the width that the interface chooses, and for every width that it can choose. -/
theorem lzDecompress_lzCompress {input : Input} (hsize : input.size < 2 ^ 32) :
    (∀ findBest, lzDecompress (lzCompress input findBest) = some input.bytes ↔
      ¬ Overruns input (ptrLenWidth input findBest)) ∧
    ∀ width, 5 ≤ width → width ≤ 8 →
      (decompress (compress width input) = some input.bytes ↔ ¬ Overruns input width) :=
  ⟨fun findBest => decompress_compress (ptrLenWidth_bounds input findBest) hsize,
    fun _ h5 h8 => decompress_compress ⟨h5, h8⟩ hsize⟩

/-- `abab` and a zero behind it: the second half is one token, which ends with the input. -/
theorem lzDecompress_lzCompress_repeated : ¬ Overruns ⟨[97, 98, 97, 98], fun _ => 0⟩ 5 :=
  ((lzDecompress_lzCompress (by decide)).2 5 (by decide) (by decide)).1 (by decide)

/-- `aa`, with more of the same behind it in memory: 34 bytes come back. -/
theorem lzDecompress_overrun : lzDecompress (lzCompress ⟨[97, 97], fun _ => 97⟩ false) ≠ some [97, 97] := by
  decide

end RetrOS.Lz
