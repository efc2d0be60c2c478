import RetrOS.Lib.LittleEndian
import RetrOS.Lib.Window
import Mathlib.Algebra.GroupWithZero.Nat

/-!
# The LZ compressor (`lib/lz.c`)

A token is a 16-bit word, a distance and a length of `ptr_len_width` bits, and a byte. Positions are numbers; an
allocation succeeds, and the buffers lie apart and have room for what is written to them.

* `compress` : `__lz_compress`, with the search for the longest match;
* `decompress` : `__lz_decompress`;
* `Input.data` : what the compressor can read, the input and the bytes that follow it.
-/

namespace RetrOS.Lz
open RetrOS.Lib

/-- The input, and the memory behind it. -/
structure Input where
  bytes : List UInt8
  behind : Nat → UInt8

namespace Input

def size (input : Input) : Nat := input.bytes.length

/-- `input->data[i]` -/
def data (input : Input) (i : Nat) : UInt8 := (input.bytes[i]?).getD (input.behind (i - input.size))

theorem read_data (input : Input) : Slice.read input.data 0 input.size = input.bytes := by
  refine List.ext_getElem (Slice.length_read ..) fun i h1 h2 => ?_
  rw [Slice.getElem_read, Nat.zero_add, data, List.getElem?_eq_getElem h2, Option.getD_some]

end Input

/-! ## Matches -/

/-- How many bytes from `look_a` and from `look_b` on are the same, up to a bound. -/
def matchLength (data : Nat → UInt8) : Nat → Nat → Nat → Nat
  | 0, _, _ => 0
  | n + 1, lookA, lookB => if data lookA = data lookB then matchLength data n (lookA + 1) (lookB + 1) + 1 else 0

theorem matchLength_le (data : Nat → UInt8) (n a b : Nat) : matchLength data n a b ≤ n := by
  induction n generalizing a b with
  | zero => exact Nat.le_refl 0
  | succ n ih =>
    rw [matchLength]
    split
    · exact Nat.succ_le_succ (ih _ _)
    · exact Nat.zero_le _

theorem agrees_matchLength (data : Nat → UInt8) {n c p : Nat} :
    Agrees data c p (matchLength data n c (c - p)) := by
  have h (n : Nat) : ∀ a b k, k < matchLength data n a b → data (b + k) = data (a + k) := by
    induction n with
    | zero => exact fun a b k hk => absurd hk (Nat.not_lt_zero k)
    | succ n ih =>
      intro a b k hk
      rw [matchLength] at hk
      split at hk
      · next heq =>
        cases k with
        | zero => exact heq.symm
        | succ k =>
          have hrest := ih (a + 1) (b + 1) k (by omega)
          rwa [show b + 1 + k = b + (k + 1) by omega, show a + 1 + k = a + (k + 1) by omega] at hrest
      · exact absurd hk (Nat.not_lt_zero k)
  exact fun k hk => h n c (c - p) k hk

theorem le_matchLength {data : Nat → UInt8} {n c p m : Nat} (hm : m ≤ n) (h : Agrees data c p m) :
    m ≤ matchLength data n c (c - p) := by
  have hle (n : Nat) : ∀ a b m, m ≤ n → (∀ k < m, data (b + k) = data (a + k)) → m ≤ matchLength data n a b := by
    induction n with
    | zero => exact fun a b m hm _ => hm
    | succ n ih =>
      intro a b m hm hagrees
      cases m with
      | zero => exact Nat.zero_le _
      | succ m =>
        have hrest : m ≤ matchLength data n (a + 1) (b + 1) := by
          refine ih (a + 1) (b + 1) m (by omega) fun k hk => ?_
          have hk' := hagrees (k + 1) (by omega)
          rwa [show b + (k + 1) = b + 1 + k by omega, show a + (k + 1) = a + 1 + k by omega] at hk'
        have h0 : data a = data b := (hagrees 0 (Nat.succ_pos m)).symm
        rw [matchLength, if_pos h0]
        exact Nat.succ_le_succ hrest
  exact hle n c (c - p) m hm h

/-! ## The width of a length -/

/-- The length of the first match that is found going back from a position. -/
def firstMatch (input : Input) (codePos : Nat) : Nat :=
  (((List.range' 1 codePos).map fun p => matchLength input.data (input.size - codePos) codePos (codePos - p)).find?
    fun len => len > 0).getD 0

/-- `estimate_best_ptr_len_width`; `total_match_length` is a `uint32_t`. -/
def estimateBestPtrLenWidth (input : Input) : Nat :=
  let lengths := ((List.range' 1 (input.size - 1)).map (firstMatch input)).filter fun len => len > 0
  let total := lengths.sum % 2 ^ 32
  let count := lengths.length
  if count = 0 then 5
  else
    let avg := total / count
    if avg ≥ 128 then 8
    else if avg ≥ 64 then 7
    else if avg ≥ 32 then 6
    else 5

theorem estimateBestPtrLenWidth_bounds (input : Input) :
    5 ≤ estimateBestPtrLenWidth input ∧ estimateBestPtrLenWidth input ≤ 8 := by
  simp only [estimateBestPtrLenWidth]
  split_ifs <;> decide

/-! ## Compression -/

def maxPPos (width : Nat) : Nat := 1 <<< (16 - width)

def maxPLen (width : Nat) : Nat := 1 <<< width

/-- `p_pos` and `p_len` -/
structure Match where
  pos : Nat
  len : Nat
  deriving DecidableEq

/-- The loop over `temp_p_pos`; it ends at the first match of maximal length. -/
def search (data : Nat → UInt8) (maxLen codePos : Nat) : List Nat → Match → Match
  | [], best => best
  | p :: ps, best =>
    let len := matchLength data maxLen codePos (codePos - p)
    if len > best.len then
      if len = maxLen then ⟨p, len⟩ else search data maxLen codePos ps ⟨p, len⟩
    else search data maxLen codePos ps best

def longestMatch (input : Input) (width codePos : Nat) : Match :=
  search input.data (maxPLen width) codePos (List.range' 1 (min (maxPPos width - 1) codePos)) ⟨0, 0⟩

/-- `out_ptr` and `out_ref`; `codePos` is the position behind the match. -/
def token (width size codePos : Nat) (m : Match) : BitVec 16 × Nat :=
  if codePos = size ∧ m.len ≠ 0 then
    (if m.len = 1 then 0 else BitVec.ofNat 16 m.pos <<< width ||| BitVec.ofNat 16 (m.len - 2), codePos - 1)
  else (BitVec.ofNat 16 m.pos <<< width ||| BitVec.ofNat 16 (if m.len ≠ 0 then m.len - 1 else 0), codePos)

/-- The loop over the input, at most `n` turns of it. -/
def compressLoop (input : Input) (width : Nat) : Nat → Nat → List UInt8
  | 0, _ => []
  | n + 1, codePos =>
    if codePos < input.size then
      let m := longestMatch input width codePos
      let (outPtr, outRef) := token width input.size (codePos + m.len) m
      bytes16 outPtr ++ [input.data outRef] ++ compressLoop input width n (codePos + m.len + 1)
    else []

/-- `__lz_compress` -/
def compress (width : Nat) (input : Input) : List UInt8 :=
  bytes32 (BitVec.ofNat 32 input.size) ++ [UInt8.ofNat width] ++ compressLoop input width input.size 0

/-- The width that `lz_compress` uses. -/
def ptrLenWidth (input : Input) (findBest : Bool) : Nat := if findBest then estimateBestPtrLenWidth input else 5

theorem ptrLenWidth_bounds (input : Input) (findBest : Bool) :
    5 ≤ ptrLenWidth input findBest ∧ ptrLenWidth input findBest ≤ 8 := by
  cases findBest with
  | false => exact ⟨Nat.le_refl 5, Nat.le_add_right 5 3⟩
  | true => exact estimateBestPtrLenWidth_bounds input

/-! ## Decompression -/

/-- The loop over the output; it reads a token from `comp_data` at each turn. -/
def decompressLoop (width size : Nat) : List UInt8 → List UInt8 → Option (List UInt8)
  | lo :: hi :: byte :: comp, out =>
    if out.length < size then
      let inPtr := word16 lo hi
      let pPos := (inPtr >>> width).toNat
      let lenMask := (1#16 <<< width) - 1
      let pLen := if pPos ≠ 0 then (inPtr &&& lenMask).toNat + 1 else 0
      (copyBack pPos pLen out).bind fun out => decompressLoop width size comp (out ++ [byte])
    else some out
  | _, out => if out.length < size then none else some out

/-- `__lz_decompress`: the bytes of `output->data` below the position that is returned. -/
def decompress : List UInt8 → Option (List UInt8)
  | a :: b :: c :: d :: width :: comp => decompressLoop width.toNat (word32 a b c d).toNat comp []
  | _ => none

/-- `lz_compress` -/
def lzCompress (input : Input) (findBest : Bool) : List UInt8 := compress (ptrLenWidth input findBest) input

/-- `lz_decompress` -/
def lzDecompress (input : List UInt8) : Option (List UInt8) := decompress input

end RetrOS.Lz
