import RetrOS.Archive.RoundTrip
import RetrOS.Lib.Traced
import Mathlib.Data.Finset.Card

/-!
# What the LZ compressor reads and writes (`lib/lz.c`)

The comparison of two positions stops at the first difference or at the maximal length, and nowhere looks for the end of
the input. The output takes three bytes a token behind five bytes of header, and the buffers have room for twice the
input.

* `compressTrace`, `decompressTrace` : the functions, with the bytes they touch; `val_compressTrace`,
  `val_decompressTrace` : they are those of the model;
* `MemorySafe` : only the input is read, and only the buffers are written;
* `all_searchTrace` : the search stays in the input iff the match it finds ends in front of its end;
* `memorySafe_iff` : so memory is safe iff no token's longest match comes to the end of the input, and there are few
  enough tokens.
-/

namespace RetrOS.Lz
open RetrOS.Lib

/-- A byte that is touched. -/
inductive Touch where
  /-- `input->data[i]` is read -/
  | input (i : Nat)
  /-- the byte `i` of the buffer that was allocated is written -/
  | buffer (i : Nat)

/-- What `malloc(size * 2)` has room for; the product is a `uint32_t`. -/
def capacity (size : Nat) : Nat := size * 2 % 2 ^ 32

/-- In an input of `size` bytes, or in the buffer. -/
def Touch.Inside (size : Nat) : Touch → Prop
  | input i => i < size
  | buffer i => i < capacity size

/-! ## Compression -/

/-- `input->data[i]` -/
def readData (data : Nat → UInt8) (i : Nat) : Traced Touch UInt8 := .emit (.input i) (data i)

/-- The bytes are written from the byte `pos` of the buffer on. -/
def store (pos : Nat) (bytes : List UInt8) : Traced Touch (List UInt8) :=
  .emits ((List.range' pos bytes.length).map .buffer) bytes

/-- The comparison; at the maximal length one more byte is compared. -/
def matchTrace (data : Nat → UInt8) : Nat → Nat → Nat → Traced Touch Nat
  | 0, lookA, lookB => do
    let _ ← readData data lookA
    let _ ← readData data lookB
    return 0
  | n + 1, lookA, lookB => do
    let a ← readData data lookA
    let b ← readData data lookB
    if a = b then return (← matchTrace data n (lookA + 1) (lookB + 1)) + 1 else return 0

def searchTrace (data : Nat → UInt8) (maxLen codePos : Nat) : List Nat → Match → Traced Touch Match
  | [], best => return best
  | p :: ps, best => do
    let len ← matchTrace data maxLen codePos (codePos - p)
    if len > best.len then
      if len = maxLen then return ⟨p, len⟩ else searchTrace data maxLen codePos ps ⟨p, len⟩
    else searchTrace data maxLen codePos ps best

def longestMatchTrace (input : Input) (width codePos : Nat) : Traced Touch Match :=
  searchTrace input.data (maxPLen width) codePos (List.range' 1 (min (maxPPos width - 1) codePos)) ⟨0, 0⟩

def compressLoopTrace (input : Input) (width : Nat) : Nat → Nat → Nat → Traced Touch (List UInt8)
  | 0, _, _ => return []
  | n + 1, codePos, compPos =>
    if codePos < input.size then do
      let m ← longestMatchTrace input width codePos
      let (outPtr, outRef) := token width input.size (codePos + m.len) m
      let word ← store compPos (bytes16 outPtr)
      let byte ← readData input.data outRef
      let last ← store (compPos + 2) [byte]
      return word ++ last ++ (← compressLoopTrace input width n (codePos + m.len + 1) (compPos + 3))
    else return []

/-- `__lz_compress` -/
def compressTrace (width : Nat) (input : Input) : Traced Touch (List UInt8) := do
  let size ← store 0 (bytes32 (BitVec.ofNat 32 input.size))
  let lenWidth ← store 4 [UInt8.ofNat width]
  return size ++ lenWidth ++ (← compressLoopTrace input width input.size 0 5)

/-! ## Decompression -/

/-- The copy of `decompress`, a byte at a time. -/
def copyBackTrace (p : Nat) : Nat → List UInt8 → Traced Touch (Option (List UInt8))
  | 0, out => return some out
  | n + 1, out =>
    if p ≤ out.length then
      match out[out.length - p]? with
      | none => return none
      | some a => do
        let copied ← store out.length [a]
        copyBackTrace p n (out ++ copied)
    else return none

def decompressLoopTrace (width size : Nat) : List UInt8 → List UInt8 → Traced Touch (Option (List UInt8))
  | lo :: hi :: byte :: comp, out =>
    if out.length < size then do
      let inPtr := word16 lo hi
      let pPos := (inPtr >>> width).toNat
      let lenMask := (1#16 <<< width) - 1
      let pLen := if pPos ≠ 0 then (inPtr &&& lenMask).toNat + 1 else 0
      match ← copyBackTrace pPos pLen out with
      | none => return none
      | some out => do
        let last ← store out.length [byte]
        decompressLoopTrace width size comp (out ++ last)
    else return some out
  | _, out => return if out.length < size then none else some out

/-- `__lz_decompress` -/
def decompressTrace : List UInt8 → Traced Touch (Option (List UInt8))
  | a :: b :: c :: d :: width :: comp => decompressLoopTrace width.toNat (word32 a b c d).toNat comp []
  | _ => return none

/-- The compressor reads in the input and writes in its buffer, and the decompressor of its output writes in a buffer of
the same size. -/
def MemorySafe (width : Nat) (input : Input) : Prop :=
  (compressTrace width input).All (Touch.Inside input.size) ∧
    (decompressTrace (compress width input)).All (Touch.Inside input.size)

/-! ## The values -/

section Values
variable {data : Nat → UInt8} {input : Input} {width : Nat}

@[simp] theorem val_readData (data : Nat → UInt8) (i : Nat) : (readData data i).val = data i := rfl

@[simp] theorem val_store (pos : Nat) (bytes : List UInt8) : (store pos bytes).val = bytes := rfl

@[simp] theorem val_matchTrace (data : Nat → UInt8) (n a b : Nat) :
    (matchTrace data n a b).val = matchLength data n a b := by
  induction n generalizing a b with
  | zero => rfl
  | succ n ih =>
    show (if data a = data b then do return (← matchTrace data n (a + 1) (b + 1)) + 1 else return 0 :
      Traced Touch Nat).val = _
    rw [Traced.val_ite, Traced.val_bind, ih]
    rfl

@[simp] theorem val_searchTrace (data : Nat → UInt8) (maxLen codePos : Nat) (ps : List Nat) (best : Match) :
    (searchTrace data maxLen codePos ps best).val = search data maxLen codePos ps best := by
  induction ps generalizing best with
  | nil => rfl
  | cons p ps ih => simp [searchTrace, search, ih]

@[simp] theorem val_longestMatchTrace (input : Input) (width codePos : Nat) :
    (longestMatchTrace input width codePos).val = longestMatch input width codePos := val_searchTrace ..

@[simp] theorem val_compressLoopTrace (input : Input) (width n codePos compPos : Nat) :
    (compressLoopTrace input width n codePos compPos).val = compressLoop input width n codePos := by
  induction n generalizing codePos compPos with
  | zero => rfl
  | succ n ih => simp [compressLoopTrace, compressLoop, ih]

@[simp] theorem val_compressTrace (width : Nat) (input : Input) :
    (compressTrace width input).val = compress width input := by
  simp [compressTrace, compress]

@[simp] theorem val_copyBackTrace (p n : Nat) (out : List UInt8) : (copyBackTrace p n out).val = copyBack p n out := by
  induction n generalizing out with
  | zero => rfl
  | succ n ih =>
    rw [copyBackTrace, copyBack]
    split
    · cases h : out[out.length - p]? with
      | none => rfl
      | some a => exact ih (out ++ [a])
    · rfl

theorem val_decompressLoopTrace (width size : Nat) (comp out : List UInt8) :
    (decompressLoopTrace width size comp out).val = decompressLoop width size comp out := by
  fun_induction decompressLoop width size comp out with
  | case1 lo hi byte comp out hlt inPtr pPos lenMask pLen ih =>
    rw [decompressLoopTrace, if_pos hlt, Traced.val_bind, val_copyBackTrace]
    cases h : copyBack pPos pLen out with
    | none => rfl
    | some out => exact ih out
  | case2 lo hi byte comp out hlt => rw [decompressLoopTrace, if_neg hlt, Traced.val_pure]
  | case3 comp out hlt hcomp =>
    rw [decompressLoopTrace, Traced.val_pure, if_pos hlt]
    exact hcomp
  | case4 comp out hlt hcomp =>
    rw [decompressLoopTrace, Traced.val_pure, if_neg hlt]
    exact hcomp

theorem val_decompressTrace (comp : List UInt8) : (decompressTrace comp).val = decompress comp := by
  unfold decompress
  split
  · exact val_decompressLoopTrace ..
  · next hcomp =>
    rw [decompressTrace, Traced.val_pure]
    exact hcomp

end Values

/-! ## What is read -/

section Reads
variable {data : Nat → UInt8} {size maxLen c n a b : Nat} {best : Match} {ps : List Nat} {input : Input} {width : Nat}

@[simp] theorem all_readData {P : Touch → Prop} (i : Nat) : (readData data i).All P ↔ P (.input i) :=
  Traced.all_emit ..

theorem all_store {P : Touch → Prop} (pos : Nat) (bytes : List UInt8) :
    (store pos bytes).All P ↔ ∀ i, pos ≤ i → i < pos + bytes.length → P (.buffer i) := by
  simp only [store, Traced.all_emits, List.forall_mem_map, List.mem_range'_1, and_imp]

/-- A comparison reads up to the first difference, or one byte more than the maximal length. -/
theorem all_matchTrace (hab : b ≤ a) :
    (matchTrace data n a b).All (Touch.Inside size) ↔ a + matchLength data n a b < size := by
  induction n generalizing a b with
  | zero =>
    simp only [matchTrace, matchLength, Traced.all_bind, all_readData, Traced.all_pure, and_true, Touch.Inside]
    omega
  | succ n ih =>
    rw [matchTrace, Traced.all_bind, all_readData, Traced.all_bind, all_readData, matchLength]
    split
    · next heq =>
      have heq' : data a = data b := heq
      rw [if_pos heq', Traced.all_bind, ih (Nat.add_le_add_right hab 1)]
      simp only [Traced.all_pure, and_true, Touch.Inside]
      omega
    · next hne =>
      have hne' : data a ≠ data b := hne
      rw [if_neg hne']
      simp only [Traced.all_pure, and_true, Touch.Inside]
      omega

theorem len_le_search (data : Nat → UInt8) (maxLen c : Nat) (ps : List Nat) (best : Match) :
    best.len ≤ (search data maxLen c ps best).len := by
  induction ps generalizing best with
  | nil => exact le_rfl
  | cons p ps ih =>
    simp only [search]
    split
    · next hlt =>
      split
      · exact le_of_lt hlt
      · exact (le_of_lt hlt).trans (ih ⟨p, _⟩)
    · exact ih best

/-- The search reads only in the input iff the match it finds ends in front of its end. -/
theorem all_searchTrace (hbest : c + best.len < size) :
    (searchTrace data maxLen c ps best).All (Touch.Inside size) ↔ c + (search data maxLen c ps best).len < size := by
  induction ps generalizing best with
  | nil => exact iff_of_true (Traced.all_pure _) hbest
  | cons p ps ih =>
    rw [searchTrace, Traced.all_bind, all_matchTrace (Nat.sub_le c p)]
    simp only [search, val_matchTrace]
    split
    · next hlt =>
      split
      · simp
      · have hle := len_le_search data maxLen c ps ⟨p, matchLength data maxLen c (c - p)⟩
        constructor
        · intro h
          exact (ih h.1).mp h.2
        · intro h
          have hp : c + matchLength data maxLen c (c - p) < size := lt_of_le_of_lt (Nat.add_le_add_left hle c) h
          exact ⟨hp, (ih hp).mpr h⟩
    · next hle =>
      rw [ih hbest, and_iff_right]
      omega

theorem all_longestMatchTrace (hc : c < input.size) :
    (longestMatchTrace input width c).All (Touch.Inside input.size) ↔ c + (longestMatch input width c).len < input.size :=
  all_searchTrace hc

end Reads

/-! ## The tokens -/

section Tokens
variable {input : Input} {width c c' len n k : Nat}

/-- Behind a token's beginning no other token begins before its end. -/
theorem Begins.next_le (hc : Begins input width c) (hlt : c < input.size) (hlen : Longest input width c len)
    (hc' : Begins input width c') (hcc' : c < c') : c + len + 1 ≤ c' := by
  induction c' using Nat.strong_induction_on generalizing c len with
  | _ c' ih =>
    cases hc' with
    | first => omega
    | @next d l hd hdlt hl =>
      rcases Nat.lt_trichotomy c d with h | rfl | h
      · have hnext := ih d (by omega) hc hlt hlen hd h
        omega
      · exact (hlen.unique hl ▸ le_rfl)
      · have hnext := ih c hcc' hd hdlt hl hc h
        omega

open Classical in
/-- Where the tokens begin from `c` on. -/
noncomputable def tokensFrom (input : Input) (width c : Nat) : Finset Nat :=
  (Finset.range input.size).filter fun c' => c ≤ c' ∧ Begins input width c'

/-- Where the tokens begin. -/
noncomputable def tokens (input : Input) (width : Nat) : Finset Nat := tokensFrom input width 0

theorem mem_tokensFrom : c' ∈ tokensFrom input width c ↔ c' < input.size ∧ c ≤ c' ∧ Begins input width c' := by
  simp [tokensFrom]

theorem tokensFrom_end (hc : input.size ≤ c) : tokensFrom input width c = ∅ := by
  ext c'
  simp only [mem_tokensFrom, Finset.notMem_empty, iff_false]
  omega

theorem card_tokensFrom (hc : Begins input width c) (hlt : c < input.size) (hlen : Longest input width c len) :
    (tokensFrom input width c).card = (tokensFrom input width (c + len + 1)).card + 1 := by
  rw [← Finset.card_insert_of_notMem (a := c)]
  · congr 1
    ext c'
    rw [Finset.mem_insert, mem_tokensFrom, mem_tokensFrom]
    constructor
    · rintro ⟨hlt', hle, hc'⟩
      rcases Nat.eq_or_lt_of_le hle with rfl | hgt
      · exact .inl rfl
      · exact .inr ⟨hlt', hc.next_le hlt hlen hc' hgt, hc'⟩
    · rintro (rfl | ⟨hlt', hle, hc'⟩)
      · exact ⟨hlt, le_rfl, hc⟩
      · exact ⟨hlt', by omega, hc'⟩
  · rw [mem_tokensFrom]
    omega

/-- The longest match of each token from `c` on ends in front of the end of the input. -/
def EndsInside (input : Input) (width c : Nat) : Prop :=
  ∀ c' len, c ≤ c' → Begins input width c' → c' < input.size → Longest input width c' len → c' + len < input.size

theorem endsInside_end (hc : input.size ≤ c) : EndsInside input width c := by
  intro c' len hle _ hlt _
  omega

theorem endsInside_next (hc : Begins input width c) (hlt : c < input.size) (hlen : Longest input width c len) :
    EndsInside input width c ↔ c + len < input.size ∧ EndsInside input width (c + len + 1) := by
  constructor
  · intro h
    exact ⟨h c len le_rfl hc hlt hlen, fun c' len' hle => h c' len' (by omega)⟩
  · rintro ⟨hinside, hrest⟩ c' len' hle hc' hlt' hlen'
    rcases Nat.eq_or_lt_of_le hle with rfl | hgt
    · rwa [← hlen.unique hlen']
    · exact hrest c' len' (hc.next_le hlt hlen hc' hgt) hc' hlt' hlen'

end Tokens

/-! ## The bounds -/

section Bounds
variable {input : Input} {width c n k : Nat}

/-- A token that ends in the input. -/
theorem snd_token (m : Match) {size : Nat} (h : c + m.len < size) : (token width size (c + m.len) m).2 = c + m.len := by
  rw [token, if_neg fun hend => absurd hend.1 (Nat.ne_of_lt h)]

/-- The loop from a token on, by induction on its turns: each takes three bytes of the buffer, and reads the input up
to the byte behind the longest match. -/
theorem all_compressLoopTrace (hn : input.size ≤ c + n) (hc : Begins input width c) (hk : k ≤ capacity input.size) :
    (compressLoopTrace input width n c k).All (Touch.Inside input.size) ↔
      EndsInside input width c ∧ k + 3 * (tokensFrom input width c).card ≤ capacity input.size := by
  have hdone {c k : Nat} (hk : k ≤ capacity input.size) (h : input.size ≤ c) :
      EndsInside input width c ∧ k + 3 * (tokensFrom input width c).card ≤ capacity input.size :=
    ⟨endsInside_end h, by rwa [tokensFrom_end h, Finset.card_empty]⟩
  induction n generalizing c k with
  | zero => exact iff_of_true (Traced.all_pure _) (hdone hk hn)
  | succ n ih =>
    rw [compressLoopTrace]
    split
    · next hlt =>
      have hlen := (longestMatch_spec input width c).1
      rw [Traced.all_bind, all_longestMatchTrace hlt, val_longestMatchTrace, endsInside_next hc hlt hlen,
        card_tokensFrom hc hlt hlen, and_assoc]
      refine and_congr_right fun hinside => ?_
      have href : (token width input.size _ _).2 = _ := snd_token (longestMatch input width c) hinside
      cases htoken : token width input.size (c + (longestMatch input width c).len) (longestMatch input width c) with
      | mk outPtr outRef =>
        rw [htoken] at href
        simp only [Traced.all_bind, all_store, all_readData, Traced.all_pure, and_true, Touch.Inside, val_store]
        have hword : (bytes16 outPtr).length = 2 := rfl
        have href' : outRef = c + (longestMatch input width c).len := href
        rw [hword, List.length_singleton]
        constructor
        · rintro ⟨hw, -, hb, hrest⟩
          have hk' : k + 3 ≤ capacity input.size := hb (k + 2) le_rfl (by omega)
          have hloop := (ih (by omega) (hc.next hlt hlen) hk').mp hrest
          exact ⟨hloop.1, by omega⟩
        · rintro ⟨hends, hcard⟩
          have hk' : k + 3 ≤ capacity input.size := by omega
          exact ⟨fun i _ hi => by omega, by omega, fun i _ hi => by omega,
            (ih (by omega) (hc.next hlt hlen) hk').mpr ⟨hends, by omega⟩⟩
    · next hge => exact iff_of_true (Traced.all_pure _) (hdone hk (by omega))

theorem between_iff {P : Nat → Prop} {i j k : Nat} (hij : i ≤ j) (hjk : j ≤ k) :
    ((∀ l, i ≤ l → l < j → P l) ∧ ∀ l, j ≤ l → l < k → P l) ↔ ∀ l, i ≤ l → l < k → P l := by
  constructor
  · rintro ⟨hfirst, hlast⟩ l hl hl'
    rcases Nat.lt_or_ge l j with hlt | hge
    · exact hfirst l hl hlt
    · exact hlast l hge hl'
  · intro h
    exact ⟨fun l hl hl' => h l hl (by omega), fun l hl hl' => h l (by omega) hl'⟩

/-- A copy writes what it appends. -/
theorem all_copyBackTrace {P : Touch → Prop} {p n : Nat} {out out' : List UInt8} (h : copyBack p n out = some out') :
    out.length ≤ out'.length ∧
      ((copyBackTrace p n out).All P ↔ ∀ i, out.length ≤ i → i < out'.length → P (.buffer i)) := by
  induction n generalizing out with
  | zero =>
    obtain rfl : out = out' := Option.some.inj h
    exact ⟨le_rfl, iff_of_true (Traced.all_pure _) fun i hi hi' => absurd hi (by omega)⟩
  | succ n ih =>
    rw [copyBack] at h
    rw [copyBackTrace]
    split at h
    · next hp =>
      rw [if_pos hp]
      cases ha : out[out.length - p]? with
      | none =>
        rw [ha] at h
        cases h
      | some a =>
        rw [ha, Option.bind_some] at h
        obtain ⟨hle, hall⟩ := ih h
        rw [List.length_append, List.length_singleton] at hle hall
        refine ⟨by omega, ?_⟩
        dsimp only
        rw [Traced.all_bind, all_store, val_store, hall, List.length_singleton]
        exact between_iff (Nat.le_succ _) hle
    · cases h

/-- The decompressor writes what it returns. -/
theorem all_decompressLoopTrace {P : Touch → Prop} {size : Nat} {comp out out' : List UInt8}
    (h : decompressLoop width size comp out = some out') :
    out.length ≤ out'.length ∧
      ((decompressLoopTrace width size comp out).All P ↔ ∀ i, out.length ≤ i → i < out'.length → P (.buffer i)) := by
  have hnothing (out : List UInt8) :
      (pure (some out) : Traced Touch (Option (List UInt8))).All P ↔ ∀ i, out.length ≤ i → i < out.length → P (.buffer i) :=
    iff_of_true (Traced.all_pure _) fun i hi hi' => absurd hi (by omega)
  fun_induction decompressLoop width size comp out with
  | case1 lo hi byte comp out hlt inPtr pPos lenMask pLen ih =>
    rw [decompressLoopTrace, if_pos hlt, Traced.all_bind, val_copyBackTrace]
    cases hcopy : copyBack pPos pLen out with
    | none =>
      rw [hcopy] at h
      cases h
    | some copied =>
      rw [hcopy, Option.bind_some] at h
      obtain ⟨hle, hall⟩ := ih copied h
      obtain ⟨hle', hall'⟩ := all_copyBackTrace (P := P) hcopy
      rw [List.length_append, List.length_singleton] at hle hall
      refine ⟨by omega, ?_⟩
      dsimp only
      rw [hall', Traced.all_bind, all_store, val_store, hall, List.length_singleton,
        between_iff (Nat.le_succ _) hle, between_iff hle' (by omega)]
  | case2 lo hi byte comp out hlt =>
    obtain rfl := Option.some.inj h
    rw [decompressLoopTrace, if_neg hlt]
    exact ⟨le_rfl, hnothing out⟩
  | case3 comp out hlt hcomp => cases h
  | case4 comp out hlt hcomp =>
    obtain rfl := Option.some.inj h
    rw [decompressLoopTrace, if_neg hlt]
    · exact ⟨le_rfl, hnothing out⟩
    · exact hcomp

end Bounds

/-! ## Memory safety -/

section Safety
variable {input : Input} {width : Nat}

theorem all_compressTrace :
    (compressTrace width input).All (Touch.Inside input.size) ↔
      EndsInside input width 0 ∧ 5 + 3 * (tokens input width).card ≤ capacity input.size := by
  have hheader : (bytes32 (BitVec.ofNat 32 input.size)).length = 4 := rfl
  rw [compressTrace, Traced.all_bind, all_store, Traced.all_bind, all_store, Traced.all_bind, hheader,
    List.length_singleton]
  simp only [Traced.all_pure, and_true, Touch.Inside]
  constructor
  · rintro ⟨-, hlast, hloop⟩
    exact (all_compressLoopTrace (by omega) .first (hlast 4 le_rfl (by omega))).mp hloop
  · rintro ⟨hends, hcard⟩
    exact ⟨fun i _ hi => by omega, fun i _ hi => by omega,
      (all_compressLoopTrace (by omega) .first (by omega)).mpr ⟨hends, hcard⟩⟩

/-- Where the tokens end in the input, the decompressor writes as many bytes as the input has. -/
theorem all_decompressTrace (hwidth : 5 ≤ width ∧ width ≤ 8) (hsize : input.size < 2 ^ 32)
    (hends : EndsInside input width 0) :
    (decompressTrace (compress width input)).All (Touch.Inside input.size) ↔ input.size ≤ capacity input.size := by
  have hover : ¬ Overruns input width := by
    rintro ⟨c, len, hc, hlt, hlen, hover⟩
    have hinside := hends c len (Nat.zero_le c) hc hlt hlen
    omega
  have hloop : decompressLoop width input.size (compressLoop input width input.size 0) [] = some input.bytes := by
    rw [← decompress_eq input (by omega) hsize]
    exact (decompress_compress hwidth hsize).mpr hover
  have htrace : decompressTrace (compress width input) =
      decompressLoopTrace width input.size (compressLoop input width input.size 0) [] := by
    have hlt : width < 256 := by omega
    have hbyte : (UInt8.ofNat width).toNat = width := UInt8.toNat_ofNat_of_lt' hlt
    simp only [compress, bytes32, List.cons_append, List.nil_append, decompressTrace, word32_bytes, hbyte,
      BitVec.toNat_ofNat, Nat.mod_eq_of_lt hsize]
  rw [htrace, (all_decompressLoopTrace hloop).2]
  show (∀ i, 0 ≤ i → i < input.size → i < capacity input.size) ↔ _
  constructor
  · intro h
    by_contra hlt
    exact absurd (h (capacity input.size) (Nat.zero_le _) (by omega)) (lt_irrefl _)
  · intro h i _ hi
    omega

/-- Memory is safe iff each token's longest match ends in front of the end of the input, the tokens fit into the buffer,
and the size of the buffer does not wrap. -/
theorem memorySafe_iff (hwidth : 5 ≤ width ∧ width ≤ 8) (hsize : input.size < 2 ^ 32) :
    MemorySafe width input ↔
      (∀ c len, Begins input width c → c < input.size → Longest input width c len → c + len < input.size) ∧
        5 + 3 * (tokens input width).card ≤ 2 * input.size ∧ input.size < 2 ^ 31 := by
  have hends : EndsInside input width 0 ↔
      ∀ c len, Begins input width c → c < input.size → Longest input width c len → c + len < input.size :=
    ⟨fun h c len => h c len (Nat.zero_le c), fun h c len _ => h c len⟩
  rw [MemorySafe, all_compressTrace, ← hends, and_assoc]
  refine and_congr_right fun hinside => ?_
  rw [all_decompressTrace hwidth hsize hinside, capacity]
  omega

/-- `aaaaab` -/
def aaaaab : Input := ⟨[97, 97, 97, 97, 97, 98], fun _ => 0⟩

/-- A byte, and a match that ends in front of the last one: eleven bytes are written into twelve. -/
theorem memorySafe_iff_aaaaab : MemorySafe 5 aaaaab := by
  have h0 (len : Nat) (h : Longest aaaaab 5 0 len) : len = 0 :=
    h.unique ((longestMatch_spec aaaaab 5 0).1 : Longest aaaaab 5 0 0)
  have h1 (len : Nat) (h : Longest aaaaab 5 1 len) : len = 4 :=
    h.unique ((longestMatch_spec aaaaab 5 1).1 : Longest aaaaab 5 1 4)
  have hbegins (c : Nat) (hc : Begins aaaaab 5 c) (hlt : c < 6) : c = 0 ∨ c = 1 := by
    induction hc with
    | first => exact .inl rfl
    | @next c len _ hlt' hlen ih =>
      rcases ih hlt' with rfl | rfl
      · exact .inr (by rw [h0 len hlen])
      · exact absurd hlt (by rw [h1 len hlen]; decide)
  have hcard : (tokens aaaaab 5).card ≤ 2 := by
    refine Finset.card_le_card (t := {0, 1}) fun c hc => ?_
    obtain ⟨hlt, -, hc⟩ := mem_tokensFrom.mp hc
    simpa using hbegins c hc hlt
  refine (memorySafe_iff (by decide) (by decide)).mpr ⟨fun c len hc hlt hlen => ?_, ?_, by decide⟩
  · rcases hbegins c hc hlt with rfl | rfl
    · rw [h0 len hlen]
      exact hlt
    · rw [h1 len hlen]
      decide
  · have hsize : aaaaab.size = 6 := rfl
    omega

/-- One byte: eight bytes are written into two. -/
theorem not_memorySafe_one : ¬ MemorySafe 5 ⟨[97], fun _ => 0⟩ := by
  rintro ⟨h, -⟩
  have hcard := (all_compressTrace.mp h).2
  exact absurd hcard (by simp [capacity, Input.size]; omega)

end Safety

end RetrOS.Lz
