import RetrOS.Lib.RunLength

/-!
# Run length encoding

The encoder writes three bytes for every run: the byte, the lower and the upper byte of its `unsigned short` count.
The count wraps at 65536, and a longer run is not divided.

* `encodeRunLength`, `decodeRunLength` : the two functions; `none` where they read outside their input;
* `triples` : what the encoder writes, as the runs of the input; `encode_eq`, `decode_triples` : the encoder writes it,
  and the decoder expands it;
* `decode_encode_iff` : the input and its length come back iff no 65536 bytes in a row are equal.
-/

namespace RetrOS.Encoding

open RetrOS.Lib

abbrev Byte := BitVec 8

/-- An output array written from its beginning, and the `index` of the next byte of it. -/
structure Written where
  data : List Byte
  index : Nat
deriving DecidableEq, Repr

/-- Nothing is written yet. -/
def Written.start : Written := ⟨[], 0⟩

/-- `out[index++] = b` -/
def Written.put (w : Written) (b : Byte) : Written := ⟨w.data ++ [b], w.index + 1⟩

/-- One run: `data[i - 1]`, `count & 0xFF` and `(count >> 8) & 0xFF`. -/
def storeRun (w : Written) (b : Byte) (count : BitVec 16) : Written :=
  ((w.put b).put ((count &&& 0xFF).setWidth 8)).put (((count >>> 8) &&& 0xFF).setWidth 8)

/-- The loop of the encoder: `prev` is `data[i - 1]`, the list is the input from `data[i]` on. The last run is stored
behind the loop. -/
def encodeLoop (w : Written) (prev : Byte) (count : BitVec 16) : List Byte → Written
  | [] => storeRun w prev count
  | b :: data =>
    if b = prev then encodeLoop w b (count + 1) data
    else encodeLoop (storeRun w prev count) b 1 data

/-- For an empty input the last run would be that of `data[-1]`. -/
def encodeRunLength : List Byte → Option Written
  | [] => none
  | b :: data => some (encodeLoop .start b 1 data)

/-- The inner loop of the decoder. -/
def putCount (w : Written) (bit : Byte) : Nat → Written
  | 0 => w
  | count + 1 => putCount (w.put bit) bit count

/-- The decoder takes three bytes a round, and reads past an input whose length is no multiple of three. -/
def decodeLoop (w : Written) : List Byte → Option Written
  | [] => some w
  | [_] => none
  | [_, _] => none
  | bit :: lower :: upper :: data =>
    let count : BitVec 16 := lower.setWidth 16 ||| (upper.setWidth 16 <<< 8)
    decodeLoop (putCount w bit count.toNat) data

def decodeRunLength (encodedData : List Byte) : Option Written := decodeLoop .start encodedData

/-! ## What is written -/

/-- The bytes that stand for runs. -/
def triples (rs : List (Byte × Nat)) : List Byte :=
  rs.flatMap fun r => [r.1, BitVec.ofNat 8 r.2, BitVec.ofNat 8 (r.2 >>> 8)]

/-- Write several bytes. -/
def Written.append (w : Written) (bs : List Byte) : Written := ⟨w.data ++ bs, w.index + bs.length⟩

section
variable (w : Written)

@[simp] theorem Written.append_nil : w.append [] = w := by simp [Written.append]

@[simp] theorem Written.append_append (bs cs : List Byte) : (w.append bs).append cs = w.append (bs ++ cs) := by
  simp [Written.append, Nat.add_assoc]

theorem Written.put_eq (b : Byte) : w.put b = w.append [b] := rfl

theorem Written.start_append (bs : List Byte) : Written.start.append bs = ⟨bs, bs.length⟩ := by
  rw [Written.append, Written.start, List.nil_append, Nat.zero_add]

/-- The two bytes of a count hold what is left of it in 16 bits. -/
theorem count_bytes (n : Nat) :
    (BitVec.ofNat 8 n).setWidth 16 ||| ((BitVec.ofNat 8 (n >>> 8)).setWidth 16 <<< 8) = BitVec.ofNat 16 n := by
  apply BitVec.eq_of_getLsbD_eq
  intro i hi
  simp only [BitVec.getLsbD_or, BitVec.getLsbD_setWidth, BitVec.getLsbD_shiftLeft, BitVec.getLsbD_ofNat,
    Nat.testBit_shiftRight]
  by_cases h : i < 8
  · simp [h, hi]
  · simp [h, hi, show i - 8 < 8 by omega, show i - 8 < 16 by omega, Nat.add_sub_cancel' (Nat.not_lt.mp h)]

theorem low_byte (v : BitVec 16) : (v &&& 0xFF).setWidth 8 = v.setWidth 8 := by
  apply BitVec.eq_of_toNat_eq
  have h : (v &&& 0xFF).toNat = v.toNat % 2 ^ 8 := Nat.and_two_pow_sub_one_eq_mod v.toNat 8
  rw [BitVec.toNat_setWidth, h, Nat.mod_mod, BitVec.toNat_setWidth]

theorem storeRun_eq (b : Byte) (n : Nat) :
    storeRun w b (BitVec.ofNat 16 n) = w.append [b, BitVec.ofNat 8 n, BitVec.ofNat 8 (n >>> 8)] := by
  have hlower : ((BitVec.ofNat 16 n &&& 0xFF).setWidth 8 : Byte) = BitVec.ofNat 8 n := by
    rw [low_byte, BitVec.setWidth_ofNat_of_le (by decide)]
  have hupper : (((BitVec.ofNat 16 n >>> 8) &&& 0xFF).setWidth 8 : Byte) = BitVec.ofNat 8 (n >>> 8) := by
    rw [low_byte]
    apply BitVec.eq_of_toNat_eq
    simp only [BitVec.toNat_setWidth, BitVec.toNat_ushiftRight, BitVec.toNat_ofNat, Nat.shiftRight_eq_div_pow]
    omega
  rw [storeRun, hlower, hupper]
  simp only [Written.put_eq, Written.append_append]
  rfl

/-- The encoder writes the runs of its input, from the run that it is in on. -/
theorem encodeLoop_eq (prev : Byte) (n : Nat) (data : List Byte) :
    encodeLoop w prev (BitVec.ofNat 16 n) data = w.append (triples (runs prev n data)) := by
  induction data generalizing w prev n with
  | nil =>
    rw [encodeLoop, runs, storeRun_eq]
    rfl
  | cons b data ih =>
    rw [encodeLoop, runs]
    split
    · next h =>
      rw [h, ← ih w prev (n + 1), BitVec.ofNat_add]
      rfl
    · rw [storeRun_eq, show (1 : BitVec 16) = BitVec.ofNat 16 1 from rfl, ih, Written.append_append]
      rfl

theorem encode_eq (b : Byte) (data : List Byte) :
    encodeRunLength (b :: data) = some ⟨triples (runs b 1 data), (triples (runs b 1 data)).length⟩ := by
  rw [encodeRunLength, show (1 : BitVec 16) = BitVec.ofNat 16 1 from rfl, encodeLoop_eq, Written.start_append]

theorem putCount_eq (bit : Byte) (n : Nat) : putCount w bit n = w.append (List.replicate n bit) := by
  induction n generalizing w with
  | zero => rw [putCount, List.replicate_zero, Written.append_nil]
  | succ n ih => rw [putCount, ih, Written.put_eq, Written.append_append, List.replicate_succ, List.singleton_append]

/-- The decoder expands the runs, each count taken as 16 bits. -/
theorem decodeLoop_triples (rs : List (Byte × Nat)) :
    decodeLoop w (triples rs) = some (w.append (expand (rs.map fun r => (r.1, r.2 % 65536)))) := by
  induction rs generalizing w with
  | nil => simp [triples, decodeLoop]
  | cons r rs ih =>
    have hcons : triples (r :: rs) = r.1 :: BitVec.ofNat 8 r.2 :: BitVec.ofNat 8 (r.2 >>> 8) :: triples rs := rfl
    rw [hcons, decodeLoop, count_bytes, BitVec.toNat_ofNat, putCount_eq, ih, Written.append_append, List.map_cons,
      expand_cons]

theorem decode_triples (rs : List (Byte × Nat)) : decodeRunLength (triples rs) =
    some (Written.start.append (expand (rs.map fun r => (r.1, r.2 % 65536)))) :=
  decodeLoop_triples .start rs

end

/-! ## The round trip -/

/-- What the encoder made of `data` is decoded to `data` and its length. -/
def RoundTrips (data : List Byte) : Prop :=
  ∃ w, encodeRunLength data = some w ∧
    decodeRunLength (w.data.take w.index) = some ⟨data, data.length⟩

/-- A run of 65536 equal bytes is stored with the count zero; without one the input comes back. -/
theorem decode_encode_iff (data : List Byte) (hdata : data ≠ []) :
    RoundTrips data ↔ ¬ ∃ b, List.replicate 65536 b <:+: data := by
  obtain ⟨b, data, rfl⟩ := List.exists_cons_of_ne_nil hdata
  have hexpand : expand (runs b 1 data) = b :: data := by
    rw [expand_runs, List.replicate_one, List.singleton_append]
  have hmod : ∀ n : Nat, n % 65536 = n ↔ n < 65536 := fun n =>
    ⟨fun h => h ▸ Nat.mod_lt n (by decide), Nat.mod_eq_of_lt⟩
  have hround : RoundTrips (b :: data) ↔
      expand ((runs b 1 data).map fun r => (r.1, r.2 % 65536)) = expand (runs b 1 data) := by
    simp only [RoundTrips, encode_eq, Option.some.injEq, exists_eq_left', List.take_length, decode_triples,
      Written.start_append, Written.mk.injEq, hexpand]
    exact ⟨And.left, fun h => ⟨h, congrArg List.length h⟩⟩
  rw [hround, expand_map_eq_iff fun n => Nat.mod_le n 65536]
  simp only [hmod]
  exact forall_runs_lt_iff 65536 b data

theorem decode_encode_iff_aab :
    ([1, 1, 2] : List Byte) ≠ [] ∧
      (RoundTrips [1, 1, 2] ↔ ¬ ∃ b : Byte, List.replicate 65536 b <:+: [1, 1, 2]) :=
  ⟨by decide, decode_encode_iff [1, 1, 2] (by decide)⟩

/-- 65536 zeros come back as an empty string. -/
theorem not_roundTrips_zeros : ¬ ∀ data : List Byte, data ≠ [] → RoundTrips data := by
  intro h
  obtain ⟨w, hw, hdecode⟩ := h (0 :: List.replicate 65535 0) (List.cons_ne_nil _ _)
  rw [encode_eq, runs_replicate, Option.some.injEq] at hw
  rw [← hw, List.take_length, decode_triples, Option.some.injEq] at hdecode
  have hlen := congrArg Written.index hdecode
  rw [List.length_cons, List.length_replicate] at hlen
  exact absurd hlen (by decide)

end RetrOS.Encoding
