import RetrOS.Lib.LittleEndian

/-!
# DHCP options (`kernel/kthreads/dhcpd.c`)

The options area has 128 bytes: options with a code, a size and a value one behind the other, pad bytes between them,
and an end byte. The reader takes a pad byte for an option, reads the next code before it looks at the offset, and does
not look at the offset at all before it reads a size or a value.

* `dhcpAddOption`, `dhcpGetOption` : the source, the reader with the bytes it looks at;
* `wanted` : what the reader should return, `Finds` : what it should do;
* `Readable` : the areas with which it does (`finds_iff`);
* `area`, `Returns` : the area of options that were added, and that they are read back (`returns_iff`).

The area is the first 128 bytes of a memory, that goes on behind it.
-/

namespace RetrOS.Dhcp
open RetrOS.Lib

/-! ## The source -/

/-- The result of the reader, the offsets at which its rounds begin, and all that it reads. -/
structure Walk where
  result : Int
  rounds : List Nat
  reads : List Nat

/-- `__dhcp_add_option`: the result and the options. -/
def dhcpAddOption (options : Nat → UInt8) (offset : Nat) (opcode : UInt8) (val : List UInt8) :
    Nat × (Nat → UInt8) :=
  if 128 ≤ offset then (0, options)
  else if opcode = 255 then (1, Function.update options offset 255)
  else (val.length + 2, Slice.write options offset (opcode :: UInt8.ofNat val.length :: val))

/-- The `switch` over the size. -/
def readValue (options : Nat → UInt8) (ptr : Nat) (opsz : UInt8) : Int × List Nat :=
  if opsz = 1 then ((options ptr).toNat, [ptr])
  else if opsz = 2 then ((load16 options ptr).toNat, [ptr, ptr + 1])
  else if opsz = 4 then ((load32 options ptr).toInt, [ptr, ptr + 1, ptr + 2, ptr + 3])
  else (-1, [])

/-- The loop of `__dhcp_get_option`, from an offset on. -/
def getLoop (options : Nat → UInt8) (opcode : UInt8) (offset : Nat) : Walk :=
  if options offset = 255 then ⟨-1, [offset], [offset]⟩
  else if 128 ≤ offset then ⟨0, [offset], [offset]⟩
  else
    let opsz := options (offset + 1)
    if options offset = opcode then
      let (result, reads) := readValue options (offset + 2) opsz
      ⟨result, [offset], offset :: (offset + 1) :: reads⟩
    else
      let walk := getLoop options opcode (offset + (opsz.toNat + 2))
      ⟨walk.result, offset :: walk.rounds, offset :: (offset + 1) :: walk.reads⟩
termination_by 128 - offset

/-- `__dhcp_get_option` -/
def dhcpGetOption (options : Nat → UInt8) (opcode : UInt8) : Walk := getLoop options opcode 0

/-! ## What the reader should do -/

/-- The value of an option as the result, which has room for one, two or four bytes. -/
def optionValue : List UInt8 → Option Int
  | [a] => some a.toNat
  | [a, b] => some (word16 a b).toNat
  | [a, b, c, d] => some (word32 a b c d).toInt
  | _ => none

/-- The value of the first option with the code from an offset on; `-1` if there is none, or it has no such value. Pad
bytes are passed over, and an option that does not end in the area is none. -/
def wantedFrom (options : Nat → UInt8) (opcode : UInt8) (offset : Nat) : Int :=
  if 128 ≤ offset ∨ options offset = 255 then -1
  else if options offset = 0 then wantedFrom options opcode (offset + 1)
  else if 128 < offset + 2 ∨ 128 < offset + ((options (offset + 1)).toNat + 2) then -1
  else if options offset = opcode then
    (optionValue (Slice.read options (offset + 2) (options (offset + 1)).toNat)).getD (-1)
  else wantedFrom options opcode (offset + ((options (offset + 1)).toNat + 2))
termination_by 128 - offset

def wanted (options : Nat → UInt8) (opcode : UInt8) : Int := wantedFrom options opcode 0

/-- All that is read lies in the area, the round after a pad byte begins with the next byte, and the result is the one
wanted. -/
structure FindsFrom (options : Nat → UInt8) (opcode : UInt8) (offset : Nat) : Prop where
  inside : ∀ i ∈ (getLoop options opcode offset).reads, i < 128
  pads : ∀ i ∈ (getLoop options opcode offset).rounds, options i = 0 → i + 1 ∈ (getLoop options opcode offset).rounds
  result : (getLoop options opcode offset).result = wantedFrom options opcode offset

def Finds (options : Nat → UInt8) (opcode : UInt8) : Prop := FindsFrom options opcode 0

/-- The sizes of the values that are read. -/
def HasValue (opsz : UInt8) : Prop := opsz = 1 ∨ opsz = 2 ∨ opsz = 4

instance (opsz : UInt8) : Decidable (HasValue opsz) := inferInstanceAs (Decidable (_ ∨ _))

/-- From the offset on there are options up to an end byte, or one with the code, in the area. None of them is a pad
byte, and if the value of the last one is read it ends in the area. -/
inductive Readable (options : Nat → UInt8) (opcode : UInt8) : Nat → Prop
  | stop {offset : Nat} : offset < 128 → options offset = 255 → Readable options opcode offset
  | found {offset : Nat} : options offset = opcode → opcode ≠ 0 → opcode ≠ 255 → offset + 1 < 128 →
      (HasValue (options (offset + 1)) → offset + ((options (offset + 1)).toNat + 2) ≤ 128) →
      Readable options opcode offset
  | skip {offset : Nat} : options offset ≠ 0 → options offset ≠ 255 → options offset ≠ opcode →
      Readable options opcode (offset + ((options (offset + 1)).toNat + 2)) → Readable options opcode offset

/-! ## One round -/

section
variable {options : Nat → UInt8} {opcode opsz : UInt8} {offset ptr : Nat}

theorem readValue_of_hasValue (h : HasValue opsz) : readValue options ptr opsz =
    ((optionValue (Slice.read options ptr opsz.toNat)).getD (-1), List.range' ptr opsz.toNat) := by
  rcases h with rfl | rfl | rfl <;> rfl

theorem readValue_of_not (h : ¬ HasValue opsz) : readValue options ptr opsz = (-1, []) := by
  obtain ⟨h1, h2, h4⟩ : opsz ≠ 1 ∧ opsz ≠ 2 ∧ opsz ≠ 4 := by simpa [HasValue] using h
  rw [readValue, if_neg h1, if_neg h2, if_neg h4]

theorem hasValue_iff : HasValue opsz ↔ opsz.toNat = 1 ∨ opsz.toNat = 2 ∨ opsz.toNat = 4 := by
  simp only [HasValue, ← UInt8.toNat_inj]
  rfl

theorem optionValue_eq_none {l : List UInt8} (h : ¬ (l.length = 1 ∨ l.length = 2 ∨ l.length = 4)) :
    optionValue l = none := by
  match l with
  | [] => rfl
  | [a] => exact absurd (.inl rfl) h
  | [a, b] => exact absurd (.inr (.inl rfl)) h
  | [a, b, c] => rfl
  | [a, b, c, d] => exact absurd (.inr (.inr rfl)) h
  | a :: b :: c :: d :: e :: l => rfl

theorem value_of_not (h : ¬ HasValue opsz) : optionValue (Slice.read options ptr opsz.toNat) = none := by
  refine optionValue_eq_none ?_
  rw [Slice.length_read]
  exact fun hlen => h (hasValue_iff.mpr hlen)

/-- The `switch` reads the value. -/
theorem readValue_fst (options : Nat → UInt8) (ptr : Nat) (opsz : UInt8) :
    (readValue options ptr opsz).1 = (optionValue (Slice.read options ptr opsz.toNat)).getD (-1) := by
  by_cases h : HasValue opsz
  · rw [readValue_of_hasValue h]
  · rw [readValue_of_not h, value_of_not h]
    rfl

theorem getLoop_stop (h : options offset = 255) : getLoop options opcode offset = ⟨-1, [offset], [offset]⟩ := by
  rw [getLoop, if_pos h]

theorem getLoop_far (h : options offset ≠ 255) (hfar : 128 ≤ offset) :
    getLoop options opcode offset = ⟨0, [offset], [offset]⟩ := by
  rw [getLoop, if_neg h, if_pos hfar]

theorem getLoop_found (h : options offset ≠ 255) (hlt : offset < 128) (hcode : options offset = opcode) :
    getLoop options opcode offset = ⟨(readValue options (offset + 2) (options (offset + 1))).1, [offset],
      offset :: (offset + 1) :: (readValue options (offset + 2) (options (offset + 1))).2⟩ := by
  rw [getLoop, if_neg h, if_neg (Nat.not_le.mpr hlt), if_pos hcode]

theorem getLoop_skip (h : options offset ≠ 255) (hlt : offset < 128) (hcode : options offset ≠ opcode) :
    getLoop options opcode offset =
      ⟨(getLoop options opcode (offset + ((options (offset + 1)).toNat + 2))).result,
        offset :: (getLoop options opcode (offset + ((options (offset + 1)).toNat + 2))).rounds,
        offset :: (offset + 1) :: (getLoop options opcode (offset + ((options (offset + 1)).toNat + 2))).reads⟩ := by
  rw [getLoop, if_neg h, if_neg (Nat.not_le.mpr hlt), if_neg hcode]

/-- What a loop reads first. -/
theorem mem_reads (options : Nat → UInt8) (opcode : UInt8) (offset : Nat) :
    offset ∈ (getLoop options opcode offset).reads := by
  unfold getLoop
  split
  · exact List.mem_cons_self ..
  · split
    · exact List.mem_cons_self ..
    · split <;> exact List.mem_cons_self ..

/-- The rounds go on. -/
theorem le_of_mem_rounds {i : Nat} (hi : i ∈ (getLoop options opcode offset).rounds) : offset ≤ i := by
  induction offset using getLoop.induct options opcode with
  | case1 offset h =>
    rw [getLoop_stop h] at hi
    exact Nat.le_of_eq (List.mem_singleton.mp hi).symm
  | case2 offset h hfar =>
    rw [getLoop_far h hfar] at hi
    exact Nat.le_of_eq (List.mem_singleton.mp hi).symm
  | case3 offset h hlt opsz hcode =>
    rw [getLoop_found h (Nat.not_le.mp hlt) hcode] at hi
    exact Nat.le_of_eq (List.mem_singleton.mp hi).symm
  | case4 offset h hlt opsz hcode ih =>
    rw [getLoop_skip h (Nat.not_le.mp hlt) hcode] at hi
    rcases List.mem_cons.mp hi with rfl | hi
    · exact Nat.le_refl _
    · exact Nat.le_trans (Nat.le_add_right ..) (ih hi)

/-! ## The whole walk -/

theorem Readable.lt (h : Readable options opcode offset) : offset < 128 := by
  induction h with
  | stop hlt => exact hlt
  | found _ _ _ hlt => omega
  | skip _ _ _ _ ih => omega

theorem Readable.ne_zero (h : Readable options opcode offset) : options offset ≠ 0 := by
  cases h with
  | stop _ hend => exact hend ▸ by decide
  | found hcode hne => exact hcode ▸ hne
  | skip hne => exact hne

theorem FindsFrom.lt (h : FindsFrom options opcode offset) : offset < 128 := h.inside _ (mem_reads ..)

/-- A pad byte is not passed over. -/
theorem FindsFrom.ne_zero (h : FindsFrom options opcode offset) : options offset ≠ 0 := by
  intro hpad
  have hnot : options offset ≠ 255 := hpad ▸ by decide
  by_cases hcode : options offset = opcode
  · have hmem := h.pads offset
    rw [getLoop_found hnot h.lt hcode] at hmem
    exact absurd (List.mem_singleton.mp (hmem (List.mem_cons_self ..) hpad)) (Nat.succ_ne_self offset)
  · have hmem := h.pads offset
    rw [getLoop_skip hnot h.lt hcode] at hmem
    rcases List.mem_cons.mp (hmem (List.mem_cons_self ..) hpad) with heq | hin
    · exact Nat.succ_ne_self offset heq
    · have hle := le_of_mem_rounds hin
      omega

theorem wantedFrom_of_lt (hne : options offset ≠ 0) (hend : options offset ≠ 255)
    (hlt : offset + 1 < 128) : wantedFrom options opcode offset =
      if 128 < offset + ((options (offset + 1)).toNat + 2) then -1
      else if options offset = opcode then
        (optionValue (Slice.read options (offset + 2) (options (offset + 1)).toNat)).getD (-1)
      else wantedFrom options opcode (offset + ((options (offset + 1)).toNat + 2)) := by
  have h1 : ¬ (128 ≤ offset ∨ options offset = 255) := not_or.mpr ⟨by omega, hend⟩
  have h2 : ¬ 128 < offset + 2 := by omega
  rw [wantedFrom, if_neg h1, if_neg hne]
  simp only [h2, false_or]

/-- At an option with the code. -/
theorem findsFrom_found (hne : options offset ≠ 0) (hend : options offset ≠ 255) (hlt : offset < 128)
    (hcode : options offset = opcode) : FindsFrom options opcode offset ↔ offset + 1 < 128 ∧
      (HasValue (options (offset + 1)) → offset + ((options (offset + 1)).toNat + 2) ≤ 128) := by
  have hloop := getLoop_found hend hlt hcode
  constructor
  · intro h
    have hin := h.inside
    rw [hloop] at hin
    refine ⟨hin _ (List.mem_cons_of_mem _ (List.mem_cons_self ..)), fun hvalue => ?_⟩
    rw [readValue_of_hasValue hvalue] at hin
    have hpos : 0 < (options (offset + 1)).toNat := by
      rcases hasValue_iff.mp hvalue with h | h | h <;> omega
    have hlast : offset + 2 + ((options (offset + 1)).toNat - 1) ∈
        List.range' (offset + 2) (options (offset + 1)).toNat := List.mem_range'_1.mpr (by omega)
    have hbound := hin _ (List.mem_cons_of_mem _ (List.mem_cons_of_mem _ hlast))
    omega
  · rintro ⟨hlt', hfits⟩
    have hwanted : wantedFrom options opcode offset = _ := wantedFrom_of_lt hne hend hlt'
    rw [if_pos hcode] at hwanted
    refine ⟨?_, ?_, ?_⟩
    · rw [hloop]
      intro i hi
      rcases List.mem_cons.mp hi with rfl | hi
      · exact hlt
      · rcases List.mem_cons.mp hi with rfl | hi
        · exact hlt'
        · by_cases hvalue : HasValue (options (offset + 1))
          · rw [readValue_of_hasValue hvalue] at hi
            have hrange := List.mem_range'_1.mp hi
            have hle := hfits hvalue
            omega
          · rw [readValue_of_not hvalue] at hi
            exact absurd hi List.not_mem_nil
    · rw [hloop]
      intro i hi hpad
      rw [List.mem_singleton.mp hi] at hpad
      exact absurd hpad hne
    · rw [hloop, hwanted]
      dsimp only
      rw [readValue_fst]
      by_cases hvalue : HasValue (options (offset + 1))
      · rw [if_neg (Nat.not_lt.mpr (hfits hvalue))]
      · rw [value_of_not hvalue]
        exact (ite_self (-1)).symm

/-- At any other one. -/
theorem findsFrom_skip (hne : options offset ≠ 0) (hend : options offset ≠ 255) (hlt : offset < 128)
    (hcode : options offset ≠ opcode) : FindsFrom options opcode offset ↔
      FindsFrom options opcode (offset + ((options (offset + 1)).toNat + 2)) := by
  have hloop := getLoop_skip hend hlt hcode
  have hwanted : offset + ((options (offset + 1)).toNat + 2) < 128 → wantedFrom options opcode offset =
      wantedFrom options opcode (offset + ((options (offset + 1)).toNat + 2)) := by
    intro hnext
    rw [wantedFrom_of_lt hne hend (by omega), if_neg (by omega), if_neg hcode]
  constructor
  · intro h
    obtain ⟨hin, hpads, hresult⟩ := h
    rw [hloop] at hin hpads hresult
    have hnext := hin _ (List.mem_cons_of_mem _ (List.mem_cons_of_mem _ (mem_reads options opcode _)))
    refine ⟨fun i hi => hin i (List.mem_cons_of_mem _ (List.mem_cons_of_mem _ hi)), fun i hi hpad => ?_,
      hresult.trans (hwanted hnext)⟩
    rcases List.mem_cons.mp (hpads i (List.mem_cons_of_mem _ hi) hpad) with heq | hmem
    · have hle := le_of_mem_rounds hi
      omega
    · exact hmem
  · intro h
    have hnext := h.lt
    refine ⟨?_, ?_, ?_⟩
    · rw [hloop]
      intro i hi
      rcases List.mem_cons.mp hi with rfl | hi
      · exact hlt
      · rcases List.mem_cons.mp hi with rfl | hi
        · omega
        · exact h.inside i hi
    · rw [hloop]
      intro i hi hpad
      rcases List.mem_cons.mp hi with rfl | hi
      · exact absurd hpad hne
      · exact List.mem_cons_of_mem _ (h.pads i hi hpad)
    · rw [hloop, hwanted hnext]
      exact h.result

/-- **The reader** does what it should exactly in such an area. -/
theorem findsFrom_iff (options : Nat → UInt8) (opcode : UInt8) (offset : Nat) :
    FindsFrom options opcode offset ↔ Readable options opcode offset := by
  induction offset using getLoop.induct options opcode with
  | case1 offset hend =>
    constructor
    · exact fun h => .stop h.lt hend
    · intro h
      have hlt := h.lt
      have hloop : getLoop options opcode offset = ⟨-1, [offset], [offset]⟩ := getLoop_stop hend
      refine ⟨?_, ?_, ?_⟩
      · rw [hloop]
        exact fun i hi => List.mem_singleton.mp hi ▸ hlt
      · rw [hloop]
        intro i hi hpad
        rw [List.mem_singleton.mp hi, hend] at hpad
        exact absurd hpad (by decide)
      · rw [hloop, wantedFrom, if_pos (.inr hend)]
  | case2 offset hend hfar =>
    exact iff_of_false (fun h => absurd h.lt (Nat.not_lt.mpr hfar)) fun h => absurd h.lt (Nat.not_lt.mpr hfar)
  | case3 offset hend hnfar opsz hcode =>
    have hlt := Nat.not_le.mp hnfar
    by_cases hpad : options offset = 0
    · exact iff_of_false (fun h => h.ne_zero hpad) fun h => h.ne_zero hpad
    · rw [findsFrom_found hpad hend hlt hcode]
      constructor
      · rintro ⟨hlt', hfits⟩
        exact .found hcode (hcode ▸ hpad) (hcode ▸ hend) hlt' hfits
      · intro h
        cases h with
        | stop _ h255 => exact absurd h255 hend
        | found _ _ _ hlt' hfits => exact ⟨hlt', hfits⟩
        | skip _ _ hne => exact absurd hcode hne
  | case4 offset hend hnfar opsz hcode ih =>
    have hlt := Nat.not_le.mp hnfar
    by_cases hpad : options offset = 0
    · exact iff_of_false (fun h => h.ne_zero hpad) fun h => h.ne_zero hpad
    · rw [findsFrom_skip hpad hend hlt hcode, ih]
      constructor
      · exact fun h => .skip hpad hend hcode h
      · intro h
        cases h with
        | stop _ h255 => exact absurd h255 hend
        | found heq => exact absurd heq hcode
        | skip _ _ _ h => exact h

/-- There are not many rounds. -/
theorem length_rounds (options : Nat → UInt8) (opcode : UInt8) (offset : Nat) :
    (getLoop options opcode offset).rounds.length ≤ (129 - offset) / 2 + 1 := by
  induction offset using getLoop.induct options opcode with
  | case1 offset h =>
    rw [getLoop_stop h, List.length_singleton]
    omega
  | case2 offset h hfar =>
    rw [getLoop_far h hfar, List.length_singleton]
    omega
  | case3 offset h hlt opsz hcode =>
    rw [getLoop_found h (Nat.not_le.mp hlt) hcode, List.length_singleton]
    omega
  | case4 offset h hlt opsz hcode ih =>
    have hrest : (getLoop options opcode (offset + ((options (offset + 1)).toNat + 2))).rounds.length ≤
        (129 - (offset + ((options (offset + 1)).toNat + 2))) / 2 + 1 := ih
    rw [getLoop_skip h (Nat.not_le.mp hlt) hcode, List.length_cons]
    omega

end

/-! ## Options that were added -/

structure DhcpOption where
  code : UInt8
  value : List UInt8
  short : value.length < 256
  notEnd : code ≠ 255

def DhcpOption.bytes (o : DhcpOption) : List UInt8 := o.code :: UInt8.ofNat o.value.length :: o.value

/-- What the reader returns for it. -/
def DhcpOption.result (o : DhcpOption) : Int := (optionValue o.value).getD (-1)

/-- Options that fit into the area, with the end byte. -/
structure AddedOptions where
  options : List DhcpOption
  fits : (options.flatMap DhcpOption.bytes).length < 128

/-- The callers add the options one behind the other, and then the end byte. -/
def addAll (options : Nat → UInt8) (offset : Nat) : List DhcpOption → (Nat → UInt8)
  | [] => (dhcpAddOption options offset 255 []).2
  | o :: added =>
    let (length, options) := dhcpAddOption options offset o.code o.value
    addAll options (offset + length) added

/-- The area after that. -/
def area (options : Nat → UInt8) (added : AddedOptions) : Nat → UInt8 := addAll options 0 added.options

/-- Each value that was added is returned. -/
def Returns (options : Nat → UInt8) (added : AddedOptions) : Prop :=
  ∀ o ∈ added.options, ∀ v, optionValue o.value = some v → (dhcpGetOption (area options added) o.code).result = v

/-- The first option with the code of a value has the same result. -/
def AddedOptions.Agree (added : AddedOptions) : Prop :=
  ∀ o ∈ added.options, ∀ v, optionValue o.value = some v →
    ∀ first, added.options.find? (fun p => p.code == o.code) = some first → first.result = v

section
variable {options : Nat → UInt8} {opcode : UInt8} {offset : Nat} {added : List DhcpOption}

theorem length_bytes (o : DhcpOption) : o.bytes.length = o.value.length + 2 := rfl

theorem dhcpAddOption_eq (o : DhcpOption) (hlt : offset < 128) :
    dhcpAddOption options offset o.code o.value = (o.bytes.length, Slice.write options offset o.bytes) := by
  rw [dhcpAddOption, if_neg (Nat.not_le.mpr hlt), if_neg o.notEnd]
  rfl

/-- The options are in the area, behind what was there, and the end byte behind them. -/
theorem read_addAll (h : offset + (added.flatMap DhcpOption.bytes).length < 128) :
    Slice.read (addAll options offset added) 0 (offset + (added.flatMap DhcpOption.bytes ++ [255]).length) =
      Slice.read options 0 offset ++ (added.flatMap DhcpOption.bytes ++ [255]) := by
  induction added generalizing options offset with
  | nil =>
    rw [List.flatMap_nil, List.length_nil, Nat.add_zero] at h
    rw [addAll, dhcpAddOption, if_neg (Nat.not_le.mpr h), if_pos rfl, List.flatMap_nil, List.nil_append,
      ← Slice.write_singleton]
    have hread := Slice.read_write_append options 0 offset [255]
    rwa [Nat.zero_add] at hread
  | cons o added ih =>
    rw [List.flatMap_cons, List.length_append] at h
    have hwrite := Slice.read_write_append options 0 offset o.bytes
    rw [Nat.zero_add] at hwrite
    have hrest := @ih (Slice.write options offset o.bytes) (offset + o.bytes.length) (by omega)
    rw [hwrite] at hrest
    rw [addAll, dhcpAddOption_eq o (by omega), List.flatMap_cons, List.append_assoc, List.length_append,
      ← Nat.add_assoc, ← List.append_assoc, hrest]

/-- The reader in such an area. -/
theorem getLoop_added (opcode : UInt8) (h : offset + (added.flatMap DhcpOption.bytes).length < 128)
    (hread : Slice.read options offset (added.flatMap DhcpOption.bytes ++ [255]).length =
      added.flatMap DhcpOption.bytes ++ [255]) :
    (getLoop options opcode offset).result =
      ((added.find? fun p => p.code == opcode).map DhcpOption.result).getD (-1) := by
  induction added generalizing offset with
  | nil =>
    have hend : options offset = 255 := (List.cons.inj hread).1
    rw [getLoop_stop hend]
    rfl
  | cons o added ih =>
    rw [List.flatMap_cons, List.append_assoc, Slice.read_append_iff] at hread
    rw [List.flatMap_cons, List.length_append] at h
    obtain ⟨hoption, hrest⟩ := hread
    rw [length_bytes, Slice.read_succ, Slice.read_succ] at hoption
    obtain ⟨hcode, hsize, hvalue⟩ : options offset = o.code ∧ options (offset + 1) = UInt8.ofNat o.value.length ∧
        Slice.read options (offset + 2) o.value.length = o.value := by
      obtain ⟨hcode, htail⟩ := List.cons.inj hoption
      obtain ⟨hsize, hvalue⟩ := List.cons.inj htail
      exact ⟨hcode, hsize, hvalue⟩
    have hlen : (options (offset + 1)).toNat = o.value.length := by
      rw [hsize, UInt8.toNat_ofNat']
      have := o.short
      omega
    have hend : options offset ≠ 255 := hcode ▸ o.notEnd
    have hlt : offset < 128 := by omega
    by_cases hfound : o.code = opcode
    · rw [getLoop_found hend hlt (hcode.trans hfound), List.find?_cons_of_pos (by simpa using hfound)]
      dsimp only
      rw [readValue_fst, hlen, hvalue]
      rfl
    · rw [getLoop_skip hend hlt fun heq => hfound (hcode.symm.trans heq),
        List.find?_cons_of_neg (by simpa using hfound)]
      dsimp only
      rw [hlen, ← length_bytes]
      exact ih (by omega) hrest

theorem returns_iff (options : Nat → UInt8) (added : AddedOptions) : Returns options added ↔ added.Agree := by
  have hread := @read_addAll options 0 added.options (by rw [Nat.zero_add]; exact added.fits)
  rw [Nat.zero_add, Slice.read_zero, List.nil_append] at hread
  refine forall₂_congr fun o ho => forall₂_congr fun v _ => ?_
  rw [dhcpGetOption, area, getLoop_added o.code (by rw [Nat.zero_add]; exact added.fits) hread]
  have hsome : (added.options.find? fun p => p.code == o.code).isSome := List.find?_isSome.mpr ⟨o, ho, by simp⟩
  obtain ⟨first, hfirst⟩ := Option.isSome_iff_exists.mp hsome
  rw [hfirst]
  constructor
  · rintro hv first' heq
    cases heq
    exact hv
  · exact fun h => h first rfl

end

/-- **The options**: the reader always returns, after at most 65 rounds. It does what it should exactly in the areas that
are options up to an end byte or the option it looks for, without pad bytes. Options that were added are read back
exactly if no other value comes first under the same code. -/
theorem dhcpOptions_iff (options : Nat → UInt8) :
    (∀ opcode, (dhcpGetOption options opcode).rounds.length ≤ 65) ∧
    (∀ opcode, Finds options opcode ↔ Readable options opcode 0) ∧
    ∀ added, Returns options added ↔ added.Agree :=
  ⟨fun opcode => length_rounds options opcode 0, fun opcode => findsFrom_iff options opcode 0, returns_iff options⟩

/-- A pad byte in front of the option 6, 10.0.0.1. -/
def padded : Nat → UInt8 := fun i => [0, 6, 4, 10, 0, 0, 1, 255].getD i 0

/-- The pad byte is taken for an option of six bytes, and the reader leaves the area. -/
theorem dhcpOptions_pad : ¬ Finds padded 6 := fun h => FindsFrom.ne_zero h rfl

end RetrOS.Dhcp
