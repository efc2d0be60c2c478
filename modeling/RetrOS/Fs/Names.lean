import RetrOS.Fs.Entry

/-!
# FAT16: names (`fat16_name_compare`)

* `toUpper` : `TO_UPPER` and `fat16_to_upper`;
* `nameCompare` : a component of a path against the 11 bytes of an entry;
* `ShortName` : a valid 8.3 name; `str` is how it is written, `field` the 11 bytes it stands for;
* `nameCompare_iff` : a valid name matches its 11 bytes and no other ones.

The comparison ends at the first dot of the component, so the name of the parent entry matches blank bytes only
(`nameCompare_dotdot`).
-/

namespace RetrOS.Fs

def dot : UInt8 := 0x2E
def slash : UInt8 := 0x2F
def space : UInt8 := 0x20

def toUpperChar (c : UInt8) : UInt8 := if 0x61 ≤ c ∧ c ≤ 0x7A then c - 0x20 else c

def toUpper (s : List UInt8) : List UInt8 := s.map toUpperChar

/-- Bytes up to `n`, filled with spaces. -/
def pad (n : Nat) (l : List UInt8) : List UInt8 := l ++ List.replicate (n - l.length) space

/-- The loops over the name part: what is left of the component, if it matches. -/
def compareBase : List UInt8 → List UInt8 → Option (List UInt8)
  | p, [] => some p
  | [], b => if b.all (· == space) then some [] else none
  | c :: p, x :: b =>
    if c = dot then if (x :: b).all (· == space) then some (c :: p) else none
    else if c = x then compareBase p b
    else none

/-- The loops over the extension. -/
def compareExtension : List UInt8 → List UInt8 → Bool
  | _, [] => true
  | [], e => e.all (· == space)
  | c :: p, x :: e => c == x && compareExtension p e

/-- A dot behind the name is skipped. -/
def skipDot : List UInt8 → List UInt8
  | [] => []
  | c :: p => if c = dot then p else c :: p

def nameCompare (pathPart fullName : List UInt8) : Bool :=
  match compareBase (toUpper pathPart) (fullName.take 8) with
  | none => false
  | some rest => compareExtension (skipDot rest) (fullName.drop 8)

/-! ## Characters -/

@[simp] theorem length_toUpper (s : List UInt8) : (toUpper s).length = s.length := List.length_map ..

theorem toUpper_append (s t : List UInt8) : toUpper (s ++ t) = toUpper s ++ toUpper t := List.map_append ..

theorem length_pad {n : Nat} {l : List UInt8} (h : l.length ≤ n) : (pad n l).length = n := by
  rw [pad, List.length_append, List.length_replicate]
  omega

theorem pad_of_length {n : Nat} {l : List UInt8} (h : l.length = n) : pad n l = l := by
  rw [pad, h, Nat.sub_self, List.replicate_zero, List.append_nil]

theorem toUpper_toUpper (s : List UInt8) : toUpper (toUpper s) = toUpper s := by
  have hall : ∀ b : BitVec 8, toUpperChar (toUpperChar ⟨b⟩) = toUpperChar ⟨b⟩ := by decide
  rw [toUpper, toUpper, List.map_map]
  exact List.map_congr_left fun c _ => hall c.toBitVec

theorem toUpper_pad (n : Nat) (s : List UInt8) : toUpper (pad n s) = pad n (toUpper s) := by
  rw [pad, toUpper_append, pad, length_toUpper]
  congr 1
  rw [toUpper, List.map_replicate]
  rfl

/-- A character of a valid name. -/
def validChar (c : UInt8) : Bool := 0x20 < c && c != dot && c != slash

theorem validChar_toUpper {c : UInt8} (h : validChar c) : validChar (toUpperChar c) := by
  have hall : ∀ b : BitVec 8, validChar ⟨b⟩ → validChar (toUpperChar ⟨b⟩) := by decide
  exact hall c.toBitVec h

theorem validChar_ne_space {c : UInt8} (h : validChar c) : c ≠ space := by
  rintro rfl
  exact absurd h (by decide)

theorem validChar_ne_dot {c : UInt8} (h : validChar c) : c ≠ dot := by
  rintro rfl
  exact absurd h (by decide)

theorem validChar_toUpper_mem {s : List UInt8} (h : ∀ c ∈ s, validChar c) : ∀ c ∈ toUpper s, validChar c := by
  intro c hc
  obtain ⟨d, hd, rfl⟩ := List.mem_map.mp hc
  exact validChar_toUpper (h d hd)

/-- A filled name ends where the spaces begin. -/
theorem takeWhile_pad {n : Nat} {s : List UInt8} (hs : ∀ c ∈ s, validChar c) :
    (pad n s).takeWhile (· != space) = s := by
  have hmem : ∀ c ∈ s, (c != space) = true := fun c hc => by simpa using validChar_ne_space (hs c hc)
  rw [pad, List.takeWhile_append_of_pos hmem, List.takeWhile_replicate, if_neg (by decide), List.append_nil]

theorem pad_inj {n : Nat} {s t : List UInt8} (hs : ∀ c ∈ s, validChar c) (ht : ∀ c ∈ t, validChar c)
    (h : pad n s = pad n t) : s = t := by
  rw [← takeWhile_pad hs, h, takeWhile_pad ht]

theorem all_space_iff {l : List UInt8} : l.all (· == space) ↔ l = List.replicate l.length space := by
  rw [List.all_eq_true, List.eq_replicate_iff]
  simp

/-! ## What a component matches -/

/-- The name part of a component: `s` up to a dot, the end or the last byte of the field. -/
theorem compareBase_eq {s b rest : List UInt8} (hs : ∀ c ∈ s, c ≠ dot) (hlen : s.length ≤ b.length)
    (hrest : s.length < b.length → rest.head?.all (· == dot)) :
    compareBase (s ++ rest) b = if b = pad b.length s then some rest else none := by
  induction s generalizing b with
  | nil =>
    cases b with
    | nil => simp [compareBase, pad]
    | cons x b =>
      have hblank : (x :: b).all (· == space) ↔ x :: b = pad (x :: b).length [] := all_space_iff
      cases rest with
      | nil => simp only [List.append_nil, compareBase, hblank]
      | cons c rest =>
        obtain rfl : c = dot := by simpa using hrest (Nat.succ_pos _)
        simp only [List.nil_append, compareBase, if_pos, hblank]
  | cons c s ih =>
    cases b with
    | nil => simp at hlen
    | cons x b =>
      have hc := hs c (List.mem_cons_self ..)
      simp only [List.length_cons, Nat.add_le_add_iff_right, Nat.add_lt_add_iff_right] at hlen hrest
      have hpad : pad (x :: b).length (c :: s) = c :: pad b.length s := by simp [pad]
      rw [List.cons_append, compareBase, if_neg hc, hpad]
      by_cases hx : c = x
      · subst hx
        rw [if_pos rfl, ih (fun d hd => hs d (List.mem_cons_of_mem _ hd)) hlen hrest]
        simp only [List.cons.injEq, true_and]
      · rw [if_neg hx, if_neg fun h => hx (List.cons.inj h).1.symm]

/-- Of an extension as many characters are compared as the field has. -/
theorem compareExtension_iff {s e : List UInt8} : compareExtension s e ↔ e = pad e.length (s.take e.length) := by
  induction s generalizing e with
  | nil =>
    cases e with
    | nil => simp [compareExtension, pad]
    | cons x e => exact all_space_iff
  | cons c s ih =>
    cases e with
    | nil => simp [compareExtension, pad]
    | cons x e =>
      have hpad : pad (x :: e).length ((c :: s).take (x :: e).length) = c :: pad e.length (s.take e.length) := by
        simp [pad]
      rw [hpad, List.cons.injEq, compareExtension, Bool.and_eq_true, ih, beq_iff_eq, eq_comm]

/-- A component with the name part `s`, which fills the field or ends at a dot or the end, and the rest `rest`. -/
theorem nameCompare_parts {p s rest full : List UInt8} (hp : toUpper p = s ++ rest) (hs : ∀ c ∈ s, c ≠ dot)
    (hs8 : s.length ≤ 8) (hrest : s.length < 8 → rest.head?.all (· == dot)) (hfull : full.length = 11) :
    nameCompare p full ↔ full = pad 8 s ++ pad 3 ((skipDot rest).take 3) := by
  have htake : (full.take 8).length = 8 := by rw [List.length_take]; omega
  have hdrop : (full.drop 8).length = 3 := by rw [List.length_drop]; omega
  have hsplit : full = pad 8 s ++ pad 3 ((skipDot rest).take 3) ↔
      full.take 8 = pad 8 s ∧ full.drop 8 = pad 3 ((skipDot rest).take 3) := by
    conv_lhs => rw [← List.take_append_drop 8 full]
    exact ⟨fun h => List.append_inj h (by rw [htake, length_pad hs8]), fun h => by rw [h.1, h.2]⟩
  rw [nameCompare, hp, compareBase_eq hs (by rw [htake]; exact hs8) (by rw [htake]; exact hrest), htake, hsplit]
  by_cases hb : full.take 8 = pad 8 s
  · rw [if_pos hb]
    dsimp only
    rw [compareExtension_iff, hdrop]
    exact (and_iff_right hb).symm
  · rw [if_neg hb]
    exact iff_of_false Bool.false_ne_true fun h => hb h.1

/-- A component with the name part `s` and the rest `rest`, a dot and an extension. -/
theorem nameCompare_split {p s rest full : List UInt8} (hp : toUpper p = s ++ rest) (hs : ∀ c ∈ s, c ≠ dot)
    (hs8 : s.length ≤ 8) (hrest : rest.head?.all (· == dot)) (hext : (skipDot rest).length ≤ 3)
    (hfull : full.length = 11) : nameCompare p full ↔ full = pad 8 s ++ pad 3 (skipDot rest) := by
  rw [nameCompare_parts hp hs hs8 (fun _ => hrest) hfull, List.take_of_length_le hext]

/-- The comparison does not tell upper from lower case in the component. -/
theorem nameCompare_congr {p q : List UInt8} (h : toUpper p = toUpper q) (full : List UInt8) :
    nameCompare p full = nameCompare q full := by
  rw [nameCompare, nameCompare, h]

/-! ## Valid names -/

/-- A valid 8.3 name. A first byte of 0xE5 would mark a deleted entry. -/
structure ShortName where
  base : List UInt8
  extension : List UInt8
  base_pos : 0 < base.length
  base_le : base.length ≤ 8
  extension_le : extension.length ≤ 3
  valid : ∀ c ∈ base ++ extension, validChar c
  not_deleted : base.head? ≠ some 0xE5

namespace ShortName

/-- The name as it is written, with a dot before an extension. -/
def str (n : ShortName) : List UInt8 := n.base ++ if n.extension = [] then [] else dot :: n.extension

def name8 (n : ShortName) : Bytes 8 :=
  ⟨pad 8 (toUpper n.base), length_pad (by rw [length_toUpper]; exact n.base_le)⟩

def extension3 (n : ShortName) : Bytes 3 :=
  ⟨pad 3 (toUpper n.extension), length_pad (by rw [length_toUpper]; exact n.extension_le)⟩

/-- The 11 bytes the name stands for. -/
def field (n : ShortName) : List UInt8 := n.name8.1 ++ n.extension3.1

theorem valid_base (n : ShortName) : ∀ c ∈ n.base, validChar c := fun c hc =>
  n.valid c (List.mem_append_left _ hc)

theorem valid_extension (n : ShortName) : ∀ c ∈ n.extension, validChar c := fun c hc =>
  n.valid c (List.mem_append_right _ hc)

theorem toUpper_str (n : ShortName) : toUpper n.str =
    toUpper n.base ++ if n.extension = [] then [] else dot :: toUpper n.extension := by
  rw [str, toUpper_append]
  split <;> rfl

/-- A valid name matches the 11 bytes it stands for and no other ones. -/
theorem nameCompare_iff (n : ShortName) {full : List UInt8} (hlen : full.length = 11) :
    nameCompare n.str full ↔ full = n.field := by
  have hbase : ∀ c ∈ toUpper n.base, c ≠ dot := fun c hc =>
    validChar_ne_dot (validChar_toUpper_mem n.valid_base c hc)
  have hskip : skipDot (if n.extension = [] then [] else dot :: toUpper n.extension) = toUpper n.extension := by
    split
    · rename_i h
      rw [h]
      rfl
    · rfl
  have hsplit := nameCompare_split n.toUpper_str hbase (by rw [length_toUpper]; exact n.base_le) (by split <;> rfl)
    (by rw [hskip, length_toUpper]; exact n.extension_le) hlen
  rw [hskip] at hsplit
  exact hsplit

/-- Names that differ in upper case stand for different bytes. -/
theorem field_inj {m n : ShortName} (h : m.field = n.field) :
    toUpper m.base = toUpper n.base ∧ toUpper m.extension = toUpper n.extension := by
  obtain ⟨hb, he⟩ := List.append_inj h (by rw [m.name8.2, n.name8.2])
  exact ⟨pad_inj (validChar_toUpper_mem m.valid_base) (validChar_toUpper_mem n.valid_base) hb,
    pad_inj (validChar_toUpper_mem m.valid_extension) (validChar_toUpper_mem n.valid_extension) he⟩

theorem length_field (n : ShortName) : n.field.length = 11 := by
  rw [field, List.length_append, n.name8.2, n.extension3.2]

theorem field_eq_iff {m n : ShortName} : m.field = n.field ↔ toUpper m.str = toUpper n.str := by
  constructor
  · intro h
    obtain ⟨hb, he⟩ := field_inj h
    have hnil : m.extension = [] ↔ n.extension = [] := by
      rw [← List.length_eq_zero_iff, ← length_toUpper, he, length_toUpper, List.length_eq_zero_iff]
    simp only [toUpper_str, hb, he, hnil]
  · intro h
    have hself := (n.nameCompare_iff n.length_field).mpr rfl
    rw [← nameCompare_congr h] at hself
    exact ((m.nameCompare_iff n.length_field).mp hself).symm

end ShortName

/-! ## Dot entries -/

/-- `..` matches a blank name with the extension `.`. -/
theorem nameCompare_dotdot {full : List UInt8} (hlen : full.length = 11) :
    nameCompare [dot, dot] full ↔ full = List.replicate 8 space ++ [dot, space, space] :=
  nameCompare_split (p := [dot, dot]) (s := []) rfl (by simp) (by simp) rfl (by decide) hlen

end RetrOS.Fs
