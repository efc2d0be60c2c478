import RetrOS.Fs.Names

/-!
# FAT16: which components match which names (`fat16_name_compare`)

* `Spelling` : how a name of at most 8 and an extension of at most 3 characters are written, with a dot between them
  when there is an extension; `str` and the 11 bytes `field` it stands for;
* `truncated` : the one field that a component matches (`nameCompare_iff_truncated`). Characters behind the eighth of
  a name are taken for the extension, whether a dot comes before them or not, and those behind the third of an
  extension are not looked at;
* `nameCompare_spells_iff` : the comparison is right except for what is no spelling and its truncation.
-/

namespace RetrOS.Fs

/-- A name and an extension without dots. -/
structure Spelling where
  base : List UInt8
  extension : List UInt8
  base_le : base.length ≤ 8
  extension_le : extension.length ≤ 3
  base_dot : dot ∉ base
  extension_dot : dot ∉ extension

namespace Spelling

/-- With one dot when there is an extension. -/
def str (s : Spelling) : List UInt8 := s.base ++ if s.extension = [] then [] else dot :: s.extension

/-- In upper case and filled with spaces. -/
def field (s : Spelling) : Bytes 11 :=
  ⟨pad 8 (toUpper s.base) ++ pad 3 (toUpper s.extension), by
    rw [List.length_append, length_pad (by rw [length_toUpper]; exact s.base_le),
      length_pad (by rw [length_toUpper]; exact s.extension_le)]⟩

end Spelling

/-- The component is a spelling of a name. -/
def IsSpelling (p : List UInt8) : Prop := ∃ s : Spelling, s.str = p

/-- The component is a spelling of the name that stands in the field. -/
def Spells (p : List UInt8) (full : Bytes 11) : Prop := ∃ s : Spelling, s.str = p ∧ s.field = full

/-- The name part of a component, of at most 8 characters. -/
def truncatedBase (p : List UInt8) : List UInt8 := ((toUpper p).takeWhile (· != dot)).take 8

/-- The first 3 characters behind the name part and a dot. -/
def truncatedExtension (p : List UInt8) : List UInt8 :=
  (skipDot ((toUpper p).drop (truncatedBase p).length)).take 3

theorem length_truncatedBase (p : List UInt8) : (truncatedBase p).length ≤ 8 := List.length_take_le ..

theorem length_truncatedExtension (p : List UInt8) : (truncatedExtension p).length ≤ 3 := List.length_take_le ..

def truncated (p : List UInt8) : Bytes 11 :=
  ⟨pad 8 (truncatedBase p) ++ pad 3 (truncatedExtension p), by
    rw [List.length_append, length_pad (length_truncatedBase p), length_pad (length_truncatedExtension p)]⟩

/-! ## What the comparison accepts -/

theorem truncatedBase_append (p : List UInt8) :
    toUpper p = truncatedBase p ++ (toUpper p).drop (truncatedBase p).length := by
  have hpre : truncatedBase p <+: toUpper p := (List.take_prefix ..).trans (List.takeWhile_prefix ..)
  conv_lhs => rw [← List.take_append_drop (truncatedBase p).length (toUpper p)]
  rw [← List.prefix_iff_eq_take.mp hpre]

theorem dot_notMem_truncatedBase (p : List UInt8) : ∀ c ∈ truncatedBase p, c ≠ dot := by
  intro c hc
  simpa using List.all_eq_true.mp List.all_takeWhile c (List.mem_of_mem_take hc)

theorem toUpper_truncatedBase (p : List UInt8) : toUpper (truncatedBase p) = truncatedBase p := by
  have hpre : truncatedBase p <+: toUpper p := (List.take_prefix ..).trans (List.takeWhile_prefix ..)
  rw [List.prefix_iff_eq_take.mp hpre, toUpper, List.map_take]
  congr 1
  exact toUpper_toUpper p

/-- A name part of less than 8 characters ends at a dot or with the component. -/
theorem head_drop_truncatedBase (p : List UInt8) (h : (truncatedBase p).length < 8) :
    ((toUpper p).drop (truncatedBase p).length).head?.all (· == dot) := by
  have hall : truncatedBase p = (toUpper p).takeWhile (· != dot) := by
    refine List.take_of_length_le ?_
    rw [truncatedBase, List.length_take] at h
    omega
  have hdrop : (toUpper p).drop (truncatedBase p).length = (toUpper p).dropWhile (· != dot) := by
    conv_lhs => rw [← List.takeWhile_append_dropWhile (p := (· != dot)) (l := toUpper p)]
    rw [hall, List.drop_left]
  have hhead := List.head?_dropWhile_not (· != dot) (toUpper p)
  rw [hdrop]
  cases hd : ((toUpper p).dropWhile (· != dot)).head? with
  | none => rfl
  | some c =>
    rw [hd] at hhead
    simpa using hhead

/-- A component matches its truncation and no other field. -/
theorem nameCompare_iff_truncated (p : List UInt8) (full : Bytes 11) : nameCompare p full.1 ↔ full = truncated p := by
  rw [nameCompare_parts (truncatedBase_append p) (dot_notMem_truncatedBase p) (length_truncatedBase p)
    (head_drop_truncatedBase p) full.2]
  show full.1 = (truncated p).1 ↔ _
  exact Subtype.ext_iff.symm

/-! ## Spellings -/

theorem toUpper_dot {s : List UInt8} (h : dot ∉ s) : ∀ c ∈ toUpper s, (c != dot) = true := by
  have hall : ∀ b : BitVec 8, toUpperChar ⟨b⟩ = dot → (⟨b⟩ : UInt8) = dot := by decide
  intro c hc
  obtain ⟨d, hd, rfl⟩ := List.mem_map.mp hc
  simp only [bne_iff_ne, ne_eq]
  exact fun hdot => h (hall d.toBitVec hdot ▸ hd)

/-- A spelling is not truncated. -/
theorem Spelling.truncated_str (s : Spelling) : truncated s.str = s.field := by
  obtain ⟨r, hr⟩ : ∃ r, r = if s.extension = [] then [] else dot :: toUpper s.extension := ⟨_, rfl⟩
  have hup : toUpper s.str = toUpper s.base ++ r := by
    rw [str, toUpper_append, hr]
    split <;> rfl
  have hskip : skipDot r = toUpper s.extension := by
    rw [hr]
    split
    · next h =>
      rw [h]
      rfl
    · rfl
  have hbase : truncatedBase s.str = toUpper s.base := by
    have htake : (toUpper s.base ++ r).takeWhile (· != dot) = toUpper s.base := by
      rw [List.takeWhile_append_of_pos (toUpper_dot s.base_dot), hr]
      split <;> simp
    rw [truncatedBase, hup, htake, List.take_of_length_le (by rw [length_toUpper]; exact s.base_le)]
  have hext : truncatedExtension s.str = toUpper s.extension := by
    rw [truncatedExtension, hbase, hup, List.drop_left, hskip,
      List.take_of_length_le (by rw [length_toUpper]; exact s.extension_le)]
  apply Subtype.ext
  show pad 8 (truncatedBase s.str) ++ pad 3 (truncatedExtension s.str) = _
  rw [hbase, hext]
  rfl

theorem Spelling.nameCompare_iff (s : Spelling) (full : Bytes 11) : nameCompare s.str full.1 ↔ full = s.field := by
  rw [nameCompare_iff_truncated, s.truncated_str]

/-- The comparison tells whether the component is a spelling of the field exactly if the component is a spelling of
some name or the field is not its truncation. -/
theorem nameCompare_spells_iff (p : List UInt8) (full : Bytes 11) :
    (nameCompare p full.1 ↔ Spells p full) ↔ IsSpelling p ∨ full ≠ truncated p := by
  rw [nameCompare_iff_truncated]
  by_cases hp : IsSpelling p
  · refine iff_of_true ?_ (.inl hp)
    obtain ⟨s, rfl⟩ := hp
    constructor
    · rintro rfl
      exact ⟨s, rfl, s.truncated_str.symm⟩
    · rintro ⟨t, hstr, rfl⟩
      rw [← hstr, t.truncated_str]
  · have hno : ¬ Spells p full := fun ⟨s, hs, _⟩ => hp ⟨s, hs⟩
    rw [iff_false_right hno, or_iff_right hp]

/-- Eight characters and three without a dot. -/
theorem nameCompare_noDot : nameCompare (ascii "ABCDEFGHTXT") (ascii "ABCDEFGHTXT") = true ∧
    ¬ Spells (ascii "ABCDEFGHTXT") ⟨ascii "ABCDEFGHTXT", by decide⟩ := by
  refine ⟨by decide, ?_⟩
  rintro ⟨s, hs, -⟩
  have hdot : dot ∉ s.str := by
    rw [hs]
    decide
  have hext : s.extension = [] := by
    by_contra hne
    rw [Spelling.str, if_neg hne] at hdot
    exact hdot (List.mem_append_right _ (List.mem_cons_self ..))
  have hlen := congrArg List.length hs
  rw [Spelling.str, if_pos hext, List.append_nil] at hlen
  have hle := s.base_le
  rw [hlen] at hle
  exact absurd hle (by decide)

end RetrOS.Fs
