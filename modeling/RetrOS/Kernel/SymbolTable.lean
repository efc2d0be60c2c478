import RetrOS.Kernel.Symbols
import Mathlib.Data.List.Find

/-!
# Loading the symbols of a file

* `content` : a file of lines, the last one with its newline or without it;
* `Loaded` : the table has the symbols of the lines, with the least and the greatest address, and the lookup finds the
  first one with a name;
* `numSymbols_loadLoop_le` : a symbol is counted at a newline;
* `loadLoop_lines` : the table after all lines;
* `Loadable`, `loaded_iff` : the files that are loaded so.
-/

namespace RetrOS.Ksyms
open RetrOS.Libc

/-- The lines of a file, the last one with or without its newline. -/
def content (ls : List Line) (terminated : Bool) : Str :=
  if terminated then ls.flatMap Line.text else (ls.flatMap Line.text).dropLast

/-- The address of the first entry with exactly this name, or 0. -/
def resolve (entries : List Entry) (name : Str) : UInt32 :=
  match entries.find? fun e => e.name = name with
  | some e => e.addr
  | none => 0

structure Loaded (t : KernelSymbols) (ls : List Line) (s : Symbols) : Prop where
  count : s.numSymbols = ls.length
  entries : ∀ k (h : k < ls.length), s.symtable k = ls[k].entry
  min : ls ≠ [] → (∃ l ∈ ls, l.addr = s.min) ∧ ∀ l ∈ ls, s.min ≤ l.addr
  max : ls ≠ [] → (∃ l ∈ ls, l.addr = s.max) ∧ ∀ l ∈ ls, l.addr ≤ s.max
  resolves : ∀ name, 0 ∉ name → ksymsResolveSymbol t s name = resolve (t.symtable ++ ls.map Line.entry) name

/-- The last line has its newline, the file is not longer than the buffer, and no name behind the address zero is read
as a number. -/
structure Loadable (ls : List Line) (terminated : Bool) : Prop where
  newline : terminated = true ∨ ls = []
  size : (content ls terminated).length ≤ MAX_SYMBOLS * 50
  zero : ∀ l ∈ ls, l.addr = 0 → htoi l.name = 0

/-! ## Counting -/

section Count
variable {buf : Str}

theorem count_take_succ (buf : Str) (i n : Nat) (c : UInt8) :
    ((buf.drop i).take (n + 1)).count c =
      (if buf[i]? = some c then 1 else 0) + ((buf.drop (i + 1)).take n).count c := by
  rw [← List.drop_drop, ← List.head?_drop]
  cases buf.drop i with
  | nil => simp
  | cons d l => simp [List.count_cons, Nat.add_comm]

/-- A symbol is counted at a newline. -/
theorem numSymbols_loadLoop_le (n i j : Nat) (s : Symbols) :
    (loadLoop buf n i j s).numSymbols ≤ s.numSymbols + ((buf.drop i).take n).count '\n'.toUInt8 := by
  induction n generalizing i j s with
  | zero => exact Nat.le_add_right ..
  | succ n ih =>
    rw [loadLoop, count_take_succ]
    split
    · exact Nat.le_trans (ih ..) (by simp only [Symbols.setAddr]; omega)
    split
    · dsimp only
      split
      · simp only [Symbols.setName]
        omega
      · exact Nat.le_trans (ih ..) (by simp only [Symbols.setName]; omega)
    · exact Nat.le_trans (ih ..) (by omega)

theorem count_text (l : Line) : l.text.count '\n'.toUInt8 = 1 := by
  have hdigits : '\n'.toUInt8 ∉ l.digits := fun h => absurd (l.xdigits _ h) (by decide)
  have hname : '\n'.toUInt8 ∉ l.name := fun h => (l.plain _ h).2.1 rfl
  have hspace : (' '.toUInt8 == '\n'.toUInt8) = false := by decide
  simp [Line.text, List.count_append, List.count_cons, List.count_eq_zero_of_not_mem hdigits,
    List.count_eq_zero_of_not_mem hname, hspace]

theorem count_flatMap_text (ls : List Line) : (ls.flatMap Line.text).count '\n'.toUInt8 = ls.length := by
  induction ls with
  | nil => rfl
  | cons l ls ih => rw [List.flatMap_cons, List.count_append, count_text, ih, List.length_cons, Nat.add_comm]

/-- Without its last newline a file has one symbol less. -/
theorem count_dropLast {ls : List Line} (hne : ls ≠ []) :
    ls.flatMap Line.text = (ls.flatMap Line.text).dropLast ++ ['\n'.toUInt8] ∧
      ((ls.flatMap Line.text).dropLast).count '\n'.toUInt8 < ls.length := by
  have hlast : ls.flatMap Line.text = (ls.flatMap Line.text).dropLast ++ ['\n'.toUInt8] := by
    obtain ⟨ls, l, rfl⟩ := (List.eq_nil_or_concat ls).resolve_left hne
    have htext : (ls ++ [l]).flatMap Line.text =
        ls.flatMap Line.text ++ (l.digits ++ ' '.toUInt8 :: l.name) ++ ['\n'.toUInt8] := by
      simp [Line.text]
    rw [List.concat_eq_append, htext, List.dropLast_concat]
  refine ⟨hlast, ?_⟩
  have hcount := count_flatMap_text ls
  rw [hlast, List.count_append] at hcount
  have hone : ['\n'.toUInt8].count '\n'.toUInt8 = 1 := rfl
  omega

/-- Where the last newline is missing or lies behind the buffer, the table has too few symbols. -/
theorem numSymbols_lt {ls : List Line} {terminated : Bool} (behind : Str) (symtable : Nat → Entry) (hne : ls ≠ [])
    (h : terminated = false ∨ MAX_SYMBOLS * 50 < (content ls terminated).length) :
    (loadSymbols (initSymbols symtable) (.file (content ls terminated) behind)).2.numSymbols < ls.length := by
  obtain ⟨hlast, hlt⟩ := count_dropLast hne
  have hread : (content ls terminated).take (MAX_SYMBOLS * 50) =
      ((ls.flatMap Line.text).dropLast).take (MAX_SYMBOLS * 50) := by
    cases terminated with
    | false => rfl
    | true =>
      have hlong := h.resolve_left (by decide)
      rw [content, if_pos rfl] at hlong ⊢
      rw [hlast, List.length_append, List.length_singleton] at hlong
      conv_lhs => rw [hlast]
      exact List.take_append_of_le_length (by omega)
  have hcount := @numSymbols_loadLoop_le ((content ls terminated).take (MAX_SYMBOLS * 50) ++ behind)
    ((content ls terminated).take (MAX_SYMBOLS * 50)).length 0 0 (initSymbols symtable)
  rw [List.drop_zero, List.take_left, hread] at hcount
  have hle := (List.take_sublist (MAX_SYMBOLS * 50) (ls.flatMap Line.text).dropLast).count_le '\n'.toUInt8
  rw [loadSymbols, hread]
  have hzero : (initSymbols symtable).numSymbols = 0 := rfl
  dsimp only
  omega

end Count

/-! ## The table after all lines -/

section Lines
variable {buf rest : Str} {i : Nat} {s : Symbols} {ls : List Line}

def Symbols.addAll (s : Symbols) (ls : List Line) : Symbols := ls.foldl Symbols.add s

theorem loadLoop_lines (h : buf.drop i = ls.flatMap Line.text ++ rest)
    (hcount : s.numSymbols + ls.length ≤ MAX_SYMBOLS) :
    loadLoop buf (ls.flatMap Line.text).length i i s = s.addAll ls := by
  induction ls generalizing i s with
  | nil => rfl
  | cons l ls ih =>
    rw [List.flatMap_cons, List.append_assoc] at h
    rw [List.length_cons] at hcount
    have hnum : (s.add l).numSymbols = s.numSymbols + 1 := rfl
    rw [List.flatMap_cons, List.length_append, loadLoop_line l h, hnum]
    split
    · -- the table is full, so this was the last line
      obtain rfl : ls = [] := List.eq_nil_of_length_eq_zero (by omega)
      rfl
    · exact ih (drop_of_drop h) (by rw [hnum]; omega)

theorem numSymbols_addAll (s : Symbols) (ls : List Line) : (s.addAll ls).numSymbols = s.numSymbols + ls.length := by
  induction ls generalizing s with
  | nil => rfl
  | cons l ls ih =>
    have hnum : (s.add l).numSymbols = s.numSymbols + 1 := rfl
    rw [Symbols.addAll, List.foldl_cons, List.length_cons]
    exact (ih (s.add l)).trans (by rw [hnum]; omega)

theorem symtable_add (s : Symbols) (l : Line) :
    (s.add l).symtable = Function.update s.symtable s.numSymbols ⟨l.name, l.addrRead⟩ := by
  simp [Symbols.add, Symbols.setName, Symbols.setAddr]

/-- Entries that are there stay. -/
theorem symtable_addAll_of_lt {k : Nat} (hk : k < s.numSymbols) : (s.addAll ls).symtable k = s.symtable k := by
  induction ls generalizing s with
  | nil => rfl
  | cons l ls ih =>
    have hnum : (s.add l).numSymbols = s.numSymbols + 1 := rfl
    have hrec := ih (s := s.add l) (by omega)
    rw [symtable_add, Function.update_of_ne (by omega)] at hrec
    exact hrec

theorem symtable_addAll {k : Nat} (hk : k < ls.length) :
    (s.addAll ls).symtable (s.numSymbols + k) = ⟨ls[k].name, ls[k].addrRead⟩ := by
  induction ls generalizing s k with
  | nil => exact absurd hk (Nat.not_lt_zero k)
  | cons l ls ih =>
    have hnum : (s.add l).numSymbols = s.numSymbols + 1 := rfl
    cases k with
    | zero =>
      have hstay : ((s.add l).addAll ls).symtable s.numSymbols = (s.add l).symtable s.numSymbols :=
        symtable_addAll_of_lt (by omega)
      rw [symtable_add, Function.update_self] at hstay
      exact hstay
    | succ k =>
      have hrec := ih (s := s.add l) (Nat.lt_of_succ_lt_succ hk)
      rw [hnum, Nat.add_right_comm] at hrec
      exact hrec

theorem bounds_add (s : Symbols) (l : Line) :
    ((s.add l).min ≤ s.min ∧ (s.add l).min ≤ l.addrRead ∧ ((s.add l).min = s.min ∨ l.addrRead = (s.add l).min)) ∧
      s.max ≤ (s.add l).max ∧ l.addrRead ≤ (s.add l).max ∧ ((s.add l).max = s.max ∨ l.addrRead = (s.add l).max) := by
  have hmin : (s.add l).min = if l.addrRead < s.min then l.addrRead else s.min := rfl
  have hmax : (s.add l).max = if l.addrRead > s.max then l.addrRead else s.max := rfl
  constructor
  · rw [hmin]
    split
    · next h => exact ⟨UInt32.le_of_lt h, UInt32.le_refl _, .inr rfl⟩
    · next h => exact ⟨UInt32.le_refl _, UInt32.not_lt.mp h, .inl rfl⟩
  · rw [hmax]
    split
    · next h => exact ⟨UInt32.le_of_lt h, UInt32.le_refl _, .inr rfl⟩
    · next h => exact ⟨UInt32.le_refl _, UInt32.not_lt.mp h, .inl rfl⟩

/-- The bounds after all lines bound the addresses, and each is one of them or that of the start. -/
structure Bounds (s : Symbols) (ls : List Line) (s' : Symbols) : Prop where
  min_le : s'.min ≤ s.min
  le_max : s.max ≤ s'.max
  between : ∀ l ∈ ls, s'.min ≤ l.addrRead ∧ l.addrRead ≤ s'.max
  min_eq : s'.min = s.min ∨ ∃ l ∈ ls, l.addrRead = s'.min
  max_eq : s'.max = s.max ∨ ∃ l ∈ ls, l.addrRead = s'.max

theorem bounds_addAll (s : Symbols) (ls : List Line) : Bounds s ls (s.addAll ls) := by
  induction ls generalizing s with
  | nil => exact ⟨UInt32.le_refl _, UInt32.le_refl _, fun l hl => absurd hl List.not_mem_nil, .inl rfl, .inl rfl⟩
  | cons l ls ih =>
    obtain ⟨hmin, hmax, hbetween, hmineq, hmaxeq⟩ := ih (s.add l)
    obtain ⟨⟨hle, hadd, heq⟩, hle', hadd', heq'⟩ := bounds_add s l
    have hmore {P : Line → Prop} (h : ∃ m ∈ ls, P m) : ∃ m ∈ l :: ls, P m := by
      obtain ⟨m, hm, hP⟩ := h
      exact ⟨m, List.mem_cons_of_mem l hm, hP⟩
    refine ⟨UInt32.le_trans hmin hle, UInt32.le_trans hle' hmax, ?_, ?_, ?_⟩
    · intro m hm
      rcases List.mem_cons.mp hm with rfl | hm
      · exact ⟨UInt32.le_trans hmin hadd, UInt32.le_trans hadd' hmax⟩
      · exact hbetween m hm
    · rcases hmineq with h | h
      · exact heq.imp h.trans fun ha => ⟨l, List.mem_cons_self .., ha.trans h.symm⟩
      · exact .inr (hmore h)
    · rcases hmaxeq with h | h
      · exact heq'.imp h.trans fun ha => ⟨l, List.mem_cons_self .., ha.trans h.symm⟩
      · exact .inr (hmore h)

/-- From the start, the bounds are addresses as soon as there are any. -/
theorem Bounds.attained {symtable : Nat → Entry} {ls : List Line} {s : Symbols} (h : Bounds (initSymbols symtable) ls s)
    (hne : ls ≠ []) : (∃ l ∈ ls, l.addrRead = s.min) ∧ ∃ l ∈ ls, l.addrRead = s.max := by
  obtain ⟨l, hl⟩ := List.exists_mem_of_ne_nil ls hne
  obtain ⟨hmin, hmax⟩ := h.between l hl
  rw [UInt32.le_iff_toNat_le] at hmin hmax
  constructor
  · rcases h.min_eq with hstart | hmem
    · have htop : s.min.toNat = 2 ^ 32 - 1 := congrArg UInt32.toNat hstart
      have hlt := l.addrRead.toNat_lt
      exact ⟨l, hl, UInt32.toNat_inj.mp (by omega)⟩
    · exact hmem
  · rcases h.max_eq with hstart | hmem
    · have hbottom : s.max.toNat = 0 := congrArg UInt32.toNat hstart
      exact ⟨l, hl, UInt32.toNat_inj.mp (by omega)⟩
    · exact hmem

/-- An address that is not zero is read as it is. -/
theorem entry_eq_iff {l : Line} : (⟨l.name, l.addrRead⟩ : Entry) = l.entry ↔ (l.addr = 0 → htoi l.name = 0) := by
  have haddr : l.addr = 0 ↔ hexValue l.digits = 0 := by
    rw [← UInt32.toNat_inj, Line.addr, UInt32.toNat_ofNat_of_lt' l.fits]
    rfl
  have hread : (⟨l.name, l.addrRead⟩ : Entry) = l.entry ↔ l.addrRead = l.addr := by simp [Line.entry]
  rw [hread, Line.addrRead]
  by_cases h : hexValue l.digits = 0
  · rw [if_pos h, haddr.mpr h]
    constructor
    · intro h0 _
      exact congrArg UInt32.toInt32 h0
    · intro h0
      exact congrArg Int32.toUInt32 (h0 rfl)
  · rw [if_neg h]
    exact iff_of_true rfl fun h0 => absurd (haddr.mp h0) h

/-- The lookup compares whole names. -/
theorem matches_iff {e : Entry} {name : Str} (he : 0 ∉ e.name) (hname : 0 ∉ name) :
    e.matches name = true ↔ e.name = name := by
  rw [Entry.matches, strlen_eq he, strlen_eq hname, List.take_length, Bool.and_eq_true, List.isPrefixOf_iff_prefix,
    beq_iff_eq]
  constructor
  · rintro ⟨hbegins, hlen⟩
    exact (hbegins.eq_of_length hlen.symm).symm
  · rintro rfl
    exact ⟨List.prefix_rfl, rfl⟩

theorem find?_matches {entries : List Entry} (hentries : ∀ e ∈ entries, 0 ∉ e.name) {name : Str} (hname : 0 ∉ name) :
    entries.find? (·.matches name) = entries.find? fun e => e.name = name := by
  apply List.find?_congr
  intro e he
  rw [Bool.eq_iff_iff, matches_iff (hentries e he) hname, decide_eq_true_iff]

/-- The lookup searches one list after the other. -/
theorem ksymsResolveSymbol_eq (t : KernelSymbols) {entries : List Entry} (hentries : ∀ e ∈ entries, 0 ∉ e.name)
    {name : Str}
    (hs : (List.range s.numSymbols).map s.symtable = entries) (hname : 0 ∉ name) :
    ksymsResolveSymbol t s name = resolve (t.symtable ++ entries) name := by
  rw [ksymsResolveSymbol, hs, find?_matches t.name hname, find?_matches hentries hname, resolve, List.find?_append]
  cases t.symtable.find? fun e => e.name = name with
  | none => rfl
  | some e => rfl

/-! ## The file -/

theorem numSymbols_init_addAll (symtable : Nat → Entry) (ls : List Line) :
    ((initSymbols symtable).addAll ls).numSymbols = ls.length := by
  rw [numSymbols_addAll]
  exact Nat.zero_add _

theorem symtable_init_addAll (symtable : Nat → Entry) {k : Nat} (hk : k < ls.length) :
    ((initSymbols symtable).addAll ls).symtable k = ⟨ls[k].name, ls[k].addrRead⟩ := by
  have hadd := symtable_addAll (s := initSymbols symtable) hk
  rwa [show (initSymbols symtable).numSymbols = 0 from rfl, Nat.zero_add] at hadd

/-- A file that is read whole adds all its lines. -/
theorem loadSymbols_eq (symtable : Nat → Entry) (behind : Str) {terminated : Bool} (hlines : ls.length ≤ MAX_SYMBOLS)
    (hnewline : terminated = true ∨ ls = []) (hsize : (content ls terminated).length ≤ MAX_SYMBOLS * 50) :
    (loadSymbols (initSymbols symtable) (.file (content ls terminated) behind)).2 =
      (initSymbols symtable).addAll ls := by
  have htext : content ls terminated = ls.flatMap Line.text := by
    rcases hnewline with rfl | rfl
    · rfl
    · cases terminated <;> rfl
  rw [loadSymbols, List.take_of_length_le hsize, htext]
  exact loadLoop_lines rfl (by simpa [initSymbols] using hlines)

theorem Loaded.loadable {t : KernelSymbols} {symtable : Nat → Entry} {terminated : Bool} {behind : Str}
    (hlines : ls.length ≤ MAX_SYMBOLS)
    (h : Loaded t ls (loadSymbols (initSymbols symtable) (.file (content ls terminated) behind)).2) :
    Loadable ls terminated := by
  have hfew (hcut : terminated = false ∨ MAX_SYMBOLS * 50 < (content ls terminated).length) (hne : ls ≠ []) : False :=
    Nat.ne_of_lt (numSymbols_lt behind symtable hne hcut) h.count
  have hnewline : terminated = true ∨ ls = [] := by
    by_contra hcon
    rw [not_or, Bool.not_eq_true] at hcon
    exact hfew (.inl hcon.1) hcon.2
  have hsize : (content ls terminated).length ≤ MAX_SYMBOLS * 50 := by
    by_contra hcon
    apply hfew (.inr (Nat.lt_of_not_le hcon))
    rintro rfl
    exact hcon (by cases terminated <;> exact Nat.zero_le _)
  refine ⟨hnewline, hsize, ?_⟩
  intro l hl
  obtain ⟨k, hk, rfl⟩ := List.getElem_of_mem hl
  have hentry := h.entries k hk
  rw [loadSymbols_eq symtable behind hlines hnewline hsize, symtable_init_addAll symtable hk] at hentry
  exact entry_eq_iff.mp hentry

theorem Loadable.loaded (t : KernelSymbols) (symtable : Nat → Entry) {terminated : Bool} (behind : Str)
    (hlines : ls.length ≤ MAX_SYMBOLS) (h : Loadable ls terminated) :
    Loaded t ls (loadSymbols (initSymbols symtable) (.file (content ls terminated) behind)).2 := by
  rw [loadSymbols_eq symtable behind hlines h.newline h.size]
  have hnum := numSymbols_init_addAll symtable ls
  have hread : ∀ l ∈ ls, l.addrRead = l.addr := fun l hl => congrArg Entry.addr (entry_eq_iff.mpr (h.zero l hl))
  have hentries (k : Nat) (hk : k < ls.length) : ((initSymbols symtable).addAll ls).symtable k = ls[k].entry := by
    rw [symtable_init_addAll symtable hk]
    exact entry_eq_iff.mpr (h.zero _ (List.getElem_mem hk))
  have hbounds := bounds_addAll (initSymbols symtable) ls
  have hmem {a : UInt32} (h : ∃ l ∈ ls, l.addrRead = a) : ∃ l ∈ ls, l.addr = a := by
    obtain ⟨l, hl, rfl⟩ := h
    exact ⟨l, hl, (hread l hl).symm⟩
  refine ⟨hnum, hentries, fun hne => ⟨hmem (hbounds.attained hne).1, ?_⟩,
    fun hne => ⟨hmem (hbounds.attained hne).2, ?_⟩, ?_⟩
  · intro l hl
    rw [← hread l hl]
    exact (hbounds.between l hl).1
  · intro l hl
    rw [← hread l hl]
    exact (hbounds.between l hl).2
  · intro name hname
    refine ksymsResolveSymbol_eq t ?_ ?_ hname
    · intro e he
      obtain ⟨l, hl, rfl⟩ := List.mem_map.mp he
      exact fun h0 => (l.plain 0 h0).2.2 rfl
    · rw [hnum]
      refine List.ext_getElem (by simp) ?_
      intro k h1 h2
      simp only [List.getElem_map, List.getElem_range]
      exact hentries k (by simpa using h2)

end Lines

/-- **When the file is loaded**: exactly if its last line has a newline, it fits in the buffer, and no name behind the
address zero is read as a number. -/
theorem loaded_iff (t : KernelSymbols) (symtable : Nat → Entry) (ls : List Line) (terminated : Bool) (behind : Str)
    (hlines : ls.length ≤ MAX_SYMBOLS) :
    Loaded t ls (loadSymbols (initSymbols symtable) (.file (content ls terminated) behind)).2 ↔
      Loadable ls terminated :=
  ⟨fun h => h.loadable hlines, fun h => h.loaded t symtable behind hlines⟩

/-- The line `10 f`. -/
def line : Line where
  digits := ['1', '0'].map Char.toUInt8
  name := ['f'.toUInt8]
  digits_ne := by decide
  xdigits := List.forall_mem_cons.mpr ⟨by decide, List.forall_mem_singleton.mpr (by decide)⟩
  fits := by decide
  plain := List.forall_mem_singleton.mpr (by decide)
  short := by decide

def noSymbols : KernelSymbols := ⟨[], by decide, by decide⟩

def garbage : Nat → Entry := fun _ => ⟨[], 0⟩

theorem loaded_iff_line :
    Loaded noSymbols [line] (loadSymbols (initSymbols garbage) (.file (content [line] true) [])).2 ↔
      Loadable [line] true :=
  loaded_iff noSymbols garbage [line] true [] (by decide)

/-- The file "10 f", without a newline. -/
theorem not_loaded_line :
    ¬ Loaded noSymbols [line] (loadSymbols (initSymbols garbage) (.file (content [line] false) [])).2 := by
  intro h
  have hcount := numSymbols_lt [] garbage (List.cons_ne_nil line []) (.inl rfl)
  rw [h.count] at hcount
  exact absurd hcount (by decide)

end RetrOS.Ksyms
