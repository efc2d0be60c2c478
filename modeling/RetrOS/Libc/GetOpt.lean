import RetrOS.Lib.Run
import RetrOS.Libc.Numbers

/-!
# Options of a command (`getopt` of `lib/libc.c`)

* `GetOpt`, `Args.getopt` : the static variables, and a call;
* `reportAt`, `stateAt` : calls one after the other;
* `Scan` : the calls of one scan, as the loop of `__cc` makes them: up to the first result in `stops`;
* `options` : the options of the leading option words with their arguments, and the words behind them;
* `Right` : a scan reports them, and leaves the variables as they were at the start;
* `Follows` : the variables stand at a place of the words; `call_of_follows`, `ends_of_follows` : what a call does there;
* `Good`, `scans_iff` : the arguments whose scans are right.
-/

namespace RetrOS.Libc.GetOpt
open RetrOS.Lib

/-- `optind` and `optpos`. -/
structure State where
  optind : Nat
  optpos : Nat
  deriving DecidableEq

def State.init : State := ⟨1, 1⟩

/-- What a call returns, and what it stores in `optarg`. -/
structure Report where
  result : Int32
  optarg : Option Str
  deriving DecidableEq

/-- The arguments of a scan; `argc` is the length of `argv`. -/
structure Args where
  argv : List Str
  optstring : Str
  nul : ∀ w ∈ argv, 0 ∉ w

/-- The loop that searches an option: the rest of `optstring` from it on. -/
def optptr (optstring : Str) (opt : UInt8) : Str := optstring.dropWhile (· ≠ opt)

namespace Args

/-- `argv[i]` -/
def word (a : Args) (i : Nat) : Str := a.argv.getD i []

/-- The end of a call that found the option `opt`. -/
def finish (a : Args) (opt : UInt8) (optarg : Option Str) (s : State) : Report × State :=
  if s.optind ≥ a.argv.length then (⟨-1, optarg⟩, .init) else (⟨ofChar opt, optarg⟩, s)

def getopt (a : Args) (s : State) : Report × State :=
  if a.argv.length = 0 ∨ s.optind ≥ a.argv.length ∨ (a.word s.optind).getD 0 0 ≠ '-'.toUInt8 ∨
      (a.word s.optind).getD 1 0 = 0 then (⟨-1, none⟩, .init)
  else
    let opt := (a.word s.optind).getD s.optpos 0
    match optptr a.optstring opt with
    | [] => (⟨ofChar '?'.toUInt8, none⟩, s)
    | _ :: next =>
      if next.head? = some ':'.toUInt8 then
        if (a.word s.optind).getD (s.optpos + 1) 0 ≠ 0 then
          a.finish opt (some ((a.word s.optind).drop (s.optpos + 1))) ⟨s.optind + 1, 1⟩
        else if s.optind + 1 < a.argv.length then
          a.finish opt (some (a.word (s.optind + 1))) ⟨s.optind + 2, 1⟩
        else (⟨ofChar ':'.toUInt8, none⟩, s)
      else if (a.word s.optind).getD (s.optpos + 1) 0 ≠ 0 then a.finish opt none ⟨s.optind, s.optpos + 1⟩
      else a.finish opt none ⟨s.optind + 1, 1⟩

/-- Call `n` from the state on. -/
def reportAt (a : Args) (s : State) : Nat → Report
  | 0 => (a.getopt s).1
  | n + 1 => reportAt a (a.getopt s).2 n

/-- The state after `n` calls. -/
def stateAt (a : Args) (s : State) : Nat → State
  | 0 => s
  | n + 1 => stateAt a (a.getopt s).2 n

end Args

/-! ## Scans -/

/-- The results at which the loop of `__cc` ends. -/
def stops (result : Int32) : Bool := result = -1 || result = ofChar '?'.toUInt8 || result = ofChar ':'.toUInt8

/-- A scan is called until a result stops it. -/
def Scan (s : State) (a : Args) (t : State) : Prop :=
  ∃ n, (∀ i < n, stops (a.reportAt s i).result = false) ∧ stops (a.reportAt s n).result ∧ t = a.stateAt s (n + 1)

/-- A report in front of the others. -/
def report (r : Report) (rest : List Report × List Str) : List Report × List Str := (r :: rest.1, rest.2)

/-- The options of the rest of an option word and of the option words behind it, and the words that follow. An option
that is not in `optstring` is reported as `?`, one without its argument as `:`. -/
def options (optstring : Str) : Str → List Str → List Report × List Str
  | [], [] => ([], [])
  | [], w :: ws =>
    match w with
    | d :: c :: cs => if d = '-'.toUInt8 then options optstring (c :: cs) ws else ([], w :: ws)
    | _ => ([], w :: ws)
  | c :: cs, ws =>
    match optptr optstring c with
    | [] => report ⟨ofChar '?'.toUInt8, none⟩ (options optstring cs ws)
    | _ :: next =>
      if next.head? = some ':'.toUInt8 then
        match cs, ws with
        | [], [] => ([⟨ofChar ':'.toUInt8, none⟩], [])
        | [], w :: ws => report ⟨ofChar c, some w⟩ (options optstring [] ws)
        | d :: cs, ws => report ⟨ofChar c, some (d :: cs)⟩ (options optstring [] ws)
      else report ⟨ofChar c, none⟩ (options optstring cs ws)
termination_by cs ws => (ws.length, cs.length)

namespace Args

/-- The options of the leading option words. -/
def reports (a : Args) : List Report := (options a.optstring [] a.argv.tail).1

/-- The words behind the options. -/
def operands (a : Args) : List Str := (options a.optstring [] a.argv.tail).2

end Args

/-- The calls up to the first -1 report the options, and every scan leaves the static variables as at the start. -/
structure Right (s : State) (a : Args) : Prop where
  reports : ∀ i (h : i < a.reports.length), a.reportAt s i = a.reports[i] ∧ (a.reportAt s i).result ≠ -1
  ends : (a.reportAt s a.reports.length).result = -1
  fresh : ∀ t, Scan s a t → t = .init

/-- All options are known and have their arguments, none is one of the characters that stop a scan, and an operand follows
them. -/
structure Good (a : Args) : Prop where
  known : ∀ r ∈ a.reports, stops r.result = false
  operand : a.reports ≠ [] → a.operands ≠ []

/-! ## A call -/

/-- The variables stand in an option word in front of `cs`, or at the next word; `ws` are the words behind. -/
inductive Follows (a : Args) (s : State) : Str → List Str → Prop
  | inside {before cs : Str} {c : UInt8} {ws : List Str} :
      a.argv.drop s.optind = ('-'.toUInt8 :: (before ++ c :: cs)) :: ws → s.optpos = before.length + 1 →
      Follows a s (c :: cs) ws
  | word {ws : List Str} : a.argv.drop s.optind = ws → s.optpos = 1 → Follows a s [] ws

section Call
variable {a : Args} {s : State} {i : Nat} {c : UInt8} {cs w : Str} {ws rest : List Str} {r : Report} {rs : List Report}

theorem word_eq (h : a.argv.drop i = w :: ws) : a.word i = w := by
  rw [Args.word, List.getD_eq_getElem?_getD, ← List.head?_drop, h]
  rfl

theorem drop_succ (h : a.argv.drop i = w :: ws) : a.argv.drop (i + 1) = ws := by
  rw [← List.tail_drop, h, List.tail_cons]

theorem lt_length (h : a.argv.drop i = w :: ws) : i < a.argv.length := by
  by_contra hle
  rw [List.drop_eq_nil_of_le (by omega)] at h
  exact List.cons_ne_nil _ _ h.symm

theorem mem_of_drop (h : a.argv.drop i = w :: ws) : w ∈ a.argv :=
  List.mem_of_mem_drop (h ▸ List.mem_cons_self ..)

theorem getD_ne_zero (h : 0 ∉ w) : w.getD i 0 ≠ 0 ↔ i < w.length := by
  rw [List.getD_eq_getElem?_getD]
  rcases Nat.lt_or_ge i w.length with hi | hi
  · rw [List.getElem?_eq_getElem hi, Option.getD_some]
    exact iff_of_true (ne_of_mem_of_not_mem (List.getElem_mem hi) h) hi
  · rw [List.getElem?_eq_none hi, Option.getD_none]
    exact iff_of_false (fun h0 => h0 rfl) (by omega)

/-- At a word that is not an option a scan ends. -/
theorem getopt_word (h : a.argv.drop s.optind = ws)
    (hws : ∀ c cs ws', ws ≠ ('-'.toUInt8 :: c :: cs) :: ws') : a.getopt s = (⟨-1, none⟩, .init) := by
  refine if_pos ?_
  cases ws with
  | nil => exact .inr (.inl (List.drop_eq_nil_iff.mp h))
  | cons w ws =>
    rw [word_eq h]
    refine .inr (.inr ?_)
    match w, hws with
    | [], _ => exact .inl (by decide)
    | [d], _ => exact .inr rfl
    | d :: c :: cs, hws =>
      refine .inl fun hd => hws c cs ws ?_
      rw [← show d = '-'.toUInt8 from hd]

/-- A call in an option word. -/
theorem getopt_inside {before : Str} (h : a.argv.drop s.optind = ('-'.toUInt8 :: (before ++ c :: cs)) :: ws)
    (hpos : s.optpos = before.length + 1) :
    a.getopt s =
      match optptr a.optstring c with
      | [] => (⟨ofChar '?'.toUInt8, none⟩, s)
      | _ :: next =>
        if next.head? = some ':'.toUInt8 then
          if cs ≠ [] then a.finish c (some cs) ⟨s.optind + 1, 1⟩
          else if ws ≠ [] then a.finish c (some (ws.headD [])) ⟨s.optind + 2, 1⟩
          else (⟨ofChar ':'.toUInt8, none⟩, s)
        else if cs ≠ [] then a.finish c none ⟨s.optind, s.optpos + 1⟩
        else a.finish c none ⟨s.optind + 1, 1⟩ := by
  have hnul := a.nul _ (mem_of_drop h)
  have hlt := lt_length h
  have hword := word_eq h
  have hopt : (a.word s.optind).getD s.optpos 0 = c := by
    rw [hword, hpos]
    simp
  have hmore : (a.word s.optind).getD (s.optpos + 1) 0 ≠ 0 ↔ cs ≠ [] := by
    rw [hword, hpos, getD_ne_zero hnul, ← List.length_pos_iff]
    simp only [List.length_cons, List.length_append]
    omega
  have hnext : s.optind + 1 < a.argv.length ↔ ws ≠ [] := by
    rw [← drop_succ h, Ne, List.drop_eq_nil_iff, not_le]
  have hrest : (a.word s.optind).drop (s.optpos + 1) = cs := by
    rw [hword, hpos]
    simp
  have hargument : a.word (s.optind + 1) = ws.headD [] := by
    rw [Args.word, List.getD_eq_getElem?_getD, ← List.head?_drop, drop_succ h, List.headD_eq_head?_getD]
  unfold Args.getopt
  rw [if_neg]
  · dsimp only
    rw [hopt, hrest, hargument]
    simp only [hmore, hnext]
  · rintro (h0 | h0 | h0 | h0)
    · omega
    · omega
    · rw [hword] at h0
      exact h0 rfl
    · rw [hword] at h0
      refine (getD_ne_zero hnul).mpr ?_ h0
      simp

theorem options_cons (optstring : Str) (c : UInt8) (cs : Str) (ws : List Str) :
    options optstring (c :: cs) ws =
      match optptr optstring c with
      | [] => report ⟨ofChar '?'.toUInt8, none⟩ (options optstring cs ws)
      | _ :: next =>
        if next.head? = some ':'.toUInt8 then
          if cs ≠ [] then report ⟨ofChar c, some cs⟩ (options optstring [] ws)
          else if ws ≠ [] then report ⟨ofChar c, some (ws.headD [])⟩ (options optstring [] ws.tail)
          else ([⟨ofChar ':'.toUInt8, none⟩], [])
        else report ⟨ofChar c, none⟩ (options optstring cs ws) := by
  rw [options.eq_def]
  dsimp only
  cases optptr optstring c with
  | nil => rfl
  | cons d next =>
    cases cs with
    | nil =>
      cases ws with
      | nil => rfl
      | cons w ws => rfl
    | cons d cs => rfl

theorem options_word (optstring : Str) (c : UInt8) (cs : Str) (ws : List Str) :
    options optstring [] (('-'.toUInt8 :: c :: cs) :: ws) = options optstring (c :: cs) ws := by
  rw [options.eq_def]
  exact if_pos rfl

theorem options_operand (optstring : Str) (hws : ∀ c cs ws', ws ≠ ('-'.toUInt8 :: c :: cs) :: ws') :
    options optstring [] ws = ([], ws) := by
  match ws, hws with
  | [], _ => rw [options]
  | [] :: ws, _ => rw [options.eq_def]
  | [d] :: ws, _ => rw [options.eq_def]
  | (d :: c :: cs) :: ws, hws =>
    rw [options.eq_def]
    refine if_neg fun hd => hws c cs ws ?_
    rw [hd]

/-- Where an option is reported that does not stop the scan, a call passes it; it returns the option if there is something
behind it. -/
theorem call_inside {before : Str} (h : a.argv.drop s.optind = ('-'.toUInt8 :: (before ++ c :: cs)) :: ws)
    (hpos : s.optpos = before.length + 1) (hoptions : options a.optstring (c :: cs) ws = (r :: rs, rest))
    (hstop : stops r.result = false) :
    ∃ s' cs' ws', Follows a s' cs' ws' ∧ options a.optstring cs' ws' = (rs, rest) ∧
      a.getopt s = if s'.optind ≥ a.argv.length then (⟨-1, r.optarg⟩, .init) else (r, s') := by
  rw [options_cons] at hoptions
  rw [getopt_inside h hpos]
  cases hfound : optptr a.optstring c with
  | nil =>
    rw [hfound] at hoptions
    obtain ⟨hr, -⟩ := List.cons.inj (Prod.ext_iff.mp hoptions).1
    rw [← hr] at hstop
    exact absurd hstop (by decide)
  | cons d next =>
    rw [hfound] at hoptions
    dsimp only at hoptions ⊢
    by_cases hargument : next.head? = some ':'.toUInt8
    · rw [if_pos hargument] at hoptions ⊢
      by_cases hcs : cs ≠ []
      · rw [if_pos hcs] at hoptions ⊢
        obtain ⟨rfl, rfl⟩ := List.cons.inj (Prod.ext_iff.mp hoptions).1
        exact ⟨⟨s.optind + 1, 1⟩, [], ws, .word (drop_succ h) rfl, Prod.ext rfl (Prod.ext_iff.mp hoptions).2, rfl⟩
      · rw [if_neg hcs] at hoptions ⊢
        by_cases hws : ws ≠ []
        · rw [if_pos hws] at hoptions ⊢
          obtain ⟨rfl, rfl⟩ := List.cons.inj (Prod.ext_iff.mp hoptions).1
          have hdrop : a.argv.drop (s.optind + 2) = ws.tail := by
            rw [← drop_succ h, List.tail_drop]
          exact ⟨⟨s.optind + 2, 1⟩, [], ws.tail, .word hdrop rfl, Prod.ext rfl (Prod.ext_iff.mp hoptions).2, rfl⟩
        · rw [if_neg hws] at hoptions
          obtain ⟨hr, -⟩ := List.cons.inj (Prod.ext_iff.mp hoptions).1
          rw [← hr] at hstop
          exact absurd hstop (by decide)
    · rw [if_neg hargument] at hoptions ⊢
      obtain ⟨rfl, rfl⟩ := List.cons.inj (Prod.ext_iff.mp hoptions).1
      have hrest : options a.optstring cs ws = ((options a.optstring cs ws).1, rest) :=
        Prod.ext rfl (Prod.ext_iff.mp hoptions).2
      cases cs with
      | nil => exact ⟨⟨s.optind + 1, 1⟩, [], ws, .word (drop_succ h) rfl, hrest, rfl⟩
      | cons d cs =>
        have hdrop : a.argv.drop s.optind = ('-'.toUInt8 :: (before ++ [c] ++ d :: cs)) :: ws := by
          rw [h, List.append_assoc, List.singleton_append]
        refine ⟨⟨s.optind, s.optpos + 1⟩, d :: cs, ws, .inside hdrop ?_, hrest, rfl⟩
        rw [hpos, List.length_append, List.length_singleton]

/-- A word that has options, or the end of the scan. -/
theorem Follows.cases_word (h : Follows a s cs ws) :
    (∃ before c cs' ws', a.argv.drop s.optind = ('-'.toUInt8 :: (before ++ c :: cs')) :: ws' ∧
        s.optpos = before.length + 1 ∧ options a.optstring cs ws = options a.optstring (c :: cs') ws') ∨
      a.getopt s = (⟨-1, none⟩, .init) ∧ options a.optstring cs ws = ([], ws) := by
  cases h with
  | inside h hpos => exact .inl ⟨_, _, _, _, h, hpos, rfl⟩
  | word h hpos =>
    by_cases hword : ∃ c cs ws', ws = ('-'.toUInt8 :: c :: cs) :: ws'
    · obtain ⟨c, cs, ws', rfl⟩ := hword
      exact .inl ⟨[], c, cs, ws', h, hpos, options_word ..⟩
    · simp only [not_exists] at hword
      exact .inr ⟨getopt_word h hword, options_operand _ hword⟩

theorem call_of_follows (h : Follows a s cs ws) (hoptions : options a.optstring cs ws = (r :: rs, rest))
    (hstop : stops r.result = false) :
    ∃ s' cs' ws', Follows a s' cs' ws' ∧ options a.optstring cs' ws' = (rs, rest) ∧
      a.getopt s = if s'.optind ≥ a.argv.length then (⟨-1, r.optarg⟩, .init) else (r, s') := by
  rcases h.cases_word with ⟨before, c, cs', ws', hdrop, hpos, heq⟩ | ⟨-, heq⟩
  · exact call_inside hdrop hpos (heq.symm.trans hoptions) hstop
  · exact absurd (Prod.ext_iff.mp (heq.symm.trans hoptions)).1 (List.cons_ne_nil _ _).symm

theorem options_cons_ne_nil (optstring : Str) (c : UInt8) (cs : Str) (ws : List Str) :
    (options optstring (c :: cs) ws).1 ≠ [] := by
  rw [options_cons]
  cases optptr optstring c with
  | nil => exact List.cons_ne_nil _ _
  | cons d next =>
    dsimp only
    split_ifs
    all_goals exact List.cons_ne_nil _ _

/-- Without an option left a call ends the scan. -/
theorem ends_of_follows (h : Follows a s cs ws) (hoptions : (options a.optstring cs ws).1 = []) :
    a.getopt s = (⟨-1, none⟩, .init) := by
  rcases h.cases_word with ⟨before, c, cs', ws', -, -, heq⟩ | ⟨hend, -⟩
  · rw [heq] at hoptions
    exact absurd hoptions (options_cons_ne_nil _ _ _ _)
  · exact hend

/-- The variables are behind the last word where neither options nor words are left. -/
theorem Follows.length_le_iff (h : Follows a s cs ws) :
    a.argv.length ≤ s.optind ↔ options a.optstring cs ws = ([], []) := by
  cases h with
  | inside h hpos =>
    refine iff_of_false (Nat.not_le.mpr (lt_length h)) fun heq => ?_
    exact options_cons_ne_nil _ _ _ _ (Prod.ext_iff.mp heq).1
  | word h hpos =>
    rw [← List.drop_eq_nil_iff, h]
    constructor
    · rintro rfl
      rw [options]
    · intro heq
      rcases (Follows.word h hpos).cases_word with ⟨before, c, cs', ws', -, -, hcons⟩ | ⟨-, hword⟩
      · exact absurd (Prod.ext_iff.mp (hcons.symm.trans heq)).1 (options_cons_ne_nil _ _ _ _)
      · exact (Prod.ext_iff.mp (hword.symm.trans heq)).2

end Call

/-! ## Scans from the start -/

section Scans
variable {a : Args} {s t : State} {cs : Str} {ws rest : List Str} {rs : List Report}

theorem follows_init (a : Args) : Follows a .init [] a.argv.tail := .word List.drop_one rfl

theorem options_init (a : Args) : options a.optstring [] a.argv.tail = (a.reports, a.operands) := rfl

/-- The options are reported one after the other; the last one is lost where no word is left. -/
theorem reports_of_follows (h : Follows a s cs ws) (hoptions : options a.optstring cs ws = (rs, rest))
    (hstop : ∀ r ∈ rs, stops r.result = false) :
    (rs = [] ∨ rest ≠ [] → (∀ i (hi : i < rs.length), a.reportAt s i = rs[i]) ∧
        (a.reportAt s rs.length).result = -1 ∧ a.stateAt s (rs.length + 1) = .init) ∧
      (rest = [] → ∀ i, i + 1 = rs.length → (a.reportAt s i).result = -1) := by
  induction rs generalizing s cs ws with
  | nil =>
    have hend := ends_of_follows h (Prod.ext_iff.mp hoptions).1
    refine ⟨fun _ => ⟨fun i hi => absurd hi (Nat.not_lt_zero i), ?_, ?_⟩, fun _ i hi => absurd hi (Nat.succ_ne_zero i)⟩
    · exact congrArg (·.1.result) hend
    · exact congrArg Prod.snd hend
  | cons r rs ih =>
    obtain ⟨s', cs', ws', hnext, hrest, hcall⟩ := call_of_follows h hoptions (hstop r (List.mem_cons_self ..))
    obtain ⟨hkept, hlost⟩ := ih hnext hrest fun r hr => hstop r (List.mem_cons_of_mem _ hr)
    have hend := hnext.length_le_iff
    rw [hrest, Prod.mk.injEq] at hend
    by_cases hlast : rs = [] ∧ rest = []
    · rw [if_pos (hend.mpr hlast)] at hcall
      obtain ⟨rfl, rfl⟩ := hlast
      refine ⟨fun hne => absurd rfl (hne.resolve_left (List.cons_ne_nil _ _)), ?_⟩
      rintro - i hi
      obtain rfl : i = 0 := by simpa using hi
      exact congrArg (·.1.result) hcall
    · rw [if_neg fun hle => hlast (hend.mp hle)] at hcall
      constructor
      · intro hne
        obtain ⟨hreports, hends, hstate⟩ := hkept (.inr (hne.resolve_left (List.cons_ne_nil _ _)))
        refine ⟨?_, ?_, ?_⟩
        · intro i hi
          cases i with
          | zero => exact congrArg Prod.fst hcall
          | succ i =>
            rw [Args.reportAt, hcall]
            exact hreports i (Nat.lt_of_succ_lt_succ hi)
        · rw [List.length_cons, Args.reportAt, hcall]
          exact hends
        · rw [List.length_cons, Args.stateAt, hcall]
          exact hstate
      · intro hrest' i hi
        cases i with
        | zero =>
          refine absurd ⟨List.length_eq_zero_iff.mp ?_, hrest'⟩ hlast
          simpa using hi.symm
        | succ i =>
          rw [Args.reportAt, hcall]
          exact hlost hrest' i (Nat.succ.inj hi)

theorem reportAt_add (a : Args) (s : State) (m n : Nat) : a.reportAt s (m + n) = a.reportAt (a.stateAt s m) n := by
  induction m generalizing s with
  | zero => rw [Nat.zero_add, Args.stateAt]
  | succ m ih => rw [Nat.succ_add, Args.reportAt, Args.stateAt, ih]

/-- A scan that comes back to its start without a -1 never ends. -/
theorem result_ne_of_returns {k : Nat} (h : a.stateAt s (k + 1) = s) (hk : ∀ i ≤ k, (a.reportAt s i).result ≠ -1)
    (n : Nat) : (a.reportAt s n).result ≠ -1 := by
  induction n using Nat.strong_induction_on with
  | _ n ih =>
    rcases Nat.lt_or_ge k n with hn | hn
    · obtain ⟨m, rfl⟩ := Nat.exists_eq_add_of_lt hn
      rw [show k + m + 1 = k + 1 + m by omega, reportAt_add, h]
      exact ih m (by omega)
    · exact hk n hn

theorem Right.known (h : Right .init a) : ∀ r ∈ a.reports, stops r.result = false := by
  by_contra hex
  have hfirst : ∃ k, ∃ hk : k < a.reports.length, stops a.reports[k].result = true := by
    simp only [not_forall, Bool.not_eq_false] at hex
    obtain ⟨r, hr, hstop⟩ := hex
    obtain ⟨k, hk, rfl⟩ := List.getElem_of_mem hr
    exact ⟨k, hk, hstop⟩
  classical
  obtain ⟨hk, hstop⟩ := Nat.find_spec hfirst
  have hbefore : ∀ i < Nat.find hfirst, stops (a.reportAt .init i).result = false := by
    intro i hi
    have hi' := Nat.lt_trans hi hk
    rw [(h.reports i hi').1, ← Bool.not_eq_true]
    exact fun hstop => Nat.find_min hfirst hi ⟨hi', hstop⟩
  rw [← (h.reports _ hk).1] at hstop
  have hreturns := h.fresh _ ⟨_, hbefore, hstop, rfl⟩
  refine result_ne_of_returns hreturns ?_ _ h.ends
  exact fun i hi => (h.reports i (Nat.lt_of_le_of_lt hi hk)).2

theorem stops_iff_ne {result : Int32} (h : stops result = false) : result ≠ -1 := by
  rintro rfl
  exact absurd h (by decide)

/-- Where a scan is right, the first result that stops it is the -1 behind the options. -/
theorem scan_of_good (hgood : Good a) :
    (∀ i (h : i < a.reports.length), a.reportAt .init i = a.reports[i]) ∧
      (a.reportAt .init a.reports.length).result = -1 ∧ a.stateAt .init (a.reports.length + 1) = .init := by
  obtain ⟨hkept, -⟩ := reports_of_follows (follows_init a) (options_init a) hgood.known
  exact hkept (or_iff_not_imp_left.mpr hgood.operand)

theorem right_iff (a : Args) : Right .init a ↔ Good a := by
  constructor
  · intro h
    refine ⟨h.known, fun hne hoperands => ?_⟩
    obtain ⟨-, hlost⟩ := reports_of_follows (follows_init a) (options_init a) h.known
    have hpos := List.length_pos_iff.mpr hne
    exact (h.reports (a.reports.length - 1) (by omega)).2 (hlost hoperands _ (by omega))
  · intro h
    obtain ⟨hreports, hends, hstate⟩ := scan_of_good h
    have hbefore : ∀ i < a.reports.length, stops (a.reportAt .init i).result = false := by
      intro i hi
      rw [hreports i hi]
      exact h.known _ (List.getElem_mem hi)
    refine ⟨fun i hi => ⟨hreports i hi, stops_iff_ne (hbefore i hi)⟩, hends, ?_⟩
    rintro t ⟨n, hn, hstop, rfl⟩
    rcases Nat.lt_trichotomy n a.reports.length with hlt | rfl | hgt
    · exact absurd ((hbefore n hlt).symm.trans hstop) (by decide)
    · exact hstate
    · have hnot := hn _ hgt
      rw [hends] at hnot
      exact absurd hnot (by decide)

theorem scan_init (hgood : Good a) : Scan .init a .init := by
  obtain ⟨hreports, hends, hstate⟩ := scan_of_good hgood
  refine ⟨a.reports.length, fun i hi => ?_, ?_, hstate.symm⟩
  · rw [hreports i hi]
    exact hgood.known _ (List.getElem_mem hi)
  · rw [hends]
    decide

/-- Scans one after the other are all right exactly if the arguments of all are good. -/
theorem scans_iff (as : List Args) : (∃ t, Run Scan Right .init as t) ↔ ∀ a ∈ as, Good a := by
  constructor
  · rintro ⟨t, hrun⟩
    induction as with
    | nil => exact fun a ha => absurd ha List.not_mem_nil
    | cons a as ih =>
      cases hrun with
      | cons hright hscan hrun =>
        rw [hright.fresh _ hscan] at hrun
        exact List.forall_mem_cons.mpr ⟨(right_iff a).mp hright, ih hrun⟩
  · intro hgood
    induction as with
    | nil => exact ⟨.init, .nil _⟩
    | cons a as ih =>
      obtain ⟨ha, has⟩ := List.forall_mem_cons.mp hgood
      obtain ⟨t, hrun⟩ := ih has
      exact ⟨t, .cons ((right_iff a).mpr ha) (scan_init ha) hrun⟩

end Scans

/-- `cc -s`, with the options of `__cc`. -/
def onlyOption : Args where
  argv := [['c'.toUInt8, 'c'.toUInt8], ['-'.toUInt8, 's'.toUInt8]]
  optstring := ['s'.toUInt8]
  nul := by decide

/-- Behind its only option `cc -s` has no word, and the option is not reported. -/
theorem not_scans_onlyOption : ¬ ∃ t, Run Scan Right .init [onlyOption] t := by
  rintro ⟨t, hrun⟩
  cases hrun with
  | cons hright _ _ =>
    have hreports : onlyOption.reports = [⟨ofChar 's'.toUInt8, none⟩] := by
      show (options ['s'.toUInt8] [] [['-'.toUInt8, 's'.toUInt8]]).1 = _
      rw [options_word, options_cons]
      show (report _ (options _ [] [])).1 = _
      rw [options]
      rfl
    have hpos : 0 < onlyOption.reports.length := by
      rw [hreports]
      exact Nat.one_pos
    exact (hright.reports 0 hpos).2 (by decide)

end RetrOS.Libc.GetOpt
