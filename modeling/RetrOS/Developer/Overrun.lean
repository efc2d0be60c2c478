import RetrOS.Developer.Progress

/-!
# Texts that the compiler leaves

A literal has two loops in `next`, and neither looks for the NUL: an open one takes `src` behind the end of the text.
The loops over `symbols` look for an entry without a token, and the table has no place for one behind its last entry.

* `Lexes` : `next` comes to the end of a text, token by token;
* `lexes_iff` : so it does on the texts without an open literal whose names fit in the table, and on no others;
* `program_ends` : if the names leave an entry free, the text is compiled or rejected.
-/

namespace RetrOS.Lex
open RetrOS.Interpreter LexerContext

/-- So many calls of `next`. -/
def nexts : Nat → LexerContext → Parsed
  | 0, s => .ok s
  | k + 1, s => do
    let s ← s.next
    nexts k s

/-- Every call of `next` returns, and as many as the text has characters, and one, come to its end. -/
def Lexes (base data : Word) (mem : Memory) (src : List UInt8) : Prop :=
  ∀ k, ∃ s, (opened base data mem src >>= nexts k) = .ok s ∧ (src.length < k → s.src = [] ∧ s.token = .eof)

variable {s s' : LexerContext} {k : Nat} {keys : List Key}

theorem next_advance (h : s.next = .ok s') : s.Advance s.src s' := by
  have hreads := s.reads_nextFrom s.src
  rw [next] at h
  rwa [h] at hreads

theorem next_of_total (h : s.total = some keys) (hle : keys.length ≤ lexMaxSymbols) : ∃ s', s.next = .ok s' := by
  have hreads := s.reads_nextFrom s.src
  rw [next]
  cases hr : s.nextFrom s.src with
  | ok s' => exact ⟨s', rfl⟩
  | error e =>
    rw [hr] at hreads
    exact absurd (hreads keys h) (Nat.not_lt_of_le hle)

/-- The calls keep the entries behind the text, which are those of the table once the text is read. -/
theorem nexts_advance : ∀ (k : Nat) {s s' : LexerContext}, nexts k s = .ok s' →
    s'.total = s.total ∧ (s.symbols.length ≤ lexMaxSymbols → s'.symbols.length ≤ lexMaxSymbols)
  | 0, s, s', h => by
    cases h
    exact ⟨rfl, id⟩
  | k + 1, s, s', h => by
    rw [nexts] at h
    cases hs : s.next with
    | ok s₁ =>
      rw [hs] at h
      obtain ⟨htotal, hroom⟩ := nexts_advance k h
      have hs₁ := next_advance hs
      exact ⟨htotal.trans hs₁.total, fun hlen => hroom (hs₁.room hlen)⟩
    | error e =>
      rw [hs] at h
      cases h

theorem nexts_end : ∀ (k : Nat) {s s' : LexerContext}, nexts k s = .ok s' →
    s.src.length < k ∨ s.src = [] ∧ s.token = .eof → s'.src = [] ∧ s'.token = .eof
  | 0, s, s', h, hk => by
    cases h
    exact hk.resolve_left (Nat.not_lt_zero _)
  | k + 1, s, s', h, hk => by
    rw [nexts] at h
    cases hs : s.next with
    | ok s₁ =>
      rw [hs] at h
      refine nexts_end k h ?_
      rcases (next_advance hs).src with hlt | hend
      · refine .inl ?_
        rcases hk with hk | ⟨hsrc, -⟩
        · omega
        · rw [hsrc] at hlt
          exact absurd hlt (Nat.not_lt_zero _)
      · exact .inr hend
    | error e =>
      rw [hs] at h
      cases h

theorem nexts_of_total (h : s.total = some keys) (hle : keys.length ≤ lexMaxSymbols) (k : Nat) :
    ∃ s', nexts k s = .ok s' := by
  induction k generalizing s with
  | zero => exact ⟨s, rfl⟩
  | succ k ih =>
    obtain ⟨s₁, hs₁⟩ := next_of_total h hle
    rw [nexts, hs₁]
    exact ih ((next_advance hs₁).total.trans h)

theorem total_opened {src : List UInt8} (hkeys : s.keys = predefined) (hsrc : s.src = src) : s.total = namesOf src := by
  rw [total, totalFrom, hkeys, hsrc, namesOf]

theorem lexes_iff (base data : Word) (mem : Memory) (src : List UInt8) :
    Lexes base data mem src ↔ ∃ keys, namesOf src = some keys ∧ keys.length ≤ lexMaxSymbols := by
  obtain ⟨s, hs, hkeys, hsrc⟩ := opened_eq base data mem src
  have htotal := total_opened hkeys hsrc
  rw [Lexes, hs, ← htotal]
  constructor
  · intro h
    obtain ⟨s', hs', hend⟩ := h (src.length + 1)
    obtain ⟨hsame, hroom⟩ := nexts_advance _ hs'
    have hlen : s.symbols.length ≤ lexMaxSymbols := by
      rw [← length_keys, hkeys, length_predefined]
      decide
    refine ⟨s'.keys, ?_, length_keys s' ▸ hroom hlen⟩
    rw [← hsame, total, (hend (Nat.lt_succ_self _)).1, totalFrom, scan]
    rfl
  · rintro ⟨keys, hk, hle⟩ k
    obtain ⟨s', hs'⟩ := nexts_of_total hk hle k
    exact ⟨s', hs', fun hlt => nexts_end k hs' (.inl (hsrc ▸ hlt))⟩

theorem program_ends {src : List UInt8} (hnames : namesOf src = some keys) (hlt : keys.length < lexMaxSymbols) {n : Nat}
    (hn : src.length < n) (base data : Word) (mem : Memory) : Ended (fun _ => True) (program n base data mem src) := by
  have hopened : Ended (fun s => s.Fine ∧ s.src = src) (opened base data mem src) := by
    obtain ⟨s, hs, hkeys, hsrc⟩ := opened_eq base data mem src
    rw [hs]
    exact ⟨⟨keys, (total_opened hkeys hsrc).trans hnames, hlt⟩, hsrc⟩
  unfold program
  refine Ends.bind hopened fun s ⟨hfine, hsrc⟩ => ?_
  refine Ends.bind (next_ends hfine) fun s₁ ⟨hfine₁, hleft⟩ => ?_
  have h₁ : Below n s₁ := ⟨hfine₁, Nat.lt_of_le_of_lt hleft (hsrc ▸ hn)⟩
  exact Ends.bind (globalDeclarations_ends n s₁ h₁ h₁) fun _ _ => trivial

/-- `next` comes to the end of a text if and only if its literals are closed and its names fit in the table, and if
they leave an entry free, `program` comes to a result or rejects the text. -/
theorem lexes_program (base data : Word) (mem : Memory) (src : List UInt8) :
    (Lexes base data mem src ↔ ∃ keys, namesOf src = some keys ∧ keys.length ≤ lexMaxSymbols) ∧
      ((∃ keys, namesOf src = some keys ∧ keys.length < lexMaxSymbols) → ∀ n, src.length < n →
        (∃ out, program n base data mem src = .ok out) ∨
          ∃ error < lexErrors.length, program n base data mem src = .error (.rejected error)) := by
  refine ⟨lexes_iff base data mem src, fun ⟨keys, hnames, hlt⟩ n hn => ?_⟩
  have hends := program_ends hnames hlt hn base data mem
  cases hr : program n base data mem src with
  | ok out => exact .inl ⟨out, rfl⟩
  | error e =>
    rw [hr] at hends
    obtain ⟨error, herror, rfl⟩ := hends
    exact .inr ⟨error, herror, rfl⟩

/-- A text of one quote, and a text that ends with a backslash behind one. -/
theorem not_lexes_quote :
    ((0 : UInt8) ∉ [34] ∧ ¬ Lexes 0 0 (fun _ => 0) [34] ∧ program 3 0 0 (fun _ => 0) [34] = .error .overrun) ∧
    ((0 : UInt8) ∉ [39, 92] ∧ ¬ Lexes 0 0 (fun _ => 0) [39, 92] ∧
      program 3 0 0 (fun _ => 0) [39, 92] = .error .overrun) := by
  have hopen : ∀ src, namesOf src = none → ¬ Lexes 0 0 (fun _ => 0) src := fun src hnone hlexes => by
    obtain ⟨keys, hk, -⟩ := (lexes_iff 0 0 _ src).mp hlexes
    rw [hnone] at hk
    cases hk
  constructor
  · exact ⟨by decide, hopen _ (by decide +kernel), by cbv⟩
  · exact ⟨by decide, hopen _ (by decide +kernel), by cbv⟩

end RetrOS.Lex
