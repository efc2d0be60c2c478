import RetrOS.Libc.Numbers

/-!
# Tokens of a string (`strtok` of `lib/libc.c`, `sstrtok` of `fs/fat16.c`)

Both functions keep the string in a static buffer. `strtok` does not clear it and stores its NUL one byte too far, so a
byte of an earlier string may follow the new one.

* `Tokenizer` : the static variables of either function;
* `strtok`, `sstrtok` : a call, with the text of the token that is returned;
* `tokens` : the results of the calls, the first one with the string and the others with NULL;
* `tokenOf` : the tokens of a text (`tokens_of_holds`);
* `Agrees` : `strtok` and `sstrtok` return the same tokens (`strtok_agrees_iff`).
-/

namespace RetrOS.Libc

structure Tokenizer where
  localBuffer : List UInt8
  current : Option Nat

/-- `strchr(str, ch) != NULL` -/
def strchr (str : Str) (ch : UInt8) : Bool := (str.takeWhile (· ≠ 0)).contains ch

namespace Tokenizer

/-- The state at the start, static variables are zero. -/
def init : Tokenizer := ⟨List.replicate 128 0, none⟩

/-- The string at a place of the buffer. -/
def textAt (t : Tokenizer) (p : Nat) : Str := (t.localBuffer.drop p).takeWhile (· ≠ 0)

/-- The string is copied to the buffer, and a NUL stored. -/
def start (t : Tokenizer) (str : Str) : Tokenizer :=
  let copied := str.take (strlen str) ++ t.localBuffer.drop (strlen str)
  ⟨copied.set (strlen str + 1) 0, some 0⟩

/-- `memset(local_buffer, 0, 128)` -/
def clear (t : Tokenizer) : Tokenizer := { t with localBuffer := List.replicate 128 0 ++ t.localBuffer.drop 128 }

/-- What both functions do behind the copy. -/
def nextToken (t : Tokenizer) (delim : Str) : Option Str × Tokenizer :=
  match t.current with
  | none => (none, t)
  | some token =>
    if t.localBuffer.getD token 0 = 0 then (none, t)
    else
      let current := token + ((t.localBuffer.drop token).takeWhile fun c => c ≠ 0 && !strchr delim c).length
      let t : Tokenizer :=
        if t.localBuffer.getD current 0 ≠ 0 then ⟨t.localBuffer.set current 0, some (current + 1)⟩
        else ⟨t.localBuffer, some current⟩
      (some (t.textAt token), t)

end Tokenizer

def strtok (t : Tokenizer) (str : Option Str) (delim : Str) : Option Str × Tokenizer :=
  match str with
  | some str => (t.start str).nextToken delim
  | none => t.nextToken delim

def sstrtok (t : Tokenizer) (str : Option Str) (delim : Str) : Option Str × Tokenizer :=
  match str with
  | some str => (t.clear.start str).nextToken delim
  | none => t.nextToken delim

/-- The result of call `n`. -/
def tokens (f : Tokenizer → Option Str → Str → Option Str × Tokenizer) (delim : Str) (t : Tokenizer) (str : Option Str) :
    Nat → Option Str
  | 0 => (f t str delim).1
  | n + 1 => tokens f delim (f t str delim).2 none n

/-- The same tokens, whatever `sstrtok` was called with before. -/
def Agrees (t : Tokenizer) (str delim : Str) : Prop :=
  ∀ s : Tokenizer, s.localBuffer.length = 128 →
    ∀ n, tokens strtok delim t (some str) n = tokens sstrtok delim s (some str) n

/-- A call of `strtok` that stays in its buffer. -/
structure Call where
  str : Option Str
  delim : Str
  short : ∀ s, str = some s → strlen s < 127

/-- The state after calls of `strtok`. -/
def after (calls : List Call) : Tokenizer :=
  calls.foldl (fun t call => (strtok t call.str call.delim).2) .init

/-- The byte that follows the copied string. -/
def Tokenizer.stale (t : Tokenizer) (str : Str) : UInt8 := t.localBuffer.getD (strlen str) 0

/-- Behind the string there is a NUL; or a delimiter, and no other one in front of it. -/
def Unharmed (t : Tokenizer) (str delim : Str) : Prop :=
  t.stale str = 0 ∨ strchr delim (t.stale str) = true ∧
    ∃ c, (str.take (strlen str)).getLast? = some c ∧ strchr delim c = false

/-! ## The tokens of a text -/

/-- Token `n` of a text. -/
def tokenOf (delim : Str) : Nat → Str → Option Str
  | 0, s => if s = [] then none else some (s.takeWhile fun c => !strchr delim c)
  | n + 1, s => tokenOf delim n (s.dropWhile fun c => !strchr delim c).tail

/-- The rest of the text is in the buffer from `current` on, and a NUL or the end of the buffer behind it. -/
structure Holds (t : Tokenizer) (rest : Str) : Prop where
  text : 0 ∉ rest
  buffer : ∃ before behind, t.localBuffer = before ++ (rest ++ behind) ∧ behind.headD 0 = 0 ∧
    t.current = some before.length

section Text
variable {t : Tokenizer} {delim rest str : Str}

theorem takeWhile_text {p : UInt8 → Bool} {behind : List UInt8} (h0 : p 0 = false) (hbehind : behind.headD 0 = 0)
    {text : Str} (htext : ∀ c ∈ text, p c = true) : (text ++ behind).takeWhile p = text := by
  rw [List.takeWhile_append_of_pos htext]
  cases behind with
  | nil => rw [List.takeWhile_nil, List.append_nil]
  | cons c behind =>
    obtain rfl : c = 0 := hbehind
    rw [List.takeWhile_cons_of_neg (by simp [h0]), List.append_nil]

theorem getD_behind (before l : List UInt8) : (before ++ l).getD before.length 0 = l.headD 0 := by
  cases l with
  | nil => simp
  | cons c l => simp

/-- A token is cut off in front of a NUL or a delimiter; the delimiter is passed. -/
theorem nextToken_of_cut {before tok next : List UInt8} (hcurrent : t.current = some before.length)
    (hcut : t.localBuffer = before ++ (tok ++ next)) (htok : ∀ c ∈ tok, (c ≠ 0 && !strchr delim c) = true)
    (hnext : next.headD 0 = 0 ∨ strchr delim (next.headD 0) = true) (hfirst : (tok ++ next).headD 0 ≠ 0) :
    t.nextToken delim = (some tok,
      if next.headD 0 ≠ 0 then ⟨before ++ (tok ++ 0 :: next.tail), some (before.length + tok.length + 1)⟩
      else ⟨t.localBuffer, some (before.length + tok.length)⟩) := by
  have hmem : ∀ c ∈ tok, decide (c ≠ 0) = true := fun c hc => (Bool.and_eq_true_iff.mp (htok c hc)).1
  have hdrop : t.localBuffer.drop before.length = tok ++ next := by
    rw [hcut, List.drop_left]
  have hstart : t.localBuffer.getD before.length 0 ≠ 0 := by
    rw [hcut, getD_behind]
    exact hfirst
  have hend : t.localBuffer.getD (before.length + tok.length) 0 = next.headD 0 := by
    rw [hcut, ← List.append_assoc, ← List.length_append, getD_behind]
  have hscan : ((t.localBuffer.drop before.length).takeWhile fun c => c ≠ 0 && !strchr delim c) = tok := by
    rw [hdrop, List.takeWhile_append_of_pos htok]
    cases next with
    | nil => rw [List.takeWhile_nil, List.append_nil]
    | cons d next =>
      rw [List.headD_cons] at hnext
      rw [List.takeWhile_cons_of_neg, List.append_nil]
      rcases hnext with rfl | hd
      · simp
      · simp [hd]
  unfold Tokenizer.nextToken
  rw [hcurrent]
  dsimp only
  rw [if_neg hstart, hscan, hend]
  by_cases h0 : next.headD 0 = 0
  · rw [if_neg (not_not_intro h0), if_neg (not_not_intro h0), Tokenizer.textAt, hdrop, takeWhile_text rfl h0 hmem]
  · have hset : t.localBuffer.set (before.length + tok.length) 0 = before ++ (tok ++ 0 :: next.tail) := by
      obtain ⟨d, next, rfl⟩ := List.exists_cons_of_ne_nil (l := next) (by
        rintro rfl
        exact h0 rfl)
      rw [hcut, ← List.append_assoc, ← List.length_append, List.set_append_right _ _ (Nat.le_refl _), Nat.sub_self,
        List.set_cons_zero, List.append_assoc, List.tail_cons]
    rw [if_pos h0, if_pos h0, hset, Tokenizer.textAt, List.drop_left, takeWhile_text rfl rfl hmem]

/-- One call returns the token in front of the first delimiter, and keeps what is behind that. -/
theorem Holds.nextToken (h : Holds t rest) (hne : rest ≠ []) :
    (t.nextToken delim).1 = some (rest.takeWhile fun c => !strchr delim c) ∧
      Holds (t.nextToken delim).2 (rest.dropWhile fun c => !strchr delim c).tail := by
  obtain ⟨before, behind, hbuffer, hbehind, hcurrent⟩ := h.buffer
  have hsplit := List.takeWhile_append_dropWhile (p := fun c => !strchr delim c) (l := rest)
  generalize htok : rest.takeWhile (fun c => !strchr delim c) = tok at hsplit ⊢
  generalize hr : rest.dropWhile (fun c => !strchr delim c) = r at hsplit ⊢
  have htext := h.text
  have hstop : ∀ c ∈ tok, (c ≠ 0 && !strchr delim c) = true := by
    intro c hc
    have hc0 : c ≠ 0 := fun h0 => htext (h0 ▸ hsplit ▸ List.mem_append_left r hc)
    have hnd := List.mem_takeWhile_imp (htok ▸ hc)
    simp only [Bool.and_eq_true, decide_eq_true_eq]
    exact ⟨hc0, hnd⟩
  have hcut : t.localBuffer = before ++ (tok ++ (r ++ behind)) := by
    rw [hbuffer, ← hsplit, List.append_assoc]
  have hfirst : (tok ++ (r ++ behind)).headD 0 ≠ 0 := by
    rw [← List.append_assoc, hsplit]
    cases rest with
    | nil => exact absurd rfl hne
    | cons c rest => exact fun h0 => htext (List.mem_cons.mpr (.inl h0.symm))
  cases r with
  | nil =>
    rw [List.nil_append] at hcut hfirst
    rw [nextToken_of_cut hcurrent hcut hstop (.inl hbehind) hfirst, if_neg (not_not_intro hbehind)]
    refine ⟨rfl, List.not_mem_nil, before ++ tok, behind, ?_, hbehind, ?_⟩
    · rw [hcut, List.append_assoc]
      rfl
    · rw [List.length_append]
  | cons d r =>
    have hd0 : d ≠ 0 := fun h0 => htext (h0 ▸ hsplit ▸ List.mem_append_right tok (List.mem_cons_self ..))
    have hd : strchr delim d = true := by
      have hhead := List.head?_dropWhile_not (fun c => !strchr delim c) rest
      rw [hr] at hhead
      simpa using hhead
    have hhead : (d :: r ++ behind).headD 0 ≠ 0 := hd0
    rw [nextToken_of_cut hcurrent hcut hstop (.inr hd) hfirst, if_pos hhead]
    refine ⟨rfl, ?_, before ++ tok ++ [0], behind, ?_, hbehind, ?_⟩
    · exact fun hmem => htext (hsplit ▸ List.mem_append_right tok (List.mem_cons_of_mem d hmem))
    · simp
    · simp [Nat.add_assoc]

theorem Holds.nextToken_nil (h : Holds t []) : t.nextToken delim = (none, t) := by
  obtain ⟨before, behind, hbuffer, hbehind, hcurrent⟩ := h.buffer
  have h0 : t.localBuffer.getD before.length 0 = 0 := by
    rw [hbuffer, getD_behind]
    exact hbehind
  unfold Tokenizer.nextToken
  rw [hcurrent]
  exact if_pos h0

/-- The results of the calls with NULL. -/
theorem tokens_none {f : Tokenizer → Option Str → Str → Option Str × Tokenizer}
    (hf : ∀ t, f t none delim = t.nextToken delim) (h : Holds t rest) (n : Nat) :
    tokens f delim t none n = tokenOf delim n rest := by
  induction n generalizing t rest with
  | zero =>
    rw [tokens, hf, tokenOf]
    by_cases hne : rest = []
    · subst hne
      rw [h.nextToken_nil, if_pos rfl]
    · rw [(h.nextToken hne).1, if_neg hne]
  | succ n ih =>
    rw [tokens, hf, tokenOf]
    by_cases hne : rest = []
    · subst hne
      rw [h.nextToken_nil]
      exact ih h
    · exact ih (h.nextToken hne).2

/-- The first result is that of a call with NULL on the copied string. -/
theorem tokens_some {f : Tokenizer → Option Str → Str → Option Str × Tokenizer} {t' : Tokenizer}
    (hf : ∀ t, f t none delim = t.nextToken delim) (hstart : f t (some str) delim = t'.nextToken delim)
    (h : Holds t' rest) (n : Nat) : tokens f delim t (some str) n = tokenOf delim n rest := by
  rw [← tokens_none hf h n]
  cases n with
  | zero => rw [tokens, tokens, hstart, hf]
  | succ n => rw [tokens, tokens, hstart, hf]

end Text

/-! ## The copied string -/

section Start
variable {t : Tokenizer} {str delim : Str}

theorem take_strlen (str : Str) : str.take (strlen str) = str.takeWhile (· ≠ 0) := by
  have htake : (str.takeWhile (· ≠ 0) ++ str.dropWhile (· ≠ 0)).take (strlen str) = str.takeWhile (· ≠ 0) :=
    List.take_left
  rwa [List.takeWhile_append_dropWhile] at htake

theorem not_mem_take_strlen (str : Str) : 0 ∉ str.take (strlen str) := by
  intro h
  rw [take_strlen] at h
  simpa using List.mem_takeWhile_imp h

/-- The buffer holds the string and the byte that was behind it, if that is not NUL. -/
theorem holds_start (hlength : t.localBuffer.length = 128) (hlen : strlen str < 127) :
    Holds (t.start str) (str.take (strlen str) ++ if t.stale str = 0 then [] else [t.stale str]) := by
  have hcopied : (str.take (strlen str)).length = strlen str := by rw [take_strlen, strlen]
  obtain ⟨c, behind, hdrop⟩ : ∃ c behind, t.localBuffer.drop (strlen str) = t.stale str :: c :: behind := by
    rw [List.drop_eq_getElem_cons (by omega), List.drop_eq_getElem_cons (by omega)]
    refine ⟨_, _, congrArg (· :: _) ?_⟩
    rw [Tokenizer.stale, List.getD_eq_getElem?_getD, List.getElem?_eq_getElem (by omega), Option.getD_some]
  have hbuffer : (t.start str).localBuffer = str.take (strlen str) ++ (t.stale str :: 0 :: behind) := by
    rw [Tokenizer.start, hdrop]
    dsimp only
    rw [List.set_append_right _ _ (by omega), hcopied, Nat.add_sub_cancel_left]
    rfl
  constructor
  · rw [List.mem_append, not_or]
    refine ⟨not_mem_take_strlen str, ?_⟩
    split
    · exact List.not_mem_nil
    · next h => exact fun hmem => h (List.mem_singleton.mp hmem).symm
  · by_cases h : t.stale str = 0
    · refine ⟨[], 0 :: 0 :: behind, ?_, rfl, rfl⟩
      rw [hbuffer, if_pos h, h, List.append_nil, List.nil_append]
    · refine ⟨[], 0 :: behind, ?_, rfl, rfl⟩
      rw [hbuffer, if_neg h, List.append_assoc, List.nil_append]
      rfl

/-- A token with its delimiter, and what is behind them. -/
theorem tokenOf_split {tok rest : Str} {d : UInt8} (htok : ∀ c ∈ tok, (!strchr delim c) = true)
    (hd : strchr delim d = true) :
    tokenOf delim 0 (tok ++ d :: rest) = some tok ∧
      ∀ n, tokenOf delim (n + 1) (tok ++ d :: rest) = tokenOf delim n rest := by
  constructor
  · rw [tokenOf, if_neg (by simp), List.takeWhile_append_of_pos htok, List.takeWhile_cons_of_neg (by simp [hd]),
      List.append_nil]
  · intro n
    rw [tokenOf, List.dropWhile_append_of_pos htok, List.dropWhile_cons_of_neg (by simp [hd]), List.tail_cons]

theorem tokenOf_nil (delim : Str) (n : Nat) : tokenOf delim n [] = none := by
  induction n with
  | zero => rfl
  | succ n ih => exact ih

/-- One token without a delimiter. -/
theorem tokenOf_token {tok : Str} (htok : ∀ c ∈ tok, (!strchr delim c) = true) (hne : tok ≠ []) :
    tokenOf delim 0 tok = some tok ∧ ∀ n, tokenOf delim (n + 1) tok = none := by
  have htake : tok.takeWhile (fun c => !strchr delim c) = tok := List.takeWhile_eq_self_iff.mpr htok
  have hdrop : tok.dropWhile (fun c => !strchr delim c) = [] := List.dropWhile_eq_nil_iff.mpr htok
  constructor
  · rw [tokenOf, if_neg hne, htake]
  · intro n
    rw [tokenOf, hdrop, List.tail_nil, tokenOf_nil]

/-- A byte behind a token changes nothing if it is a delimiter. -/
theorem tokenOf_concat_token {tok : Str} (htok : ∀ c ∈ tok, (!strchr delim c) = true) (hne : tok ≠ []) (b : UInt8) :
    (∀ n, tokenOf delim n (tok ++ [b]) = tokenOf delim n tok) ↔ strchr delim b = true := by
  obtain ⟨hfirst, hlater⟩ := tokenOf_token htok hne
  constructor
  · intro h
    by_contra hb
    have hlonger : ∀ c ∈ tok ++ [b], (!strchr delim c) = true := by
      rw [List.forall_mem_append, List.forall_mem_singleton]
      exact ⟨htok, by simpa using hb⟩
    have hzero := (tokenOf_token hlonger (by simp)).1.symm.trans ((h 0).trans hfirst)
    simp at hzero
  · intro hb n
    obtain ⟨hzero, hsucc⟩ := @tokenOf_split delim tok [] b htok hb
    cases n with
    | zero => rw [hzero, hfirst]
    | succ n => rw [hsucc, hlater, tokenOf_nil]

/-- A byte behind a text is another token, or in the last one, unless it is a delimiter that ends the last one. -/
theorem tokenOf_concat (delim s : Str) (b : UInt8) :
    (∀ n, tokenOf delim n (s ++ [b]) = tokenOf delim n s) ↔
      strchr delim b = true ∧ ∃ c, s.getLast? = some c ∧ strchr delim c = false := by
  induction hk : s.length using Nat.strong_induction_on generalizing s with
  | _ k ih =>
    subst hk
    by_cases hne : s = []
    · subst hne
      refine iff_of_false (fun h => ?_) (by simp)
      have h0 := h 0
      rw [tokenOf, tokenOf, if_neg (by simp), if_pos rfl] at h0
      cases h0
    have hsplit := List.takeWhile_append_dropWhile (p := fun c => !strchr delim c) (l := s)
    have htok : ∀ c ∈ s.takeWhile fun c => !strchr delim c, (!strchr delim c) = true := fun c hc =>
      List.mem_takeWhile_imp (p := fun c => !strchr delim c) hc
    generalize s.takeWhile (fun c => !strchr delim c) = tok at hsplit htok
    cases hr : s.dropWhile fun c => !strchr delim c with
    | nil =>
      -- the text is one token
      rw [hr, List.append_nil] at hsplit
      subst hsplit
      obtain ⟨c, hc⟩ := Option.ne_none_iff_exists'.mp (mt List.getLast?_eq_none_iff.mp hne)
      have hlast : strchr delim c = false := by simpa using htok c (List.mem_of_getLast? hc)
      rw [tokenOf_concat_token htok hne]
      exact (and_iff_left ⟨c, hc, hlast⟩).symm
    | cons d r =>
      have hd : strchr delim d = true := by
        have hhead := List.head?_dropWhile_not (fun c => !strchr delim c) s
        rw [hr] at hhead
        simpa using hhead
      rw [hr] at hsplit
      subst hsplit
      have hlt : r.length < (tok ++ d :: r).length := by
        rw [List.length_append, List.length_cons]
        omega
      obtain ⟨hzero, hsucc⟩ := @tokenOf_split delim tok r d htok hd
      obtain ⟨hzero', hsucc'⟩ := @tokenOf_split delim tok (r ++ [b]) d htok hd
      have hrest : (∀ n, tokenOf delim n (tok ++ d :: r ++ [b]) = tokenOf delim n (tok ++ d :: r)) ↔
          ∀ n, tokenOf delim n (r ++ [b]) = tokenOf delim n r := by
        rw [List.append_assoc, List.cons_append]
        constructor
        · intro h n
          rw [← hsucc, ← hsucc']
          exact h (n + 1)
        · intro h n
          cases n with
          | zero => rw [hzero, hzero']
          | succ n => rw [hsucc, hsucc', h]
      have hlast : (∃ c, (tok ++ d :: r).getLast? = some c ∧ strchr delim c = false) ↔
          ∃ c, r.getLast? = some c ∧ strchr delim c = false := by
        cases r with
        | nil => simp [hd]
        | cons e r => simp [List.getLast?_append, List.getLast?_cons_cons]
      rw [hrest, hlast]
      exact ih _ hlt r rfl

end Start

/-! ## The two functions -/

section Agreement
variable {t : Tokenizer} {str delim : Str}

theorem length_nextToken (t : Tokenizer) (delim : Str) :
    (t.nextToken delim).2.localBuffer.length = t.localBuffer.length := by
  unfold Tokenizer.nextToken
  split
  · rfl
  split
  · rfl
  dsimp only
  split
  · exact List.length_set
  · rfl

theorem length_start (hlength : t.localBuffer.length = 128) (hlen : strlen str < 127) :
    (t.start str).localBuffer.length = 128 := by
  have hcopied : (str.take (strlen str)).length = strlen str := by rw [take_strlen, strlen]
  rw [Tokenizer.start]
  dsimp only
  rw [List.length_set, List.length_append, hcopied, List.length_drop, hlength]
  omega

theorem length_strtok (hlength : t.localBuffer.length = 128) (str : Option Str) (delim : Str)
    (hlen : ∀ s, str = some s → strlen s < 127) : (strtok t str delim).2.localBuffer.length = 128 := by
  cases str with
  | none => exact (length_nextToken ..).trans hlength
  | some str => exact (length_nextToken ..).trans (length_start hlength (hlen str rfl))

/-- The buffer has its 128 bytes after any calls. -/
theorem length_after (calls : List Call) : (after calls).localBuffer.length = 128 := by
  have hfrom (t : Tokenizer) (ht : t.localBuffer.length = 128) :
      (calls.foldl (fun t call => (strtok t call.str call.delim).2) t).localBuffer.length = 128 := by
    induction calls generalizing t with
    | nil => exact ht
    | cons call calls ih => exact ih _ (length_strtok ht call.str call.delim call.short)
  exact hfrom .init rfl

theorem length_clear (hlength : t.localBuffer.length = 128) : t.clear.localBuffer = List.replicate 128 0 := by
  rw [Tokenizer.clear, List.drop_eq_nil_of_le (Nat.le_of_eq hlength), List.append_nil]

/-- `sstrtok` returns the tokens of the string. -/
theorem tokens_sstrtok (hlength : t.localBuffer.length = 128) (hlen : strlen str < 127) (n : Nat) :
    tokens sstrtok delim t (some str) n = tokenOf delim n (str.take (strlen str)) := by
  have hclear := length_clear hlength
  have hstale : t.clear.stale str = 0 := by
    rw [Tokenizer.stale, hclear, List.getD_eq_getElem?_getD, List.getElem?_replicate, if_pos (by omega), Option.getD_some]
  have hholds := holds_start (t := t.clear) (by rw [hclear, List.length_replicate]) hlen
  rw [if_pos hstale, List.append_nil] at hholds
  exact tokens_some (fun _ => rfl) rfl hholds n

theorem tokens_strtok (hlength : t.localBuffer.length = 128) (hlen : strlen str < 127) (n : Nat) :
    tokens strtok delim t (some str) n =
      tokenOf delim n (str.take (strlen str) ++ if t.stale str = 0 then [] else [t.stale str]) :=
  tokens_some (fun _ => rfl) rfl (holds_start hlength hlen) n

/-- **When the tokens are those of the string**: after any calls, exactly if the byte behind the copied string is NUL, or
a delimiter where the string does not end in one. -/
theorem strtok_agrees_iff (calls : List Call) (str delim : Str) (hlen : strlen str < 127) :
    Agrees (after calls) str delim ↔ Unharmed (after calls) str delim := by
  have hlength := length_after calls
  have htokens : Agrees (after calls) str delim ↔ ∀ n, tokenOf delim n (str.take (strlen str) ++
      if (after calls).stale str = 0 then [] else [(after calls).stale str]) =
        tokenOf delim n (str.take (strlen str)) := by
    constructor
    · intro h n
      rw [← tokens_strtok hlength hlen, h .init rfl n, tokens_sstrtok rfl hlen]
    · intro h s hs n
      rw [tokens_strtok hlength hlen, h n, tokens_sstrtok hs hlen]
  rw [htokens]
  by_cases hstale : (after calls).stale str = 0
  · rw [if_pos hstale, List.append_nil]
    exact iff_of_true (fun _ => rfl) (.inl hstale)
  · rw [if_neg hstale, tokenOf_concat, Unharmed, or_iff_right hstale]

/-- The calls `strtok("ab", " ")` and `strtok(NULL, " ")`. -/
def earlier : List Call :=
  [⟨some (['a', 'b'].map Char.toUInt8), [' '.toUInt8], by rintro s ⟨⟩; decide⟩, ⟨none, [' '.toUInt8], by rintro s ⟨⟩⟩]

theorem strtok_agrees_iff_nothing_earlier : Agrees (after []) ['c'.toUInt8] [' '.toUInt8] ↔
    Unharmed (after []) ['c'.toUInt8] [' '.toUInt8] :=
  strtok_agrees_iff [] ['c'.toUInt8] [' '.toUInt8] (by decide)

theorem not_agrees_earlier : ¬ Agrees (after earlier) ['c'.toUInt8] [' '.toUInt8] := by
  intro h
  have hfirst : tokens strtok [' '.toUInt8] (after earlier) (some ['c'.toUInt8]) 0 =
      some (['c', 'b'].map Char.toUInt8) := by decide
  have hother : tokens sstrtok [' '.toUInt8] .init (some ['c'.toUInt8]) 0 = some ['c'.toUInt8] := by decide
  rw [h .init rfl 0, hother] at hfirst
  exact absurd hfirst (by decide)

end Agreement

end RetrOS.Libc
