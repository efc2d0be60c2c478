import RetrOS.Lib.Fields

/-!
# The name in a DNS question (`net/dns.c`)

`__dns_name_compresion` makes the NUL behind the hostname a dot, so that every label ends with one, and never puts the
NUL back. The length of the string, which the loop asks for in every round, then goes on to the next NUL in memory.

* `dnsNameCompresion` : the source, what it writes and the memory of the hostname afterwards;
* `Hostname`, `qname` : labels, and how they should be written, which can be read back (`readName_qname`);
* `Compresses` : what the function should do; it never does (`dnsName_never`), and what it writes is right only if no
  dot comes before the next NUL.
-/

namespace RetrOS.Dns
open RetrOS.Lib

/-! ## The source -/

abbrev dot : UInt8 := 46

/-- `strlen`, unless the memory ends before a NUL. -/
def strlen : List UInt8 → Option Nat
  | [] => none
  | c :: str => if c = 0 then some 0 else (strlen str).map (· + 1)

/-- The loop: what is written while `i` goes on for `left` rounds. -/
def nameLoop (host : List UInt8) : (left i lock : Nat) → List UInt8
  | 0, _, _ => []
  | left + 1, i, lock =>
    if host[i]? = some dot then
      UInt8.ofNat (i - lock) :: (host.drop lock).take (i - lock) ++ nameLoop host left (i + 1) (i + 1)
    else nameLoop host left (i + 1) lock

/-- `__dns_name_compresion`: the request and the hostname. -/
def dnsNameCompresion (host : List UInt8) : Option (List UInt8 × List UInt8) :=
  (strlen host).bind fun n =>
    let host := host.set n dot
    (strlen host).map fun m => (nameLoop host m 0 0 ++ [0], host)

/-! ## Hostnames -/

/-- Labels of 1 to 63 characters. -/
structure Hostname where
  labels : List (List UInt8)
  nonempty : labels ≠ []
  short : ∀ label ∈ labels, 0 < label.length ∧ label.length ≤ 63
  chars : ∀ label ∈ labels, ∀ c ∈ label, c ≠ 0 ∧ c ≠ dot

/-- With dots between them. -/
def Hostname.bytes (h : Hostname) : List UInt8 := joined dot h.labels []

def labelBytes (label : List UInt8) : List UInt8 := UInt8.ofNat label.length :: label

/-- Labels with a dot behind each. -/
def dotted (labels : List (List UInt8)) : List UInt8 := labels.flatMap (· ++ [dot])

/-- The labels behind their lengths, and a zero byte. -/
def qname (labels : List (List UInt8)) : List UInt8 := labels.flatMap labelBytes ++ [0]

/-- The labels of a name. -/
def readName : Nat → List UInt8 → Option (List (List UInt8))
  | fuel + 1, n :: rest =>
    if n = 0 then some [] else (readName fuel (rest.drop n.toNat)).map (rest.take n.toNat :: ·)
  | _, _ => none

/-- The question gets the name of the host, whose memory does not change. -/
def Compresses (h : Hostname) (after : List UInt8) : Prop :=
  dnsNameCompresion (h.bytes ++ 0 :: after) = some (qname h.labels, h.bytes ++ 0 :: after)

/-- The bytes up to the next NUL. -/
def untilNul (after : List UInt8) : List UInt8 := after.takeWhile (· ≠ 0)

section
variable {s t pre post rest host after : List UInt8} {label done : List UInt8} {labels : List (List UInt8)}
  {fuel left i lock : Nat}

/-! ## The length of a string -/

theorem strlen_append (hs : (0 : UInt8) ∉ s) (t : List UInt8) : strlen (s ++ t) = (strlen t).map (· + s.length) := by
  induction s with
  | nil => simp
  | cons c s ih =>
    obtain ⟨hc, hs⟩ := not_or.mp (List.mem_cons.not.mp hs)
    rw [List.cons_append, strlen, if_neg (Ne.symm hc), ih hs, Option.map_map]
    rfl

theorem strlen_eq_some (h : (0 : UInt8) ∈ t) : strlen t = some (untilNul t).length := by
  induction t with
  | nil => cases h
  | cons c t ih =>
    rw [strlen, untilNul, List.takeWhile_cons]
    by_cases hc : c = 0
    · rw [if_pos hc, if_neg (by simpa using hc)]
      rfl
    · have ht : (0 : UInt8) ∈ t := (List.mem_cons.mp h).resolve_left (Ne.symm hc)
      rw [if_neg hc, if_pos (by simpa using hc), ih ht]
      rfl

theorem strlen_eq_none (h : (0 : UInt8) ∉ t) : strlen t = none := by
  have happ := strlen_append h []
  rwa [List.append_nil] at happ

/-! ## The loop -/

/-- Up to the dot behind a label, of which `done` has been passed. -/
theorem nameLoop_label (hdot : dot ∉ rest) (post : List UInt8) (left : Nat) :
    nameLoop (pre ++ (done ++ rest) ++ dot :: post) (rest.length + 1 + left) (pre.length + done.length) pre.length =
      labelBytes (done ++ rest) ++ nameLoop (pre ++ (done ++ rest) ++ dot :: post) left
        (pre.length + (done ++ rest).length + 1) (pre.length + (done ++ rest).length + 1) := by
  induction rest generalizing done with
  | nil =>
    rw [List.append_nil, List.length_nil, Nat.zero_add, Nat.add_comm 1 left, nameLoop]
    have hget : (pre ++ done ++ dot :: post)[pre.length + done.length]? = some dot := by
      rw [← List.length_append, List.getElem?_append_right (Nat.le_refl _), Nat.sub_self, List.getElem?_cons_zero]
    rw [if_pos hget, Nat.add_sub_cancel_left, List.append_assoc, List.drop_left, List.take_left]
    rfl
  | cons c rest ih =>
    obtain ⟨hc, hrest⟩ := not_or.mp (List.mem_cons.not.mp hdot)
    have hget : (pre ++ (done ++ c :: rest) ++ dot :: post)[pre.length + done.length]? = some c := by
      rw [List.append_assoc, List.append_assoc, ← List.append_assoc, ← List.length_append,
        List.getElem?_append_right (Nat.le_refl _), Nat.sub_self, List.cons_append, List.getElem?_cons_zero]
    have hcut : done ++ c :: rest = (done ++ [c]) ++ rest := by rw [List.append_assoc, List.singleton_append]
    have hlen : rest.length + 1 + 1 + left = rest.length + 1 + left + 1 := by omega
    rw [List.length_cons, hlen, nameLoop, hget, if_neg fun heq => hc (Option.some.inj heq).symm, hcut,
      Nat.add_assoc pre.length]
    have hrec := @ih (done ++ [c]) hrest
    rw [List.length_append, List.length_singleton] at hrec
    exact hrec

/-- Over labels that all have a dot behind them. -/
theorem nameLoop_labels (hdot : ∀ label ∈ labels, dot ∉ label) (pre post : List UInt8) (left : Nat) :
    nameLoop (pre ++ dotted labels ++ post) ((dotted labels).length + left) pre.length pre.length =
      labels.flatMap labelBytes ++ nameLoop (pre ++ dotted labels ++ post) left
        (pre.length + (dotted labels).length) (pre.length + (dotted labels).length) := by
  induction labels generalizing pre with
  | nil => simp [dotted]
  | cons label labels ih =>
    obtain ⟨hlabel, hlabels⟩ := List.forall_mem_cons.mp hdot
    have hhost : pre ++ dotted (label :: labels) ++ post = pre ++ label ++ dot :: (dotted labels ++ post) := by
      simp [dotted]
    have hhost' : pre ++ label ++ dot :: (dotted labels ++ post) = pre ++ label ++ [dot] ++ dotted labels ++ post := by
      simp
    have hlen : (dotted (label :: labels)).length = label.length + 1 + (dotted labels).length := by
      rw [dotted, List.flatMap_cons, List.length_append, List.length_append, List.length_singleton, ← dotted]
    have hpre : pre.length + label.length + 1 = (pre ++ label ++ [dot]).length := by simp [Nat.add_assoc]
    have hend : (pre ++ label ++ [dot]).length + (dotted labels).length =
        pre.length + (label.length + 1 + (dotted labels).length) := by
      rw [← hpre]
      omega
    have hfirst := @nameLoop_label pre label [] hlabel (dotted labels ++ post) ((dotted labels).length + left)
    simp only [List.length_nil, Nat.add_zero, List.nil_append] at hfirst
    rw [hhost, hlen, Nat.add_assoc, hfirst, hhost', hpre, ih hlabels, hend, List.flatMap_cons,
      List.append_assoc (labelBytes label)]

/-- Without a dot nothing is written. -/
theorem nameLoop_eq_nil : nameLoop host left i lock = [] ↔ ∀ j < left, host[i + j]? ≠ some dot := by
  induction left generalizing i lock with
  | zero => simp [nameLoop]
  | succ left ih =>
    rw [nameLoop, Nat.forall_lt_succ_left]
    by_cases hget : host[i]? = some dot
    · rw [if_pos hget]
      exact iff_of_false (List.cons_ne_nil _ _) fun h => h.1 hget
    · rw [if_neg hget, ih, and_iff_right (by simpa using hget)]
      simp only [Nat.add_assoc, Nat.add_comm 1]

/-! ## The name -/

theorem joined_dotted (h : labels ≠ []) : joined dot labels [] ++ [dot] = dotted labels := by
  induction labels with
  | nil => exact absurd rfl h
  | cons label labels ih =>
    cases labels with
    | nil => simp [joined, dotted]
    | cons next labels =>
      rw [joined, List.append_assoc, List.cons_append, ih (List.cons_ne_nil _ _)]
      simp [dotted]

theorem Hostname.bytes_dot (h : Hostname) (after : List UInt8) : h.bytes ++ dot :: after = dotted h.labels ++ after := by
  rw [← joined_dotted h.nonempty, List.append_assoc, List.singleton_append]
  rfl

theorem Hostname.zero_notMem (h : Hostname) : (0 : UInt8) ∉ dotted h.labels := by
  intro hm
  obtain ⟨label, hlabel, hc⟩ := List.mem_flatMap.mp hm
  rcases List.mem_append.mp hc with hc | hc
  · exact (h.chars label hlabel 0 hc).1 rfl
  · exact absurd (List.mem_singleton.mp hc) (by decide)

/-- What is written, and that the NUL has become a dot. -/
theorem dnsNameCompresion_eq (h : Hostname) (after : List UInt8) : dnsNameCompresion (h.bytes ++ 0 :: after) =
    (strlen after).map fun n =>
      (h.labels.flatMap labelBytes ++
        nameLoop (dotted h.labels ++ after) n (dotted h.labels).length (dotted h.labels).length ++ [0],
        dotted h.labels ++ after) := by
  have hbytes : (0 : UInt8) ∉ h.bytes := by
    intro hm
    refine h.zero_notMem ?_
    rw [← joined_dotted h.nonempty]
    exact List.mem_append_left _ hm
  have hlen : strlen (h.bytes ++ 0 :: after) = some h.bytes.length := by
    rw [strlen_append hbytes, strlen, if_pos rfl, Option.map_some, Nat.zero_add]
  have hset : (h.bytes ++ 0 :: after).set h.bytes.length dot = dotted h.labels ++ after := by
    rw [List.set_append_right _ _ (Nat.le_refl _), Nat.sub_self, List.set_cons_zero, h.bytes_dot]
  have hdot : ∀ label ∈ h.labels, dot ∉ label := fun label hlabel hm => (h.chars label hlabel dot hm).2 rfl
  rw [dnsNameCompresion, hlen, Option.bind_some]
  dsimp only
  rw [hset, strlen_append h.zero_notMem, Option.map_map]
  refine congrArg (Option.map · (strlen after)) (funext fun n => ?_)
  have hloop := nameLoop_labels hdot [] after n
  rw [List.nil_append, List.length_nil, Nat.zero_add] at hloop
  dsimp only [Function.comp]
  rw [Nat.add_comm n, hloop]

/-- The rounds behind the name write nothing exactly if there is no dot. -/
theorem nameLoop_behind (s after : List UInt8) :
    nameLoop (s ++ after) (untilNul after).length s.length s.length = [] ↔ dot ∉ untilNul after := by
  have hget : ∀ j < (untilNul after).length, (s ++ after)[s.length + j]? = (untilNul after)[j]? := by
    intro j hj
    rw [List.getElem?_append_right (Nat.le_add_right _ _), Nat.add_sub_cancel_left]
    conv_lhs => rw [← List.takeWhile_append_dropWhile (p := (· ≠ 0)) (l := after)]
    exact List.getElem?_append_left hj
  rw [nameLoop_eq_nil]
  constructor
  · intro h hm
    obtain ⟨j, hj⟩ := List.mem_iff_getElem?.mp hm
    have hlt := (List.getElem?_eq_some_iff.mp hj).1
    exact h j hlt ((hget j hlt).trans hj)
  · intro h j hj heq
    exact h (List.mem_of_getElem? ((hget j hj).symm.trans heq))

/-! ## Reading it -/

theorem readName_label (hlabel : 0 < label.length ∧ label.length ≤ 63) (fuel : Nat) (rest : List UInt8) :
    readName (fuel + 1) (labelBytes label ++ rest) = (readName fuel rest).map (label :: ·) := by
  have hlen : (UInt8.ofNat label.length).toNat = label.length := by
    rw [UInt8.toNat_ofNat']
    omega
  have hne : UInt8.ofNat label.length ≠ 0 := by
    intro h0
    rw [h0] at hlen
    exact absurd hlen.symm (Nat.ne_of_gt hlabel.1)
  rw [labelBytes, List.cons_append, readName, if_neg hne, hlen, List.drop_left, List.take_left]

/-- The labels are read back from their name. -/
theorem readName_qname (h : ∀ label ∈ labels, 0 < label.length ∧ label.length ≤ 63) (rest : List UInt8) :
    readName (labels.length + 1) (qname labels ++ rest) = some labels := by
  unfold qname
  induction labels with
  | nil => rfl
  | cons label labels ih =>
    obtain ⟨hlabel, hlabels⟩ := List.forall_mem_cons.mp h
    rw [List.flatMap_cons, List.append_assoc, List.append_assoc, List.length_cons, readName_label hlabel,
      ← List.append_assoc, ih hlabels]
    rfl

end

/-- **The function never does what it should**: for every hostname the NUL behind it is lost. The name in the question
is right exactly if another NUL follows in memory, and no dot before it. -/
theorem dnsName_never (h : Hostname) (after : List UInt8) : ¬ Compresses h after ∧
    ((∃ host, dnsNameCompresion (h.bytes ++ 0 :: after) = some (qname h.labels, host)) ↔
      0 ∈ after ∧ dot ∉ untilNul after) := by
  unfold Compresses
  rw [dnsNameCompresion_eq]
  by_cases hzero : (0 : UInt8) ∈ after
  · rw [strlen_eq_some hzero, Option.map_some, and_iff_right hzero, ← nameLoop_behind (dotted h.labels) after]
    constructor
    · intro heq
      have hhost := (Prod.mk.inj (Option.some.inj heq)).2
      rw [← h.bytes_dot, List.append_cancel_left_eq] at hhost
      exact absurd (List.cons.inj hhost).1 (by decide)
    · constructor
      · rintro ⟨host, heq⟩
        have hwritten := (Prod.mk.inj (Option.some.inj heq)).1
        rw [qname, List.append_assoc, List.append_cancel_left_eq] at hwritten
        exact List.append_left_eq_self.mp hwritten
      · intro hnil
        rw [hnil, List.append_nil]
        exact ⟨_, rfl⟩
  · rw [strlen_eq_none hzero]
    refine ⟨Option.some_ne_none _ ∘ Eq.symm, iff_of_false ?_ fun hmem => hzero hmem.1⟩
    rintro ⟨host, heq⟩
    cases heq

/-- The hostname "a". -/
def oneLabel : Hostname where
  labels := [[97]]
  nonempty := by simp
  short := by simp
  chars := by simp [dot]

/-- With "b." in memory behind it the question is about "a.b". -/
theorem dnsName_longer : ¬ Compresses oneLabel [98, dot, 0] := by
  unfold Compresses
  decide

end RetrOS.Dns
