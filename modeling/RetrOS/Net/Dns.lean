import RetrOS.Lib.Slice
import RetrOS.Net.ByteOrder

/-!
# DNS responses (`net/dns.c`)

`gethostname` walks over the answers of a response until the first address. To the size of the answer headers it adds
the data length of the last answer only, `ans_count` is not converted, and at the end the result is zero.

* `answerLoop` : the loop, and the offsets it visits;
* `Response` : a response in memory; `offsets`, `hostAddress` : where the answers are, and what the result should be;
* `Resolves` : what the loop should do; `Walkable` : the responses with which it does (`gethostname_iff`).

The name of an answer is compressed to two bytes.
-/

namespace RetrOS.Dns

open RetrOS.Lib RetrOS.Net

/-! ## The source -/

abbrev dnsTA : BitVec 16 := 1

abbrev sizeofHeader : Nat := 12

abbrev sizeofQuestion : Nat := 4

abbrev sizeofAnswer : Nat := 12

/-- The loop over the answers behind the question: the result of `gethostname`, and the offsets `next` that it visits.
`left` is how far `i` is from `ans_count`. -/
def answerLoop (buf : Nat → UInt8) (questionSize : Nat) : (left i lastLength : Nat) → BitVec 32 × List Nat
  | 0, _, _ => (0, [])
  | left + 1, i, lastLength =>
    let next := sizeofAnswer * i + lastLength
    let answer := questionSize + next
    let dataLen := ntohs (load16 buf (answer + 10))
    if load16 buf (answer + 2) ≠ ntohs dnsTA then
      let (ret, visited) := answerLoop buf questionSize left (i + 1) dataLen.toNat
      (ret, next :: visited)
    else
      let result := if dataLen = 4 then load32 buf (questionSize + 12 + next) else 0
      (if result = 0 then -1 else result, [next])

/-! ## Responses -/

/-- An answer; `struct dns_answer` and the data behind it. -/
structure Answer where
  name : BitVec 16
  type : BitVec 16
  cls : BitVec 16
  ttl : BitVec 32
  data : List UInt8
  short : data.length < 65536

def Answer.dataLen (a : Answer) : BitVec 16 := BitVec.ofNat 16 a.data.length

/-- In network order. -/
def Answer.bytes (a : Answer) : List UInt8 :=
  bytes16 (htons a.name) ++ (bytes16 (htons a.type) ++ (bytes16 (htons a.cls) ++ (bytes32 (htonl a.ttl) ++
    (bytes16 (htons a.dataLen) ++ a.data))))

def encode (answers : List Answer) : List UInt8 := answers.flatMap Answer.bytes

/-- A response in memory, to a question with this name: the number of answers in its header, and the answers behind
the question. -/
structure Response where
  qname : List UInt8
  answers : List Answer
  buf : Nat → UInt8
  short : answers.length < 65536
  ansCount : load16 buf 6 = htons (BitVec.ofNat 16 answers.length)
  encoded : Slice.read buf (sizeofHeader + (qname.length + 1) + sizeofQuestion) (encode answers).length = encode answers

def Response.questionSize (r : Response) : Nat := sizeofHeader + (r.qname.length + 1) + sizeofQuestion

/-- The answer loop of `gethostname`. -/
def gethostname (r : Response) : BitVec 32 × List Nat :=
  answerLoop r.buf r.questionSize (load16 r.buf 6).toNat 0 0

/-- Where the answers are, up to the first address. -/
def offsets (next : Nat) : List Answer → List Nat
  | [] => []
  | a :: rest => next :: if a.type = dnsTA then [] else offsets (next + sizeofAnswer + a.data.length) rest

/-- Four bytes are an address. -/
def Answer.address (a : Answer) : Option (BitVec 32) :=
  match a.data with
  | [x, y, z, w] => some (word32 x y z w)
  | _ => none

/-- The first address, or `-1`. -/
def hostAddress (answers : List Answer) : BitVec 32 :=
  ((answers.find? (·.type = dnsTA)).bind Answer.address).getD (-1)

/-- The loop visits the answers where they are, and its result is the first address. -/
structure Resolves (r : Response) : Prop where
  visits : (gethostname r).2 = offsets 0 r.answers
  result : (gethostname r).1 = hostAddress r.answers

/-- The responses with which it does: one of the answers is an address, and not 0.0.0.0; so many answers as stand
before it are less than `ans_count` with its bytes swapped; and of these all but the last one are without data. -/
def Walkable (r : Response) : Prop :=
  ∃ before a after, r.answers = before ++ a :: after ∧ (∀ b ∈ before, b.type ≠ dnsTA) ∧ a.type = dnsTA ∧
    a.data ≠ [0, 0, 0, 0] ∧ before.length < (htons (BitVec.ofNat 16 r.answers.length)).toNat ∧
    ∀ b ∈ before.dropLast, b.data = []

/-! ## An answer in memory -/

section Answer
variable {buf : Nat → UInt8} {s : Nat} {a : Answer}

@[simp] theorem Answer.length_bytes (a : Answer) : a.bytes.length = sizeofAnswer + a.data.length := by
  simp only [Answer.bytes, List.length_append, length_bytes16, length_bytes32]
  change _ = 12 + _
  omega

theorem Answer.toNat_dataLen (a : Answer) : a.dataLen.toNat = a.data.length := by
  rw [Answer.dataLen, BitVec.toNat_ofNat, Nat.mod_eq_of_lt a.short]

/-- The fields that are read. -/
theorem Answer.read_bytes (h : Slice.read buf s a.bytes.length = a.bytes) :
    load16 buf (s + 2) = htons a.type ∧ ntohs (load16 buf (s + 10)) = a.dataLen ∧
      Slice.read buf (s + 12) a.data.length = a.data := by
  rw [Answer.bytes] at h
  obtain ⟨-, h⟩ := Slice.read_append_iff.mp h
  obtain ⟨htype, h⟩ := Slice.read_append_iff.mp h
  obtain ⟨-, h⟩ := Slice.read_append_iff.mp h
  obtain ⟨-, h⟩ := Slice.read_append_iff.mp h
  obtain ⟨hlen, hdata⟩ := Slice.read_append_iff.mp h
  refine ⟨load16_of_read htype, ?_, hdata⟩
  rw [load16_of_read (s := s + 10) hlen]
  exact ntohs_ntohs a.dataLen

theorem load32_of_four {x y z w : UInt8} (h : Slice.read buf s 4 = [x, y, z, w]) : load32 buf s = word32 x y z w := by
  obtain ⟨hx, hy, hz, hw⟩ : buf s = x ∧ buf (s + 1) = y ∧ buf (s + 2) = z ∧ buf (s + 3) = w := by
    simpa [Slice.read, List.range'] using h
  rw [load32, hx, hy, hz, hw]

theorem word32_eq_zero {x y z w : UInt8} : word32 x y z w = 0 ↔ [x, y, z, w] = [0, 0, 0, 0] := by
  rw [← BitVec.toNat_inj, toNat_word32]
  simp only [List.cons.injEq, and_true, ← UInt8.toNat_inj]
  change _ = 0 ↔ x.toNat = 0 ∧ y.toNat = 0 ∧ z.toNat = 0 ∧ w.toNat = 0
  omega

end Answer

/-! ## The walk -/

/-- The walk from an answer on that the loop finds if the data before it are `sum` bytes, of which the answer before it
has `last`. -/
def Reaches : (left last sum : Nat) → List Answer → Prop
  | 0, _, _, _ => False
  | _ + 1, _, _, [] => False
  | left + 1, last, sum, a :: rest =>
    sum = last ∧ if a.type = dnsTA then a.data ≠ [0, 0, 0, 0] else Reaches left a.data.length (sum + a.data.length) rest

section Walk
variable {buf : Nat → UInt8} {questionSize left i last sum : Nat} {answers : List Answer} {a : Answer}

/-- The result for an answer of type `A`. -/
theorem result_iff (hdata : Slice.read buf i a.data.length = a.data) :
    (if (if a.dataLen = 4 then load32 buf i else 0) = 0 then -1 else if a.dataLen = 4 then load32 buf i else 0) =
      a.address.getD (-1) ↔ a.data ≠ [0, 0, 0, 0] := by
  have hlen : a.dataLen = 4 ↔ a.data.length = 4 := by
    rw [← BitVec.toNat_inj, a.toNat_dataLen]
    rfl
  by_cases hfour : a.data.length = 4
  · obtain ⟨x, y, z, w, hbytes⟩ := List.length_eq_four.mp hfour
    rw [hbytes] at hdata
    have haddress : a.address = some (word32 x y z w) := by rw [Answer.address, hbytes]
    rw [if_pos (hlen.mpr hfour), load32_of_four hdata, haddress, hbytes, Option.getD_some, ne_eq,
      ← word32_eq_zero]
    by_cases hzero : word32 x y z w = 0
    · rw [if_pos hzero, hzero]
      exact iff_of_false (by decide) (not_not.mpr rfl)
    · rw [if_neg hzero]
      exact iff_of_true rfl hzero
  · have haddress : a.address = none := by
      unfold Answer.address
      split
      · next heq => simp [heq] at hfour
      · rfl
    rw [if_neg (hlen.not.mpr hfour), if_pos rfl, haddress]
    refine iff_of_true rfl fun heq => ?_
    simp [heq] at hfour

/-- The loop at an answer of another type. -/
theorem answerLoop_next (hfields : Slice.read buf (questionSize + (12 * i + last)) a.bytes.length = a.bytes)
    (ha : a.type ≠ dnsTA) : answerLoop buf questionSize (left + 1) i last =
      ((answerLoop buf questionSize left (i + 1) a.data.length).1,
        (12 * i + last) :: (answerLoop buf questionSize left (i + 1) a.data.length).2) := by
  obtain ⟨htype, hlen, -⟩ := Answer.read_bytes hfields
  have hne : load16 buf (questionSize + (12 * i + last) + 2) ≠ ntohs dnsTA := fun heq => by
    rw [htype] at heq
    exact ha (ntohs_injective heq)
  rw [answerLoop, if_pos hne]
  dsimp only
  rw [hlen, a.toNat_dataLen]

/-- The loop at an answer of type `A`. -/
theorem answerLoop_found (hfields : Slice.read buf (questionSize + (12 * i + last)) a.bytes.length = a.bytes)
    (ha : a.type = dnsTA) : (answerLoop buf questionSize (left + 1) i last).2 = [12 * i + last] ∧
      ((answerLoop buf questionSize (left + 1) i last).1 = a.address.getD (-1) ↔ a.data ≠ [0, 0, 0, 0]) := by
  obtain ⟨htype, hlen, hdata⟩ := Answer.read_bytes hfields
  have hplace : questionSize + (12 * i + last) + 12 = questionSize + 12 + (12 * i + last) := by omega
  have heq : load16 buf (questionSize + (12 * i + last) + 2) = ntohs dnsTA := htype.trans (congrArg htons ha)
  rw [hplace] at hdata
  rw [answerLoop, if_neg (not_not.mpr heq)]
  dsimp only
  rw [hlen]
  exact ⟨rfl, result_iff hdata⟩

/-- The first offset that is visited. -/
theorem answerLoop_head (buf : Nat → UInt8) (questionSize left i last : Nat) :
    (answerLoop buf questionSize (left + 1) i last).2.head? = some (12 * i + last) := by
  rw [answerLoop]
  split <;> rfl

theorem answerLoop_nil : ¬ ((answerLoop buf questionSize left i last).2 = [] ∧
    (answerLoop buf questionSize left i last).1 = -1) := by
  rintro ⟨hvisits, hresult⟩
  cases left with
  | zero => exact absurd (show (0 : BitVec 32) = -1 from hresult) (by decide)
  | succ left =>
    have hhead := answerLoop_head buf questionSize left i last
    rw [hvisits] at hhead
    cases hhead

theorem answerLoop_iff
    (h : Slice.read buf (questionSize + (12 * i + sum)) (encode answers).length = encode answers) :
    ((answerLoop buf questionSize left i last).2 = offsets (12 * i + sum) answers ∧
      (answerLoop buf questionSize left i last).1 = hostAddress answers) ↔ Reaches left last sum answers := by
  induction answers generalizing left i last sum with
  | nil =>
    refine iff_of_false answerLoop_nil ?_
    cases left <;> exact id
  | cons a rest ih =>
    cases left with
    | zero => exact iff_of_false (fun h => by cases h.1) id
    | succ left =>
      rw [encode, List.flatMap_cons] at h
      obtain ⟨hfields, hrest⟩ := Slice.read_append_iff.mp h
      by_cases hlast : sum = last
      · subst hlast
        have hreach : Reaches (left + 1) sum sum (a :: rest) ↔ if a.type = dnsTA then a.data ≠ [0, 0, 0, 0] else
            Reaches left a.data.length (sum + a.data.length) rest := and_iff_right rfl
        rw [hreach, offsets, hostAddress]
        by_cases ha : a.type = dnsTA
        · obtain ⟨hvisits, hresult⟩ := @answerLoop_found buf questionSize left i sum a hfields ha
          rw [if_pos ha, if_pos ha, List.find?_cons_of_pos (by simpa using ha), Option.bind_some, hvisits]
          exact (and_iff_right rfl).trans hresult
        · have hplace : questionSize + (12 * i + sum) + a.bytes.length =
              questionSize + (12 * (i + 1) + (sum + a.data.length)) := by
            rw [a.length_bytes]
            change _ + (12 + _) = _
            omega
          have hnext : 12 * i + sum + sizeofAnswer + a.data.length = 12 * (i + 1) + (sum + a.data.length) := by
            change _ + 12 + _ = _
            omega
          rw [hplace] at hrest
          rw [if_neg ha, if_neg ha, List.find?_cons_of_neg (by simpa using ha), answerLoop_next hfields ha,
            List.cons_inj_right, hnext]
          exact ih hrest
      · refine iff_of_false (fun h => hlast ?_) fun h => hlast h.1
        have hhead := answerLoop_head buf questionSize left i last
        rw [h.1, offsets, List.head?_cons] at hhead
        have := Option.some.inj hhead
        omega

/-- The same without the walk: how many answers stand before the address, and which of them have data. -/
def Leads (left last sum : Nat) (answers : List Answer) : Prop :=
  ∃ before a after, answers = before ++ a :: after ∧ (∀ b ∈ before, b.type ≠ dnsTA) ∧ a.type = dnsTA ∧
    a.data ≠ [0, 0, 0, 0] ∧ before.length < left ∧ sum = last ∧ (before ≠ [] → sum = 0) ∧
    ∀ b ∈ before.dropLast, b.data = []

theorem leads_found {rest : List Answer} (ha : a.type = dnsTA) :
    Leads (left + 1) last sum (a :: rest) ↔ sum = last ∧ a.data ≠ [0, 0, 0, 0] := by
  constructor
  · rintro ⟨before, x, after, hsplit, hbefore, -, hdata, -, hlast, -⟩
    cases before with
    | nil =>
      obtain ⟨rfl, -⟩ := List.cons.inj hsplit
      exact ⟨hlast, hdata⟩
    | cons b before =>
      obtain ⟨rfl, -⟩ := List.cons.inj hsplit
      exact absurd ha (hbefore a List.mem_cons_self)
  · rintro ⟨hlast, hdata⟩
    exact ⟨[], a, rest, rfl, by simp, ha, hdata, Nat.succ_pos left, hlast, by simp, by simp⟩

theorem leads_next {rest : List Answer} (ha : a.type ≠ dnsTA) : Leads (left + 1) last sum (a :: rest) ↔
    sum = last ∧ Leads left a.data.length (sum + a.data.length) rest := by
  constructor
  · rintro ⟨before, x, after, hsplit, hbefore, hx, hdata, hlt, hlast, hzero, hempty⟩
    cases before with
    | nil =>
      obtain ⟨rfl, -⟩ := List.cons.inj hsplit
      exact absurd hx ha
    | cons b before =>
      obtain ⟨rfl, rfl⟩ := List.cons.inj hsplit
      have hsum : sum = 0 := hzero (by simp)
      refine ⟨hlast, before, x, after, rfl, fun c hc => hbefore c (List.mem_cons_of_mem _ hc), hx, hdata,
        Nat.lt_of_succ_lt_succ hlt, by omega, fun hne => ?_, fun c hc => ?_⟩
      · rw [List.dropLast_cons_of_ne_nil hne] at hempty
        simp [hempty a List.mem_cons_self, hsum]
      · have hne : before ≠ [] := fun heq => by simp [heq] at hc
        rw [List.dropLast_cons_of_ne_nil hne] at hempty
        exact hempty c (List.mem_cons_of_mem _ hc)
  · rintro ⟨hlast, before, x, after, rfl, hbefore, hx, hdata, hlt, hsum, hzero, hempty⟩
    refine ⟨a :: before, x, after, rfl, List.forall_mem_cons.mpr ⟨ha, hbefore⟩, hx, hdata,
      Nat.succ_lt_succ hlt, hlast, fun _ => by omega, ?_⟩
    cases before with
    | nil => simp
    | cons b before =>
      have hadata : a.data = [] := List.length_eq_zero_iff.mp (by have := hzero (by simp); omega)
      rw [List.dropLast_cons_of_ne_nil (by simp)]
      exact List.forall_mem_cons.mpr ⟨hadata, hempty⟩

theorem reaches_iff : Reaches left last sum answers ↔ Leads left last sum answers := by
  induction answers generalizing left last sum with
  | nil =>
    have hnot : ¬ Reaches left last sum [] := by
      cases left <;> exact id
    refine iff_of_false hnot ?_
    rintro ⟨before, a, after, hsplit, -⟩
    simp at hsplit
  | cons a rest ih =>
    cases left with
    | zero => exact iff_of_false id fun ⟨_, _, _, _, _, _, _, hlt, _⟩ => Nat.not_lt_zero _ hlt
    | succ left =>
      rw [Reaches]
      by_cases ha : a.type = dnsTA
      · rw [if_pos ha, leads_found ha]
      · rw [if_neg ha, leads_next ha, ih]

theorem resolves_iff_reaches (r : Response) :
    Resolves r ↔ Reaches (htons (BitVec.ofNat 16 r.answers.length)).toNat 0 0 r.answers := by
  rw [← r.ansCount, ← @answerLoop_iff r.buf r.questionSize (load16 r.buf 6).toNat 0 0 0 r.answers r.encoded]
  exact ⟨fun h => ⟨h.visits, h.result⟩, fun h => ⟨h.1, h.2⟩⟩

end Walk

/-- **Exactly** the walkable responses are resolved as they should be. -/
theorem gethostname_iff (r : Response) : Resolves r ↔ Walkable r := by
  rw [resolves_iff_reaches, reaches_iff]
  simp only [Leads, true_and, implies_true, Walkable]

/-- Two aliases, of two bytes each, in front of an address. -/
def aliasAnswers : List Answer :=
  [⟨0xc00c, 5, 1, 60, [1, 98], by decide⟩, ⟨0xc00c, 5, 1, 60, [1, 99], by decide⟩,
    ⟨0xc00c, dnsTA, 1, 60, [10, 0, 0, 5], by decide⟩]

/-- They answer a question for `a`. -/
def aliasResponse : Response where
  qname := [1, 97]
  answers := aliasAnswers
  buf := fun i => ([0, 0, 0x81, 0x80, 0, 1, 0, 3, 0, 0, 0, 0, 1, 97, 0, 0, 1, 0, 1] ++ encode aliasAnswers).getD i 0
  short := by decide
  ansCount := by decide
  encoded := by decide

/-- The address is not where the loop looks for it. -/
theorem gethostname_lost : ¬ Resolves aliasResponse := by
  rw [resolves_iff_reaches]
  change ¬ Reaches 768 0 0 aliasAnswers
  simp [Reaches, aliasAnswers]

end RetrOS.Dns
