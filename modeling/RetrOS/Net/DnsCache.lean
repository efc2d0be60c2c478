import RetrOS.Lib.LittleEndian
import RetrOS.Lib.Run

/-!
# The DNS cache (`net/dns.c`)

Ten entries; one without an address is free. A name is copied into an entry without its NUL, and compared with an entry
over the length of the name that is asked for: a prefix of a name hits, and the empty name hits any entry.

* `cacheLookup`, `dnsAddCache`, `gethostname` : the source, the query being a parameter;
* `Kept` : a call that hits is for a name that was resolved, and gets its address;
* `Allowed` : the name is in the cache, or no name there begins with it (`CacheInv.kept_iff`);
* `dnsCache_run` : the runs of such calls.
-/

namespace RetrOS.DnsCache
open RetrOS.Lib

/-! ## The source -/

/-- `struct dns_cache` -/
structure CacheEntry where
  name : List UInt8
  lease : BitVec 32
  ip : BitVec 32

def CacheEntry.bytes (e : CacheEntry) : List UInt8 := e.name ++ (bytes32 e.lease ++ bytes32 e.ip)

/-- `memcmp(ptr, ptr2, len) == 0` for the memory at `ptr` and the first `len` bytes at `ptr2`. -/
def memcmp (mem bytes : List UInt8) : Bool := bytes.isPrefixOf mem

/-- The loop over the cache: the address of the entry that hits. The memory of an entry goes on with the next one. -/
def cacheLookup : List CacheEntry → List UInt8 → Option (BitVec 32)
  | [], _ => none
  | e :: cache, hostname =>
    if memcmp ((e :: cache).flatMap CacheEntry.bytes) hostname then some e.ip else cacheLookup cache hostname

/-- `__dns_add_cache` -/
def dnsAddCache : List CacheEntry → List UInt8 → BitVec 32 → List CacheEntry
  | [], _, _ => []
  | e :: cache, hostname, ip =>
    if e.ip = 0 then { e with name := hostname ++ e.name.drop hostname.length, ip := ip } :: cache
    else e :: dnsAddCache cache hostname ip

/-- What comes of a query. -/
inductive Response
  | failed
  | noAddress
  | address (ip : BitVec 32)
  deriving DecidableEq

/-- A call; `stopped` is `dhcp_get_state() == DHCP_STOPPED`, `response` what would come of a query. -/
structure Call where
  hostname : List UInt8
  noNul : 0 ∉ hostname
  stopped : Bool
  response : Response

/-- `gethostname`: the result and the cache. `hostname_save` has room for 40 bytes. -/
def gethostname (cache : List CacheEntry) (c : Call) : Option (BitVec 32 × List CacheEntry) :=
  if c.stopped then some (-1, cache)
  else
    match cacheLookup cache c.hostname with
    | some ip => some (ip, cache)
    | none =>
      if 40 < c.hostname.length + 1 then none
      else
        match c.response with
        | .failed => some (-1, cache)
        | .noAddress => some (0, cache)
        | .address ip => if ip = 0 then some (-1, cache) else some (ip, dnsAddCache cache c.hostname ip)

def emptyEntry : CacheEntry := ⟨List.replicate 40 0, 0, 0⟩

/-- `net_init_dns` -/
def netInitDns : List CacheEntry := List.replicate 10 emptyEntry

/-! ## Runs -/

/-- The cache, and the names that were resolved by a query, with their addresses. -/
structure CacheRun where
  cache : List CacheEntry
  resolved : List (List UInt8 × BitVec 32)

def cacheStart : CacheRun := ⟨netInitDns, []⟩

/-- The call asks the cache, and in vain. -/
def Call.resolves (c : Call) (cache : List CacheEntry) : Option (BitVec 32) :=
  match c.stopped, cacheLookup cache c.hostname, c.response with
  | false, none, .address ip => if ip = 0 then none else some ip
  | _, _, _ => none

def cacheStep (s : CacheRun) (c : Call) : Option CacheRun :=
  (gethostname s.cache c).map fun (_, cache) =>
    ⟨cache, match c.resolves s.cache with
      | some ip => (c.hostname, ip) :: s.resolved
      | none => s.resolved⟩

/-- The entry of a name and its address. -/
def entryOf (p : List UInt8 × BitVec 32) : CacheEntry := ⟨p.1 ++ List.replicate (40 - p.1.length) 0, 0, p.2⟩

/-- The name is in the cache, with this address. -/
def Stored (cache : List CacheEntry) (name : List UInt8) (ip : BitVec 32) : Prop :=
  0 ∉ name ∧ ip ≠ 0 ∧ entryOf (name, ip) ∈ cache

/-- A hit is for a name that was resolved and is in the cache, and returns its address. -/
def Kept (s : CacheRun) (c : Call) : Prop :=
  c.stopped = false → ∀ ip, cacheLookup s.cache c.hostname = some ip →
    Stored s.cache c.hostname ip ∧ (c.hostname, ip) ∈ s.resolved

/-- The name is not empty; it is in the cache, or no name there begins with it. -/
def Allowed (s : CacheRun) (c : Call) : Prop :=
  c.stopped = false → c.hostname ≠ [] ∧
    ((∃ ip, Stored s.cache c.hostname ip) ∨ ∀ name ip, Stored s.cache name ip → ¬ c.hostname <+: name)

/-- The cache is what was stored, and free entries behind it. No name was stored that an earlier one begins with. -/
structure CacheInv (s : CacheRun) (stored : List (List UInt8 × BitVec 32)) (k : Nat) : Prop where
  cache : s.cache = stored.map entryOf ++ List.replicate k emptyEntry
  size : stored.length + k = 10
  valid : ∀ p ∈ stored, 0 ∉ p.1 ∧ p.1 ≠ [] ∧ p.1.length < 40 ∧ p.2 ≠ 0
  resolved : ∀ p ∈ stored, p ∈ s.resolved
  exact : stored.Pairwise fun p q => ¬ q.1 <+: p.1

section
variable {s : CacheRun} {stored : List (List UInt8 × BitVec 32)} {k : Nat} {name q rest : List UInt8} {ip : BitVec 32}

/-- A name without a NUL is compared with the name in front of a NUL only. -/
theorem prefix_nul (hq : 0 ∉ q) (name rest : List UInt8) : q <+: name ++ 0 :: rest ↔ q <+: name := by
  refine ⟨fun h => ?_, fun h => h.trans (List.prefix_append _ _)⟩
  rcases Nat.le_total q.length name.length with hle | hle
  · exact List.prefix_of_prefix_length_le h (List.prefix_append _ _) hle
  · obtain ⟨t, ht⟩ := List.prefix_of_prefix_length_le (List.prefix_append name (0 :: rest)) h hle
    rw [← ht, List.prefix_append_right_inj] at h
    cases t with
    | nil =>
      have heq : q = name := by rw [← ht, List.append_nil]
      exact heq ▸ List.prefix_refl _
    | cons c t =>
      obtain ⟨rfl, -⟩ := List.cons_prefix_cons.mp h
      exact absurd (ht ▸ List.mem_append_right name (List.mem_cons_self ..)) hq

theorem memcmp_entryOf (hq : 0 ∉ q) {p : List UInt8 × BitVec 32} (hp : p.1.length < 40) (cache : List CacheEntry) :
    memcmp ((entryOf p :: cache).flatMap CacheEntry.bytes) q = true ↔ q <+: p.1 := by
  obtain ⟨m, hm⟩ : ∃ m, 40 - p.1.length = m + 1 := ⟨39 - p.1.length, by omega⟩
  rw [memcmp, List.isPrefixOf_iff_prefix, List.flatMap_cons, CacheEntry.bytes, entryOf, hm, List.replicate_succ,
    List.append_assoc, List.append_assoc, List.cons_append]
  exact prefix_nul hq _ _

theorem memcmp_emptyEntry (hq : 0 ∉ q) (cache : List CacheEntry) :
    memcmp ((emptyEntry :: cache).flatMap CacheEntry.bytes) q = true ↔ q = [] := by
  have h := @memcmp_entryOf q hq ([], 0) (by decide) cache
  rwa [List.prefix_nil] at h

/-- The entry that hits is the first one whose name begins with the name that is asked for. -/
theorem cacheLookup_eq (hq : 0 ∉ q) (hvalid : ∀ p ∈ stored, p.1.length < 40) (k : Nat) :
    cacheLookup (stored.map entryOf ++ List.replicate k emptyEntry) q =
      match stored.find? fun p => q.isPrefixOf p.1 with
      | some p => some p.2
      | none => if q = [] ∧ 0 < k then some 0 else none := by
  induction stored with
  | nil =>
    rw [List.map_nil, List.nil_append, List.find?_nil]
    induction k with
    | zero => simp [cacheLookup]
    | succ k ih =>
      rw [List.replicate_succ, cacheLookup]
      by_cases hnil : q = []
      · rw [if_pos ((memcmp_emptyEntry hq _).mpr hnil), if_pos ⟨hnil, Nat.succ_pos k⟩]
        rfl
      · rw [if_neg (fun h => hnil ((memcmp_emptyEntry hq _).mp h)), ih]
        simp [hnil]
  | cons p stored ih =>
    obtain ⟨hp, hvalid⟩ := List.forall_mem_cons.mp hvalid
    rw [List.map_cons, List.cons_append, cacheLookup, List.find?_cons]
    by_cases hpre : q <+: p.1
    · rw [if_pos ((memcmp_entryOf hq hp _).mpr hpre), List.isPrefixOf_iff_prefix.mpr hpre]
      rfl
    · rw [if_neg (fun h => hpre ((memcmp_entryOf hq hp _).mp h)), ih hvalid,
        Bool.eq_false_iff.mpr fun h => hpre (List.isPrefixOf_iff_prefix.mp h)]

/-- An entry holds one name. -/
theorem takeWhile_entryOf {p : List UInt8 × BitVec 32} (hp : 0 ∉ p.1) :
    (entryOf p).name.takeWhile (· ≠ 0) = p.1 := by
  have hpos : ∀ c ∈ p.1, decide (c ≠ 0) = true := fun c hc => decide_eq_true fun heq => hp (heq ▸ hc)
  rw [entryOf, List.takeWhile_append_of_pos hpos]
  cases 40 - p.1.length <;> simp [List.replicate_succ]

/-- What is in the cache is what was stored. -/
theorem CacheInv.stored_iff (h : CacheInv s stored k) : Stored s.cache name ip ↔ (name, ip) ∈ stored := by
  rw [Stored, h.cache]
  constructor
  · rintro ⟨hname, hip, hmem⟩
    rcases List.mem_append.mp hmem with hmem | hmem
    · obtain ⟨p, hp, heq⟩ := List.mem_map.mp hmem
      have h1 : p.1 = name := by
        rw [← takeWhile_entryOf (h.valid p hp).1, heq, takeWhile_entryOf hname]
      have h2 : p.2 = ip := congrArg CacheEntry.ip heq
      rwa [← h1, ← h2]
    · exact absurd (congrArg CacheEntry.ip (List.eq_of_mem_replicate hmem)) hip
  · intro hmem
    obtain ⟨hname, -, -, hip⟩ := h.valid _ hmem
    exact ⟨hname, hip, List.mem_append_left _ (List.mem_map_of_mem hmem)⟩

theorem CacheInv.lookup (h : CacheInv s stored k) (hq : 0 ∉ q) : cacheLookup s.cache q =
    match stored.find? fun p => q.isPrefixOf p.1 with
    | some p => some p.2
    | none => if q = [] ∧ 0 < k then some 0 else none := by
  rw [h.cache]
  exact cacheLookup_eq hq (fun p hp => (h.valid p hp).2.2.1) k

/-- The name that was stored is the first one that begins with it. -/
theorem CacheInv.find_stored (h : CacheInv s stored k) (hmem : (q, ip) ∈ stored) :
    (stored.find? fun p => q.isPrefixOf p.1) = some (q, ip) := by
  obtain ⟨before, after, rfl⟩ := List.append_of_mem hmem
  refine List.find?_eq_some_iff_append.mpr ⟨List.isPrefixOf_iff_prefix.mpr List.prefix_rfl, before, after, rfl, ?_⟩
  intro p hp
  have hnot := (List.pairwise_append.mp h.exact).2.2 p hp (q, ip) (List.mem_cons_self ..)
  rw [Bool.not_eq_true', Bool.eq_false_iff]
  exact fun hpre => hnot (List.isPrefixOf_iff_prefix.mp hpre)

/-- The empty name hits. -/
theorem CacheInv.lookup_nil (h : CacheInv s stored k) : cacheLookup s.cache [] ≠ none := by
  rw [h.lookup List.not_mem_nil]
  cases stored with
  | nil =>
    have hk : 0 < k := by
      have hsize := h.size
      rw [List.length_nil] at hsize
      omega
    simp [hk]
  | cons p stored => simp

/-- **One call** does what it should exactly if it is such a call. -/
theorem CacheInv.kept_iff (h : CacheInv s stored k) (c : Call) : Kept s c ↔ Allowed s c := by
  refine forall_congr' fun _ => ?_
  simp only [h.stored_iff]
  constructor
  · intro hkept
    have hne : c.hostname ≠ [] := by
      intro hnil
      obtain ⟨ip, hip⟩ := Option.ne_none_iff_exists'.mp h.lookup_nil
      have hmem := (hkept ip (hnil ▸ hip)).1
      exact (h.valid _ hmem).2.1 hnil
    refine ⟨hne, ?_⟩
    cases hfind : stored.find? fun p => c.hostname.isPrefixOf p.1 with
    | some p =>
      have hlookup := h.lookup c.noNul
      rw [hfind] at hlookup
      exact .inl ⟨p.2, (hkept p.2 hlookup).1⟩
    | none =>
      refine .inr fun name ip hmem hpre => ?_
      exact List.find?_eq_none.mp hfind _ hmem (List.isPrefixOf_iff_prefix.mpr hpre)
  · rintro ⟨hne, hcase⟩ ip hhit
    rw [h.lookup c.noNul] at hhit
    rcases hcase with ⟨ip', hmem⟩ | hnone
    · rw [h.find_stored hmem] at hhit
      cases hhit
      exact ⟨hmem, h.resolved _ hmem⟩
    · have hfind : (stored.find? fun p => c.hostname.isPrefixOf p.1) = none :=
        List.find?_eq_none.mpr fun p hp hpre => hnone p.1 p.2 hp (List.isPrefixOf_iff_prefix.mp hpre)
      rw [hfind] at hhit
      dsimp only at hhit
      rw [if_neg fun hboth => hne hboth.1] at hhit
      cases hhit

theorem dnsAddCache_full (hvalid : ∀ p ∈ stored, p.2 ≠ 0) (q : List UInt8) (ip : BitVec 32) :
    dnsAddCache (stored.map entryOf) q ip = stored.map entryOf := by
  induction stored with
  | nil => rfl
  | cons p stored ih =>
    obtain ⟨hp, hvalid⟩ := List.forall_mem_cons.mp hvalid
    rw [List.map_cons, dnsAddCache, if_neg (show (entryOf p).ip ≠ 0 from hp), ih hvalid]

/-- The first free entry gets the name. -/
theorem dnsAddCache_eq (hvalid : ∀ p ∈ stored, p.2 ≠ 0) (q : List UInt8) (ip : BitVec 32) (k : Nat) :
    dnsAddCache (stored.map entryOf ++ List.replicate (k + 1) emptyEntry) q ip =
      (stored ++ [(q, ip)]).map entryOf ++ List.replicate k emptyEntry := by
  induction stored with
  | nil =>
    rw [List.replicate_succ, List.map_nil, List.nil_append, dnsAddCache, if_pos (show emptyEntry.ip = 0 from rfl)]
    have hdrop : (List.replicate 40 (0 : UInt8)).drop q.length = List.replicate (40 - q.length) 0 := List.drop_replicate
    dsimp only [emptyEntry]
    rw [hdrop]
    rfl
  | cons p stored ih =>
    obtain ⟨hp, hvalid⟩ := List.forall_mem_cons.mp hvalid
    rw [List.map_cons, List.cons_append, dnsAddCache, if_neg (show (entryOf p).ip ≠ 0 from hp), ih hvalid]
    rfl

/-- What a call does to the cache: nothing, or a name that is not there is resolved and added. -/
theorem gethostname_cases {c : Call} {cache cache' : List CacheEntry} {r : BitVec 32}
    (h : gethostname cache c = some (r, cache')) : c.resolves cache = none ∧ cache' = cache ∨
      ∃ ip, c.resolves cache = some ip ∧ ip ≠ 0 ∧ cacheLookup cache c.hostname = none ∧ c.hostname.length < 40 ∧
        cache' = dnsAddCache cache c.hostname ip := by
  unfold gethostname at h
  unfold Call.resolves
  cases hstopped : c.stopped with
  | true =>
    rw [hstopped, if_pos rfl] at h
    cases h
    exact .inl ⟨rfl, rfl⟩
  | false =>
    rw [hstopped, if_neg Bool.false_ne_true] at h
    cases hlookup : cacheLookup cache c.hostname with
    | some ip =>
      rw [hlookup] at h
      cases h
      exact .inl ⟨rfl, rfl⟩
    | none =>
      rw [hlookup] at h
      dsimp only at h
      split at h
      · cases h
      · next hshort =>
        cases hresponse : c.response with
        | failed =>
          rw [hresponse] at h
          cases h
          exact .inl ⟨rfl, rfl⟩
        | noAddress =>
          rw [hresponse] at h
          cases h
          exact .inl ⟨rfl, rfl⟩
        | address ip =>
          rw [hresponse] at h
          dsimp only at h ⊢
          by_cases hip : ip = 0
          · rw [if_pos hip] at h ⊢
            cases h
            exact .inl ⟨rfl, rfl⟩
          · rw [if_neg hip] at h ⊢
            obtain ⟨-, rfl⟩ := Prod.mk.inj (Option.some.inj h)
            exact .inr ⟨ip, rfl, hip, rfl, by omega, rfl⟩

theorem CacheInv.step (h : CacheInv s stored k) {c : Call} {t : CacheRun} (hst : cacheStep s c = some t) :
    ∃ stored k, CacheInv t stored k := by
  obtain ⟨⟨r, cache⟩, hcall, rfl⟩ := Option.map_eq_some_iff.mp hst
  rcases gethostname_cases hcall with ⟨hnone, rfl⟩ | ⟨ip, hsome, hip, hlookup, hshort, rfl⟩
  · dsimp only
    rw [hnone]
    exact ⟨stored, k, h⟩
  · dsimp only
    rw [hsome]
    have hvalid : ∀ p ∈ stored, p.2 ≠ 0 := fun p hp => (h.valid p hp).2.2.2
    have hresolved : ∀ p ∈ stored, p ∈ (c.hostname, ip) :: s.resolved := fun p hp =>
      List.mem_cons_of_mem _ (h.resolved p hp)
    cases k with
    | zero =>
      refine ⟨stored, 0, ?_, h.size, h.valid, hresolved, h.exact⟩
      dsimp only
      rw [h.cache, List.replicate_zero, List.append_nil, dnsAddCache_full hvalid]
    | succ k =>
      have hne : c.hostname ≠ [] := fun hnil => h.lookup_nil (hnil ▸ hlookup)
      have hfind : ∀ p ∈ stored, ¬ c.hostname <+: p.1 := by
        intro p hp hpre
        have hfound := h.lookup c.noNul
        rw [hlookup] at hfound
        split at hfound
        · cases hfound
        · next hnone => exact List.find?_eq_none.mp hnone p hp (List.isPrefixOf_iff_prefix.mpr hpre)
      refine ⟨stored ++ [(c.hostname, ip)], k, ?_, ?_, fun p hp => ?_, fun p hp => ?_, ?_⟩
      · dsimp only
        rw [h.cache, dnsAddCache_eq hvalid]
      · have hsize := h.size
        rw [List.length_append, List.length_singleton]
        omega
      · rcases List.mem_append.mp hp with hp | hp
        · exact h.valid p hp
        · rw [List.mem_singleton.mp hp]
          exact ⟨c.noNul, hne, hshort, hip⟩
      · rcases List.mem_append.mp hp with hp | hp
        · exact hresolved p hp
        · rw [List.mem_singleton.mp hp]
          exact List.mem_cons_self ..
      · refine List.pairwise_append.mpr ⟨h.exact, List.pairwise_singleton _ _, fun p hp p' hp' => ?_⟩
        rw [List.mem_singleton.mp hp']
        exact hfind p hp

theorem cacheInv_start : CacheInv cacheStart [] 10 where
  cache := rfl
  size := rfl
  valid _ hp := absurd hp List.not_mem_nil
  resolved _ hp := absurd hp List.not_mem_nil
  exact := .nil

end

/-- **The runs** whose hits are all for a name that was resolved are those of such calls. What is in the cache was
resolved. -/
theorem dnsCache_run (calls : List Call) (s : CacheRun) :
    (Run (fun s c t => cacheStep s c = some t) Kept cacheStart calls s ↔
      Run (fun s c t => cacheStep s c = some t) Allowed cacheStart calls s) ∧
    (Run (fun s c t => cacheStep s c = some t) Allowed cacheStart calls s →
      ∀ name ip, Stored s.cache name ip → (name, ip) ∈ s.resolved) := by
  have hstart : ∃ stored k, CacheInv cacheStart stored k := ⟨[], 10, cacheInv_start⟩
  have hstep : ∀ s c t, (∃ stored k, CacheInv s stored k) → Allowed s c → cacheStep s c = some t →
      ∃ stored k, CacheInv t stored k := by
    rintro s c t ⟨stored, k, h⟩ - hst
    exact h.step hst
  refine ⟨(Run.congr hstep ?_ hstart).symm, fun h name ip hmem => ?_⟩
  · rintro s c ⟨stored, k, h⟩
    exact (h.kept_iff c).symm
  · obtain ⟨stored, k, hinv⟩ := h.invariant hstep hstart
    exact hinv.resolved _ (hinv.stored_iff.mp hmem)

/-- "abc" is resolved, and then "ab" hits. -/
theorem dnsCache_prefix : ¬ ∃ s, Run (fun s c t => cacheStep s c = some t) Kept cacheStart
    [⟨[97, 98, 99], by decide, false, .address 0x0a000001⟩, ⟨[97, 98], by decide, false, .failed⟩] s := by
  rintro ⟨s, _ | ⟨-, hst, _ | ⟨hkept, -, -⟩⟩⟩
  cases hst
  have hresolved := (hkept rfl 0x0a000001 rfl).2
  revert hresolved
  decide

end RetrOS.DnsCache
