import RetrOS.Lib.Run
import RetrOS.Net.ByteOrder

/-!
# The ARP cache (`net/arp.c`)

A table of 25 entries. A new entry is only made for a MAC the table does not hold, in the first place whose address is
zero; a lookup takes the first entry with the address. `arp_parse` and `net_ipv4_parse` insert addresses in network
order, `net_ethernet_add_header` asks for them in network order, `net_ipv4_parse` in host order.

* `netArpAddEntry`, `netArpFindEntry` : the source; `Insertion` : who inserts what;
* `Learns` : what an insertion should do to the lookups; `Learnable` : the insertions that do it (`learns_iff`);
* `arp_run` : the runs that keep the law of a map are those of such insertions;
* `arp_hostOrder` : an ordinary address is not found again.

Addresses are in host order, unless they are those of an entry; the table is zero at first.
-/

namespace RetrOS.Arp

open RetrOS.Lib RetrOS.Net

/-! ## The source -/

/-- `struct arp_entry`. -/
structure Entry where
  smac : BitVec 48
  sip : BitVec 32
  deriving DecidableEq

/-- `arp_entry_table`. -/
abbrev Table := List Entry

abbrev maxArpEntries : Nat := 25

abbrev loopbackIp : BitVec 32 := 0x7f000001

/-- `struct arp_content`. -/
structure Content where
  smac : BitVec 48
  sip : BitVec 32
  dmac : BitVec 48
  dip : BitVec 32

def netInitArp : Table := ⟨0xffffffffffff, 4294967295⟩ :: List.replicate (maxArpEntries - 1) ⟨0, 0⟩

def netArpAddEntry (t : Table) (arp : Content) : Int × Table :=
  if t.any (·.smac = arp.smac) then (1, t)
  else
    match t.findIdx? (·.sip = 0) with
    | some i => (1, t.set i ⟨arp.smac, arp.sip⟩)
    | none => (0, t)

/-- `net_arp_find_entry`; `none` is the result `-1`. -/
def netArpFindEntry (t : Table) (ip : BitVec 32) : Option (BitVec 48) := (t.find? (·.sip = ip)).map (·.smac)

/-- Who inserts an address and a MAC: `arp_parse` for the sender of a packet, `net_ipv4_parse` for the source of a
datagram it has not found, `__net_config_loopback`. -/
inductive Insertion
  | arp (addr : BitVec 32) (mac : BitVec 48)
  | ipv4 (addr : BitVec 32) (mac : BitVec 48)
  | loopback

def Insertion.addr : Insertion → BitVec 32
  | .arp addr _ | .ipv4 addr _ => addr
  | .loopback => loopbackIp

def Insertion.mac : Insertion → BitVec 48
  | .arp _ mac | .ipv4 _ mac => mac
  | .loopback => 0x690000000000

/-- The call of `net_arp_add_entry`, if there is one. -/
def Insertion.result (t : Table) : Insertion → Option (Int × Table)
  | .arp addr mac => some (netArpAddEntry t { smac := mac, sip := htonl addr, dmac := 0, dip := 0 })
  | .ipv4 addr mac =>
    if netArpFindEntry t addr = none then
      some (netArpAddEntry t { smac := mac, sip := ntohl addr, dmac := 0, dip := 0 })
    else none
  | .loopback =>
    some (netArpAddEntry t { smac := Insertion.loopback.mac, sip := ntohl loopbackIp, dmac := 0, dip := 0 })

/-! ## Lookups -/

/-- The lookup of `net_ethernet_add_header`. -/
def askEthernet (t : Table) (addr : BitVec 32) : Option (BitVec 48) := netArpFindEntry t (ntohl addr)

/-- The lookup of `net_ipv4_parse`. -/
def askIpv4 (t : Table) (addr : BitVec 32) : Option (BitVec 48) := netArpFindEntry t addr

/-- What an insertion should do: if it succeeds, both lookups of the address find the MAC, and lookups of other
addresses stay as they are. -/
structure Learns (t : Table) (addr : BitVec 32) (mac : BitVec 48) (ret : Int) (t' : Table) : Prop where
  found : ret = 1 → askEthernet t' addr = some mac ∧ askIpv4 t' addr = some mac
  others : ∀ b, b ≠ addr → askEthernet t' b = askEthernet t b ∧ askIpv4 t' b = askIpv4 t b

/-- The insertions that do it. If the MAC is known, it is known for this address, in both byte orders. If it is not
and there is a free place, the address is the same in both byte orders, and unless it is zero, which marks the free
places, it is not in the table before the first free place, and another free place follows, with the same MAC in it. -/
structure Learnable (t : Table) (addr : BitVec 32) (mac : BitVec 48) : Prop where
  known : (∃ e ∈ t, e.smac = mac) → askEthernet t addr = some mac ∧ askIpv4 t addr = some mac
  fresh : (∀ e ∈ t, e.smac ≠ mac) → ∀ i old, t.findIdx? (·.sip = 0) = some i → t[i]? = some old →
    ntohl addr = addr ∧ (addr ≠ 0 → (∀ e ∈ t.take i, e.sip ≠ addr) ∧
      ∃ e, (t.drop (i + 1)).find? (·.sip = 0) = some e ∧ e.smac = old.smac)

section Entry
variable {t : Table} {i : Nat} {old e : Entry} {addr ip : BitVec 32} {mac : BitVec 48}

/-- Around a place. -/
theorem find_place (h : t[i]? = some old) (ip : BitVec 32) : netArpFindEntry t ip =
    (netArpFindEntry (t.take i) ip).or
      (if old.sip = ip then some old.smac else netArpFindEntry (t.drop (i + 1)) ip) := by
  obtain ⟨hlt, hold⟩ := List.getElem?_eq_some_iff.mp h
  have hsplit : t = t.take i ++ old :: t.drop (i + 1) := by
    rw [← hold, ← List.drop_eq_getElem_cons hlt, List.take_append_drop]
  conv_lhs => rw [hsplit]
  unfold netArpFindEntry
  rw [List.find?_append, List.find?_cons, Option.map_or]
  by_cases hip : old.sip = ip
  · simp [hip]
  · simp [hip]

/-- An entry put in the first free place. -/
theorem find_put (hfree : t.findIdx? (·.sip = 0) = some i) (ip : BitVec 32) : netArpFindEntry (t.set i e) ip =
    (netArpFindEntry (t.take i) ip).or (if e.sip = ip then some e.smac else netArpFindEntry (t.drop (i + 1)) ip) := by
  obtain ⟨hlt, -⟩ := List.findIdx?_eq_some_iff_getElem.mp hfree
  have hput : (t.set i e)[i]? = some e := by simp [hlt]
  rw [find_place hput, List.take_set_of_le le_rfl, List.drop_set_of_lt (Nat.lt_succ_self i)]

theorem find_eq_none : netArpFindEntry t ip = none ↔ ∀ e ∈ t, e.sip ≠ ip := by
  simp [netArpFindEntry]

/-- What is found is in the table. -/
theorem exists_of_find (h : netArpFindEntry t ip = some mac) : ∃ e ∈ t, e.sip = ip ∧ e.smac = mac := by
  obtain ⟨e, he, hmac⟩ := Option.map_eq_some_iff.mp h
  exact ⟨e, List.mem_of_find?_eq_some he, by simpa using List.find?_some he, hmac⟩

theorem ntohl_injective {a b : BitVec 32} (h : ntohl a = ntohl b) : a = b :=
  (htonl_htonl a).symm.trans ((congrArg htonl h).trans (htonl_htonl b))

/-- A known MAC. -/
theorem learns_known (hknown : ∃ e ∈ t, e.smac = mac) : Learns t addr mac 1 t ↔ Learnable t addr mac := by
  constructor
  · intro h
    refine ⟨fun _ => h.found rfl, fun hnew => ?_⟩
    obtain ⟨e, he, hmac⟩ := hknown
    exact absurd hmac (hnew e he)
  · intro h
    exact ⟨fun _ => h.known hknown, fun _ _ => ⟨rfl, rfl⟩⟩

/-- An unknown MAC and a full table. -/
theorem learns_full (hnew : ∀ e ∈ t, e.smac ≠ mac) (hfull : t.findIdx? (·.sip = 0) = none) :
    Learns t addr mac 0 t ↔ Learnable t addr mac := by
  refine iff_of_true ⟨fun h => (by cases h), fun _ _ => ⟨rfl, rfl⟩⟩ ⟨?_, fun _ i _ hi => ?_⟩
  · rintro ⟨e, he, hmac⟩
    exact absurd hmac (hnew e he)
  · rw [hfull] at hi
    cases hi

/-- An unknown MAC is nowhere found. -/
theorem find_ne_new (hnew : ∀ e ∈ t, e.smac ≠ mac) {l : Table} (hl : ∀ e ∈ l, e ∈ t) (ip : BitVec 32) :
    netArpFindEntry l ip ≠ some mac := by
  intro hfind
  obtain ⟨e, he, -, hmac⟩ := exists_of_find hfind
  exact hnew e (hl e he) hmac

/-- Before the first free place there is none. -/
theorem find_take_free (hfree : t.findIdx? (·.sip = 0) = some i) : netArpFindEntry (t.take i) 0 = none := by
  obtain ⟨hlt, -, hbefore⟩ := List.findIdx?_eq_some_iff_getElem.mp hfree
  refine find_eq_none.mpr fun e he => ?_
  obtain ⟨j, hj, rfl⟩ := List.mem_iff_getElem.mp he
  rw [List.length_take] at hj
  have := hbefore j (by omega)
  simpa using this

theorem sip_eq_zero (hfree : t.findIdx? (·.sip = 0) = some i) (hold : t[i]? = some old) : old.sip = 0 := by
  obtain ⟨hlt, hzero, -⟩ := List.findIdx?_eq_some_iff_getElem.mp hfree
  obtain ⟨_, rfl⟩ := List.getElem?_eq_some_iff.mp hold
  simpa using hzero

/-- What an unknown MAC in the first free place shows. -/
theorem Learns.fresh (hnew : ∀ e ∈ t, e.smac ≠ mac) (hfree : t.findIdx? (·.sip = 0) = some i)
    (hold : t[i]? = some old) (h : Learns t addr mac 1 (t.set i ⟨mac, ntohl addr⟩)) :
    ntohl addr = addr ∧ (addr ≠ 0 → (∀ e ∈ t.take i, e.sip ≠ addr) ∧
      ∃ e, (t.drop (i + 1)).find? (·.sip = 0) = some e ∧ e.smac = old.smac) := by
  obtain ⟨-, hfound⟩ := h.found rfl
  rw [askIpv4, find_put hfree, Option.or_eq_some_iff] at hfound
  obtain ⟨hnone, hfound⟩ := hfound.resolve_left (find_ne_new hnew (fun _ => List.mem_of_mem_take) _)
  have hsame : ntohl addr = addr := by
    by_contra hne
    rw [if_neg hne] at hfound
    exact find_ne_new hnew (fun _ => List.mem_of_mem_drop) _ hfound
  refine ⟨hsame, fun haddr => ⟨find_eq_none.mp hnone, ?_⟩⟩
  -- the lookup of 0.0.0.0 goes to the next free place
  have hzero := (h.others 0 haddr.symm).2
  rw [askIpv4, askIpv4, find_put hfree, find_place hold, find_take_free hfree, Option.none_or, Option.none_or,
    if_pos (sip_eq_zero hfree hold), if_neg (by rw [hsame]; exact haddr)] at hzero
  exact Option.map_eq_some_iff.mp hzero

/-- An unknown MAC and a free place. -/
theorem learns_fresh (hnew : ∀ e ∈ t, e.smac ≠ mac) (hfree : t.findIdx? (·.sip = 0) = some i)
    (hold : t[i]? = some old) : Learns t addr mac 1 (t.set i ⟨mac, ntohl addr⟩) ↔ Learnable t addr mac := by
  constructor
  · intro h
    refine ⟨fun ⟨e, he, hmac⟩ => absurd hmac (hnew e he), fun _ i' old' hi' hold' => ?_⟩
    obtain rfl : i = i' := Option.some.inj (hfree.symm.trans hi')
    obtain rfl : old = old' := Option.some.inj (hold.symm.trans hold')
    exact h.fresh hnew hfree hold
  · intro h
    obtain ⟨hsame, hrest⟩ := h.fresh hnew i old hfree hold
    have hfirst : netArpFindEntry (t.take i) addr = none := by
      by_cases haddr : addr = 0
      · rw [haddr]
        exact find_take_free hfree
      · exact find_eq_none.mpr (hrest haddr).1
    have hfound : netArpFindEntry (t.set i ⟨mac, ntohl addr⟩) addr = some mac := by
      rw [find_put hfree, hfirst, Option.none_or, if_pos hsame]
    have hothers (ip : BitVec 32) (hip : ip ≠ addr) :
        netArpFindEntry (t.set i ⟨mac, ntohl addr⟩) ip = netArpFindEntry t ip := by
      rw [find_put hfree, find_place hold, if_neg (by rw [hsame]; exact hip.symm)]
      by_cases hip0 : ip = 0
      · subst hip0
        obtain ⟨-, e, he, hmac⟩ := hrest hip.symm
        rw [if_pos (sip_eq_zero hfree hold), ← hmac, netArpFindEntry, netArpFindEntry, he]
        rfl
      · rw [if_neg (by rw [sip_eq_zero hfree hold]; exact fun h => hip0 h.symm)]
    refine ⟨fun _ => ⟨?_, hfound⟩, fun b hb => ⟨hothers _ fun h => hb ?_, hothers b hb⟩⟩
    · exact (congrArg (netArpFindEntry _) hsame).trans hfound
    · exact ntohl_injective (h.trans hsame.symm)

/-- **One insertion** does what it should exactly if it is such an insertion. -/
theorem learns_iff (t : Table) (arp : Content) (hsip : arp.sip = ntohl addr) :
    Learns t addr arp.smac (netArpAddEntry t arp).1 (netArpAddEntry t arp).2 ↔ Learnable t addr arp.smac := by
  unfold netArpAddEntry
  split
  · next hany =>
    refine learns_known ?_
    simpa using hany
  · next hany =>
    have hnew : ∀ e ∈ t, e.smac ≠ arp.smac := by simpa using hany
    split
    · next i hfree =>
      obtain ⟨hlt, -⟩ := List.findIdx?_eq_some_iff_getElem.mp hfree
      rw [hsip]
      exact learns_fresh hnew hfree (List.getElem?_eq_getElem hlt)
    · next hfull => exact learns_full hnew hfull

end Entry

/-! ## Runs -/

/-- A run: the table, and the MAC that was last learnt for an address. -/
structure ArpRun where
  table : Table
  learnt : BitVec 32 → Option (BitVec 48)

def arpRun : ArpRun := ⟨netInitArp, fun _ => none⟩

def arpStep (s : ArpRun) (x : Insertion) : ArpRun :=
  match x.result s.table with
  | none => s
  | some (ret, t) => ⟨t, if ret = 1 then Function.update s.learnt x.addr (some x.mac) else s.learnt⟩

/-- An insertion does what it should. -/
def Kept (s : ArpRun) (x : Insertion) : Prop :=
  ∀ r, x.result s.table = some r → Learns s.table x.addr x.mac r.1 r.2

/-- It is one that does. -/
def Allowed (s : ArpRun) (x : Insertion) : Prop :=
  ∀ r, x.result s.table = some r → Learnable s.table x.addr x.mac

/-- All three callers insert the address in network order. -/
theorem Insertion.result_eq {x : Insertion} {t : Table} {r : Int × Table} (h : x.result t = some r) :
    r = netArpAddEntry t ⟨x.mac, ntohl x.addr, 0, 0⟩ := by
  cases x with
  | arp addr mac => exact (Option.some.inj h).symm
  | ipv4 addr mac =>
    rw [Insertion.result] at h
    split at h
    · exact (Option.some.inj h).symm
    · cases h
  | loopback => exact (Option.some.inj h).symm

theorem kept_iff (s : ArpRun) (x : Insertion) : Kept s x ↔ Allowed s x := by
  refine forall_congr' fun r => forall_congr' fun h => ?_
  rw [Insertion.result_eq h]
  exact learns_iff s.table ⟨x.mac, ntohl x.addr, 0, 0⟩ rfl

/-- The law of a map: both lookups find what was last learnt. -/
def MapLaw (s : ArpRun) : Prop :=
  ∀ addr mac, s.learnt addr = some mac → askEthernet s.table addr = some mac ∧ askIpv4 s.table addr = some mac

/-- A call that fails leaves the table alone. -/
theorem netArpAddEntry_table {t : Table} {arp : Content} (h : (netArpAddEntry t arp).1 ≠ 1) :
    (netArpAddEntry t arp).2 = t := by
  unfold netArpAddEntry at h ⊢
  split at h
  · exact absurd rfl h
  · next hany =>
    rw [if_neg hany]
    split at h
    · exact absurd rfl h
    · rfl

theorem MapLaw.step {s : ArpRun} {x : Insertion} (hlaw : MapLaw s) (hkept : Kept s x) : MapLaw (arpStep s x) := by
  unfold arpStep
  split
  · exact hlaw
  · next ret t hresult =>
    obtain ⟨hfound, hothers⟩ := hkept _ hresult
    intro addr mac hlearnt
    by_cases hret : ret = 1
    · dsimp only at hlearnt
      rw [if_pos hret] at hlearnt
      by_cases haddr : addr = x.addr
      · rw [haddr, Function.update_self] at hlearnt
        cases hlearnt
        rw [haddr]
        exact hfound hret
      · rw [Function.update_of_ne haddr] at hlearnt
        obtain ⟨heth, hip⟩ := hothers addr haddr
        rw [heth, hip]
        exact hlaw addr mac hlearnt
    · dsimp only at hlearnt
      rw [if_neg hret] at hlearnt
      have htable : t = s.table := by
        obtain ⟨rfl, rfl⟩ := Prod.mk.inj (Insertion.result_eq hresult)
        exact netArpAddEntry_table hret
      rw [htable]
      exact hlaw addr mac hlearnt

/-- **The runs** whose insertions all do what they should are those of such insertions, and after them the cache is a
map. -/
theorem arp_run (insertions : List Insertion) (s : ArpRun) :
    (Run (fun s x t => arpStep s x = t) Kept arpRun insertions s ↔
      Run (fun s x t => arpStep s x = t) Allowed arpRun insertions s) ∧
    (Run (fun s x t => arpStep s x = t) Allowed arpRun insertions s → MapLaw s) := by
  refine ⟨⟨fun h => h.mono fun s x => (kept_iff s x).mp, fun h => h.mono fun s x => (kept_iff s x).mpr⟩, fun h => ?_⟩
  refine h.invariant (P := MapLaw) (fun s x t hlaw hok hst => ?_) fun _ _ h => by cases h
  subst hst
  exact hlaw.step ((kept_iff s x).mpr hok)

/-- An ARP packet of 192.168.0.2: `net_ipv4_parse` does not find its address. -/
theorem arp_hostOrder : ¬ ∃ s, Run (fun s x t => arpStep s x = t) Kept arpRun [.arp 0xc0a80002 0x525400123456] s := by
  rintro ⟨s, _ | ⟨hkept, -, -⟩⟩
  have := (hkept _ rfl).found (by decide)
  exact absurd this.2 (by decide)

end RetrOS.Arp
