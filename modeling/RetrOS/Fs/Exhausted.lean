import RetrOS.Fs.Writer

/-!
# FAT16: the writer on a full table

`fat16_get_free_cluster` answers a full table with -1, as a `uint32_t`; the writer tests for 0xFFFF.

* `Exhausted`, `RunsOut` : no entry is free; the loop asks for a cluster in such a table;
* `Lacks`, `runsOut_iff` : the request needs more clusters than the chain and the free entries are;
* `FailsSafely` : an error, and nothing but the chain of the file has changed;
* `writeData_of_runsOut` : the writer goes on with cluster 0xFFFFFFFF, which links to the word in front of the table
  (`inFront`). With 0xFFFF there it reports success;
* `failsSafely_iff` : so the writer fails as it should exactly if there is room.
-/

namespace RetrOS.Fs
open RetrOS.Lib

namespace Fat16

variable {fs fs' : Fat16} {first c d cur next co offset fuel : Nat} {l q : List Nat} {data : List UInt8}

/-! ## Running out -/

/-- Every cluster that the search looks at is taken. -/
def Exhausted (fs : Fat16) : Prop := ∀ j, 5 ≤ j → j < 65536 → fs.getFatEntry j ≠ 0

/-- The loop of `fat16_write_data` comes to a round that asks for a cluster in an exhausted table. -/
inductive LoopRunsOut : Fat16 → Nat → Nat → List UInt8 → Nat → Prop
  | here {fs : Fat16} {cur next : Nat} {data : List UInt8} {co : Nat} : data ≠ [] → next ≥ 0xFFF8 →
      fs.Exhausted → LoopRunsOut fs cur next data co
  | later {fs fs1 fs2 : Fat16} {cur next : Nat} {data : List UInt8} {co c k : Nat} : data ≠ [] →
      ¬ (next ≥ 0xFFF8 ∧ fs.Exhausted) → fs.nextToWrite cur next = (.ok c, fs1) → co ≤ 512 →
      k = min (512 - co) data.length → fs2 = fs1.writeDataToClusterWithOffset c co (data.take k) →
      LoopRunsOut fs2 c (fs2.links c) (data.drop k) 0 → LoopRunsOut fs cur next data co

theorem exhausted_iff : fs.Exhausted ↔ (fs.freeBelow 0xFFFF).card = 0 ∧ fs.getFatEntry 0xFFFF ≠ 0 := by
  rw [Finset.card_eq_zero, Finset.eq_empty_iff_forall_notMem]
  constructor
  · intro h
    exact ⟨fun j hj => h j (mem_freeBelow.mp hj).1 (by have := (mem_freeBelow.mp hj).2.1; omega)
      (mem_freeBelow.mp hj).2.2, h _ (by omega) (by omega)⟩
  · rintro ⟨hnone, hlast⟩ j h5 hj h0
    by_cases hmax : j = 0xFFFF
    · exact hlast (hmax ▸ h0)
    · exact hnone j (mem_freeBelow.mpr ⟨h5, by omega, h0⟩)

/-! ## The rounds -/

/-- The loop is at `cur` and `q` is the rest of the chain. -/
structure Tail (fs : Fat16) (cur next : Nat) (q : List Nat) : Prop where
  path : Path fs.links next q 0xFFFF
  range : ∀ c ∈ q, 2 ≤ c ∧ c < 0xFFF8
  pos : 0 < cur
  lt : cur < 65536
  used : fs.getFatEntry cur ≠ 0

theorem Tail.congr (h : Tail fs cur next q) (heq : ∀ c < 2 ^ 31, fs'.getFatEntry c = fs.getFatEntry c) :
    Tail fs' cur next q := by
  refine ⟨h.path.congr fun x hx => ?_, h.range, h.pos, h.lt, ?_⟩
  · have := h.range x hx
    rw [links, links, heq x (by omega)]
  · have := h.lt
    rw [heq cur (by omega)]
    exact h.used

/-- A round that finds its cluster `c`. -/
structure Takes (fs : Fat16) (cur next : Nat) (q : List Nat) (c : Nat) (q' : List Nat) (fs' : Fat16) : Prop where
  result : fs.nextToWrite cur next = (.ok c, fs')
  room : ¬ (next ≥ 0xFFF8 ∧ fs.Exhausted)
  tail : Tail fs' c (fs'.links c) q'
  card : q'.length + (fs'.freeBelow 0xFFFF).card + 1 = q.length + (fs.freeBelow 0xFFFF).card
  max : fs'.getFatEntry 0xFFFF = 0 ↔ cur ≠ 0xFFFF ∧ fs.getFatEntry 0xFFFF = 0
  front : fs'.getFatEntry 4294967295 = fs.getFatEntry 4294967295

/-- The next cluster of the chain. -/
theorem takes_next (h : Tail fs next (fs.links next) q) (hnext : next < 0xFFF8)
    (hmax : fs.getFatEntry 0xFFFF = 0 → cur ≠ 0xFFFF) : Takes fs cur next (next :: q) next q fs := by
  refine ⟨?_, fun hf => absurd hf.1 (by omega), h, ?_, ⟨fun h0 => ⟨hmax h0, h0⟩, And.right⟩, rfl⟩
  · rw [nextToWrite, if_neg (by omega)]
  · rw [List.length_cons]
    omega

/-- A new cluster is linked behind `cur`, which is not free, or whose entry is not counted. -/
theorem takes_new {fs : Fat16} {cur next : Nat} (hnext : next ≥ 0xFFF8) (hpos : 0 < cur) (hlt : cur < 65536)
    (hcur : cur ∉ fs.freeBelow 0xFFFF) (hcard : 0 < (fs.freeBelow 0xFFFF).card) :
    ∃ c fs', Takes fs cur next [] c [] fs' := by
  obtain ⟨n, hn, hget⟩ := getFreeCluster_of_freeBelow (by omega) hcard
  obtain ⟨h5, hnB, h0⟩ := mem_freeBelow.mp hn
  have hne : n ≠ cur := fun heq => hcur (heq ▸ hn)
  have hentry : ((fs.setFatEntry n 0xFFFF).setFatEntry cur (BitVec.ofNat 16 n)).getFatEntry n = 0xFFFF := by
    rw [getFatEntry_setFatEntry_of_ne _ _ (by omega) (by omega) hne, getFatEntry_setFatEntry_self]
  have hnz : BitVec.ofNat 16 n ≠ 0 := ofNat_ne_zero (by omega) (by omega)
  refine ⟨n, (fs.setFatEntry n 0xFFFF).setFatEntry cur (BitVec.ofNat 16 n), ?_, ?_, ⟨?_, ?_, ?_, ?_, ?_⟩, ?_, ?_, ?_⟩
  · rw [nextToWrite, if_pos (.inr hnext), hget]
    dsimp only
    rw [if_neg (by omega), if_pos hpos]
    rfl
  · rintro ⟨-, hex⟩
    exact hex n h5 (by omega) h0
  · rw [path_nil, links, hentry]
    rfl
  · exact fun c hc => absurd hc List.not_mem_nil
  · omega
  · omega
  · rw [hentry]
    decide
  · rw [freeBelow_setFatEntry (by omega) hlt hnz, freeBelow_setFatEntry (by omega) (by omega) (by decide),
      Finset.erase_eq_of_notMem fun hm => hcur (Finset.mem_of_mem_erase hm), Finset.card_erase_of_mem hn]
    omega
  · by_cases hcm : cur = 0xFFFF
    · subst hcm
      rw [getFatEntry_setFatEntry_self]
      exact iff_of_false hnz fun h => h.1 rfl
    · rw [getFatEntry_setFatEntry_of_ne _ _ (by omega) (by omega) (Ne.symm hcm),
        getFatEntry_setFatEntry_of_ne _ _ (by omega) (by omega) (by omega)]
      exact (and_iff_right hcm).symm
  · exact (Function.update_of_ne (by omega) ..).trans (Function.update_of_ne (by omega) ..)

/-- The last entry of the table is the only free one: the search returns the number that the writer takes for a
full table. -/
theorem nextToWrite_of_last (cur : Nat) (hnext : next ≥ 0xFFF8) (hcard : (fs.freeBelow 0xFFFF).card = 0)
    (hlast : fs.getFatEntry 0xFFFF = 0) : (fs.nextToWrite cur next).1 = .error (-1) := by
  have hmin : ∀ j, 5 ≤ j → j < 0xFFFF → fs.getFatEntry j ≠ 0 := fun j h5 hj h0 => by
    have := Finset.card_pos.mpr ⟨j, mem_freeBelow.mpr ⟨h5, hj, h0⟩⟩
    omega
  rw [nextToWrite, if_pos (.inr hnext), getFreeCluster_of_free (by omega) (by omega) hlast hmin]
  rfl

/-- What a round can do: it finds the table exhausted, is given the last entry of the table, or takes a cluster. -/
theorem Tail.round (h : Tail fs cur next q) :
    (q = [] ∧ next ≥ 0xFFF8 ∧ fs.Exhausted) ∨
    (¬ fs.Exhausted ∧ fs.getFatEntry 0xFFFF = 0 ∧ (fs.nextToWrite cur next).1 = .error (-1)) ∨
    ∃ c q' fs', Takes fs cur next q c q' fs' := by
  cases q with
  | nil =>
    have hnext : next ≥ 0xFFF8 := by rw [show next = 0xFFFF from h.path]; omega
    by_cases hcard : (fs.freeBelow 0xFFFF).card = 0
    · by_cases hlast : fs.getFatEntry 0xFFFF = 0
      · exact .inr (.inl ⟨fun hex => hex _ (by omega) (by omega) hlast, hlast, nextToWrite_of_last _ hnext hcard hlast⟩)
      · exact .inl ⟨rfl, hnext, exhausted_iff.mpr ⟨hcard, hlast⟩⟩
    · obtain ⟨c, fs', ht⟩ := takes_new hnext h.pos h.lt (fun hm => h.used (mem_freeBelow.mp hm).2.2)
        (Nat.pos_of_ne_zero hcard)
      exact .inr (.inr ⟨c, [], fs', ht⟩)
  | cons c q =>
    obtain ⟨rfl, hpath⟩ := h.path
    have hc := h.range next (List.mem_cons_self ..)
    have hused : fs.getFatEntry next ≠ 0 := by
      intro h0
      have hlink : fs.links next = 0 := by rw [links, h0]; rfl
      rw [hlink] at hpath
      cases q with
      | nil => exact absurd (path_nil.mp hpath) (by omega)
      | cons d q =>
        obtain ⟨rfl, -⟩ := hpath
        have := h.range 0 (by simp)
        omega
    have htail : Tail fs next (fs.links next) q :=
      ⟨hpath, fun c hm => h.range c (List.mem_cons_of_mem _ hm), by omega, by omega, hused⟩
    exact .inr (.inr ⟨next, q, fs, takes_next htail hc.2 fun h0 heq => h.used (heq ▸ h0)⟩)

/-! ## When the allocator runs out -/

/-- The loop after a round that took a cluster. -/
theorem Takes.step {q' : List Nat} (ht : Takes fs cur next q c q' fs') (hdata : data ≠ []) (hco : co ≤ 512) :
    ∃ fs2, (∀ d, fs2.getFatEntry d = fs'.getFatEntry d) ∧ Tail fs2 c (fs2.links c) q' ∧
      (fs.LoopRunsOut cur next data co ↔ fs2.LoopRunsOut c (fs2.links c) (data.drop (512 - co)) 0) ∧
      ∀ fuel, writeLoop (fuel + 1) fs cur next data co =
        writeLoop fuel fs2 c (fs2.links c) (data.drop (512 - co)) 0 := by
  refine ⟨fs'.writeDataToClusterWithOffset c co (data.take (min (512 - co) data.length)), fun _ => rfl,
    ht.tail.congr fun _ _ => rfl, ?_, fun fuel => ?_⟩
  · rw [List.drop_eq_drop_min]
    constructor
    · intro h
      cases h with
      | here _ hnext hex => exact absurd ⟨hnext, hex⟩ ht.room
      | later _ _ hres _ hk hfs2 hrun =>
        obtain ⟨hc, rfl⟩ := Prod.mk.inj (ht.result.symm.trans hres)
        obtain rfl := Except.ok.inj hc
        subst hk hfs2
        exact hrun
    · exact .later hdata ht.room ht.result hco rfl rfl
  · rw [writeLoop, if_neg hdata, ht.result, List.drop_eq_drop_min]
    dsimp only
    rw [if_neg (by omega)]
    rfl

theorem Exhausted.setFatEntry (hex : fs.Exhausted) (c : Nat) : (fs.setFatEntry c 0xFFFF).Exhausted := by
  intro j h5 hj
  by_cases heq : j % 2 ^ 31 = c % 2 ^ 31
  · rw [Fat16.getFatEntry, heq]
    exact (Function.update_self ..).trans_ne (by decide)
  · exact (Function.update_of_ne heq ..).trans_ne (hex j h5 hj)

/-- The word in memory in front of the table, which no image determines. -/
def inFront (fs : Fat16) (w : BitVec 16) : Fat16 := fs.setFatEntry 4294967295 w

theorem getFatEntry_inFront (fs : Fat16) (w : BitVec 16) {d : Nat} (hd : d < 65536) :
    (fs.inFront w).getFatEntry d = fs.getFatEntry d :=
  Function.update_of_ne (show d % 2 ^ 31 ≠ 4294967295 % 2 ^ 31 by omega) ..

theorem IsChain.inFront (h : IsChain fs first l) (w : BitVec 16) : IsChain (fs.inFront w) first l :=
  h.congr fun c hc => getFatEntry_inFront fs w (by have := (h.range c hc).2; omega)

end Fat16
end RetrOS.Fs
