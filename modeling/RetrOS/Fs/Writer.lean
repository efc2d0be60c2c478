import RetrOS.Fs.Chains

/-!
# FAT16: what a write does

* `findClusterByOffset_eq` : the cluster where the writer starts;
* `nextToWrite_eq` : the cluster written next, on the chain or new behind its end;
* `writeLoop_eq` : the loop, for any chain and any data; by induction on the data. The clusters written are the
  next ones of the chain, then new ones; the chain stays well formed after every round;
* `writeData_eq` : the whole write (`Wrote`).
-/

namespace RetrOS.Fs
open RetrOS.Lib

namespace Fat16

variable {fs fs' : Fat16} {first c d cur B : Nat} {p q l w : List Nat} {data : List UInt8}

/-! ## The start -/

theorem findLoop_eq {offset co fuel traversed : Nat} (h : Path fs.links c (p ++ cur :: q) 0xFFFF)
    (hp : ∀ x ∈ p, x < 0xFFF8) (hoff : traversed + 512 * p.length + co = offset) (hco : co ≤ 512)
    (hpos : p = [] ∨ 0 < co) (hfuel : p.length ≤ fuel) :
    fs.findLoop offset fuel c traversed = (cur, traversed + 512 * p.length) := by
  induction p generalizing c fuel traversed with
  | nil =>
    obtain ⟨rfl, -⟩ := h
    rw [List.length_nil] at hoff
    cases fuel with
    | zero => rfl
    | succ fuel => rw [findLoop, if_neg (by omega)]; rfl
  | cons x p ih =>
    obtain ⟨rfl, h⟩ := h
    have hx := hp c (List.mem_cons_self ..)
    have hco0 : 0 < co := hpos.resolve_left (List.cons_ne_nil _ _)
    rw [List.length_cons] at hoff hfuel ⊢
    obtain ⟨fuel, rfl⟩ := Nat.exists_eq_add_of_le' (show 1 ≤ fuel by omega)
    rw [findLoop, if_pos ⟨hx, by omega, by omega⟩]
    show fs.findLoop offset fuel (fs.links c) (traversed + 512) = _
    have hih := @ih (fs.links c) fuel (traversed + 512) h (fun y hy => hp y (List.mem_cons_of_mem _ hy))
      (by omega) (.inr hco0) (by omega)
    rw [hih, Nat.mul_succ, Nat.add_comm (512 * p.length), Nat.add_assoc]

/-- The writer starts at the cluster `cur` of the chain; the offset in it is 512 when the write begins at its
end. -/
theorem findClusterByOffset_eq {offset co : Nat} (h : IsChain fs first (p ++ cur :: q))
    (hoff : 512 * p.length + co = offset) (hco : co ≤ 512) (hpos : p = [] ∨ 0 < co) :
    fs.findClusterByOffset first offset = (cur, co) := by
  have hloop : fs.findLoop offset offset first 0 = (cur, 0 + 512 * p.length) :=
    findLoop_eq h.path (fun x hx => (h.range x (List.mem_append_left _ hx)).2) (by omega) hco hpos (by omega)
  rw [findClusterByOffset, hloop]
  simp only [Prod.mk.injEq, true_and]
  omega

/-! ## The next cluster -/

/-- What one round of the writer does to the table: it takes the next cluster `n` of the chain, or links a free
one behind its last cluster `cur`. -/
inductive Advance (fs : Fat16) (cur B : Nat) : List Nat → Nat → List Nat → Fat16 → Prop
  | next (n : Nat) (q : List Nat) : Advance fs cur B (n :: q) n q fs
  | new (n : Nat) : n ∈ fs.freeBelow B →
      Advance fs cur B [] n [] ((fs.setFatEntry n 0xFFFF).setFatEntry cur (BitVec.ofNat 16 n))

theorem nextToWrite_eq (h : IsChain fs first (p ++ cur :: q)) (hB : B ≤ 0xFFF8)
    (hfree : q = [] → 0 < (fs.freeBelow B).card) :
    ∃ n q' fs', fs.nextToWrite cur (fs.links cur) = (.ok n, fs') ∧ Advance fs cur B q n q' fs' := by
  have hcur := h.range cur (by simp)
  obtain ⟨-, -, -, hq⟩ := path_append.mp h.path
  cases q with
  | nil =>
    obtain ⟨n, hn, hget⟩ := getFreeCluster_of_freeBelow (by omega) (hfree rfl)
    have hnB := (mem_freeBelow.mp hn).2.1
    refine ⟨n, [], _, ?_, .new n hn⟩
    rw [nextToWrite, if_pos (.inl hq), hget]
    dsimp only
    rw [if_neg (by omega), if_pos (by omega)]
    rfl
  | cons n q =>
    obtain ⟨hlink, -⟩ := hq
    have hn := h.range n (by simp)
    refine ⟨n, q, fs, ?_, .next n q⟩
    rw [hlink, nextToWrite, if_neg (by omega)]

/-- After the round the chain is well formed and `n` follows `cur`. -/
theorem Advance.isChain {n : Nat} {q' : List Nat} (ha : Advance fs cur B q n q' fs')
    (h : IsChain fs first (p ++ cur :: q)) (hB : B ≤ 0xFFF8) : IsChain fs' first (p ++ [cur] ++ n :: q') := by
  cases ha with
  | next => simpa using h
  | new _ hn =>
    obtain ⟨h5, hnB, h0⟩ := mem_freeBelow.mp hn
    have hnl : n ∉ p ++ [cur] := fun hm => h.entry_ne_zero hm h0
    have hcurp : cur ∉ p := fun hm => List.disjoint_of_nodup_append h.nodup hm (List.mem_singleton.mpr rfl)
    have hrange : ∀ x ∈ p ++ [cur] ++ [n], 2 ≤ x ∧ x < 0xFFF8 := by
      intro x hx
      rcases List.mem_append.mp hx with hx | hx
      · exact h.range x hx
      · rw [List.mem_singleton.mp hx]
        omega
    have hcur := h.range cur (List.mem_append_right _ (List.mem_singleton.mpr rfl))
    have hext := h.path.extend hnl hcurp
    rw [List.append_cons] at hext
    refine ⟨hext.congr fun x hx => ?_, hrange⟩
    have hx := hrange x hx
    rw [links_setFatEntry _ _ _ (by omega) (by omega), BitVec.toNat_ofNat, Nat.mod_eq_of_lt (by omega)]
    by_cases hxc : x = cur
    · rw [hxc, Function.update_self, Function.update_self]
    · rw [Function.update_of_ne hxc, Function.update_of_ne hxc,
        links_setFatEntry _ _ _ (by omega) (by omega)]
      rfl

theorem Advance.getFatEntry {n : Nat} {q' : List Nat} (ha : Advance fs cur B q n q' fs') (hcur : cur < 2 ^ 31)
    (hB : B ≤ 0xFFF8) (hd : d < 2 ^ 31) (hdc : d ≠ cur) (hdn : d ≠ n) : fs'.getFatEntry d = fs.getFatEntry d := by
  cases ha with
  | next => rfl
  | new _ hn =>
    have := (mem_freeBelow.mp hn).2.1
    rw [getFatEntry_setFatEntry_of_ne _ _ hcur hd hdc, getFatEntry_setFatEntry_of_ne _ _ (by omega) hd hdn]

theorem Advance.bootTable {n : Nat} {q' : List Nat} (ha : Advance fs cur B q n q' fs') :
    fs'.bootTable = fs.bootTable := by
  cases ha <;> rfl

theorem Advance.currentDirBlock {n : Nat} {q' : List Nat} (ha : Advance fs cur B q n q' fs') :
    fs'.currentDirBlock = fs.currentDirBlock := by
  cases ha <;> rfl

theorem Advance.disk {n : Nat} {q' : List Nat} (ha : Advance fs cur B q n q' fs') : fs'.disk = fs.disk := by
  cases ha <;> rfl

/-- The cluster taken is no longer free, and no other one changes. -/
theorem Advance.freeBelow {n : Nat} {q' : List Nat} (ha : Advance fs cur B q n q' fs')
    (h : IsChain fs first (p ++ cur :: q)) (hB : B ≤ 0xFFF8) : fs'.freeBelow B = (fs.freeBelow B).erase n := by
  have hnotfree : ∀ c ∈ p ++ cur :: q, c ∉ fs.freeBelow B := fun c hc hm =>
    h.entry_ne_zero hc (mem_freeBelow.mp hm).2.2
  cases ha with
  | next => exact (Finset.erase_eq_of_notMem (hnotfree n (by simp))).symm
  | new _ hn =>
    obtain ⟨h5, hnB, -⟩ := mem_freeBelow.mp hn
    have hcur := h.range cur (by simp)
    have hcurfree : cur ∉ (fs.freeBelow B).erase n := fun hm => hnotfree cur (by simp) (Finset.mem_of_mem_erase hm)
    rw [freeBelow_setFatEntry (by omega) (by omega) (ofNat_ne_zero (by omega) (by omega)),
      freeBelow_setFatEntry (by omega) (by omega) (by decide), Finset.erase_eq_of_notMem hcurfree]

theorem Advance.card {n : Nat} {q' : List Nat} (ha : Advance fs cur B q n q' fs')
    (h : IsChain fs first (p ++ cur :: q)) (hB : B ≤ 0xFFF8) :
    q'.length + (fs'.freeBelow B).card + 1 = q.length + (fs.freeBelow B).card := by
  rw [ha.freeBelow h hB]
  cases ha with
  | next =>
    have hn : n ∉ fs.freeBelow B := fun hm => h.entry_ne_zero (by simp) (mem_freeBelow.mp hm).2.2
    rw [Finset.erase_eq_of_notMem hn, List.length_cons]
    omega
  | new _ hn =>
    have := Finset.card_pos.mpr ⟨n, hn⟩
    rw [Finset.card_erase_of_mem hn]
    omega

/-! ## The loop -/

/-- What the loop has done when it wrote `data` to the clusters `w` behind `cur`; `r` are the clusters of the
chain that it did not reach. -/
structure LoopWrote (fs fs' : Fat16) (first : Nat) (p : List Nat) (cur : Nat) (q w r : List Nat)
    (data : List UInt8) (B : Nat) : Prop where
  bootTable : fs'.bootTable = fs.bootTable
  currentDirBlock : fs'.currentDirBlock = fs.currentDirBlock
  chain : IsChain fs' first (p ++ cur :: (w ++ r))
  reach : q = w ++ r ∨ r = [] ∧ q <+: w
  length : w.length = (data.length + 511) / 512
  data : (fs'.contents w).take data.length = data
  table : ∀ d < 2 ^ 31, d ∉ cur :: w → fs'.getFatEntry d = fs.getFatEntry d
  fresh : ∀ d ∈ w, d ∈ q ∨ d ∈ fs.freeBelow B
  disk : ∀ b, (∀ d ∈ w, b ≠ fs.directoryBlock d) → fs'.disk b = fs.disk b

/-- The block of `n` holds the first bytes and is not written again. -/
theorem LoopWrote.data_cons {fs1 fs2 : Fat16} {n k : Nat} {q' r : List Nat} (hk : k = min 512 data.length)
    (hfs2 : fs2 = fs1.writeDataToClusterWithOffset n 0 (data.take k))
    (hw : LoopWrote fs2 fs' first p n q' w r (data.drop k) B) : (fs'.contents (n :: w)).take data.length = data := by
  have hchain : IsChain fs' first ((p ++ n :: w) ++ r) := by simpa using hw.chain
  have hrange := fun c (hc : c ∈ n :: w) => hchain.range c (List.mem_append_left _ (List.mem_append_right _ hc))
  have hnw : n ∉ w := (List.nodup_cons.mp (List.nodup_append.mp (List.nodup_append.mp hchain.nodup).1).2.1).1
  have hblocks : ∀ d ∈ w, fs2.directoryBlock n ≠ fs2.directoryBlock d := fun d hd heq =>
    hnw (directoryBlock_inj fs2 (hrange n (by simp)) (hrange d (by simp [hd])) heq ▸ hd)
  have hfs2n : fs2.disk (fs2.directoryBlock n) = Slice.write (fs1.readBlock (fs1.directoryBlock n)) 0 (data.take k) := by
    rw [hfs2]
    exact disk_writeBlock_self ..
  have hrest := hw.data
  rw [List.length_drop] at hrest
  rw [contents_cons, directoryBlock_congr hw.bootTable, readBlock, hw.disk _ hblocks, hfs2n, List.take_append,
    Slice.length_read]
  by_cases hlong : 512 ≤ data.length
  · have hk512 : k = 512 := by omega
    have hread := Slice.read_write_self (fs1.readBlock (fs1.directoryBlock n)) 0 (data.take k)
    rw [List.length_take, Nat.min_eq_left (by omega), hk512] at hread
    rw [hk512] at hrest ⊢
    rw [hread, hrest, List.take_of_length_le (by rw [List.length_take]; omega), List.take_append_drop]
  · rw [List.take_of_length_le (show data.length ≤ k by omega), Slice.take_read _ _ (by omega),
      Slice.read_write_self, show data.length - 512 = 0 by omega, List.take_zero, List.append_nil]

theorem LoopWrote.cons {fs1 fs2 : Fat16} {n k : Nat} {q' r : List Nat} (ha : Advance fs cur B q n q' fs1)
    (h : IsChain fs first (p ++ cur :: q)) (hB : B ≤ 0xFFF8) (hk : k = min 512 data.length)
    (hpos : 0 < data.length) (hfs2 : fs2 = fs1.writeDataToClusterWithOffset n 0 (data.take k))
    (hw : LoopWrote fs2 fs' first (p ++ [cur]) n q' w r (data.drop k) B) :
    LoopWrote fs fs' first p cur q (n :: w) r data B := by
  have hcur := h.range cur (by simp)
  have hboot : fs2.bootTable = fs.bootTable := by rw [hfs2]; exact ha.bootTable
  refine ⟨hw.bootTable.trans hboot, ?_, by simpa using hw.chain, ?_, ?_, ?_, ?_, ?_, ?_⟩
  · rw [hw.currentDirBlock, hfs2]
    exact ha.currentDirBlock
  · cases ha with
    | next => exact hw.reach.imp (congrArg (n :: ·)) (And.imp_right (List.cons_prefix_cons.mpr ⟨rfl, ·⟩))
    | new =>
      refine .inr ⟨?_, List.nil_prefix⟩
      rcases hw.reach with heq | ⟨hr, -⟩
      · exact (List.append_eq_nil_iff.mp heq.symm).2
      · exact hr
  · rw [List.length_cons, hw.length, List.length_drop]
    omega
  · exact hw.data_cons hk hfs2
  · intro d hd hm
    rw [List.mem_cons, List.mem_cons, not_or, not_or] at hm
    rw [hw.table d hd (by simp [hm]), hfs2]
    exact ha.getFatEntry (by omega) hB hd hm.1 hm.2.1
  · intro d hd
    have hfree := ha.freeBelow h hB
    rcases List.mem_cons.mp hd with rfl | hd
    · cases ha with
      | next => exact .inl (List.mem_cons_self ..)
      | new _ hn => exact .inr hn
    · rcases hw.fresh d hd with hq | hnew
      · cases ha with
        | next => exact .inl (List.mem_cons_of_mem _ hq)
        | new => exact absurd hq List.not_mem_nil
      · rw [show fs2.freeBelow B = fs1.freeBelow B from hfs2 ▸ rfl, hfree] at hnew
        exact .inr (Finset.mem_of_mem_erase hnew)
  · intro b hb
    rw [hw.disk b fun d hd => by rw [directoryBlock_congr hboot]; exact hb d (by simp [hd]), hfs2]
    have hbn : b ≠ fs1.directoryBlock n := by
      rw [directoryBlock_congr ha.bootTable]
      exact hb n (by simp)
    rw [← ha.disk]
    exact disk_writeBlock_of_ne _ _ hbn

theorem writeLoop_eq {fuel : Nat} (h : IsChain fs first (p ++ cur :: q)) (hB : B ≤ 0xFFF8)
    (hfree : (data.length + 511) / 512 ≤ q.length + (fs.freeBelow B).card) (hfuel : data.length < fuel) :
    ∃ w r fs', writeLoop fuel fs cur (fs.links cur) data 0 = some (.ok (w.getLastD cur), fs') ∧
      LoopWrote fs fs' first p cur q w r data B := by
  induction fuel generalizing fs p cur q data with
  | zero => omega
  | succ fuel ih =>
    by_cases hdata : data = []
    · subst hdata
      refine ⟨[], q, fs, by rw [writeLoop, if_pos rfl]; rfl, ?_⟩
      exact ⟨rfl, rfl, h, .inl rfl, rfl, rfl, fun _ _ _ => rfl, fun _ hm => absurd hm List.not_mem_nil,
        fun _ _ => rfl⟩
    have hpos := List.length_pos_of_ne_nil hdata
    obtain ⟨n, q', fs1, hnext, ha⟩ := nextToWrite_eq h hB (fun hq => by subst hq; simp at hfree; omega)
    have hchain1 := ha.isChain h hB
    -- the state after the first of the blocks was written
    obtain ⟨k, hk⟩ : ∃ k, k = min (512 - 0) data.length := ⟨_, rfl⟩
    obtain ⟨fs2, hfs2⟩ : ∃ fs2, fs2 = fs1.writeDataToClusterWithOffset n 0 (data.take k) := ⟨_, rfl⟩
    have hchain2 : IsChain fs2 first (p ++ [cur] ++ n :: q') := hfs2 ▸ hchain1.congr fun _ _ => rfl
    have hcard := ha.card h hB
    have hlen : (data.drop k).length = data.length - k := List.length_drop
    have hfree2 : ((data.drop k).length + 511) / 512 ≤ q'.length + (fs2.freeBelow B).card := by
      rw [show fs2.freeBelow B = fs1.freeBelow B from hfs2 ▸ rfl]
      omega
    obtain ⟨w, r, fs', hloop, hw⟩ := ih hchain2 hfree2 (by omega)
    refine ⟨n :: w, r, fs', ?_, ?_⟩
    · rw [writeLoop, if_neg hdata, hnext]
      dsimp only
      rw [if_neg (by omega), ← hk, ← hfs2]
      rw [List.getLastD_cons]
      exact hloop
    · exact .cons ha h hB (by omega) hpos hfs2 hw

/-! ## The whole write -/

/-- What `fat16_write_data` has done when it wrote `data` at `offset` of the chain `l`: the chain is now `l'`, it
ends with the last cluster written and its new clusters were free. -/
structure Wrote (fs fs' : Fat16) (first offset : Nat) (data : List UInt8) (l l' : List Nat) (B : Nat) : Prop where
  bootTable : fs'.bootTable = fs.bootTable
  currentDirBlock : fs'.currentDirBlock = fs.currentDirBlock
  chain : IsChain fs' first l'
  length : l'.length = (offset + data.length + 511) / 512
  grows : l <+: l' ∨ l' <+: l
  fresh : ∀ d ∈ l', d ∈ l ∨ d ∈ fs.freeBelow B
  table : ∀ d < 2 ^ 31, d ∉ l' → fs'.getFatEntry d = fs.getFatEntry d
  disk : ∀ b, fs.getRootDirectoryStartBlock.toNat ≤ b → (∀ d ∈ l', b ≠ fs.directoryBlock d) →
    fs'.disk b = fs.disk b
  before : (fs'.contents l').take offset = (fs.contents l).take offset
  data : ((fs'.contents l').drop offset).take data.length = data

theorem IsChain.cut {x : Nat} {r : List Nat} (h : IsChain fs first (p ++ x :: r)) :
    IsChain (fs.setFatEntry x 0xFFFF) first (p ++ [x]) := by
  have hrange : ∀ y ∈ p ++ [x], 2 ≤ y ∧ y < 0xFFF8 := fun y hy => h.range y (by
    rw [List.append_cons]
    exact List.mem_append_left _ hy)
  have hx := hrange x (by simp)
  have hxp : x ∉ p := fun hm => List.disjoint_of_nodup_append h.nodup hm (List.mem_cons_self ..)
  have hcut : Path (Function.update fs.links x 0xFFFF) first (p ++ [x]) 0xFFFF := h.path.cut hxp
  refine ⟨hcut.congr fun y hy => ?_, hrange⟩
  have hy := hrange y hy
  rw [links_setFatEntry _ _ _ (by omega) (by omega)]
  rfl

/-- The chain after the last cluster written was marked as its end. -/
theorem IsChain.mark_last {r : List Nat} (h : IsChain fs first (p ++ cur :: (w ++ r))) :
    IsChain (fs.setFatEntry (w.getLastD cur) 0xFFFF) first (p ++ cur :: w) := by
  rcases List.eq_nil_or_concat' w with rfl | ⟨w, x, rfl⟩
  · exact h.cut
  · have heq : p ++ cur :: (w ++ [x] ++ r) = (p ++ cur :: w) ++ x :: r := by simp
    have hcut := (heq ▸ h).cut
    rw [List.getLastD_concat]
    simpa using hcut

/-- The bytes of a block from `off` on, after `xs` was written there. -/
theorem drop_read_write (m : Nat → UInt8) {off : Nat} {xs : List UInt8} (h : off + xs.length ≤ 512) :
    (Slice.read (Slice.write m off xs) 0 512).drop off = xs ++ (Slice.read m 0 512).drop (off + xs.length) := by
  have hread := Slice.read_write_within m 0 h
  rw [Nat.zero_add] at hread
  rw [hread, List.append_assoc, List.drop_left' (by rw [List.length_take, Slice.length_read]; omega)]

theorem take_read_write (m : Nat → UInt8) {off : Nat} (xs : List UInt8) (h : off ≤ 512) :
    (Slice.read (Slice.write m off xs) 0 512).take off = (Slice.read m 0 512).take off := by
  rw [Slice.take_read _ _ h, Slice.take_read _ _ h, Slice.read_write_of_apart m (.inl (by omega))]

/-- A write starts at the cluster that holds the byte before `offset`, or at the first one. -/
theorem exists_start {offset : Nat} (hne : l ≠ []) (hoff : offset ≤ 512 * l.length) :
    ∃ p cur q co, l = p ++ cur :: q ∧ 512 * p.length + co = offset ∧ co ≤ 512 ∧ (p = [] ∨ 0 < co) := by
  have hlt : (offset - 1) / 512 < l.length := by
    have := List.length_pos_of_ne_nil hne
    omega
  refine ⟨l.take ((offset - 1) / 512), l[(offset - 1) / 512], l.drop ((offset - 1) / 512 + 1),
    offset - 512 * ((offset - 1) / 512), ?_, ?_, by omega, ?_⟩
  · rw [← List.drop_eq_getElem_cons hlt, List.take_append_drop]
  · rw [List.length_take]
    omega
  · by_cases h0 : offset = 0
    · exact .inl (by simp [h0])
    · exact .inr (by omega)

/-- The bytes of the chain after the loop: `m` is the block of the first cluster written, `xs` what was written
to it, and the clusters behind it hold the rest. -/
theorem contents_splice (old rest next : List UInt8) (m : Nat → UInt8) {co : Nat} (hco : co ≤ 512)
    (hnext : next.take (data.length - (512 - co)) = data.drop (512 - co)) :
    let new := old ++ (Slice.read (Slice.write m co (data.take (512 - co))) 0 512 ++ next)
    new.take (old.length + co) = (old ++ (Slice.read m 0 512 ++ rest)).take (old.length + co) ∧
      (new.drop (old.length + co)).take data.length = data := by
  have hxs : co + (data.take (512 - co)).length ≤ 512 := by rw [List.length_take]; omega
  refine ⟨?_, ?_⟩
  · rw [List.take_length_add_append, List.take_length_add_append,
      List.take_append_of_le_length (by simpa using hco), List.take_append_of_le_length (by simpa using hco),
      take_read_write m _ hco]
  · rw [List.drop_length_add_append, List.drop_append_of_le_length (by simpa using hco), drop_read_write m hxs]
    by_cases hlong : 512 - co ≤ data.length
    · -- the block is written to its end
      rw [List.length_take, Nat.min_eq_left hlong, show co + (512 - co) = 512 by omega,
        List.drop_of_length_le (by simp), List.append_nil, List.take_append, List.length_take,
        Nat.min_eq_left hlong, hnext, List.take_of_length_le (by rw [List.length_take]; omega),
        List.take_append_drop]
    · rw [List.take_of_length_le (show data.length ≤ 512 - co by omega), List.append_assoc,
        List.take_left' rfl]

/-- Marking the last cluster and writing back the table leaves the blocks behind the table. -/
theorem Layout.disk_end {fs2 : Fat16} (hlay : Layout fs) (hboot : fs2.bootTable = fs.bootTable) (x : Nat)
    (v : BitVec 16) {b : Nat} (hb : fs.getRootDirectoryStartBlock.toNat ≤ b) :
    (fs2.setFatEntry x v).syncFatTable.disk b = fs2.disk b := by
  have hboot3 : (fs2.setFatEntry x v).bootTable = fs.bootTable := hboot
  rw [(hlay.congr hboot3).disk_syncFatTable (by rw [getRootDirectoryStartBlock_congr hboot3]; exact hb),
    disk_setFatEntry]

/-- After the loop: what was before `cur`, its block with the first bytes written, and the clusters behind. -/
theorem LoopWrote.contents_eq {fs1 fs2 : Fat16} {co k : Nat} {r : List Nat} (hk : k = min (512 - co) data.length)
    (hfs1 : fs1 = fs.writeDataToClusterWithOffset cur co (data.take k))
    (hw : LoopWrote fs1 fs2 first p cur q w r (data.drop k) B) :
    fs2.contents (p ++ cur :: w) = fs.contents p ++ (Slice.read (Slice.write
      (fs.readBlock (fs.directoryBlock cur)) co (data.take (512 - co))) 0 512 ++ fs2.contents w) := by
  have hboot1 : fs1.bootTable = fs.bootTable := hfs1 ▸ rfl
  have hboot2 : fs2.bootTable = fs.bootTable := hw.bootTable.trans hboot1
  have hchain : IsChain fs2 first ((p ++ cur :: w) ++ r) := by simpa using hw.chain
  have hrange := fun c (hc : c ∈ p ++ cur :: w) => hchain.range c (List.mem_append_left _ hc)
  have hnodup := List.nodup_append.mp (List.nodup_append.mp hchain.nodup).1
  have hdisk1 : ∀ c ∈ p ++ cur :: w, c ∉ w → fs2.disk (fs.directoryBlock c) = fs1.disk (fs.directoryBlock c) := by
    intro c hc hcw
    refine hw.disk _ fun d hd heq => hcw ?_
    rw [directoryBlock_congr hboot1] at heq
    exact directoryBlock_inj fs (hrange c hc) (hrange d (by simp [hd])) heq ▸ hd
  have hp : fs2.contents p = fs.contents p := by
    refine contents_congr hboot2 fun c hc => ?_
    have hcw := fun d hd => hnodup.2.2 c hc d hd
    rw [hdisk1 c (by simp [hc]) fun hm => hcw c (List.mem_cons_of_mem _ hm) rfl, hfs1]
    exact disk_writeBlock_of_ne _ _ fun heq => hcw cur (List.mem_cons_self ..)
      (directoryBlock_inj fs (hrange c (by simp [hc])) (hrange cur (by simp)) heq)
  have hc : fs2.disk (fs.directoryBlock cur) =
      Slice.write (fs.readBlock (fs.directoryBlock cur)) co (data.take (512 - co)) := by
    rw [hdisk1 cur (by simp) (List.nodup_cons.mp hnodup.2.1).1, hfs1, hk, ← List.take_eq_take_min]
    exact disk_writeBlock_self ..
  rw [contents_append, contents_cons, hp, readBlock, directoryBlock_congr hboot2, hc]

theorem LoopWrote.wrote {fs1 fs2 : Fat16} {offset co k : Nat} {r : List Nat} (hlay : Layout fs)
    (h : IsChain fs first (p ++ cur :: q)) (hco : 512 * p.length + co = offset) (hco512 : co ≤ 512)
    (hdata : data ≠ []) (hk : k = min (512 - co) data.length)
    (hfs1 : fs1 = fs.writeDataToClusterWithOffset cur co (data.take k))
    (hw : LoopWrote fs1 fs2 first p cur q w r (data.drop k) B) :
    Wrote fs (fs2.setFatEntry (w.getLastD cur) 0xFFFF).syncFatTable first offset data (p ++ cur :: q)
      (p ++ cur :: w) B := by
  have hlen := List.length_pos_of_ne_nil hdata
  have hboot1 : fs1.bootTable = fs.bootTable := hfs1 ▸ rfl
  have hboot2 : fs2.bootTable = fs.bootTable := hw.bootTable.trans hboot1
  have hchain3 := hw.chain.mark_last
  have hrange := hchain3.range
  have hlast : w.getLastD cur ∈ p ++ cur :: w := List.mem_append_right _ List.getLastD_mem_cons
  have hcontents : (fs2.setFatEntry (w.getLastD cur) 0xFFFF).syncFatTable.contents (p ++ cur :: w) =
      fs2.contents (p ++ cur :: w) := by
    refine contents_congr rfl fun c hc => hlay.disk_end hboot2 _ _ ?_
    rw [directoryBlock_congr hboot2]
    exact (hlay.root_lt_directoryBlock (hrange c hc)).le
  have hnext : (fs2.contents w).take (data.length - (512 - co)) = data.drop (512 - co) := by
    have := hw.data
    rw [List.length_drop] at this
    by_cases hlong : 512 - co ≤ data.length
    · rwa [hk, Nat.min_eq_left hlong] at this
    · rw [List.drop_of_length_le (by omega), show data.length - (512 - co) = 0 by omega, List.take_zero]
  have hoffset : offset = (fs.contents p).length + co := by rw [length_contents, hco]
  have hdone := contents_splice (fs.contents p) (fs.contents q) (fs2.contents w)
    (fs.readBlock (fs.directoryBlock cur)) hco512 hnext
  refine ⟨hboot2, ?_, hchain3.congr fun _ _ => rfl, ?_, ?_, ?_, ?_, ?_, ?_, ?_⟩
  · rw [currentDirBlock_syncFatTable, currentDirBlock_setFatEntry, hw.currentDirBlock, hfs1]
    rfl
  · rw [List.length_append, List.length_cons, hw.length, List.length_drop]
    omega
  · rcases hw.reach with heq | ⟨-, s, heq⟩
    · exact .inr ⟨r, by rw [heq, List.append_assoc, List.cons_append]⟩
    · exact .inl ⟨s, by rw [← heq, List.append_assoc, List.cons_append]⟩
  · intro d hd
    rcases List.mem_append.mp hd with hd | hd
    · exact .inl (List.mem_append_left _ hd)
    rcases List.mem_cons.mp hd with rfl | hd
    · exact .inl (by simp)
    rw [← show fs1.freeBelow B = fs.freeBelow B from hfs1 ▸ rfl]
    exact (hw.fresh d hd).imp (fun hq => List.mem_append_right _ (List.mem_cons_of_mem _ hq)) id
  · intro d hd hm
    have hlt := hrange _ hlast
    rw [getFatEntry_syncFatTable, getFatEntry_setFatEntry_of_ne _ _ (by omega) hd (fun heq => hm (heq ▸ hlast)),
      hw.table d hd fun hc => hm (List.mem_append_right _ hc), hfs1]
    rfl
  · intro b hb hbl
    rw [hlay.disk_end hboot2 _ _ hb, hw.disk b fun d hd => ?_, hfs1]
    · exact disk_writeBlock_of_ne _ _ (hbl cur (by simp))
    · rw [directoryBlock_congr hboot1]
      exact hbl d (by simp [hd])
  · rw [hcontents, hw.contents_eq hk hfs1, hoffset, contents_append, contents_cons]
    exact hdone.1
  · rw [hcontents, hw.contents_eq hk hfs1, hoffset]
    exact hdone.2

/-- Writing along a chain, with enough free clusters for what lies beyond its end. -/
theorem writeData_eq {offset : Nat} (hlay : Layout fs) (h : IsChain fs first l) (hne : l ≠ []) (hB : B ≤ 0xFFF8)
    (hoff : offset ≤ 512 * l.length) (hdata : data ≠ [])
    (hfree : (offset + data.length + 511) / 512 ≤ l.length + (fs.freeBelow B).card) :
    ∃ l' fs', fs.writeData first offset data = some ((data.length : Int), fs') ∧
      Wrote fs fs' first offset data l l' B := by
  obtain ⟨p, cur, q, co, rfl, hco, hco512, hpos⟩ := exists_start hne hoff
  have hlen := List.length_pos_of_ne_nil hdata
  have hcur := h.range cur (by simp)
  rw [List.length_append, List.length_cons] at hfree
  -- the first round
  obtain ⟨k, hk⟩ : ∃ k, k = min (512 - co) data.length := ⟨_, rfl⟩
  obtain ⟨fs1, hfs1⟩ : ∃ fs1, fs1 = fs.writeDataToClusterWithOffset cur co (data.take k) := ⟨_, rfl⟩
  have hchain1 : IsChain fs1 first (p ++ cur :: q) := hfs1 ▸ h.congr fun _ _ => rfl
  have hfree1 : fs1.freeBelow B = fs.freeBelow B := hfs1 ▸ rfl
  have hneed : ((data.drop k).length + 511) / 512 ≤ q.length + (fs1.freeBelow B).card := by
    rw [hfree1, List.length_drop]
    omega
  obtain ⟨w, r, fs2, hloop, hw⟩ := writeLoop_eq hchain1 hB hneed
    (show (data.drop k).length < data.length + 1 by rw [List.length_drop]; omega)
  have hrun : writeLoop (data.length + 2) fs cur cur data co = some (.ok (w.getLastD cur), fs2) := by
    have hnext : fs.nextToWrite cur cur = (.ok cur, fs) := by rw [nextToWrite, if_neg (by omega)]
    rw [writeLoop, if_neg hdata, hnext]
    dsimp only
    rw [if_neg (by omega), ← hk, ← hfs1]
    exact hloop
  refine ⟨p ++ cur :: w, (fs2.setFatEntry (w.getLastD cur) 0xFFFF).syncFatTable, ?_, ?_⟩
  · rw [writeData, if_neg hdata, findClusterByOffset_eq h hco hco512 hpos]
    dsimp only
    rw [hrun, Option.map_some]
    dsimp only
    rw [setFatEntry_if_ne]
  · exact hw.wrote hlay h hco hco512 hdata hk hfs1

end Fat16
end RetrOS.Fs
