import RetrOS.Archive.Tar
import RetrOS.Fs.Created
import Mathlib.Data.List.GetD

/-!
# The loops over an archive

* `Moved` : a table in which only the offset of a file has changed;
* `readHeader_eq` : the header that a round has, at any place;
* `readsOnce_tarList_iff` : `tar_list` returns exactly when the walk stops (`Stops`);
* `readsOnce_tarExtract_iff` : `tar_extract` only moves forward, and returns when its calls do;
* `tarLaw_iff` : both.
-/

namespace RetrOS.Tar
open RetrOS.Lib RetrOS.Fs FileTable

/-! ## Moving in a file -/

/-- Only the offset of the file in slot `i` has changed. -/
def Moved (i : FileSlot) (s t : FileTable) : Prop := ∃ x, t = s.setFile i { s.fsFileTable i with offset := x }

section Moved
variable {s t u : FileTable} {i : FileSlot} {o : Nat} {data : List UInt8}

theorem setFile_setFile (s : FileTable) (i : FileSlot) (f g : File) : (s.setFile i f).setFile i g = s.setFile i g := by
  unfold setFile
  dsimp only
  rw [Function.update_idem]

theorem Moved.refl (i : FileSlot) (s : FileTable) : Moved i s s := by
  refine ⟨(s.fsFileTable i).offset, ?_⟩
  unfold setFile
  rw [Function.update_eq_self]

theorem Moved.trans (h : Moved i s t) (h' : Moved i t u) : Moved i s u := by
  obtain ⟨x, rfl⟩ := h
  obtain ⟨y, rfl⟩ := h'
  refine ⟨y, ?_⟩
  rw [setFile_self, setFile_setFile]

theorem Moved.flags (h : Moved i s t) : (t.fsFileTable i).flags = (s.fsFileTable i).flags := by
  obtain ⟨x, rfl⟩ := h
  rw [setFile_self]

/-- The place decides the table. -/
theorem Moved.eq (h : Moved i s t) (h' : Moved i s u)
    (hoff : (t.fsFileTable i).offset.toNat = (u.fsFileTable i).offset.toNat) : t = u := by
  obtain ⟨x, rfl⟩ := h
  obtain ⟨y, rfl⟩ := h'
  rw [setFile_self, setFile_self] at hoff
  have heq : x = y := BitVec.eq_of_toNat_eq hoff
  rw [heq]

theorem Moved.openFile (h : Moved i s t) (hopen : OpenFile s i o data) :
    OpenFile t i (t.fsFileTable i).offset.toNat data := by
  obtain ⟨x, rfl⟩ := h
  refine ⟨?_, rfl, ?_, ?_⟩
  · rw [setFile_self]
    exact hopen.nlinks
  · rw [setFile_self]
    exact hopen.directory
  · rw [setFile_self]
    exact hopen.holds

theorem moved_fsRead (s : FileTable) (i : FileSlot) (size : Nat) : Moved i s (s.fsRead (fsFile2fd i) size).2 := by
  unfold fsRead
  rw [slotOf_fsFile2fd]
  dsimp only
  split
  · exact .refl i s
  · split
    · exact .refl i s
    · exact ⟨_, rfl⟩

theorem fsSeek_cur (x : BitVec 32) (h : (s.fsFileTable i).flags ≠ 0) : (s.fsSeek (fsFile2fd i) x .cur).2 =
    s.setFile i { s.fsFileTable i with offset := (s.fsFileTable i).offset + x } := by
  unfold fsSeek
  rw [slotOf_fsFile2fd]
  dsimp only
  rw [if_neg h]

theorem ne_zero_of_and {x y : BitVec 8} (h : x &&& y ≠ 0) : x ≠ 0 := by
  rintro rfl
  exact h BitVec.zero_and

end Moved

/-! ## The header of a round -/

section Header
variable {s : TarState} {i : FileSlot} {o : Nat} {data : List UInt8}

theorem store_nil (h : Header) : h.store [] = h := by
  refine Vector.ext fun k hk => ?_
  rw [Header.store, Vector.getElem_ofFn]
  rfl

theorem store_full (h : Header) {bytes : List UInt8} (hlen : bytes.length = 512) :
    h.store bytes = .ofFn fun k => bytes.getD k 0 := by
  refine Vector.ext fun k hk => ?_
  rw [Header.store, Vector.getElem_ofFn, Vector.getElem_ofFn]
  dsimp only
  rw [List.getD_eq_getElem _ _ (hlen ▸ hk), List.getD_eq_getElem _ _ (hlen ▸ hk)]

theorem headerAt_of_drop {h : Header} {l : List UInt8} (hdrop : data.drop o = h.toList ++ l) :
    headerAt data o = h := by
  refine Vector.ext fun k hk => ?_
  have hlen : k < h.toList.length := by
    rw [Vector.length_toList]
    exact hk
  have hget : (data.drop o).getD k 0 = h.toList[k] := by
    rw [hdrop, List.getD_append _ _ _ _ hlen, List.getD_eq_getElem _ _ hlen]
  rw [headerAt, Vector.getElem_ofFn, ← Vector.getElem_toList hlen, ← hget, List.getD_eq_getElem?_getD,
    List.getD_eq_getElem?_getD, List.getElem?_drop]

theorem headerAt_eq {h : Header} (hlen : o + 512 ≤ data.length) :
    h.store ((data.drop o).take 512) = headerAt data o := by
  have htake : ((data.drop o).take 512).length = 512 := by
    rw [List.length_take, List.length_drop]
    omega
  rw [store_full h htake, headerAt]
  congr 1
  funext k
  have hk := k.isLt
  rw [List.getD_eq_getElem _ _ (by omega), List.getD_eq_getElem _ _ (by omega), List.getElem_take,
    List.getElem_drop]

/-- A short rest ends both loops. -/
theorem readHeader_short (hopen : OpenFile s.table i o data)
    (hread : (s.table.fsFileTable i).flags &&& fsFileFlagRead ≠ 0) (hshort : Short data o) :
    (s.readHeader (fsFile2fd i)).1 ≠ 0 ∧ (s.readHeader (fsFile2fd i)).1 < 512 := by
  have hlt := hshort.1
  have hlen := hshort.2
  obtain ⟨t, hfs, -⟩ := hopen.fsRead_eq hread hshort.1 (show 0 < 512 by decide) (by decide)
  have hval : (BitVec.ofInt 32 (((min 512 (data.length - o) : Nat) : Int))).toNat = data.length - o := by
    rw [BitVec.ofInt_natCast, BitVec.toNat_ofNat]
    omega
  unfold TarState.readHeader
  rw [hfs]
  dsimp only
  refine ⟨fun h0 => ?_, ?_⟩
  · rw [h0] at hval
    have hzero : (0 : BitVec 32).toNat = 0 := rfl
    omega
  · rw [BitVec.lt_def, hval]
    exact show data.length - o < 512 by omega

/-- Elsewhere the round has a header, the one of the place or, behind the end, the one before. -/
theorem readHeader_eq (hopen : OpenFile s.table i o data) (hread : (s.table.fsFileTable i).flags &&& fsFileFlagRead ≠ 0)
    (hshort : ¬ Short data o) : ∃ b t, s.readHeader (fsFile2fd i) =
        (b, { s with table := t, header := headerOf data o s.header }) ∧ b ≠ 0 ∧ ¬ b < 512 ∧ Moved i s.table t ∧
      OpenFile t i (if o < data.length then o + 512 else o) data := by
  have hmoved := moved_fsRead s.table i 512
  by_cases hlt : o < data.length
  · have hlen : o + 512 ≤ data.length := Nat.le_of_not_lt fun h => hshort ⟨hlt, h⟩
    obtain ⟨t, hfs, ht, -⟩ := hopen.fsRead_eq hread hlt (show 0 < 512 by decide) (by decide)
    rw [hfs] at hmoved
    have hret : ((min 512 (data.length - o) : Nat) : Int) = 512 := by omega
    refine ⟨512, t, ?_, by decide, by decide, hmoved, ?_⟩
    · unfold TarState.readHeader
      rw [hfs, hret, headerOf, if_pos hlt]
      dsimp only
      rw [headerAt_eq hlen]
      rfl
    · rw [if_pos hlt]
      exact ht
  · have hfs := hopen.fsRead_end hread (.inl (Nat.le_of_not_lt hlt)) (show 512 < 2 ^ 31 by decide)
    rw [hfs] at hmoved
    refine ⟨BitVec.ofInt 32 (-3), s.table, ?_, by decide, by decide, hmoved, ?_⟩
    · unfold TarState.readHeader
      rw [hfs, headerOf, if_neg hlt]
      dsimp only
      rw [store_nil]
    · rw [if_neg hlt]
      exact hopen

theorem length_of_readsHeader (hopen : OpenFile s.table i o data)
    (hread : (s.table.fsFileTable i).flags &&& fsFileFlagRead ≠ 0) (hreads : readsHeader i s = true) :
    (s.table.fsRead (fsFile2fd i) 512).1.2.length = 512 := by
  have hret : (s.table.fsRead (fsFile2fd i) 512).1.1 = 512 := of_decide_eq_true hreads
  by_cases hlt : o < data.length
  · obtain ⟨t, hfs, -⟩ := hopen.fsRead_eq hread hlt (show 0 < 512 by decide) (by decide)
    rw [hfs] at hret ⊢
    dsimp only at hret ⊢
    rw [List.length_take, List.length_drop]
    omega
  · rw [hopen.fsRead_end hread (.inl (Nat.le_of_not_lt hlt)) (by decide)] at hret
    exact absurd hret (show (-3 : Int) ≠ 512 by decide)

end Header

/-! ## `tar_list` -/

section List
variable {s t : TarState} {i : FileSlot} {o : Nat} {data : List UInt8}

theorem tarListRound_short (hopen : OpenFile s.table i o data)
    (hread : (s.table.fsFileTable i).flags &&& fsFileFlagRead ≠ 0) (hshort : Short data o) :
    ∃ r, tarListRound (fsFile2fd i) s = .done r := by
  obtain ⟨hne, hlt⟩ := readHeader_short hopen hread hshort
  refine ⟨(0, (s.readHeader (fsFile2fd i)).2), ?_⟩
  unfold tarListRound
  dsimp only
  rw [if_neg hne, if_pos hlt]

theorem tarListRound_empty (hopen : OpenFile s.table i o data)
    (hread : (s.table.fsFileTable i).flags &&& fsFileFlagRead ≠ 0) (hshort : ¬ Short data o)
    (hempty : (headerOf data o s.header).initial = 0) : ∃ r, tarListRound (fsFile2fd i) s = .done r := by
  obtain ⟨b, t, hheader, hne, hlt, -, -⟩ := readHeader_eq hopen hread hshort
  refine ⟨(0, { s with table := t, header := headerOf data o s.header }), ?_⟩
  unfold tarListRound
  rw [hheader]
  dsimp only
  rw [if_neg hne, if_neg hlt, if_pos hempty]

/-- A round that goes on moves to the next header, and keeps the one that it has. -/
theorem tarListRound_next (hopen : OpenFile s.table i o data)
    (hread : (s.table.fsFileTable i).flags &&& fsFileFlagRead ≠ 0) (hshort : ¬ Short data o)
    (hname : (headerOf data o s.header).initial ≠ 0) : ∃ t, tarListRound (fsFile2fd i) s =
        .next { s with table := t, header := headerOf data o s.header } ∧ Moved i s.table t ∧
      OpenFile t i (nextPosition data o s.header) data := by
  obtain ⟨b, u, hheader, hne, hlt, hmoved, hu⟩ := readHeader_eq hopen hread hshort
  have hflags : (u.fsFileTable i).flags ≠ 0 := ne_zero_of_and (hmoved.flags ▸ hread)
  have hseek := fsSeek_cur (headerOf data o s.header).roundedSize hflags
  have hmove : Moved i u (u.fsSeek (fsFile2fd i) (headerOf data o s.header).roundedSize .cur).2 := ⟨_, hseek⟩
  have hplace : ((u.fsSeek (fsFile2fd i) (headerOf data o s.header).roundedSize .cur).2.fsFileTable i).offset.toNat =
      nextPosition data o s.header := by
    rw [hseek, setFile_self, BitVec.toNat_add, hu.offset]
    rfl
  refine ⟨_, ?_, hmoved.trans hmove, hplace ▸ hmove.openFile hu⟩
  unfold tarListRound
  rw [hheader]
  dsimp only
  rw [if_neg hne, if_neg hlt, if_neg hname]

/-- What `tar_list` changes, besides the header. -/
structure Listing (i : FileSlot) (s t : TarState) : Prop where
  moved : Moved i s.table t.table
  heap : t.heap = s.heap
  memory : t.memory = s.memory

theorem Listing.trans {u : TarState} (h : Listing i s t) (h' : Listing i t u) : Listing i s u :=
  ⟨h.moved.trans h'.moved, h'.heap.trans h.heap, h'.memory.trans h.memory⟩

/-- A round that went on. -/
theorem tarListRound_inv (hopen : OpenFile s.table i o data)
    (hread : (s.table.fsFileTable i).flags &&& fsFileFlagRead ≠ 0)
    (h : tarListRound (fsFile2fd i) s = .next t) : ¬ Short data o ∧ (headerOf data o s.header).initial ≠ 0 ∧
      t.header = headerOf data o s.header ∧ Listing i s t ∧ OpenFile t.table i (nextPosition data o s.header) data := by
  by_cases hshort : Short data o
  · obtain ⟨r, hdone⟩ := tarListRound_short hopen hread hshort
    cases h.symm.trans hdone
  by_cases hname : (headerOf data o s.header).initial = 0
  · obtain ⟨r, hdone⟩ := tarListRound_empty hopen hread hshort hname
    cases h.symm.trans hdone
  · obtain ⟨u, hnext, hmoved, hu⟩ := tarListRound_next hopen hread hshort hname
    cases h.symm.trans hnext
    exact ⟨hshort, hname, rfl, ⟨hmoved, rfl, rfl⟩, hu⟩

theorem listing_of_reaches (h : Reaches (tarListRound (fsFile2fd i)) s t) (hopen : OpenFile s.table i o data)
    (hread : (s.table.fsFileTable i).flags &&& fsFileFlagRead ≠ 0) : Listing i s t := by
  induction h with
  | refl => exact ⟨.refl i s.table, rfl, rfl⟩
  | tail _ hstep ih =>
    exact ih.trans (tarListRound_inv (ih.moved.openFile hopen) (ih.moved.flags ▸ hread) hstep).2.2.2.1

/-- Two rounds that read a header at the same place are the same. -/
theorem tarListRound_congr {a b : TarState} (hopen : OpenFile s.table i o data)
    (hread : (s.table.fsFileTable i).flags &&& fsFileFlagRead ≠ 0) (ha : Listing i s a) (hb : Listing i s b)
    (hreads : readsHeader i a = true) (hplace : position i a = position i b) :
    tarListRound (fsFile2fd i) a = tarListRound (fsFile2fd i) b := by
  have htable : a.table = b.table := ha.moved.eq hb.moved hplace
  have hheap : a.heap = b.heap := ha.heap.trans hb.heap.symm
  have hmemory : a.memory = b.memory := ha.memory.trans hb.memory.symm
  have hbytes : (a.table.fsRead (fsFile2fd i) 512).1.2.length = 512 :=
    length_of_readsHeader (ha.moved.openFile hopen) (ha.moved.flags ▸ hread) hreads
  have hsame : a.readHeader (fsFile2fd i) = b.readHeader (fsFile2fd i) := by
    unfold TarState.readHeader
    dsimp only
    rw [htable] at hbytes ⊢
    rw [store_full a.header hbytes, store_full b.header hbytes, hheap, hmemory]
  unfold tarListRound
  rw [hsame]

/-- The loop of a walk that stops returns. -/
theorem exists_heads_of_stops {h : Header} (hstops : Stops data o h) (hopen : OpenFile s.table i o data)
    (hread : (s.table.fsFileTable i).flags &&& fsFileFlagRead ≠ 0) (hheader : s.header = h) :
    ∃ n l r, Round.heads (tarListRound (fsFile2fd i)) n s = some (l, r) := by
  induction hstops generalizing s with
  | short hshort =>
    obtain ⟨r, hdone⟩ := tarListRound_short hopen hread hshort
    exact ⟨1, [s], r, heads_done hdone⟩
  | empty hshort hempty =>
    subst hheader
    obtain ⟨r, hdone⟩ := tarListRound_empty hopen hread hshort hempty
    exact ⟨1, [s], r, heads_done hdone⟩
  | next hshort hname _ ih =>
    subst hheader
    obtain ⟨t, hnext, hmoved, ht⟩ := tarListRound_next hopen hread hshort hname
    obtain ⟨n, l, r, hrest⟩ := @ih { s with table := t, header := headerOf data _ s.header } ht
      (hmoved.flags ▸ hread) rfl
    refine ⟨n + 1, s :: l, r, ?_⟩
    rw [heads_next hnext, hrest]
    rfl

theorem stops_of_heads {n : Nat} {l : List TarState} {r : Int × TarState}
    (h : Round.heads (tarListRound (fsFile2fd i)) n s = some (l, r)) (hopen : OpenFile s.table i o data)
    (hread : (s.table.fsFileTable i).flags &&& fsFileFlagRead ≠ 0) : Stops data o s.header := by
  induction n generalizing s o l with
  | zero => cases h
  | succ n ih =>
    by_cases hshort : Short data o
    · exact .short hshort
    by_cases hname : (headerOf data o s.header).initial = 0
    · exact .empty hshort hname
    · obtain ⟨t, hnext, hmoved, ht⟩ := tarListRound_next hopen hread hshort hname
      rw [heads_next hnext] at h
      obtain ⟨⟨l', r'⟩, hrest, heq⟩ := Option.map_eq_some_iff.mp h
      obtain ⟨-, rfl⟩ := Prod.mk.inj heq
      have hread' : (t.fsFileTable i).flags &&& fsFileFlagRead ≠ 0 := hmoved.flags ▸ hread
      exact .next hshort hname (@ih { s with table := t, header := headerOf data o s.header } _ _ hrest ht hread')

theorem readsOnce_tarList_iff (hopen : OpenFile s.table i o data)
    (hread : (s.table.fsFileTable i).flags &&& fsFileFlagRead ≠ 0) :
    ReadsOnce (tarListRound (fsFile2fd i)) i s ↔ Stops data o s.header := by
  constructor
  · rintro ⟨n, l, r, h, -⟩
    exact stops_of_heads h hopen hread
  · intro hstops
    obtain ⟨n, l, r, h⟩ := exists_heads_of_stops hstops hopen hread rfl
    refine ⟨n, l, r, h, nodup_heads h fun a b ha hb hreads _ hplace => ?_⟩
    exact tarListRound_congr hopen hread (listing_of_reaches ha hopen hread) (listing_of_reaches hb hopen hread) hreads
      hplace

/-- Behind the end a header without content keeps the walk where it is. -/
theorem not_stops_of_end {h : Header} (hend : data.length ≤ o) (ho : o < 2 ^ 32) (hname : h.initial ≠ 0)
    (hsize : h.roundedSize = 0) : ¬ Stops data o h := by
  have hheader : headerOf data o h = h := if_neg (Nat.not_lt.mpr hend)
  have hnext : nextPosition data o h = o := by
    rw [nextPosition, hheader, hsize, if_neg (Nat.not_lt.mpr hend)]
    exact Nat.mod_eq_of_lt ho
  intro hstops
  induction hstops with
  | short hshort => exact absurd hshort.1 (Nat.not_lt.mpr hend)
  | empty _ hempty =>
    rw [hheader] at hempty
    exact hname hempty
  | next _ _ _ ih =>
    rw [hnext, hheader] at ih
    exact ih hend ho hname hsize hheader hnext

end List

/-! ## `tar_extract` -/

section Extract
variable {R : Kmem.Region} {s t : TarState} {i j : FileSlot} {o : Nat} {data : List UInt8}

theorem kalloc_some {k k' : Kmem.Heap} {size : BitVec 32} {p : Nat}
    (h : Kmem.kalloc R k size = .ok (some p, k')) : 0 < size.toNat ∧ size.toNat < 2 ^ 31 := by
  refine Kmem.toNat_lt_of_toInt_pos (Int.not_le.mp fun hle => ?_)
  unfold Kmem.kalloc at h
  rw [if_pos hle] at h
  cases h

theorem fat16Open_some {a b : FileTable} {path : List UInt8} {flags : BitVec 32}
    (h : a.fat16Open path flags = some (some j, b)) : ∃ fs, Opened { a with fat16 := fs } b j flags := by
  unfold fat16Open at h
  split at h
  · cases h
  split at h
  · cases h
  split at h
  · split at h
    · split at h
      · cases h
      · obtain ⟨r, -, heq⟩ := Option.map_eq_some_iff.mp h
        dsimp only at heq
        split at heq
        · cases heq
        · exact ⟨r.2, openFound_some heq⟩
    · cases h
  · exact ⟨a.fat16, openFound_some (Option.some.inj h)⟩

/-- A new file is opened in another slot. -/
theorem fsOpen_slot {a b : FileTable} {path : List UInt8} {flags : BitVec 32} {fd : Int}
    (h : a.fsOpen path flags = some (fd, b)) (hfd : ¬ fd < 0) (hused : (a.fsFileTable i).flags ≠ 0) :
    ∃ j, j ≠ i ∧ fd = fsFile2fd j ∧ b.fsFileTable i = a.fsFileTable i := by
  obtain ⟨⟨slot, u⟩, hopen, heq⟩ := Option.map_eq_some_iff.mp h
  cases slot with
  | none =>
    cases heq
    exact absurd (show (-1 : Int) < 0 by decide) hfd
  | some j =>
    cases heq
    obtain ⟨fs, hopened⟩ := fat16Open_some hopen
    have hij : i ≠ j := by
      rintro rfl
      exact hused (fsAllocFile_eq_some.mp hopened.alloc).1
    exact ⟨j, hij.symm, rfl, hopened.others i hij⟩

theorem fsWrite_fsFileTable {a b : FileTable} {fd : Int} {buf : List UInt8} {ret : Int}
    (h : a.fsWrite fd buf = some (ret, b)) : b.fsFileTable = a.fsFileTable := by
  unfold fsWrite at h
  split at h
  · cases h
    rfl
  split at h
  · cases h
    rfl
  · obtain ⟨r, hwrite, heq⟩ := Option.map_eq_some_iff.mp h
    have htable : r.2.fsFileTable = a.fsFileTable := by
      unfold fat16Write at hwrite
      dsimp only at hwrite
      split at hwrite
      · cases hwrite
        rfl
      · obtain ⟨r', -, rfl⟩ := Option.map_eq_some_iff.mp hwrite
        rfl
    have hb : b = r.2 := by
      split at heq
      · exact (Prod.mk.inj heq).2.symm
      · rw [heq]
    rw [hb, htable]

theorem fsClose_of_ne (a : FileTable) (hij : j ≠ i) : (a.fsClose (fsFile2fd j)).2.fsFileTable i = a.fsFileTable i := by
  unfold fsClose
  rw [slotOf_fsFile2fd]
  dsimp only
  split
  · rfl
  · unfold fat16Close
    split
    · rfl
    · dsimp only
      rw [if_neg (by decide), fsFreeFile, setFile_of_ne _ hij.symm, setFile_of_ne _ hij.symm]

/-- A member that is extracted has content, and the archive moves behind it. -/
theorem extractMember_inv {p : Nat} (hopen : OpenFile s.table i o data)
    (hread : (s.table.fsFileTable i).flags &&& fsFileFlagRead ≠ 0) (hpos : 0 < s.header.roundedSize.toNat)
    (h31 : s.header.roundedSize.toNat < 2 ^ 31) (h : extractMember R (fsFile2fd i) p s = .next t) :
    position i t = o + s.header.roundedSize.toNat ∧
      ∃ x, t.table.fsFileTable i = { s.table.fsFileTable i with offset := x } := by
  by_cases hlt : o < data.length
  · obtain ⟨u, hfs, hu, hflags⟩ := hopen.fsRead_eq hread hlt hpos h31
    obtain ⟨x, hx⟩ := moved_fsRead s.table i s.header.roundedSize.toNat
    have hused : (u.fsFileTable i).flags ≠ 0 := by
      rw [hflags]
      exact ne_zero_of_and hread
    have hslot : u.fsFileTable i = { s.table.fsFileTable i with offset := x } := by
      rw [hfs] at hx
      rw [show u = _ from hx, setFile_self]
    unfold extractMember at h
    dsimp only at h
    rw [hfs] at h
    dsimp only at h
    rw [if_neg (by omega)] at h
    cases hfile : u.fsOpen s.header.name (fsFileFlagCreate ||| fsFileFlagWrite.setWidth 32) with
    | none =>
      rw [hfile] at h
      cases h
    | some r =>
      rw [hfile] at h
      dsimp only at h
      by_cases hfd : r.1 < 0
      · rw [if_pos hfd] at h
        cases h
      · rw [if_neg hfd] at h
        obtain ⟨j, hji, hj, hkeep⟩ := fsOpen_slot hfile hfd hused
        split at h
        · cases h
        · next ret v hwrite =>
          have hclose : (v.fsClose r.1).2.fsFileTable i = u.fsFileTable i := by
            rw [hj, fsClose_of_ne v hji, fsWrite_fsFileTable hwrite, hkeep]
          cases h
          refine ⟨?_, x, hclose.trans hslot⟩
          rw [position, hclose]
          exact hu.offset
  · have hfs := hopen.fsRead_end hread (.inl (Nat.le_of_not_lt hlt)) h31
    unfold extractMember at h
    dsimp only at h
    rw [hfs] at h
    dsimp only at h
    rw [if_pos (by decide)] at h
    cases h

theorem tarExtractRound_stop {b : BitVec 32} {u : TarState} (hheader : s.readHeader (fsFile2fd i) = (b, u))
    (hne : b ≠ 0) (hlt : ¬ b < 512) (hname : u.header.initial = 0) : tarExtractRound R (fsFile2fd i) s = .done (0, u) := by
  unfold tarExtractRound
  rw [hheader]
  dsimp only
  rw [if_neg hne, if_neg hlt, if_pos hname]

theorem tarExtractRound_null {b : BitVec 32} {u : TarState} (hheader : s.readHeader (fsFile2fd i) = (b, u))
    (hne : b ≠ 0) (hlt : ¬ b < 512) (hname : u.header.initial ≠ 0) {k : Kmem.Heap}
    (halloc : Kmem.kalloc R u.heap u.header.roundedSize = .ok (none, k)) :
    tarExtractRound R (fsFile2fd i) s = .done (-1, { u with heap := k }) := by
  unfold tarExtractRound
  rw [hheader]
  dsimp only
  rw [if_neg hne, if_neg hlt, if_neg hname, halloc]

theorem tarExtractRound_buffer {b : BitVec 32} {u : TarState} (hheader : s.readHeader (fsFile2fd i) = (b, u))
    (hne : b ≠ 0) (hlt : ¬ b < 512) (hname : u.header.initial ≠ 0) {k : Kmem.Heap} {p : Nat}
    (halloc : Kmem.kalloc R u.heap u.header.roundedSize = .ok (some p, k)) :
    tarExtractRound R (fsFile2fd i) s = extractMember R (fsFile2fd i) p { u with heap := k } := by
  unfold tarExtractRound
  rw [hheader]
  dsimp only
  rw [if_neg hne, if_neg hlt, if_neg hname, halloc]

theorem tarExtractRound_panic {b : BitVec 32} {u : TarState} (hheader : s.readHeader (fsFile2fd i) = (b, u))
    (hne : b ≠ 0) (hlt : ¬ b < 512) (hname : u.header.initial ≠ 0) {e : String}
    (halloc : Kmem.kalloc R u.heap u.header.roundedSize = .error e) :
    tarExtractRound R (fsFile2fd i) s = .stuck := by
  unfold tarExtractRound
  rw [hheader]
  dsimp only
  rw [if_neg hne, if_neg hlt, if_neg hname, halloc]

theorem tarExtractRound_incomplete {b : BitVec 32} {u : TarState} (hheader : s.readHeader (fsFile2fd i) = (b, u))
    (hne : b ≠ 0) (hlt : b < 512) : tarExtractRound R (fsFile2fd i) s = .done (0, u) := by
  unfold tarExtractRound
  rw [hheader]
  dsimp only
  rw [if_neg hne, if_pos hlt]

theorem tarExtractRound_short (R : Kmem.Region) (hopen : OpenFile s.table i o data)
    (hread : (s.table.fsFileTable i).flags &&& fsFileFlagRead ≠ 0) (hshort : Short data o) :
    ∃ r, tarExtractRound R (fsFile2fd i) s = .done r := by
  obtain ⟨hne, hlt⟩ := readHeader_short hopen hread hshort
  exact ⟨_, tarExtractRound_incomplete (Prod.mk.eta).symm hne hlt⟩

/-- A round that goes on moves forward, and changes nothing else of the open archive. -/
theorem tarExtractRound_inv (hopen : OpenFile s.table i o data)
    (hread : (s.table.fsFileTable i).flags &&& fsFileFlagRead ≠ 0)
    (h : tarExtractRound R (fsFile2fd i) s = .next t) :
    o < position i t ∧ ∃ x, t.table.fsFileTable i = { s.table.fsFileTable i with offset := x } := by
  by_cases hshort : Short data o
  · obtain ⟨r, hdone⟩ := tarExtractRound_short R hopen hread hshort
    cases h.symm.trans hdone
  obtain ⟨b, u, hheader, hne, hlt, ⟨y, hmoved⟩, hu⟩ := readHeader_eq hopen hread hshort
  -- any header will do
  generalize headerOf data o s.header = header at hheader
  by_cases hname : header.initial = 0
  · cases h.symm.trans (tarExtractRound_stop hheader hne hlt hname)
  cases halloc : Kmem.kalloc R s.heap header.roundedSize with
  | error e => cases h.symm.trans (tarExtractRound_panic hheader hne hlt hname halloc)
  | ok k =>
    obtain ⟨p, k⟩ := k
    cases p with
    | none => cases h.symm.trans (tarExtractRound_null hheader hne hlt hname halloc)
    | some p =>
      rw [tarExtractRound_buffer hheader hne hlt hname halloc] at h
      obtain ⟨hpos, h31⟩ := kalloc_some halloc
      have hslot : u.fsFileTable i = { s.table.fsFileTable i with offset := y } := by rw [hmoved, setFile_self]
      have hread' : (u.fsFileTable i).flags &&& fsFileFlagRead ≠ 0 := by
        rw [hslot]
        exact hread
      obtain ⟨hplace, x, hx⟩ := extractMember_inv (s := ⟨u, k, s.memory, header⟩) hu hread' hpos h31 h
      refine ⟨?_, x, ?_⟩
      · rw [hplace]
        dsimp only
        split <;> omega
      · rw [hx, hslot]

/-- In an archive that is kept every round finds it open. -/
theorem openFile_of_reaches (hopen : OpenFile s.table i o data)
    (hread : (s.table.fsFileTable i).flags &&& fsFileFlagRead ≠ 0) (hkeep : Keeps R i s data)
    (h : Reaches (tarExtractRound R (fsFile2fd i)) s t) : OpenFile t.table i (position i t) data ∧
      ∃ x, t.table.fsFileTable i = { s.table.fsFileTable i with offset := x } := by
  induction h with
  | refl => exact ⟨⟨hopen.nlinks, rfl, hopen.directory, hopen.holds⟩, (s.table.fsFileTable i).offset, rfl⟩
  | @tail t u ht hstep ih =>
    obtain ⟨htopen, x, hx⟩ := ih
    have htread : (t.table.fsFileTable i).flags &&& fsFileFlagRead ≠ 0 := by
      rw [hx]
      exact hread
    obtain ⟨-, y, hy⟩ := tarExtractRound_inv htopen htread hstep
    have hslot : u.table.fsFileTable i = { s.table.fsFileTable i with offset := y } := by rw [hy, hx]
    refine ⟨⟨?_, rfl, ?_, ?_⟩, y, hslot⟩
    · rw [hslot]
      exact hopen.nlinks
    · rw [hslot]
      exact hopen.directory
    · rw [hslot]
      exact hkeep u (.tail ht hstep)

theorem readsOnce_tarExtract_iff (hopen : OpenFile s.table i o data)
    (hread : (s.table.fsFileTable i).flags &&& fsFileFlagRead ≠ 0) (hkeep : Keeps R i s data) :
    ReadsOnce (tarExtractRound R (fsFile2fd i)) i s ↔ Returns (tarExtractRound R (fsFile2fd i)) s := by
  have hforward (a b : TarState) (ha : Reaches (tarExtractRound R (fsFile2fd i)) s a)
      (hround : tarExtractRound R (fsFile2fd i) a = .next b) : position i a < position i b := by
    obtain ⟨haopen, x, hx⟩ := openFile_of_reaches hopen hread hkeep ha
    exact (tarExtractRound_inv haopen (by rw [hx]; exact hread) hround).1
  constructor
  · rintro ⟨n, l, r, h, -⟩
    exact returns_of_heads h
  · intro hreturns
    have hbound (a : TarState) : position i a < 2 ^ 32 := (a.table.fsFileTable i).offset.isLt
    obtain ⟨n, l, r, h⟩ := exists_heads_of_measure (fun a => 2 ^ 32 - position i a) hreturns fun a b ha hround => by
      have hlt := hforward a b ha hround
      have hb := hbound b
      omega
    have hnodup : (l.map (position i)).Nodup := (pairwise_heads h hforward).imp Nat.ne_of_lt
    exact ⟨n, l, r, h, hnodup.sublist (List.filter_sublist.map _)⟩

end Extract

/-- **The loops return and read no header twice exactly when** the walk over the headers stops and the calls for the
members return. -/
theorem tarLaw_iff (R : Kmem.Region) (i : FileSlot) (s : TarState) (data : List UInt8)
    (hopen : OpenFile s.table i 0 data) (hread : (s.table.fsFileTable i).flags &&& fsFileFlagRead ≠ 0)
    (hkeep : Keeps R i s data) :
    TarLaw R i s ↔ Stops data 0 s.header ∧ Returns (tarExtractRound R (fsFile2fd i)) s :=
  and_congr (readsOnce_tarList_iff hopen hread) (readsOnce_tarExtract_iff hopen hread hkeep)

/-! ## An archive without an end mark -/

/-- The block with these bytes. -/
def blockOf (f : Nat → UInt8) : Header := ⟨⟨Slice.read f 0 512⟩, Slice.length_read ..⟩

theorem toList_blockOf (f : Nat → UInt8) : (blockOf f).toList = Slice.read f 0 512 := rfl

/-- The header of an empty member. -/
def emptyMember (k : Nat) : UInt8 := if k = 0 then 97 else if 124 ≤ k ∧ k < 135 then 48 else 0

theorem length_tarExtension : (ascii "TAR").length = 3 := rfl

/-- The entry of a file of one block, with the one cluster 5. -/
def blockEntry : DirectoryEntry :=
  newEntry ⟨ascii "A       ", length_threeName⟩ ⟨ascii "TAR", length_tarExtension⟩ flagArchive 5 512

def oneMemberDisk : Fat16 where
  bootTable := Fat16.oneFile.bootTable
  fatTableMemory := Fat16.oneFile.fatTableMemory
  currentDirBlock := 2
  disk b := if b = 6 then emptyMember else fun _ => 0

/-- The archive is open for reading; behind its one empty member there is nothing. -/
def oneMember : FileTable := ⟨oneMemberDisk.putEntry 2 1 blockEntry, fun _ => ⟨1, 0, 1, 1, 2, 512⟩⟩

theorem oneMember_openFile : OpenFile oneMember 0 0 (Slice.read emptyMember 0 512) := by
  refine ⟨by decide, rfl, by decide, blockEntry, [5], ⟨⟨by decide, by decide⟩, ?_, by decide, by decide,
    ⟨by decide, by decide⟩, by decide, fun c hc => ?_, by decide, .inl (by decide)⟩, ?_⟩
  · show some ((oneMemberDisk.putEntry 2 1 blockEntry).slot 2 1) = _
    rw [Fat16.slot_putEntry_self]
  · rw [List.mem_singleton.mp hc]
    decide
  · have hcontents : (oneMemberDisk.putEntry 2 1 blockEntry).contents [5] = oneMemberDisk.contents [5] := by
      refine Fat16.contents_congr rfl fun c hc => Fat16.disk_putEntry_of_ne _ _ _ ?_
      rw [List.mem_singleton.mp hc]
      decide
    show ((oneMemberDisk.putEntry 2 1 blockEntry).contents [5]).take 512 = _
    rw [hcontents, Fat16.contents_cons, Fat16.contents_nil, List.append_nil, Slice.take_read _ _ (by decide)]
    rfl

theorem oneMember_headerAt : headerAt (Slice.read emptyMember 0 512) 0 = blockOf emptyMember :=
  headerAt_of_drop (by rw [List.drop_zero, toList_blockOf, List.append_nil])

theorem oneMember_header : (headerAt (Slice.read emptyMember 0 512) 0).initial ≠ 0 := by
  rw [oneMember_headerAt]
  decide +kernel

theorem oneMember_size : (headerAt (Slice.read emptyMember 0 512) 0).roundedSize = 0 := by
  rw [oneMember_headerAt]
  decide +kernel

def noMemory : Kmem.Region := ⟨0, 0, Nat.le_refl 0, by decide, by decide⟩

def oneMemberState : TarState := ⟨oneMember, Kmem.kmemInit fun _ => 0, fun _ => 0, .replicate 512 0⟩

/-- `tar_list` stays at the end of the archive. -/
theorem tarLaw_endless : ¬ TarLaw noMemory 0 oneMemberState := by
  intro hlaw
  have hstops := (readsOnce_tarList_iff (s := oneMemberState) oneMember_openFile (by decide)).mp hlaw.1
  have hlen : (Slice.read emptyMember 0 512).length = 512 := Slice.length_read ..
  have hheader : headerOf (Slice.read emptyMember 0 512) 0 oneMemberState.header =
      headerAt (Slice.read emptyMember 0 512) 0 := if_pos (by omega)
  have hnext : nextPosition (Slice.read emptyMember 0 512) 0 oneMemberState.header = 512 := by
    rw [nextPosition, hheader, oneMember_size, if_pos (by omega)]
    rfl
  cases hstops with
  | short hshort => exact absurd hshort.2 (by omega)
  | empty _ hempty =>
    rw [hheader] at hempty
    exact oneMember_header hempty
  | next _ _ hrest =>
    rw [hnext, hheader] at hrest
    exact not_stops_of_end hlen.le (by decide) oneMember_header oneMember_size hrest

/-- Three bytes are no header. -/
def threeState : TarState := ⟨threeOpen, Kmem.kmemInit fun _ => 0, fun _ => 0, .replicate 512 0⟩

theorem reaches_threeState {t : TarState} (h : Reaches (tarExtractRound noMemory (fsFile2fd 0)) threeState t) :
    t = threeState := by
  obtain ⟨r, hdone⟩ := tarExtractRound_short noMemory (s := threeState) threeOpen_openFile (by decide)
    ⟨by decide, by decide⟩
  rcases Relation.ReflTransGen.cases_head h with rfl | ⟨u, hstep, -⟩
  · rfl
  · cases hstep.symm.trans hdone

theorem tarLaw_iff_short : TarLaw noMemory 0 threeState := by
  refine (tarLaw_iff noMemory 0 threeState [0, 0, 0] threeOpen_openFile (by decide) fun t ht => ?_).mpr
    ⟨.short ⟨by decide, by decide⟩, fun t ht hstuck => ?_⟩
  · rw [reaches_threeState ht]
    exact threeOpen_openFile.holds
  · obtain ⟨r, hdone⟩ := tarExtractRound_short noMemory (s := threeState) threeOpen_openFile (by decide)
      ⟨by decide, by decide⟩
    rw [reaches_threeState ht] at hstuck
    cases hstuck.symm.trans hdone

end RetrOS.Tar
