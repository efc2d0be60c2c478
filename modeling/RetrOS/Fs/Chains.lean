import RetrOS.Fs.Data
import RetrOS.Lib.Chain
import Mathlib.Data.Finset.Card
import Mathlib.Order.Interval.Finset.Nat

/-!
# FAT16: cluster chains

* `IsChain fs c l` : the table links the clusters `l`, from `c` to the end mark 0xFFFF;
* `Layout` : the layout fits in 16-bit block numbers; the blocks of clusters are then different from each other
  and from the blocks of the table (`directoryBlock_inj`, `directoryBlock_apart`);
* `contents fs l` : the bytes of the blocks of `l`;
* `freeBelow fs B` : the free clusters below `B` that the search can find.
-/

namespace RetrOS.Fs
open RetrOS.Lib

namespace Fat16

/-- The entry of a cluster as a number. -/
def links (fs : Fat16) (c : Nat) : Nat := (fs.getFatEntry c).toNat

/-- A well-formed chain: it ends in 0xFFFF and its clusters are neither reserved nor end marks. -/
structure IsChain (fs : Fat16) (first : Nat) (l : List Nat) : Prop where
  path : Path fs.links first l 0xFFFF
  range : ∀ c ∈ l, 2 ≤ c ∧ c < 0xFFF8

/-- The reserved blocks, the table and the root directory have block numbers of 16 bits. -/
structure Layout (fs : Fat16) : Prop where
  reserved : 0 < fs.bootTable.reservedBlocks.toNat
  fits : fs.bootTable.reservedBlocks.toNat + fs.bootTable.fatBlocks.toNat < 65536

/-- The bytes of the blocks of some clusters. -/
def contents (fs : Fat16) (l : List Nat) : List UInt8 :=
  l.flatMap fun c => Slice.read (fs.readBlock (fs.directoryBlock c)) 0 512

/-- The free clusters below `B` that the search can find. -/
def freeBelow (fs : Fat16) (B : Nat) : Finset Nat := (Finset.Ico 5 B).filter fun i => fs.getFatEntry i = 0

/-! ## Chains -/

section Chains
variable {fs fs' : Fat16} {first c d : Nat} {l p q : List Nat}

theorem IsChain.stop_notMem (h : IsChain fs first l) : 0xFFFF ∉ l := by
  intro hm
  have := (h.range _ hm).2
  omega

theorem IsChain.nodup (h : IsChain fs first l) : l.Nodup := h.path.nodup h.stop_notMem

theorem IsChain.unique (h : IsChain fs first l) (h' : IsChain fs first p) : l = p :=
  h.path.unique h'.path h.stop_notMem h'.stop_notMem

/-- The clusters of a chain are allocated. -/
theorem IsChain.entry_ne_zero (h : IsChain fs first l) (hc : c ∈ l) : fs.getFatEntry c ≠ 0 := by
  intro h0
  have hlink : fs.links c = 0 := by rw [links, h0]; rfl
  rcases h.path.link_mem hc with hm | hm
  · have := (h.range _ hm).1
    omega
  · omega

theorem IsChain.congr (h : IsChain fs first l) (heq : ∀ c ∈ l, fs'.getFatEntry c = fs.getFatEntry c) :
    IsChain fs' first l :=
  ⟨h.path.congr fun c hc => by rw [links, links, heq c hc], h.range⟩

theorem links_setFatEntry (fs : Fat16) (c : Nat) (v : BitVec 16) {d : Nat} (hc : c < 2 ^ 31) (hd : d < 2 ^ 31) :
    (fs.setFatEntry c v).links d = Function.update fs.links c v.toNat d := by
  by_cases h : d = c
  · subst h
    rw [links, getFatEntry_setFatEntry_self, Function.update_self]
  · rw [links, getFatEntry_setFatEntry_of_ne fs v hc hd h, Function.update_of_ne h, links]

/-- Setting an entry unless it has the value already. -/
theorem setFatEntry_if_ne (fs : Fat16) (c : Nat) (v : BitVec 16) :
    (if fs.getFatEntry c ≠ v then fs.setFatEntry c v else fs) = fs.setFatEntry c v := by
  split
  · rfl
  · rename_i h
    rw [not_not] at h
    unfold setFatEntry
    rw [← h, getFatEntry, Function.update_eq_self]

end Chains

/-! ## Blocks of clusters -/

section Blocks
variable {fs : Fat16}

theorem start_toNat (fs : Fat16) : fs.getFatStartBlock.toNat = fs.bootTable.reservedBlocks.toNat := by
  show (0#16 + fs.bootTable.reservedBlocks).toNat = _
  rw [BitVec.zero_add]

theorem Layout.root_toNat (h : Layout fs) : fs.getRootDirectoryStartBlock.toNat =
    fs.bootTable.reservedBlocks.toNat + fs.bootTable.fatBlocks.toNat := by
  rw [getRootDirectoryStartBlock, BitVec.toNat_add, start_toNat]
  exact Nat.mod_eq_of_lt h.fits

theorem Layout.data_toNat (h : Layout fs) : fs.getDataStartBlock.toNat =
    fs.bootTable.reservedBlocks.toNat + fs.bootTable.fatBlocks.toNat - 1 := by
  have hpos := h.reserved
  have hfits := h.fits
  rw [getDataStartBlock, BitVec.toNat_sub, h.root_toNat, show BitVec.toNat (1 : BitVec 16) = 1 from rfl]
  omega

theorem directoryBlock_of_pos (fs : Fat16) {c : Nat} (h0 : 0 < c) (hc : c < 65536) :
    fs.directoryBlock c = fs.getDataStartBlock.toNat + c := by
  have := fs.getDataStartBlock.isLt
  rw [directoryBlock, if_neg (by omega), Nat.mod_eq_of_lt (by omega)]

theorem directoryBlock_inj (fs : Fat16) {c d : Nat} (hc : 2 ≤ c ∧ c < 0xFFF8) (hd : 2 ≤ d ∧ d < 0xFFF8)
    (h : fs.directoryBlock c = fs.directoryBlock d) : c = d := by
  rw [directoryBlock_of_pos fs (by omega) (by omega), directoryBlock_of_pos fs (by omega) (by omega)] at h
  omega

/-- The block of a cluster lies behind the root directory. -/
theorem Layout.root_lt_directoryBlock (h : Layout fs) {c : Nat} (hc : 2 ≤ c ∧ c < 0xFFF8) :
    fs.getRootDirectoryStartBlock.toNat < fs.directoryBlock c := by
  have hpos := h.reserved
  rw [directoryBlock_of_pos fs (by omega) (by omega), h.root_toNat, h.data_toNat]
  omega

/-- Writing back the table leaves the root directory and what lies behind it. -/
theorem Layout.disk_syncFatTable (h : Layout fs) {b : Nat} (hb : fs.getRootDirectoryStartBlock.toNat ≤ b) :
    fs.syncFatTable.disk b = fs.disk b := by
  apply Fat16.disk_syncFatTable
  rw [start_toNat, ← h.root_toNat]
  exact .inr hb

theorem directoryBlock_congr {fs' : Fat16} (h : fs'.bootTable = fs.bootTable) (c : Nat) :
    fs'.directoryBlock c = fs.directoryBlock c := by
  simp only [directoryBlock, getDataStartBlock, getRootDirectoryStartBlock, getFatStartBlock, h]

theorem getRootDirectoryStartBlock_congr {fs' : Fat16} (h : fs'.bootTable = fs.bootTable) :
    fs'.getRootDirectoryStartBlock = fs.getRootDirectoryStartBlock := by
  simp only [getRootDirectoryStartBlock, getFatStartBlock, h]

theorem getDataStartBlock_congr {fs' : Fat16} (h : fs'.bootTable = fs.bootTable) :
    fs'.getDataStartBlock = fs.getDataStartBlock := by
  simp only [getDataStartBlock, getRootDirectoryStartBlock, getFatStartBlock, h]

theorem Layout.congr {fs' : Fat16} (h : Layout fs) (hb : fs'.bootTable = fs.bootTable) : Layout fs' := by
  refine ⟨?_, ?_⟩
  · rw [hb]
    exact h.reserved
  · rw [hb]
    exact h.fits

end Blocks

/-! ## Contents -/

section Contents
variable (fs : Fat16) (c : Nat) (p q : List Nat)

@[simp] theorem contents_nil : fs.contents [] = [] := rfl

theorem contents_cons :
    fs.contents (c :: p) = Slice.read (fs.readBlock (fs.directoryBlock c)) 0 512 ++ fs.contents p := rfl

theorem contents_append : fs.contents (p ++ q) = fs.contents p ++ fs.contents q := List.flatMap_append ..

@[simp] theorem length_contents : (fs.contents p).length = 512 * p.length := by
  induction p with
  | nil => rfl
  | cons c p ih =>
    rw [contents_cons, List.length_append, Slice.length_read, ih, List.length_cons]
    omega

theorem contents_congr {fs fs' : Fat16} {l : List Nat} (hb : fs'.bootTable = fs.bootTable)
    (h : ∀ c ∈ l, fs'.disk (fs.directoryBlock c) = fs.disk (fs.directoryBlock c)) :
    fs'.contents l = fs.contents l := by
  unfold contents
  refine List.flatMap_congr fun c hc => ?_
  rw [directoryBlock_congr hb, readBlock, readBlock, h c hc]

end Contents

/-! ## Free clusters -/

section Free
variable {fs : Fat16} {B i : Nat}

theorem mem_freeBelow : i ∈ fs.freeBelow B ↔ 5 ≤ i ∧ i < B ∧ fs.getFatEntry i = 0 := by
  simp [freeBelow, and_assoc]

/-- With a free cluster below `B`, the search finds one of them. -/
theorem getFreeCluster_of_freeBelow (hB : B ≤ 65536) (h : 0 < (fs.freeBelow B).card) :
    ∃ n ∈ fs.freeBelow B, fs.getFreeCluster = (n, fs.allocateCluster n) := by
  obtain ⟨j, hj⟩ := Finset.card_pos.mp h
  obtain ⟨n, h5, hn, hfree, hmin⟩ := exists_first_free fs ⟨j, mem_freeBelow.mp hj⟩
  exact ⟨n, mem_freeBelow.mpr ⟨h5, hn, hfree⟩, getFreeCluster_of_free h5 (by omega) hfree hmin⟩

theorem ofNat_ne_zero {n : Nat} (h0 : 0 < n) (h : n < 65536) : BitVec.ofNat 16 n ≠ 0 := by
  intro hz
  have := congrArg BitVec.toNat hz
  rw [BitVec.toNat_ofNat, Nat.mod_eq_of_lt h] at this
  exact absurd this (Nat.ne_of_gt h0)

/-- Marking a free cluster takes it, and only it, from the free ones. -/
theorem freeBelow_setFatEntry (hB : B ≤ 65536) (hi : i < 65536) {v : BitVec 16} (hv : v ≠ 0) :
    (fs.setFatEntry i v).freeBelow B = (fs.freeBelow B).erase i := by
  apply Finset.ext
  intro j
  rw [Finset.mem_erase, mem_freeBelow, mem_freeBelow]
  by_cases hj : j = i
  · subst hj
    rw [getFatEntry_setFatEntry_self]
    exact iff_of_false (fun h => hv h.2.2) fun h => h.1 rfl
  · constructor
    · rintro ⟨h5, hlt, h0⟩
      rw [getFatEntry_setFatEntry_of_ne fs v (by omega) (by omega) hj] at h0
      exact ⟨hj, h5, hlt, h0⟩
    · rintro ⟨-, h5, hlt, h0⟩
      rw [getFatEntry_setFatEntry_of_ne fs v (by omega) (by omega) hj]
      exact ⟨h5, hlt, h0⟩

end Free

end Fat16
end RetrOS.Fs
