import RetrOS.Fs.Chains

/-!
# FAT16: what a read returns

On a chain whose blocks have 16-bit numbers, reading `n` bytes at `offset` returns that part of the contents of
the chain (`readData_eq`).
-/

namespace RetrOS.Fs
open RetrOS.Lib

namespace Fat16

variable {fs : Fat16} {c d e n off : Nat} {p q l : List Nat}

/-- The clusters of a chain have blocks of 16-bit numbers. -/
def Addressable (fs : Fat16) (l : List Nat) : Prop := ∀ c ∈ l, fs.getDataStartBlock.toNat + c < 65536

theorem skipClusters_of_path (h : Path fs.links c p d) (hp : 0xFFFF ∉ p) : fs.skipClusters p.length c = d := by
  induction p generalizing c with
  | nil => exact h
  | cons x p ih =>
    obtain ⟨rfl, h⟩ := h
    rw [List.mem_cons, not_or] at hp
    rw [List.length_cons, skipClusters, if_neg (Ne.symm hp.1)]
    exact ih h hp.2

/-- Inside a block the reader copies from the block of the cluster. -/
theorem readDataFromCluster_eq (hc : 2 ≤ c ∧ c < 0xFFF8) (haddr : fs.getDataStartBlock.toNat + c < 65536)
    (h : off + n ≤ 512) : fs.readDataFromCluster c n off =
      ((Slice.read (fs.readBlock (fs.directoryBlock c)) 0 512).drop off).take n := by
  rw [readDataFromCluster, if_neg (by omega), readBlockOffset, readBlockNum,
    directoryBlock_of_pos fs (by omega) (by omega), Nat.mod_eq_of_lt (b := 2 ^ 16) haddr]
  obtain ⟨m, hm⟩ := Nat.exists_eq_add_of_le (show off ≤ 512 by omega)
  rw [hm, Slice.read_add, List.drop_left' (Slice.length_read ..), Slice.take_read _ _ (by omega), Nat.zero_add]

theorem readLoop_eq {fuel : Nat} (h : Path fs.links c l 0xFFFF) (hl : ∀ c ∈ l, 2 ≤ c ∧ c < 0xFFF8)
    (haddr : fs.Addressable l) (hoff : off < 512) (hn : off + n ≤ 512 * l.length) (hfuel : n ≤ fuel) :
    fs.readLoop fuel c n off = (0, ((fs.contents l).drop off).take n) := by
  induction fuel generalizing c n off l with
  | zero =>
    obtain rfl : n = 0 := by omega
    simp [readLoop]
  | succ fuel ih =>
    by_cases h0 : n = 0
    · subst h0
      simp [readLoop]
    cases l with
    | nil =>
      rw [List.length_nil] at hn
      omega
    | cons x l =>
      obtain ⟨rfl, h⟩ := h
      have hx := hl c (List.mem_cons_self ..)
      have hxa := haddr c (List.mem_cons_self ..)
      have hrest := fun y (hy : y ∈ l) => hl y (List.mem_cons_of_mem _ hy)
      rw [List.length_cons] at hn
      rw [readLoop, if_neg (by omega), contents_cons, List.drop_append_of_le_length
        (by rw [Slice.length_read]; omega), List.take_append, List.length_drop, Slice.length_read]
      have hih : ∀ k, k ≤ 512 * l.length → k ≤ fuel →
          fs.readLoop fuel (fs.links c) k 0 = (0, (fs.contents l).take k) := fun k hk hkf =>
        ih h hrest (fun y hy => haddr y (List.mem_cons_of_mem _ hy)) (show 0 < 512 by decide) (by omega) hkf
      by_cases hlong : n > 512 - off
      · -- the rest of this block and what follows
        rw [if_pos hlong]
        dsimp only
        rw [readDataFromCluster_eq hx hxa (by omega), ← links, hih _ (by omega) (by omega)]
        congr 2
        rw [List.take_of_length_le (by simp), List.take_of_length_le (by simp; omega)]
      · -- the last block read
        rw [if_neg hlong]
        dsimp only
        rw [readDataFromCluster_eq hx hxa (by omega), Nat.sub_self, ← links, hih 0 (by omega) (by omega),
          show n - (512 - off) = 0 by omega]

/-- A read returns its part of the contents of the chain. -/
theorem readData_eq {first max : Nat} (h : IsChain fs first l) (haddr : fs.Addressable l)
    (hn : off + n ≤ 512 * l.length) (hmax : off + n ≤ max) (h32 : off + n < 2 ^ 32) (hpos : 0 < n) :
    fs.readData first off n max = ((n : Int), ((fs.contents l).drop off).take n) := by
  obtain ⟨p, q, rfl, hp⟩ : ∃ p q, l = p ++ q ∧ p.length = off / 512 :=
    ⟨_, _, (List.take_append_drop (off / 512) l).symm, by rw [List.length_take]; omega⟩
  obtain ⟨d, hpath, hq⟩ := path_append.mp h.path
  have hskip : fs.skipClusters (off / 512) first = d := by
    rw [← hp]
    exact skipClusters_of_path hpath fun hm => h.stop_notMem (List.mem_append_left _ hm)
  rw [List.length_append] at hn
  have hloop : fs.readLoop n d n (off % 512) = (0, ((fs.contents q).drop (off % 512)).take n) :=
    readLoop_eq hq (fun c hc => h.range c (List.mem_append_right _ hc))
      (fun c hc => haddr c (List.mem_append_right _ hc)) (by omega) (by omega) (Nat.le_refl n)
  have hdrop : (fs.contents (p ++ q)).drop off = (fs.contents q).drop (off % 512) := by
    have hoff : off = (fs.contents p).length + off % 512 := by
      rw [length_contents, hp]
      omega
    conv_lhs => rw [hoff, contents_append, List.drop_length_add_append]
  rw [readData, if_neg (by omega), Nat.mod_eq_of_lt h32]
  dsimp only
  rw [if_neg (show ¬ off + n > max by omega), hskip, hloop, hdrop]
  rfl

end Fat16
end RetrOS.Fs
