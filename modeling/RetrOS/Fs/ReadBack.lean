import RetrOS.Fs.Reader
import RetrOS.Fs.Writer
import Mathlib.Data.Fintype.Card

/-!
# FAT16: what was written is read back

After a write along a chain the same range reads as the data written, what lies before it is as it was, and so are
the chains and the contents of all other files (`readData_writeData`). The clusters the write may take are those
below `clusterBound`: no end marks, and their blocks have numbers of 16 bits.
-/

namespace RetrOS.Fs
open RetrOS.Lib

namespace Fat16

variable {fs fs' : Fat16} {first offset : Nat} {l l' l2 : List Nat} {data : List UInt8}

/-- The clusters below it are no end marks and their blocks have numbers of 16 bits. -/
def clusterBound (fs : Fat16) : Nat := min 0xFFF8 (65536 - fs.getDataStartBlock.toNat)

theorem clusterBound_le (fs : Fat16) : fs.clusterBound ≤ 0xFFF8 := Nat.min_le_left ..

theorem IsChain.length_le (h : IsChain fs first l) : l.length ≤ 0xFFF8 := by
  have hsub : l.toFinset ⊆ Finset.range 0xFFF8 := fun c hc =>
    Finset.mem_range.mpr (h.range c (List.mem_toFinset.mp hc)).2
  have := Finset.card_le_card hsub
  rwa [List.toFinset_card_of_nodup h.nodup, Finset.card_range] at this

theorem Wrote.addressable (hw : Wrote fs fs' first offset data l l' fs.clusterBound) (haddr : fs.Addressable l) :
    fs'.Addressable l' := by
  intro c hc
  rw [getDataStartBlock_congr hw.bootTable]
  rcases hw.fresh c hc with hl | hfree
  · exact haddr c hl
  · have := (mem_freeBelow.mp hfree).2.1
    rw [clusterBound] at this
    omega

/-- A chain apart from the one written shares no cluster with what became of it. -/
theorem Wrote.disjoint {B : Nat} (hw : Wrote fs fs' first offset data l l' B) {first2 : Nat}
    (h2 : IsChain fs first2 l2) (hd : l.Disjoint l2) : l'.Disjoint l2 := by
  intro c hc hc2
  rcases hw.fresh c hc with hl | hfree
  · exact hd hl hc2
  · exact h2.entry_ne_zero hc2 (mem_freeBelow.mp hfree).2.2

/-- Chains apart from the one written keep their links and their contents. -/
theorem Wrote.other {B : Nat} (hlay : Layout fs) (hw : Wrote fs fs' first offset data l l' B) {first2 : Nat}
    (h2 : IsChain fs first2 l2) (hd : l.Disjoint l2) :
    IsChain fs' first2 l2 ∧ fs'.contents l2 = fs.contents l2 := by
  have hdis := hw.disjoint h2 hd
  refine ⟨h2.congr fun c hc => hw.table c ?_ fun hm => hdis hm hc, ?_⟩
  · have := h2.range c hc
    omega
  · refine contents_congr hw.bootTable fun c hc => hw.disk _ ?_ fun d hd' heq => ?_
    · exact (hlay.root_lt_directoryBlock (h2.range c hc)).le
    · exact hdis hd' (directoryBlock_inj fs (h2.range c hc) (hw.chain.range d hd') heq ▸ hc)

theorem readData_writeData (fs : Fat16) (first offset maxLength : Nat) (l : List Nat) (data : List UInt8)
    (hlay : Layout fs) (hl : IsChain fs first l) (hne : l ≠ []) (haddr : fs.Addressable l)
    (hoff : offset ≤ 512 * l.length) (hdata : data ≠ [])
    (hfree : (offset + data.length + 511) / 512 ≤ l.length + (fs.freeBelow fs.clusterBound).card)
    (hmax : offset + data.length ≤ maxLength) :
    ∃ fs' l', fs.writeData first offset data = some ((data.length : Int), fs') ∧ IsChain fs' first l' ∧
      fs'.readData first offset data.length maxLength = ((data.length : Int), data) ∧
      (fs'.contents l').take offset = (fs.contents l).take offset ∧
      ∀ first2 l2, IsChain fs first2 l2 → l.Disjoint l2 →
        IsChain fs' first2 l2 ∧ fs'.contents l2 = fs.contents l2 := by
  obtain ⟨l', fs', hrun, hw⟩ := writeData_eq hlay hl hne fs.clusterBound_le hoff hdata hfree
  refine ⟨fs', l', hrun, hw.chain, ?_, hw.before, fun first2 l2 h2 hd => hw.other hlay h2 hd⟩
  have hlen := hw.length
  have hle := hw.chain.length_le
  rw [readData_eq hw.chain (hw.addressable haddr) (by omega) hmax (by omega) (List.length_pos_of_ne_nil hdata),
    hw.data]

/-- A disk of 200 blocks with a file of the one cluster 5. -/
def oneFile : Fat16 where
  bootTable := { reservedBlocks := 1, rootDirEntries := 16, totalBlocks := 199, fatBlocks := 1 }
  fatTableMemory := fun i => if i = 5 then 0xFFFF else 0
  currentDirBlock := 2
  disk := fun _ _ => 0

def threeBytes : List UInt8 := [1, 2, 3]

theorem readData_writeData_oneFile : ∃ fs' l',
    oneFile.writeData 5 510 threeBytes = some ((threeBytes.length : Int), fs') ∧ IsChain fs' 5 l' ∧
    fs'.readData 5 510 threeBytes.length 513 = ((threeBytes.length : Int), threeBytes) ∧
    (fs'.contents l').take 510 = (oneFile.contents [5]).take 510 ∧
    ∀ first2 l2, IsChain oneFile first2 l2 → [5].Disjoint l2 →
      IsChain fs' first2 l2 ∧ fs'.contents l2 = oneFile.contents l2 := by
  have hchain : IsChain oneFile 5 [5] := ⟨by decide, by decide⟩
  have haddr : oneFile.Addressable [5] := fun c hc => by rw [List.mem_singleton.mp hc]; decide
  have hfree : 0 < (oneFile.freeBelow oneFile.clusterBound).card :=
    Finset.card_pos.mpr ⟨6, mem_freeBelow.mpr (by decide)⟩
  have hneed : (510 + threeBytes.length + 511) / 512 = 2 := by decide
  exact readData_writeData oneFile 5 510 513 [5] threeBytes ⟨by decide, by decide⟩ hchain (by decide) haddr
    (by decide) (by decide) (by rw [hneed, List.length_singleton]; omega) (by decide)

end Fat16
end RetrOS.Fs
