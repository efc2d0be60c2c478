import RetrOS.Fs.FileContent
import RetrOS.Lib.Run
import Mathlib.Algebra.GroupWithZero.Nat

/-!
# The stream law of descriptors

What sequences of `fs_read`, and of `fs_write`, on an open file ought to do, and when they do it.

* `OpenFile` : a file in a slot of the table, and what it holds;
* `WriteLaw` : the buffers stand one behind the other from the offset on, and the file ends with them;
* `ReadLaw` : the pieces make up what the file holds from the offset on, the offset moves by what was returned, and a
  read at the end returns 0;
* `streamLaw_iff` : the first holds if the offset is 0 and no two writes transfer bytes, the second if no read begins at
  the end or goes beyond it.
-/

namespace RetrOS.Fs
open RetrOS.Lib

namespace FileTable

/-- The slot holds a file that is open, at its offset, with these bytes. -/
structure OpenFile (s : FileTable) (i : FileSlot) (offset : Nat) (data : List UInt8) : Prop where
  nlinks : (s.fsFileTable i).nlinks ≠ 0
  offset : (s.fsFileTable i).offset.toNat = offset
  directory : (s.fsFileTable i).directory.toNat < 65536
  holds : s.fat16.Holds ((s.fsFileTable i).directory.setWidth 16) (s.fsFileTable i).identifier.toNat data

/-! ## The laws -/

/-- What a read returned, and the offset after it. -/
structure ReadResult where
  ret : Int
  piece : List UInt8
  offset : Nat

/-- A sequence of reads. -/
def reads (s : FileTable) (i : FileSlot) : List Nat → List ReadResult
  | [] => []
  | size :: sizes =>
    let r := s.fsRead (fsFile2fd i) size
    ⟨r.1.1, r.1.2, (r.2.fsFileTable i).offset.toNat⟩ :: reads r.2 i sizes

def ReadLaw (data : List UInt8) (offset : Nat) (results : List ReadResult) : Prop :=
  ∀ p r q, results = p ++ r :: q →
    p.flatMap ReadResult.piece ++ r.piece <+: data.drop offset ∧
    r.offset = offset + (p.flatMap ReadResult.piece ++ r.piece).length ∧
    (data.length ≤ offset + (p.flatMap ReadResult.piece).length → r.ret = 0)

/-- No read begins at the end of the file or goes beyond it. -/
def ReadsFit (length offset : Nat) (sizes : List Nat) : Prop :=
  ∀ p size q, sizes = p ++ size :: q → offset + p.sum < length ∧ offset + p.sum + size ≤ length

/-- A write, whatever it returns. -/
def WriteStep (i : FileSlot) (s : FileTable) (buf : List UInt8) (t : FileTable) : Prop :=
  ∃ ret, s.fsWrite (fsFile2fd i) buf = some (ret, t)

/-- There is room for the buffer. -/
def WriteRoom (i : FileSlot) (s : FileTable) (buf : List UInt8) : Prop :=
  s.fat16.Room ((s.fsFileTable i).directory.setWidth 16) (s.fsFileTable i).identifier.toNat buf

/-- After writes of `bufs` from `offset` on. -/
def WriteLaw (t : FileTable) (i : FileSlot) (offset : Nat) (data : List UInt8) (bufs : List (List UInt8)) : Prop :=
  ∃ result, t.fat16.Holds ((t.fsFileTable i).directory.setWidth 16) (t.fsFileTable i).identifier.toNat result ∧
    (bufs.flatten = [] → result = data) ∧
    (bufs.flatten ≠ [] → result.length = offset + bufs.flatten.length ∧ result.drop offset = bufs.flatten ∧
      result.take (min offset data.length) = data.take offset)

/-- The writes that transfer bytes. -/
def nonempty (bufs : List (List UInt8)) : List (List UInt8) := bufs.filter (· ≠ [])

/-- The offset is 0 and no two writes transfer bytes, or none does. -/
def WritesFit (offset : Nat) (bufs : List (List UInt8)) : Prop :=
  (nonempty bufs).length ≤ 1 ∧ (nonempty bufs ≠ [] → offset = 0)

/-! ## Reads -/

section
variable {s t : FileTable} {i : FileSlot} {offset size : Nat} {data : List UInt8}

theorem forall_split_cons {α : Type*} {P : List α → α → Prop} {x : α} {xs : List α} :
    (∀ p y q, x :: xs = p ++ y :: q → P p y) ↔ P [] x ∧ ∀ p y q, xs = p ++ y :: q → P (x :: p) y := by
  constructor
  · intro h
    exact ⟨h [] x xs rfl, fun p y q hq => h (x :: p) y q (by rw [hq, List.cons_append])⟩
  · rintro ⟨hx, hxs⟩ p y q hq
    cases p with
    | nil =>
      obtain ⟨rfl, -⟩ := List.cons.inj hq
      exact hx
    | cons z p =>
      obtain ⟨rfl, hq'⟩ := List.cons.inj hq
      exact hxs p y q hq'

/-- A read is one of the data of the file at its entry. -/
theorem OpenFile.fat16Read_fileAt (h : OpenFile s i offset data)
    (hread : (s.fsFileTable i).flags &&& fsFileFlagRead ≠ 0) (size : Nat) :
    ∃ entry l, s.fat16.FileAt ((s.fsFileTable i).directory.setWidth 16) (s.fsFileTable i).identifier.toNat entry l ∧
      (s.fat16.contents l).take entry.fileSize.toNat = data ∧
      s.fat16Read i size =
        let read := s.fat16.readData entry.firstCluster.toNat offset size entry.fileSize.toNat
        if read.1 < 0 then (-4, read.2) else read := by
  obtain ⟨entry, l, hfile, hdata⟩ := h.holds
  refine ⟨entry, l, hfile, hdata, ?_⟩
  have hentry := hfile.read
  rw [BitVec.toNat_setWidth, Nat.mod_eq_of_lt h.directory] at hentry
  unfold fat16Read
  dsimp only
  rw [if_neg h.nlinks, if_neg hread, hentry]
  dsimp only
  rw [if_neg hfile.file, h.offset]

theorem OpenFile.fat16Read_eq (h : OpenFile s i offset data)
    (hread : (s.fsFileTable i).flags &&& fsFileFlagRead ≠ 0) (hoff : offset ≤ data.length) (h31 : size < 2 ^ 31) :
    s.fat16Read i size = (((min size (data.length - offset) : Nat) : Int), (data.drop offset).take size) := by
  have hlt := h.holds.length_lt
  obtain ⟨entry, l, hfile, hdata, heq⟩ := h.fat16Read_fileAt hread size
  rw [heq, hfile.readData_eq hdata hoff (by omega)]
  exact if_neg (by dsimp only; omega)

theorem OpenFile.fat16Read_beyond (h : OpenFile s i offset data)
    (hread : (s.fsFileTable i).flags &&& fsFileFlagRead ≠ 0) (hoff : data.length < offset) :
    s.fat16Read i size = (-4, []) := by
  obtain ⟨entry, l, hfile, hdata, heq⟩ := h.fat16Read_fileAt hread size
  rw [heq, hfile.readData_beyond hdata hoff]
  exact if_pos (by decide)

/-- A read with something to return. -/
theorem OpenFile.fsRead_eq (h : OpenFile s i offset data) (hread : (s.fsFileTable i).flags &&& fsFileFlagRead ≠ 0)
    (hoff : offset < data.length) (hsize : 0 < size) (h31 : size < 2 ^ 31) :
    ∃ t, s.fsRead (fsFile2fd i) size =
        ((((min size (data.length - offset) : Nat) : Int), (data.drop offset).take size), t) ∧
      OpenFile t i (offset + size) data ∧ (t.fsFileTable i).flags = (s.fsFileTable i).flags := by
  have hlt := h.holds.length_lt
  refine ⟨s.setFile i { s.fsFileTable i with offset := (s.fsFileTable i).offset + BitVec.ofNat 32 size }, ?_, ?_, ?_⟩
  · unfold fsRead
    rw [slotOf_fsFile2fd]
    dsimp only
    rw [if_neg hread, h.fat16Read_eq hread hoff.le h31]
    dsimp only
    rw [if_neg (by omega)]
  · refine ⟨?_, ?_, ?_, ?_⟩
    · rw [setFile_self]
      exact h.nlinks
    · rw [setFile_self, BitVec.toNat_add, BitVec.toNat_ofNat, h.offset, Nat.mod_eq_of_lt (a := size) (by omega)]
      exact Nat.mod_eq_of_lt (by omega)
    · rw [setFile_self]
      exact h.directory
    · rw [setFile_self]
      exact h.holds
  · rw [setFile_self]

/-- A read of no bytes, at the end or beyond it. -/
theorem OpenFile.fsRead_end (h : OpenFile s i offset data) (hread : (s.fsFileTable i).flags &&& fsFileFlagRead ≠ 0)
    (hoff : data.length ≤ offset ∨ size = 0) (h31 : size < 2 ^ 31) : s.fsRead (fsFile2fd i) size = ((-3, []), s) := by
  have hret : (s.fat16Read i size).1 ≤ 0 := by
    by_cases hle : offset ≤ data.length
    · rw [h.fat16Read_eq hread hle h31]
      dsimp only
      omega
    · rw [h.fat16Read_beyond hread (by omega)]
      decide
  unfold fsRead
  rw [slotOf_fsFile2fd]
  dsimp only
  rw [if_neg hread, if_pos hret]

/-- The read at the head of a sequence, and those behind it. -/
theorem readLaw_cons {data : List UInt8} {offset : Nat} {r : ReadResult} {rs : List ReadResult} :
    ReadLaw data offset (r :: rs) ↔
      (r.piece <+: data.drop offset ∧ r.offset = offset + r.piece.length ∧ (data.length ≤ offset → r.ret = 0)) ∧
      ReadLaw data (offset + r.piece.length) rs := by
  unfold ReadLaw
  rw [forall_split_cons, List.flatMap_nil, List.nil_append, List.length_nil, Nat.add_zero]
  refine and_congr_right fun hr => ?_
  obtain ⟨rest, hrest⟩ := hr.1
  have hdrop : data.drop (offset + r.piece.length) = rest := by rw [← List.drop_drop, ← hrest, List.drop_left]
  refine forall_congr' fun p => forall_congr' fun r' => forall_congr' fun q => imp_congr_right fun _ => ?_
  rw [hdrop, ← hrest, List.flatMap_cons, List.append_assoc, List.prefix_append_right_inj]
  simp only [List.length_append, Nat.add_assoc]

theorem readsFit_cons {length offset size : Nat} {sizes : List Nat} :
    ReadsFit length offset (size :: sizes) ↔
      (offset < length ∧ offset + size ≤ length) ∧ ReadsFit length (offset + size) sizes := by
  unfold ReadsFit
  rw [forall_split_cons]
  simp [Nat.add_assoc]

/-- The reads are lawful if none begins at the end or goes beyond it. -/
theorem OpenFile.readLaw_iff {sizes : List Nat} (h : OpenFile s i offset data)
    (hread : (s.fsFileTable i).flags &&& fsFileFlagRead ≠ 0) (h31 : ∀ size ∈ sizes, size < 2 ^ 31) :
    ReadLaw data offset (s.reads i sizes) ↔ ReadsFit data.length offset sizes := by
  induction sizes generalizing s offset with
  | nil => exact iff_of_true (fun p r q hq => absurd hq (by simp [reads])) fun p size q hq => absurd hq (by simp)
  | cons size sizes ih =>
    have hsizes : ∀ size ∈ sizes, size < 2 ^ 31 := fun size hs => h31 size (List.mem_cons_of_mem _ hs)
    have hsize := h31 size (List.mem_cons_self ..)
    rw [reads, readLaw_cons, readsFit_cons]
    dsimp only
    by_cases hend : data.length ≤ offset
    · -- a read at the end fails
      rw [h.fsRead_end hread (.inl hend) hsize]
      exact iff_of_false (fun hlaw => absurd (hlaw.1.2.2 hend) (show (-3 : Int) ≠ 0 by decide))
        fun hfit => absurd hfit.1.1 (by omega)
    rcases Nat.eq_zero_or_pos size with rfl | hpos
    · rw [h.fsRead_end hread (.inr rfl) hsize]
      refine and_congr (iff_of_true ⟨List.nil_prefix, h.offset, fun hle => absurd hle hend⟩ (by omega)) ?_
      exact ih h hread hsizes
    obtain ⟨t, hrun, ht, hflags⟩ := h.fsRead_eq hread (by omega) hpos hsize
    rw [hrun]
    dsimp only
    have hpiece : ((data.drop offset).take size).length = min size (data.length - offset) := by
      rw [List.length_take, List.length_drop]
    by_cases hfits : offset + size ≤ data.length
    · rw [hpiece, Nat.min_eq_left (by omega)]
      refine and_congr (iff_of_true ⟨List.take_prefix .., ht.offset, fun hle => absurd hle hend⟩ (by omega)) ?_
      exact ih ht (hflags ▸ hread) hsizes
    · -- the offset moves by more than was returned
      refine iff_of_false (fun hlaw => hfits ?_) fun hfit => hfits hfit.1.2
      have := hlaw.1.2.1
      rw [ht.offset, hpiece] at this
      omega

/-! ## Writes -/

theorem OpenFile.fsWrite_nil (h : OpenFile s i offset data) (hwrite : (s.fsFileTable i).flags &&& fsFileFlagWrite ≠ 0) :
    s.fsWrite (fsFile2fd i) [] = some (-3, s) := by
  obtain ⟨entry, l, hfile, -⟩ := h.holds
  unfold fsWrite fat16Write
  rw [slotOf_fsFile2fd]
  dsimp only
  rw [if_neg hwrite, if_neg h.nlinks, if_neg hwrite, hfile.write_nil]
  rfl

/-- A write of bytes: the file holds these and no others, and the offset stays. -/
theorem OpenFile.fsWrite_eq {buf : List UInt8} (h : OpenFile s i offset data)
    (hwrite : (s.fsFileTable i).flags &&& fsFileFlagWrite ≠ 0) (hbuf : buf ≠ []) (hroom : WriteRoom i s buf) :
    ∃ t, s.fsWrite (fsFile2fd i) buf = some ((buf.length : Int), t) ∧ OpenFile t i offset buf ∧
      t.fsFileTable = s.fsFileTable := by
  obtain ⟨entry, l, hfile, -⟩ := h.holds
  obtain ⟨fs', hrun, hholds⟩ := hfile.write_eq hbuf (hroom entry l hfile)
  refine ⟨{ s with fat16 := fs' }, ?_, ⟨h.nlinks, h.offset, h.directory, hholds⟩, rfl⟩
  unfold fsWrite fat16Write
  rw [slotOf_fsFile2fd]
  dsimp only
  rw [if_neg hwrite, if_neg h.nlinks, if_neg hwrite, hrun, Option.map_some, Option.map_some]
  dsimp only
  rw [if_neg (by omega)]

theorem nonempty_cons (buf : List UInt8) (bufs : List (List UInt8)) :
    nonempty (buf :: bufs) = if buf ≠ [] then buf :: nonempty bufs else nonempty bufs := by
  unfold nonempty
  rw [List.filter_cons]
  simp

/-- After a sequence of writes the file holds the last one. -/
theorem OpenFile.writes {bufs : List (List UInt8)} (h : OpenFile s i offset data)
    (hwrite : (s.fsFileTable i).flags &&& fsFileFlagWrite ≠ 0) (hrun : Run (WriteStep i) (WriteRoom i) s bufs t) :
    OpenFile t i offset ((nonempty bufs).getLastD data) := by
  induction hrun generalizing data with
  | nil => exact h
  | @cons s u t buf bufs hroom hstep _ ih =>
    obtain ⟨ret, hstep⟩ := hstep
    rw [nonempty_cons]
    by_cases hbuf : buf = []
    · subst hbuf
      rw [h.fsWrite_nil hwrite] at hstep
      obtain ⟨-, rfl⟩ := Prod.mk.inj (Option.some.inj hstep)
      rw [if_neg (not_not_intro rfl)]
      exact ih h hwrite
    · obtain ⟨u', hrun, hu, htable⟩ := h.fsWrite_eq hwrite hbuf hroom
      obtain ⟨-, rfl⟩ := Prod.mk.inj (Option.some.inj (hrun.symm.trans hstep))
      rw [if_pos hbuf, List.getLastD_cons]
      exact ih hu (htable ▸ hwrite)

theorem flatten_nonempty (bufs : List (List UInt8)) : (nonempty bufs).flatten = bufs.flatten := by
  induction bufs with
  | nil => rfl
  | cons buf bufs ih =>
    rw [nonempty_cons, List.flatten_cons, ← ih]
    by_cases hbuf : buf = []
    · rw [hbuf, if_neg (not_not_intro rfl), List.nil_append]
    · rw [if_pos hbuf, List.flatten_cons]

theorem ne_nil_of_mem_nonempty {buf : List UInt8} {bufs : List (List UInt8)} (h : buf ∈ nonempty bufs) : buf ≠ [] := by
  unfold nonempty at h
  simpa using (List.mem_filter.mp h).2

/-- The last of two or more writes is shorter than all together. -/
theorem length_getLastD_lt {buf buf' : List UInt8} {bufs : List (List UInt8)} (hbuf : buf ≠ []) (data : List UInt8) :
    ((buf :: buf' :: bufs).getLastD data).length < (buf :: buf' :: bufs).flatten.length := by
  have hpos := List.length_pos_of_ne_nil hbuf
  have hmem : (buf' :: bufs).getLastD buf ∈ buf' :: bufs := by
    rw [List.getLastD_cons]
    exact List.getLastD_mem_cons ..
  have hle := (List.sublist_flatten_of_mem hmem).length_le
  rw [List.getLastD_cons, List.flatten_cons, List.length_append]
  omega

/-- The writes are lawful if the offset is 0 and no two of them transfer bytes. -/
theorem OpenFile.writeLaw_iff {bufs : List (List UInt8)} (h : OpenFile s i offset data)
    (hwrite : (s.fsFileTable i).flags &&& fsFileFlagWrite ≠ 0) (hrun : Run (WriteStep i) (WriteRoom i) s bufs t) :
    WriteLaw t i offset data bufs ↔ WritesFit offset bufs := by
  have ht := (h.writes hwrite hrun).holds
  unfold WriteLaw WritesFit
  rw [← flatten_nonempty]
  rcases hne : nonempty bufs with _ | ⟨buf, _ | ⟨buf', rest⟩⟩
  · rw [hne] at ht
    exact iff_of_true ⟨data, ht, fun _ => rfl, fun hcons => absurd rfl hcons⟩
      ⟨Nat.zero_le 1, fun hnil => absurd rfl hnil⟩
  · -- one write
    have hbuf : buf ≠ [] := ne_nil_of_mem_nonempty (hne ▸ List.mem_cons_self ..)
    rw [hne] at ht
    change t.fat16.Holds _ _ buf at ht
    rw [show [buf].flatten = buf from List.append_nil buf]
    constructor
    · rintro ⟨result, hresult, -, hlaw⟩
      obtain rfl := ht.unique hresult
      have hlen := (hlaw hbuf).1
      exact ⟨Nat.le_refl 1, fun _ => by omega⟩
    · rintro ⟨-, hzero⟩
      obtain rfl := hzero (List.cons_ne_nil _ _)
      exact ⟨buf, ht, fun hnil => absurd hnil hbuf, fun _ => ⟨(Nat.zero_add _).symm, rfl, by simp⟩⟩
  · have hbuf : buf ≠ [] := ne_nil_of_mem_nonempty (hne ▸ List.mem_cons_self ..)
    have hlt := @length_getLastD_lt buf buf' rest hbuf data
    rw [hne] at ht
    refine iff_of_false ?_ fun hfit => absurd hfit.1 (by simp)
    rintro ⟨result, hresult, -, hlaw⟩
    obtain rfl := ht.unique hresult
    have hlen := (hlaw (List.ne_nil_of_length_pos (by omega))).1
    omega

end

/-- Reads on an open file do what the stream law says if and only if none begins at the end of the file or goes beyond
it, and writes, with room for the buffers, if and only if the offset is 0 and no two of them transfer bytes. -/
theorem streamLaw_iff (s : FileTable) (i : FileSlot) (offset : Nat) (data : List UInt8) (h : OpenFile s i offset data) :
    ((s.fsFileTable i).flags &&& fsFileFlagRead ≠ 0 → ∀ sizes : List Nat, (∀ size ∈ sizes, size < 2 ^ 31) →
      (ReadLaw data offset (s.reads i sizes) ↔ ReadsFit data.length offset sizes)) ∧
    ((s.fsFileTable i).flags &&& fsFileFlagWrite ≠ 0 → ∀ (bufs : List (List UInt8)) (t : FileTable),
      Run (WriteStep i) (WriteRoom i) s bufs t → (WriteLaw t i offset data bufs ↔ WritesFit offset bufs)) :=
  ⟨fun hread _ h31 => h.readLaw_iff hread h31, fun hwrite _ _ hrun => h.writeLaw_iff hwrite hrun⟩

/-! ## A file of three bytes -/

theorem length_threeName : (ascii "A       ").length = 8 := rfl

theorem length_threeExtension : (ascii "TXT").length = 3 := rfl

/-- The entry of a file of three bytes with the one cluster 5. -/
def threeEntry : DirectoryEntry :=
  newEntry ⟨ascii "A       ", length_threeName⟩ ⟨ascii "TXT", length_threeExtension⟩ flagArchive 5 3

/-- The file is open for reading and writing. -/
def threeOpen : FileTable :=
  ⟨Fat16.oneFile.putEntry 2 1 threeEntry, fun _ => ⟨3, 0, 1, 1, 2, 3⟩⟩

theorem threeOpen_openFile : OpenFile threeOpen 0 0 [0, 0, 0] := by
  refine ⟨by decide, rfl, by decide, threeEntry, [5], ⟨⟨by decide, by decide⟩, ?_, by decide, by decide,
    ⟨by decide, by decide⟩, by decide, fun c hc => ?_, by decide, .inl (by decide)⟩, ?_⟩
  · show some ((Fat16.oneFile.putEntry 2 1 threeEntry).slot 2 1) = _
    rw [Fat16.slot_putEntry_self]
  · rw [List.mem_singleton.mp hc]
    decide
  · have hcontents : (Fat16.oneFile.putEntry 2 1 threeEntry).contents [5] = Fat16.oneFile.contents [5] := by
      refine Fat16.contents_congr rfl fun c hc => Fat16.disk_putEntry_of_ne _ _ _ ?_
      rw [List.mem_singleton.mp hc]
      decide
    show ((Fat16.oneFile.putEntry 2 1 threeEntry).contents [5]).take 3 = _
    rw [hcontents, Fat16.contents_cons, Fat16.contents_nil, List.append_nil, Slice.take_read _ _ (by decide)]
    rfl

/-- One cluster is room for a block. -/
theorem writeRoom_of_le {t : FileTable} {i : FileSlot} {buf : List UInt8} (hbuf : buf.length ≤ 512) :
    WriteRoom i t buf := by
  intro entry l hfile
  have := List.length_pos_of_ne_nil hfile.nonempty
  omega

/-- Two writes of a byte each, on the open file. -/
theorem exists_threeOpen_writes : ∃ t, Run (WriteStep 0) (WriteRoom 0) threeOpen [[1], [2]] t := by
  obtain ⟨t, ht, hopen, hfile⟩ := @OpenFile.fsWrite_eq _ _ _ _ [1] threeOpen_openFile (by decide) (by decide)
    (writeRoom_of_le (by decide))
  obtain ⟨u, hu, -⟩ := @OpenFile.fsWrite_eq _ _ _ _ [2] hopen (hfile ▸ by decide) (by decide)
    (writeRoom_of_le (by decide))
  exact ⟨u, .cons (writeRoom_of_le (by decide)) ⟨_, ht⟩ (.single (writeRoom_of_le (by decide)) ⟨_, hu⟩)⟩

theorem readsFit_three : ReadsFit 3 0 [2, 1] ∧ ¬ReadsFit 3 0 [2, 2] := by
  rw [readsFit_cons, readsFit_cons, readsFit_cons, readsFit_cons]
  exact ⟨⟨by decide, by decide, fun p size q hq => absurd hq (by simp)⟩, fun h => absurd h.2.1.2 (by decide)⟩

theorem streamLaw_iff_three : ReadLaw [0, 0, 0] 0 (threeOpen.reads 0 [2, 1]) ∧
    ¬ReadLaw [0, 0, 0] 0 (threeOpen.reads 0 [2, 2]) ∧
    ∃ t, Run (WriteStep 0) (WriteRoom 0) threeOpen [[1], [2]] t ∧ ¬WriteLaw t 0 0 [0, 0, 0] [[1], [2]] := by
  obtain ⟨hreads, hwrites⟩ := streamLaw_iff threeOpen 0 0 [0, 0, 0] threeOpen_openFile
  obtain ⟨t, hrun⟩ := exists_threeOpen_writes
  exact ⟨(hreads (by decide) _ (by decide)).mpr readsFit_three.1,
    fun hlaw => readsFit_three.2 ((hreads (by decide) _ (by decide)).mp hlaw),
    t, hrun, fun hlaw => absurd ((hwrites (by decide) _ t hrun).mp hlaw).1 (by decide)⟩

/-- A read at the end of the file fails, and the second of two writes overwrites the first. -/
theorem streamLaw_broken : ∃ (s : FileTable) (i : FileSlot) (data : List UInt8), OpenFile s i 0 data ∧
    (s.fsFileTable i).flags = fsFileFlagRead ||| fsFileFlagWrite ∧
    (∃ sizes, ¬ReadLaw data 0 (s.reads i sizes)) ∧
    ∃ bufs t, Run (WriteStep i) (WriteRoom i) s bufs t ∧ ¬WriteLaw t i 0 data bufs := by
  obtain ⟨t, hrun⟩ := exists_threeOpen_writes
  refine ⟨threeOpen, 0, [0, 0, 0], threeOpen_openFile, rfl, ⟨[3, 1], fun hlaw => ?_⟩, [[1], [2]], t, hrun,
    fun hlaw => ?_⟩
  · have hfit := (@OpenFile.readLaw_iff _ _ _ _ [3, 1] threeOpen_openFile (by decide) (by decide)).mp hlaw
    exact absurd (hfit [3] 1 [] rfl).1 (by decide)
  · have hfit := (threeOpen_openFile.writeLaw_iff (by decide) hrun).mp hlaw
    exact absurd hfit.1 (by decide)

end FileTable

end RetrOS.Fs
