import RetrOS.Ext.WriteCalls
import RetrOS.Ext.Entry
import Mathlib.Data.List.GetD

/-!
# Lookup in a directory (`ext_open_from_directory`)

* `findEntry`, `extOpenFromDirectory` : the loop over the records, and the call;
* `Directory` : the entries that a directory holds (`Directory.add`); `named` : the inode of a name;
* `offset`, `record` : where the records are read (`inodeRead_offset`, `findEntry_eq`);
* `extOpenFromDirectory_eq` : the first record that begins the name decides;
* `OpenOk`, `openLaw_iff` : when this is the entry of the name.

The names are compared in the length of the entry. A record that crosses a block border leaves the position behind by
what was read in front of the border, so that only the first 22 records are those of the directory.
-/

namespace RetrOS.Ext
open RetrOS.Lib Writing

/-- The name of a record, up to its end. -/
def entryName (entry : List UInt8) : List UInt8 := entry.takeWhile (· ≠ 0)

/-- `entry.inode` -/
def entryInode (entry : List UInt8) : BitVec 16 := word16 (entry.getD 20 0) (entry.getD 21 0)

/-- `memcmp(entry.name, name, strlen(entry.name)) == 0` -/
def begins (name entry : List UInt8) : Bool := (entryName entry).isPrefixOf (name ++ [0])

namespace ExtFs

theorem size_inodeRead {e e' : ExtFs} {k : Slot} {n : Nat} {ret : ReadResult} {data : List UInt8}
    (h : e.inodeRead k n = some (ret, e', data)) : (e'.cache k).size = (e.cache k).size := by
  obtain ⟨⟨ret', inode, data'⟩, hread, heq⟩ := Option.map_eq_some_iff.mp h
  obtain ⟨pos, hpos⟩ := inodeRead_record hread
  have hsize : inode.size = (e.cache k).size := by
    rw [show inode = _ from hpos]
  cases heq
  rw [setInode_self, hsize]

/-- `while (size <= inode->size)`, with the record on the stack; `none` where a `memcpy` gets a negative length. -/
def findEntry (name : List UInt8) (k : Slot) (e : ExtFs) (entry : List UInt8) (size : Nat) :
    Option (Option (List UInt8) × ExtFs) :=
  if size ≤ (e.cache k).size.toNat then
    match h : e.inodeRead k 24 with
    | none => none
    | some (.bytes (n + 1), e', data) =>
      if begins name (data ++ entry.drop data.length) then some (some (data ++ entry.drop data.length), e')
      else findEntry name k e' (data ++ entry.drop data.length) (size + (n + 1))
    | some (_, e', _) => some (none, e')
  else some (none, e)
termination_by (e.cache k).size.toNat + 1 - size
decreasing_by
  rw [size_inodeRead h]
  omega

/-- `ext_open_from_directory`; its errors are `-FS_ERR_INODE_MISSING`, `-FS_ERR_NAME_SIZE` and
`-FS_ERR_FILE_MISSING`. -/
def extOpenFromDirectory (e : ExtFs) (name : List UInt8) (i : BitVec 16) (entry : Vector UInt8 24) :
    Option (BitVec 16 × ExtFs) :=
  match e.inodeGet i with
  | (none, e) => some (-8, e)
  | (some k, e) =>
    if 20 < name.length + 1 then some (-6, e.setPos k 0)
    else
      match findEntry name k (e.setPos k 0) entry.toList 0 with
      | none => none
      | some (none, e) => some (0, e)
      | some (some entry, e) =>
        match e.inodeGet (entryInode entry) with
        | (none, e) => some (-2, e)
        | (some _, e) => some (entryInode entry, e)

end ExtFs

/-! ## Records of a directory -/

theorem takeWhile_name {name : List UInt8} (h : 0 ∉ name) (rest : List UInt8) :
    (name ++ 0 :: rest).takeWhile (· ≠ 0) = name := by
  induction name with
  | nil => rfl
  | cons c name ih =>
    have hc : c ≠ 0 := fun h0 => h (h0 ▸ List.mem_cons_self ..)
    rw [List.cons_append, List.takeWhile_cons_of_pos (by simpa using hc), ih fun h0 => h (List.mem_cons_of_mem c h0)]

theorem entryName_encode (x : DirectoryEntry) : entryName x.encode = x.name := by
  obtain ⟨name, inode, flags, hlen, h0⟩ := x
  obtain ⟨n, hn⟩ : ∃ n, 20 - name.length = n + 1 := ⟨19 - name.length, by omega⟩
  simp only [entryName, DirectoryEntry.encode]
  rw [hn, List.replicate_succ, List.append_assoc, List.append_assoc, List.cons_append]
  exact takeWhile_name h0 _

theorem entryInode_encode (x : DirectoryEntry) : entryInode x.encode = x.inode := by
  have hlen : (x.name ++ List.replicate (20 - x.name.length) (0 : UInt8)).length = 20 := by
    rw [List.length_append, List.length_replicate]
    have hlt := x.isName.1
    omega
  have hget (i : Nat) : x.encode.getD (20 + i) 0 = (bytes16 x.inode ++ [x.flags, 0]).getD i 0 := by
    rw [DirectoryEntry.encode, List.append_assoc, List.getD_append_right _ _ _ _ (by omega), hlen,
      Nat.add_sub_cancel_left]
  rw [entryInode, hget 0, hget 1]
  exact word16_bytes x.inode

/-- A name that has ended does not begin with more. -/
theorem isPrefixOf_terminated {name entry : List UInt8} (h : 0 ∉ entry) :
    entry.isPrefixOf (name ++ [0]) = entry.isPrefixOf name := by
  rw [Bool.eq_iff_iff, List.isPrefixOf_iff_prefix, List.isPrefixOf_iff_prefix]
  constructor
  · intro hprefix
    rcases List.prefix_concat_iff.mp hprefix with heq | hname
    · exact absurd (heq ▸ List.mem_append_right name (List.mem_singleton_self 0)) h
    · exact hname
  · intro hprefix
    exact hprefix.trans (List.prefix_append ..)

theorem begins_encode (name : List UInt8) (x : DirectoryEntry) : begins name x.encode = x.name.isPrefixOf name := by
  rw [begins, entryName_encode, isPrefixOf_terminated x.isName.2]

/-- What `entries` say of a name: the inode of the first entry with it, or 0. -/
def named (entries : List DirectoryEntry) (name : List UInt8) : BitVec 16 :=
  ((entries.find? fun x => x.name = name).map DirectoryEntry.inode).getD 0

/-- The inode in slot `k` is a directory with these entries, which have the numbers of inodes. -/
structure Directory (e : ExtFs) (k : Slot) (entries : List DirectoryEntry) : Prop where
  size : (e.cache k).size.toNat = 24 * entries.length
  bytes : e.volume.bytesAt { e.cache k with pos := 0 } (24 * entries.length) = entries.flatMap DirectoryEntry.encode
  numbers : ∀ x ∈ entries, x.inode ≠ -2

section Add
variable {e : ExtFs} {k : Slot} {entries : List DirectoryEntry}

theorem bytesAt_congr {v v' : Volume} {inode inode' : Inode} {n : Nat}
    (h : ∀ x < n, byteAt (v', inode') (inode'.pos + BitVec.ofNat 16 x) =
      byteAt (v, inode) (inode.pos + BitVec.ofNat 16 x)) :
    v'.bytesAt inode' n = v.bytesAt inode n :=
  List.map_congr_left fun x hx => h x (List.mem_range.mp hx)

/-- `__inode_add_dir` adds its entry, where there is room for it: the blocks are those of the directory, and its record
lies in front of them. -/
theorem Directory.add (h : Directory e k entries) (x : DirectoryEntry) (hx : x.inode ≠ -2)
    (hown : Owned (e.volume, e.cache k)) (hroom : Room (places (e.cache k).size 24) (e.volume, e.cache k))
    (hfit : 24 * (entries.length + 1) < 65536)
    (hblocks : ∀ p < (e.cache k).size, (e.cache k).blocks (blockAt p) ≠ 0)
    (hborder : e.volume.inodeAddr (e.cache k).inode ≤ e.volume.blocksStart.toNat) :
    Directory ((e.setPos k (e.cache k).size).inodeWrite k x.encode).2 k (entries ++ [x]) := by
  have hsize := h.size
  have hlen := x.length_encode
  obtain ⟨w', hwrote, hwrite⟩ := inodeWrite_spec e.volume { e.cache k with pos := (e.cache k).size } x.encode
    (by rw [hlen]; dsimp only; omega) ⟨hown.marked, hown.inj⟩ (by rw [hlen]; exact hroom)
  have hspares := Spares.of_wrote hwrote
  have hself : (e.setPos k (e.cache k).size).cache k = { e.cache k with pos := (e.cache k).size } := e.setInode_self ..
  -- the record goes to a block in front of the data
  have hsync (p : BitVec 16) (hp : w'.2.blocks (blockAt p) ≠ 0) :
      byteAt (w'.1.inodeSync (w'.2.grow 24), w'.2.grow 24) p = byteAt w' p := by
    have hpos : 0 < (w'.2.blocks (blockAt p)).toNat := Nat.pos_of_ne_zero fun h0 => hp (BitVec.eq_of_toNat_eq h0)
    have haddr : w'.1.dataAddr (w'.2.blocks (blockAt p)) ≠ w'.1.inodeAddr (w'.2.grow 24).inode := by
      have hinode : w'.1.inodeAddr (w'.2.grow 24).inode = e.volume.inodeAddr (e.cache k).inode := by
        rw [hwrote.volume, Inode.grow, hwrote.record]
        rfl
      rw [hwrote.dataAddr_eq, hinode, Volume.dataAddr]
      dsimp only
      omega
    exact congrFun (Function.update_of_ne haddr _ w'.1.disk) (p.toNat % 512)
  unfold ExtFs.inodeWrite
  rw [hself]
  dsimp only [ExtFs.setPos]
  rw [ExtFs.setInode_volume, hwrite, hlen]
  have hcache (v : Volume) (inode : Inode) : ({ ((e.setInode k { e.cache k with pos := (e.cache k).size }).setInode k
      inode) with volume := v } : ExtFs).cache k = inode := ExtFs.setInode_self ..
  refine ⟨?_, ?_, ?_⟩
  · rw [hcache, Inode.grow, hwrote.record]
    show ((if (e.cache k).size = 0 then 0 else (e.cache k).size) + BitVec.ofNat 16 24).toNat = _
    rw [ite_eq_right_iff.mpr Eq.symm, BitVec.toNat_add, BitVec.toNat_ofNat, hsize, List.length_append,
      List.length_singleton]
    omega
  · have hzero (x : Nat) : (0 : BitVec 16) + BitVec.ofNat 16 x = BitVec.ofNat 16 x := BitVec.zero_add _
    have hback (j : Nat) (hj : 24 * entries.length = j) : BitVec.ofNat 16 j = (e.cache k).size := by
      rw [← hj, ← hsize, BitVec.ofNat_toNat, BitVec.setWidth_eq]
    rw [hcache, List.length_append, List.length_singleton, Nat.mul_add, bytesAt_add, List.flatMap_append,
      List.flatMap_singleton, ← h.bytes]
    congr 1
    · refine bytesAt_congr fun p hp => ?_
      have hlt : BitVec.ofNat 16 p < (e.cache k).size := by
        rw [BitVec.lt_def, BitVec.toNat_ofNat, hsize, Nat.mod_eq_of_lt (by omega)]
        exact hp
      show byteAt (w'.1.inodeSync (w'.2.grow 24), w'.2.grow 24) (0 + BitVec.ofNat 16 p) =
        byteAt (e.volume, e.cache k) (0 + BitVec.ofNat 16 p)
      rw [hzero, hsync _ (by rw [hspares.keep _ (hblocks _ hlt)]; exact hblocks _ hlt)]
      refine hspares.bytes _ (hblocks _ hlt) fun y hy heq => ?_
      have hnat : BitVec.ofNat 16 p = (e.cache k).size + BitVec.ofNat 16 y := heq
      have hval := congrArg BitVec.toNat hnat
      rw [BitVec.toNat_add, BitVec.toNat_ofNat, BitVec.toNat_ofNat, hsize] at hval
      omega
    · refine List.ext_getElem (by rw [length_bytesAt, hlen]) fun y _ hy => ?_
      have htouched : w'.2.blocks (blockAt ((e.cache k).size + BitVec.ofNat 16 y)) ≠ 0 := hwrote.touched y hy
      have hcontent : byteAt w' ((e.cache k).size + BitVec.ofNat 16 y) = x.encode[y] :=
        hwrote.content (by omega) y hy
      simp only [Volume.bytesAt, List.getElem_map, List.getElem_range]
      show byteAt (w'.1.inodeSync (w'.2.grow 24), w'.2.grow 24)
        (0 + BitVec.ofNat 16 (24 * entries.length) + BitVec.ofNat 16 y) = _
      rw [hzero, hback _ rfl, hsync _ htouched, hcontent]
  · intro y hy
    rcases List.mem_append.mp hy with hy | hy
    · exact h.numbers y hy
    · rwa [List.mem_singleton.mp hy]

end Add

/-! ## Where the records are read -/

/-- The position of the record that is read after `j` others. -/
def offset (j : Nat) : Nat := 24 * j + 8 * ((j - 1) / 21)

/-- The record there. -/
def record (v : Volume) (inode : Inode) (j : Nat) : List UInt8 :=
  v.bytesAt ({ inode with pos := 0 }.advance (offset j)) 24

section Records
variable {v : Volume} {inode : Inode} {j : Nat}

theorem toNat_advance_offset (h : offset j < 65536) :
    ({ inode with pos := 0 }.advance (offset j)).pos.toNat = offset j := by
  show (0#16 + BitVec.ofNat 16 (offset j)).toNat = offset j
  rw [BitVec.zero_add, BitVec.toNat_ofNat, Nat.mod_eq_of_lt h]

theorem offset_succ_lt (h : offset j < 65520) : offset (j + 1) < 65536 := by
  unfold offset at *
  omega

/-- Behind the first record a block takes 21 of them. -/
theorem offset_eq (q s : Nat) (hs : s < 21) : offset (21 * q + s + 1) = 512 * q + 24 * (s + 1) := by
  unfold offset
  omega

theorem offset_step (j : Nat) : offset (j + 1) =
    if offset j % 512 + 24 ≤ 512 then offset j + 24 else offset j + (512 - offset j % 512 + 24) := by
  cases j with
  | zero => rfl
  | succ i =>
    obtain ⟨q, s, hs, rfl⟩ : ∃ q s, s < 21 ∧ i = 21 * q + s := ⟨i / 21, i % 21, by omega, by omega⟩
    have hmod : (512 * q + 24 * (s + 1)) % 512 = 24 * (s + 1) := by omega
    by_cases hlast : s = 20
    · subst hlast
      have hidx : 21 * q + 20 + 1 + 1 = 21 * (q + 1) + 0 + 1 := by omega
      rw [offset_eq q 20 hs, hmod, if_neg (by decide), hidx, offset_eq (q + 1) 0 (by decide)]
      omega
    · have hidx : 21 * q + s + 1 + 1 = 21 * q + (s + 1) + 1 := by omega
      rw [offset_eq q s hs, hmod, if_pos (by omega), hidx, offset_eq q (s + 1) (by omega)]
      omega

/-- A read of a record moves to the offset of the next one. -/
theorem inodeRead_offset (v : Volume) (hsize : 24 ≤ inode.size.toNat) (hlt : offset j < inode.size.toNat)
    (hj : offset j < 65520) : v.inodeRead ({ inode with pos := 0 }.advance (offset j)) 24 =
      some (.bytes 24, { inode with pos := 0 }.advance (offset (j + 1)), record v inode j) := by
  have hpos : ({ inode with pos := 0 }.advance (offset j)).pos.toNat = offset j := toNat_advance_offset (by omega)
  have hleft : ({ inode with pos := 0 }.advance (offset j) : Inode).left ≠ 0 := by
    rw [Inode.left, hpos]
    exact Nat.sub_ne_zero_of_lt hlt
  have hin : ({ inode with pos := 0 }.advance (offset j) : Inode).inBlock = offset j % 512 := by
    rw [Inode.inBlock, hpos]
  have hmin : min 24 ({ inode with pos := 0 }.advance (offset j) : Inode).size.toNat = 24 := Nat.min_eq_left hsize
  have hstep := offset_step j
  by_cases hfit : offset j % 512 + 24 ≤ 512
  · rw [if_pos hfit] at hstep
    have hread := inodeRead_aligned (v := v) hleft (show 24 ≤ 102400 by decide) (.inr (by rw [hin]; exact hfit))
      (by rw [hmin]; intro j hj; omega)
    rw [hmin] at hread
    rw [hread, advance_advance, hstep]
    rfl
  · rw [if_neg hfit] at hstep
    have hread := inodeRead_crossing (v := v) hleft (by rw [hin]; omega) (by rw [hin]; omega)
      (show 24 ≤ 512 by decide) hsize
    rw [hread, hin, advance_advance, hstep]
    rfl

theorem le_offset (j : Nat) : 24 * j ≤ offset j := Nat.le_add_right ..

theorem offset_mono {i : Nat} (h : i ≤ j) : offset i ≤ offset j := by
  unfold offset
  have hdiv : (i - 1) / 21 ≤ (j - 1) / 21 := Nat.div_le_div_right (Nat.sub_le_sub_right h 1)
  omega

end Records

/-! ## The loop -/

/-- The first record that begins the name, of those that are read from the `j`th on. -/
def firstRecord (v : Volume) (inode : Inode) (name : List UInt8) (j : Nat) : Option (List UInt8) :=
  (((List.range' j (inode.size.toNat / 24 - j)).filter fun i => offset i < inode.size.toNat).map
    (record v inode)).find? (begins name)

section Loop
variable {e : ExtFs} {k : Slot} {n j : Nat} {name : List UInt8}

theorem firstRecord_end (v : Volume) {inode : Inode} (h : inode.size.toNat ≤ offset j) :
    firstRecord v inode name j = none := by
  unfold firstRecord
  rw [List.filter_eq_nil_iff.mpr]
  · rfl
  · intro i hi
    have hmono := offset_mono (List.mem_range'_1.mp hi).1
    simp only [decide_eq_true_eq]
    omega

theorem firstRecord_succ (v : Volume) {inode : Inode} (h : offset j < inode.size.toNat)
    (hn : inode.size.toNat = 24 * n) : firstRecord v inode name j =
      if begins name (record v inode j) then some (record v inode j) else firstRecord v inode name (j + 1) := by
  have hle := le_offset j
  obtain ⟨m, hm⟩ : ∃ m, inode.size.toNat / 24 - j = m + 1 := ⟨n - j - 1, by omega⟩
  have hm' : inode.size.toNat / 24 - (j + 1) = m := by omega
  unfold firstRecord
  rw [hm, hm', List.range'_succ, List.filter_cons_of_pos (by simpa using h), List.map_cons, List.find?_cons]
  split <;> simp_all

theorem setInode_setInode (e : ExtFs) (k : Slot) (inode inode' : Inode) :
    (e.setInode k inode).setInode k inode' = e.setInode k inode' := by
  unfold ExtFs.setInode
  dsimp only
  rw [Function.update_idem]

theorem inodeRead_setInode (e : ExtFs) (k : Slot) (inode : Inode) (size : Nat) :
    (e.setInode k inode).inodeRead k size =
      (e.volume.inodeRead inode size).map fun out => (out.1, e.setInode k out.2.1, out.2.2) := by
  unfold ExtFs.inodeRead
  simp only [ExtFs.setInode_volume, ExtFs.setInode_self, setInode_setInode]

/-- The state in which the `j`th record is read. -/
def atRecord (e : ExtFs) (k : Slot) (j : Nat) : ExtFs := e.setInode k ({ e.cache k with pos := 0 }.advance (offset j))

theorem size_atRecord (e : ExtFs) (k : Slot) (j : Nat) : ((atRecord e k j).cache k).size = (e.cache k).size := by
  rw [atRecord, ExtFs.setInode_self]
  rfl

/-- Behind the end the loop gives up. -/
theorem findEntry_end (hend : (e.cache k).size.toNat ≤ offset j) (hj : 24 * j ≤ (e.cache k).size.toNat)
    (hoff : offset j < 65536) (name entry : List UInt8) :
    ExtFs.findEntry name k (atRecord e k j) entry (24 * j) = some (none, atRecord e k j) := by
  have hleft : ({ e.cache k with pos := 0 }.advance (offset j) : Inode).left = 0 := by
    rw [Inode.left, toNat_advance_offset hoff]
    exact Nat.sub_eq_zero_of_le hend
  have hread : (atRecord e k j).inodeRead k 24 = some (.bytes 0, atRecord e k j, []) := by
    unfold atRecord
    rw [inodeRead_setInode, inodeRead_end hleft]
    rfl
  unfold ExtFs.findEntry
  rw [size_atRecord, if_pos hj]
  split
  · next h => cases hread.symm.trans h
  · next h => cases hread.symm.trans h
  · next h =>
    cases hread.symm.trans h
    rfl

/-- In front of it a record decides, or the next one is read. -/
theorem findEntry_step (hsize : 24 ≤ (e.cache k).size.toNat) (hlt : offset j < (e.cache k).size.toNat)
    (hoff : offset j < 65520) (name : List UInt8) {entry : List UInt8} (hentry : entry.length = 24) :
    ExtFs.findEntry name k (atRecord e k j) entry (24 * j) =
      if begins name (record e.volume (e.cache k) j) then
        some (some (record e.volume (e.cache k) j), atRecord e k (j + 1))
      else ExtFs.findEntry name k (atRecord e k (j + 1)) (record e.volume (e.cache k) j) (24 * (j + 1)) := by
  have hle := le_offset j
  have hread : (atRecord e k j).inodeRead k 24 =
      some (.bytes 24, atRecord e k (j + 1), record e.volume (e.cache k) j) := by
    unfold atRecord
    rw [inodeRead_setInode, inodeRead_offset e.volume hsize hlt hoff]
    rfl
  have hbuffer : record e.volume (e.cache k) j ++ entry.drop (record e.volume (e.cache k) j).length =
      record e.volume (e.cache k) j := by
    rw [record, length_bytesAt, ← hentry, List.drop_length, List.append_nil]
  rw [ExtFs.findEntry.eq_1 name k (atRecord e k j), size_atRecord, if_pos (by omega)]
  split
  · next h => cases hread.symm.trans h
  · next h =>
    cases hread.symm.trans h
    rw [hbuffer]
    rfl
  · next hret h =>
    cases hread.symm.trans h
    exact absurd rfl (hret 23)

/-- **The loop finds the first record that begins the name.** -/
theorem findEntry_eq (hn : (e.cache k).size.toNat = 24 * n) (hj : j ≤ n) (hoff : offset j < 65536) (name : List UInt8)
    {entry : List UInt8} (hentry : entry.length = 24) :
    ∃ i, ExtFs.findEntry name k (atRecord e k j) entry (24 * j) =
      some (firstRecord e.volume (e.cache k) name j, atRecord e k i) := by
  have hbound := (e.cache k).size.isLt
  -- On the records that are left.
  induction hm : n - j generalizing j entry with
  | zero =>
    have hle := le_offset j
    rw [firstRecord_end e.volume (by omega)]
    exact ⟨j, findEntry_end (by omega) (by omega) hoff name entry⟩
  | succ m ih =>
    by_cases hlt : offset j < (e.cache k).size.toNat
    · rw [findEntry_step (by omega) hlt (by omega) name hentry, firstRecord_succ e.volume hlt hn]
      split
      · exact ⟨j + 1, rfl⟩
      · exact ih (by omega) (offset_succ_lt (by omega)) (length_bytesAt ..) (by omega)
    · rw [firstRecord_end e.volume (Nat.le_of_not_lt hlt)]
      exact ⟨j, findEntry_end (Nat.le_of_not_lt hlt) (by omega) hoff name entry⟩

end Loop

/-! ## The entry that is found -/

/-- `inode_get` finds inode `i` in the cache, or a slot for it. -/
def ExtFs.CanGet (e : ExtFs) (i : BitVec 16) : Prop :=
  (∃ k, (e.cache k).inode = i) ∨ ∃ k, (e.cache k).type = 0 ∨ (e.cache k).nlink = 0

theorem inodeGet_eq_none_iff (e : ExtFs) (i : BitVec 16) : (e.inodeGet i).1 = none ↔ ¬ e.CanGet i := by
  obtain ⟨k, hk, hget⟩ | ⟨hnone, hget⟩ := e.inodeGet_cases i
  · rw [hget]
    simp [ExtFs.CanGet, show ∃ k, (e.cache k).inode = i from ⟨k, hk⟩]
  · rw [hget]
    obtain ⟨k, hk, hins⟩ | ⟨k, -, hk, hins⟩ | ⟨hfull, hins⟩ := e.inodeCacheInsert_cases (e.diskInode i)
    · rw [hins]
      simp [ExtFs.CanGet, show ∃ k, (e.cache k).type = 0 ∨ (e.cache k).nlink = 0 from ⟨k, .inl hk⟩]
    · rw [hins]
      simp [ExtFs.CanGet, show ∃ k, (e.cache k).type = 0 ∨ (e.cache k).nlink = 0 from ⟨k, .inr hk⟩]
    · rw [hins]
      refine iff_of_true rfl ?_
      rintro (⟨k, hk⟩ | ⟨k, hk | hk⟩)
      · exact hnone k hk
      · exact (hfull k).1 hk
      · exact (hfull k).2 hk

section Found
variable {e e₁ : ExtFs} {i : BitVec 16} {k : Slot} {entries : List DirectoryEntry} {name : List UInt8}

theorem canGet_atRecord (e : ExtFs) (k : Slot) (j : Nat) (i : BitVec 16) : (atRecord e k j).CanGet i ↔ e.CanGet i := by
  have hsame : ∀ l, ((atRecord e k j).cache l).inode = (e.cache l).inode ∧
      ((atRecord e k j).cache l).type = (e.cache l).type ∧ ((atRecord e k j).cache l).nlink = (e.cache l).nlink := by
    intro l
    by_cases hl : l = k
    · subst hl
      rw [atRecord, ExtFs.setInode_self]
      exact ⟨rfl, rfl, rfl⟩
    · rw [atRecord, e.setInode_of_ne _ hl]
      exact ⟨rfl, rfl, rfl⟩
  simp only [ExtFs.CanGet, (hsame _).1, (hsame _).2.1, (hsame _).2.2]

theorem setPos_eq_atRecord (e : ExtFs) (k : Slot) : e.setPos k 0 = atRecord e k 0 := by
  rw [atRecord, show offset 0 = 0 from rfl, advance_zero]
  rfl

/-- What the call returns, by the first record that begins the name. -/
theorem extOpenFromDirectory_eq (hget : e.inodeGet i = (some k, e₁)) {n : Nat}
    (hn : (e₁.cache k).size.toNat = 24 * n) (hname : IsName name) (entry : Vector UInt8 24) :
    (firstRecord e₁.volume (e₁.cache k) name 0 = none ∧ ∃ e', e.extOpenFromDirectory name i entry = some (0, e')) ∨
    ∃ x, firstRecord e₁.volume (e₁.cache k) name 0 = some x ∧
      ((e₁.CanGet (entryInode x) ∧ ∃ e', e.extOpenFromDirectory name i entry = some (entryInode x, e')) ∨
        (¬ e₁.CanGet (entryInode x) ∧ ∃ e', e.extOpenFromDirectory name i entry = some (-2, e'))) := by
  have hlen := hname.1
  obtain ⟨m, hloop⟩ := findEntry_eq hn (Nat.zero_le n) (show offset 0 < 65536 by decide) name entry.size_toArray
  have hcan (i' : BitVec 16) := canGet_atRecord e₁ k m i'
  unfold ExtFs.extOpenFromDirectory
  rw [hget]
  dsimp only
  rw [if_neg (by omega), setPos_eq_atRecord]
  have hstart : ExtFs.findEntry name k (atRecord e₁ k 0) entry.toList 0 =
      some (firstRecord e₁.volume (e₁.cache k) name 0, atRecord e₁ k m) := hloop
  rw [hstart]
  cases hfirst : firstRecord e₁.volume (e₁.cache k) name 0 with
  | none => exact .inl ⟨rfl, _, rfl⟩
  | some x =>
    refine .inr ⟨x, rfl, ?_⟩
    have hnone := inodeGet_eq_none_iff (atRecord e₁ k m) (entryInode x)
    rw [hcan] at hnone
    dsimp only
    cases hx : (atRecord e₁ k m).inodeGet (entryInode x) with
    | mk slot e' =>
      rw [hx] at hnone
      cases slot with
      | none => exact .inr ⟨hnone.mp rfl, _, rfl⟩
      | some l => exact .inl ⟨not_not.mp fun h => Option.some_ne_none l (hnone.mpr h), _, rfl⟩

/-! ## The first 22 records -/

theorem length_flatMap_encode (entries : List DirectoryEntry) :
    (entries.flatMap DirectoryEntry.encode).length = 24 * entries.length := by
  induction entries with
  | nil => rfl
  | cons x entries ih =>
    rw [List.flatMap_cons, List.length_append, DirectoryEntry.length_encode, ih, List.length_cons]
    omega

theorem offset_of_lt {j : Nat} (h : j < 22) : offset j = 24 * j := by
  unfold offset
  omega

/-- A record that is read where its entry is. -/
theorem record_eq (hdir : Directory e k entries) {j : Nat} (hj : j < entries.length) (h22 : j < 22) :
    record e.volume (e.cache k) j = entries[j].encode := by
  have hsplit : 24 * entries.length = 24 * j + (24 + 24 * (entries.length - (j + 1))) := by omega
  have hentries : entries = entries.take j ++ entries[j] :: entries.drop (j + 1) := by
    rw [← List.drop_eq_getElem_cons hj, List.take_append_drop]
  have hbytes := hdir.bytes
  rw [hsplit, bytesAt_add, bytesAt_add] at hbytes
  conv_rhs at hbytes => rw [hentries, List.flatMap_append, List.flatMap_cons]
  have hfront : (e.volume.bytesAt { e.cache k with pos := 0 } (24 * j)).length =
      ((entries.take j).flatMap DirectoryEntry.encode).length := by
    rw [length_bytesAt, length_flatMap_encode, List.length_take_of_le (Nat.le_of_lt hj)]
  have hrest := (List.append_inj hbytes hfront).2
  rw [record, offset_of_lt h22]
  exact (List.append_inj hrest (by rw [length_bytesAt, DirectoryEntry.length_encode])).1

theorem firstRecord_entries (hdir : Directory e k entries) (name : List UInt8) :
    firstRecord e.volume (e.cache k) name 0 =
      match (entries.take 22).find? fun x => x.name.isPrefixOf name with
      | some x => some x.encode
      | none => firstRecord e.volume (e.cache k) name 22 := by
  -- On the number of records in front of the 22nd.
  suffices h : ∀ d ≤ 22, firstRecord e.volume (e.cache k) name (22 - d) =
      match ((entries.drop (22 - d)).take d).find? fun x => x.name.isPrefixOf name with
      | some x => some x.encode
      | none => firstRecord e.volume (e.cache k) name 22 from h 22 le_rfl
  intro d hd
  induction d with
  | zero => rfl
  | succ d ih =>
    have hsize := hdir.size
    have hoff := offset_of_lt (show 22 - (d + 1) < 22 by omega)
    have hidx : 22 - (d + 1) + 1 = 22 - d := by omega
    by_cases hj : 22 - (d + 1) < entries.length
    · have hlt : offset (22 - (d + 1)) < (e.cache k).size.toNat := by omega
      rw [firstRecord_succ e.volume hlt hsize, record_eq hdir hj (by omega), begins_encode, hidx, ih (by omega),
        List.drop_eq_getElem_cons hj, hidx, List.take_succ_cons, List.find?_cons]
      cases hbegins : entries[22 - (d + 1)].name.isPrefixOf name with
      | true => rfl
      | false => rfl
    · have hmono := offset_mono (show 22 - (d + 1) ≤ 22 by omega)
      rw [firstRecord_end e.volume (by omega), firstRecord_end e.volume (by omega),
        List.drop_eq_nil_of_le (Nat.le_of_not_lt hj), List.take_nil]
      rfl

/-! ## The law -/

/-- The call returns the inode of the entry with the name, or 0. -/
def OpenLaw (e : ExtFs) (i : BitVec 16) (entries : List DirectoryEntry) (name : List UInt8) (entry : Vector UInt8 24) :
    Prop :=
  ∃ e', e.extOpenFromDirectory name i entry = some (named entries name, e')

/-- The first of the first 22 entries that begins the name has the inode of the name; or none does, and among the
records behind them, which are read at the wrong places, the first one that begins the name has this number. -/
def OpenOk (e : ExtFs) (k : Slot) (entries : List DirectoryEntry) (name : List UInt8) : Prop :=
  match (entries.take 22).find? fun x => x.name.isPrefixOf name with
  | some x => x.inode = named entries name ∧ e.CanGet x.inode
  | none =>
    match firstRecord e.volume (e.cache k) name 22 with
    | some x => entryInode x = named entries name ∧ e.CanGet (entryInode x)
    | none => named entries name = 0

theorem named_ne (hdir : Directory e k entries) (name : List UInt8) : named entries name ≠ -2 := by
  unfold named
  cases hfind : entries.find? fun x => x.name = name with
  | none => exact (by decide : (0 : BitVec 16) ≠ -2)
  | some x => exact hdir.numbers x (List.mem_of_find?_eq_some hfind)

theorem openOk_iff (hdir : Directory e k entries) (name : List UInt8) : OpenOk e k entries name ↔
    match firstRecord e.volume (e.cache k) name 0 with
    | some x => entryInode x = named entries name ∧ e.CanGet (entryInode x)
    | none => named entries name = 0 := by
  rw [OpenOk, firstRecord_entries hdir name]
  cases (entries.take 22).find? fun x => x.name.isPrefixOf name with
  | none => exact Iff.rfl
  | some x =>
    dsimp only
    rw [entryInode_encode]

theorem openLaw_of_result {entry : Vector UInt8 24} {m : BitVec 16} {e' : ExtFs}
    (h : e.extOpenFromDirectory name i entry = some (m, e')) :
    OpenLaw e i entries name entry ↔ m = named entries name := by
  rw [OpenLaw, h]
  constructor
  · rintro ⟨e'', heq⟩
    exact (Prod.mk.inj (Option.some.inj heq)).1
  · rintro rfl
    exact ⟨e', rfl⟩

/-- **The lookup is right exactly when** the first record that begins the name has the number of the name. -/
theorem openLaw_iff (e e₁ : ExtFs) (i : BitVec 16) (k : Slot) (entries : List DirectoryEntry) (name : List UInt8)
    (entry : Vector UInt8 24) (hget : e.inodeGet i = (some k, e₁)) (hdir : Directory e₁ k entries)
    (hname : IsName name) : OpenLaw e i entries name entry ↔ OpenOk e₁ k entries name := by
  have hne := named_ne hdir name
  rw [openOk_iff hdir]
  obtain ⟨hnone, e', hopen⟩ | ⟨x, hsome, ⟨hcan, e', hopen⟩ | ⟨hcan, e', hopen⟩⟩ :=
    extOpenFromDirectory_eq hget hdir.size hname entry
  · rw [hnone, openLaw_of_result hopen]
    exact eq_comm
  · rw [hsome, openLaw_of_result hopen]
    exact (and_iff_left hcan).symm
  · rw [hsome, openLaw_of_result hopen]
    exact iff_of_false hne.symm fun h => hcan h.2

/-- In a directory of at most 22 entries it is enough that the name begins with no other. -/
theorem openOk_of_short (hdir : Directory e k entries) (hshort : entries.length ≤ 22)
    (hbegin : ∀ x ∈ entries, x.name.isPrefixOf name → x.name = name) (hget : ∀ x ∈ entries, e.CanGet x.inode) :
    OpenOk e k entries name := by
  have htake : entries.take 22 = entries := List.take_of_length_le hshort
  have hsame : entries.find? (fun x => x.name.isPrefixOf name) = entries.find? fun x => x.name = name := by
    rw [← List.head?_filter, ← List.head?_filter]
    refine congrArg List.head? (List.filter_congr fun x hx => ?_)
    rw [Bool.eq_iff_iff, decide_eq_true_eq]
    exact ⟨hbegin x hx, fun heq => by rw [heq]; exact List.isPrefixOf_iff_prefix.mpr (List.prefix_refl name)⟩
  rw [OpenOk, htake, hsame]
  cases hfind : entries.find? fun x => x.name = name with
  | some x =>
    refine ⟨?_, hget x (List.mem_of_find?_eq_some hfind)⟩
    rw [named, hfind]
    rfl
  | none =>
    have hend : firstRecord e.volume (e.cache k) name 22 = none := by
      refine firstRecord_end e.volume ?_
      rw [hdir.size]
      exact (Nat.mul_le_mul_left 24 hshort).trans (le_offset 22)
    dsimp only
    rw [hend, named, hfind]
    rfl

end Found

/-! ## A directory with one file -/

theorem inodeGet_of_cached {e : ExtFs} {k : Slot} {i : BitVec 16}
    (h : Fin.find? (fun k => (e.cache k).inode == i) = some k) : e.inodeGet i = (some k, e) := by
  unfold ExtFs.inodeGet
  split
  · next l hl =>
    rw [Option.some.inj (hl.symm.trans h)]
  · next hl => cases hl.symm.trans h

/-- The file `a`. -/
def entryA : DirectoryEntry := ⟨[97], 2, DirectoryEntry.flagFile, by decide⟩

/-- A file system with a directory in slot 0 whose only entry is `a`, in its block 1. -/
def oneFile : ExtFs where
  volume := .createFileSystem 2 404 fun a o => if a = 8 then entryA.encode.getD o 0 else 0
  cache k :=
    if k = 0 then
      { Inode.zero with
        inode := 1
        type := fsTypeDirectory
        nlink := 1
        size := 24
        blocks := fun b => if b = 0 then 1 else 0 }
    else .zero

theorem oneFile_get : oneFile.inodeGet 1 = (some 0, oneFile) :=
  inodeGet_of_cached (Fin.find?_eq_some_iff.mpr ⟨by decide, fun j hj => absurd hj (Nat.not_lt_zero j)⟩)

theorem oneFile_directory : Directory oneFile 0 [entryA] := by
  refine ⟨by decide, by decide +kernel, ?_⟩
  intro x hx
  rw [List.mem_singleton.mp hx]
  decide

/-- `ab` begins with `a`, and is found there. -/
theorem openLaw_prefix : ¬ OpenLaw oneFile 1 [entryA] [97, 98] (Vector.replicate 24 0) := by
  have hfirst := firstRecord_entries oneFile_directory [97, 98]
  have hname : IsName [97, 98] := by decide
  obtain ⟨hnone, -⟩ | ⟨x, hsome, ⟨-, e', hopen⟩ | ⟨-, e', hopen⟩⟩ :=
    extOpenFromDirectory_eq oneFile_get oneFile_directory.size hname (Vector.replicate 24 0)
  · exact absurd (hnone.symm.trans hfirst) (by decide)
  · obtain rfl : x = entryA.encode := Option.some.inj (hsome.symm.trans hfirst)
    rw [openLaw_of_result hopen]
    decide
  · rw [openLaw_of_result hopen]
    decide

theorem openLaw_iff_exact : OpenLaw oneFile 1 [entryA] [97] (Vector.replicate 24 0) :=
  (openLaw_iff oneFile oneFile 1 0 [entryA] [97] (Vector.replicate 24 0) oneFile_get oneFile_directory
    (by decide)).mpr ⟨by decide, .inr ⟨1, .inl (by decide)⟩⟩

end RetrOS.Ext
