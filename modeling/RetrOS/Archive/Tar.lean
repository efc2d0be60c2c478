import RetrOS.Fs.StreamLaw
import RetrOS.Kernel.Kmem
import RetrOS.Lib.Rounds

/-!
# Archives (`lib/tar.c`)

The rounds of `tar_list` and `tar_extract` over the table of open files and the kernel heap.

* `octalStringToInt`, `Header.roundedSize` : the size of a member, rounded up to blocks in 32 bits;
* `tarListRound`, `tarExtractRound` : one round; `kernel_panic`, and a name that the driver writes behind its arrays,
  are calls that do not return;
* `ReadsOnce`, `TarLaw` : the loops return, and read no header twice;
* `Stops` : the walk over the headers of a file that `tar_list` makes comes to an end.

`fs_read` returns no 0, and its errors are large as unsigned numbers: behind the end the loops go on with the header
that they have.
-/

namespace RetrOS.Tar
open RetrOS.Lib RetrOS.Fs FileTable

/-- `struct tar_header` -/
abbrev Header := Vector UInt8 512

/-- `__octal_string_to_int` -/
def octalStringToInt (chars : List UInt8) (size : Nat) : BitVec 32 :=
  (chars.take size).foldl (fun output c => output * 8 + c.toBitVec.signExtend 32 - 48) 0

namespace Header

/-- The string that begins at `name`. -/
def name (h : Header) : List UInt8 := h.toList.takeWhile (· ≠ 0)

/-- `name[0]` -/
def initial (h : Header) : UInt8 := h[0]

/-- The number in `size`. -/
def size (h : Header) : BitVec 32 := octalStringToInt (h.toList.drop 124) 11

/-- `blocks_to_skip * TAR_BLOCK_SIZE` -/
def roundedSize (h : Header) : BitVec 32 := (h.size + 512 - 1) / 512 * 512

/-- What is read goes over the front of the header. -/
def store (h : Header) (bytes : List UInt8) : Header := .ofFn fun k => bytes.getD k h[k]

end Header

structure TarState where
  table : FileTable
  heap : Kmem.Heap
  /-- the bytes at the addresses of the heap -/
  memory : Nat → UInt8
  header : Header

/-- `bytes_read = fs_read(fd, &header, sizeof(header))` -/
def TarState.readHeader (s : TarState) (fd : Int) : BitVec 32 × TarState :=
  let r := s.table.fsRead fd 512
  (BitVec.ofInt 32 r.1.1, { s with table := r.2, header := s.header.store r.1.2 })

/-- One round of `tar_list`. -/
def tarListRound (fd : Int) (s : TarState) : Round TarState (Int × TarState) :=
  let (bytesRead, s) := s.readHeader fd
  if bytesRead = 0 then .done (0, s)
  else if bytesRead < 512 then .done (0, s)
  else if s.header.initial = 0 then .done (0, s)
  else .next { s with table := (s.table.fsSeek fd s.header.roundedSize .cur).2 }

/-- The rest of a round of `tar_extract`, with a buffer. -/
def extractMember (R : Kmem.Region) (fd : Int) (buf : Nat) (s : TarState) : Round TarState (Int × TarState) :=
  let bytesToRead := s.header.roundedSize
  let r := s.table.fsRead fd bytesToRead.toNat
  let s := { s with table := r.2, memory := Slice.write s.memory buf r.1.2 }
  if r.1.1 < 0 then .done (-1, { s with heap := Kmem.kfree R s.heap buf })
  else
    match s.table.fsOpen s.header.name (fsFileFlagCreate ||| fsFileFlagWrite.setWidth 32) with
    | none => .stuck
    | some (newFile, table) =>
      if newFile < 0 then .done (-1, { s with table := table, heap := Kmem.kfree R s.heap buf })
      else
        match table.fsWrite newFile (Slice.read s.memory buf bytesToRead.toNat) with
        | none => .stuck
        | some (_, table) => .next { s with table := (table.fsClose newFile).2, heap := Kmem.kfree R s.heap buf }

/-- One round of `tar_extract`. -/
def tarExtractRound (R : Kmem.Region) (fd : Int) (s : TarState) : Round TarState (Int × TarState) :=
  let (bytesRead, s) := s.readHeader fd
  if bytesRead = 0 then .done (0, s)
  else if bytesRead < 512 then .done (0, s)
  else if s.header.initial = 0 then .done (0, s)
  else
    match Kmem.kalloc R s.heap s.header.roundedSize with
    | .error _ => .stuck
    | .ok (none, heap) => .done (-1, { s with heap := heap })
    | .ok (some buf, heap) => extractMember R fd buf { s with heap := heap }

/-! ## The law -/

/-- The round reads a header. -/
def readsHeader (i : FileSlot) (s : TarState) : Bool := (s.table.fsRead (fsFile2fd i) 512).1.1 = 512

/-- The place in the archive where a round begins. -/
def position (i : FileSlot) (s : TarState) : Nat := (s.table.fsFileTable i).offset.toNat

/-- The loop returns, and reads no header twice. -/
def ReadsOnce (round : TarState → Round TarState (Int × TarState)) (i : FileSlot) (s : TarState) : Prop :=
  ∃ n l r, Round.heads round n s = some (l, r) ∧ ((l.filter (readsHeader i)).map (position i)).Nodup

def TarLaw (R : Kmem.Region) (i : FileSlot) (s : TarState) : Prop :=
  ReadsOnce (tarListRound (fsFile2fd i)) i s ∧ ReadsOnce (tarExtractRound R (fsFile2fd i)) i s

/-- The header at a place of a file. -/
def headerAt (data : List UInt8) (o : Nat) : Header := .ofFn fun k => data.getD (o + k) 0

/-- The header that a round at `o` has: behind the end it is the one of the round before. -/
def headerOf (data : List UInt8) (o : Nat) (h : Header) : Header := if o < data.length then headerAt data o else h

/-- Less than a header is left. -/
def Short (data : List UInt8) (o : Nat) : Prop := o < data.length ∧ data.length < o + 512

/-- Where the next header is looked for, in 32 bits. -/
def nextPosition (data : List UInt8) (o : Nat) (h : Header) : Nat :=
  ((if o < data.length then o + 512 else o) + (headerOf data o h).roundedSize.toNat) % 2 ^ 32

/-- From header to header one comes to a short one or to one with an empty name. -/
inductive Stops (data : List UInt8) : Nat → Header → Prop
  | short {o : Nat} {h : Header} : Short data o → Stops data o h
  | empty {o : Nat} {h : Header} : ¬ Short data o → (headerOf data o h).initial = 0 → Stops data o h
  | next {o : Nat} {h : Header} : ¬ Short data o → (headerOf data o h).initial ≠ 0 →
      Stops data (nextPosition data o h) (headerOf data o h) → Stops data o h

/-- The extraction leaves the archive as it is, in every round. -/
def Keeps (R : Kmem.Region) (i : FileSlot) (s : TarState) (data : List UInt8) : Prop :=
  ∀ t, Reaches (tarExtractRound R (fsFile2fd i)) s t → t.table.fat16.Holds
    ((s.table.fsFileTable i).directory.setWidth 16) (s.table.fsFileTable i).identifier.toNat data

end RetrOS.Tar
