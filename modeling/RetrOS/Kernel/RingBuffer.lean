import RetrOS.Lib.Slice

/-!
# Ring buffers (`kernel/rbuffer.c`)

* `ringBufferAdd`, `ringBufferRead` : the two operations;
* `RingBuffer.contents` : the bytes between `start` and `end`, across the end of the buffer if it has
  wrapped around;
* `ringBufferAdd_fits` : an add that `Fits` appends; `ringBufferAdd_full` : a failing add changes nothing;
* `ringBufferRead_append`, `ringBufferRead_take` : a read takes from the front, and as much as was asked for
  if the buffer has not wrapped around.
-/

namespace RetrOS.RBuffer

open RetrOS.Lib

/-- `struct ring_buffer`. -/
structure RingBuffer where
  buffer : Nat → UInt8
  size : Nat
  start : Nat
  stop : Nat

abbrev errorRbufferFull : Int := 14

abbrev errorRbufferEmpty : Int := 15

abbrev errorOutOfMemory : Int := 24

def rbufferNew (size : Nat) : RingBuffer := { buffer := fun _ => 0, size := size, start := 0, stop := 0 }

def ringBufferAdd (r : RingBuffer) (data : List UInt8) : Int × RingBuffer :=
  if (r.size : Int) - r.stop + r.start < data.length then (-errorRbufferFull, r)
  else if r.stop + data.length ≤ r.size then
    (data.length, { r with buffer := Slice.write r.buffer r.stop data, stop := r.stop + data.length })
  else
    let first := r.size - r.stop
    let buffer := Slice.write (Slice.write r.buffer r.stop (data.take first)) 0 (data.drop first)
    (data.length, { r with buffer := buffer, stop := data.length - first })

/-- `__ring_buffer_read`: the result, the bytes copied out, and the buffer. A `kalloc` of a negative size
returns `NULL`. -/
def ringBufferRead (r : RingBuffer) (length : Nat) : Int × List UInt8 × RingBuffer :=
  if r.stop = r.start then (-errorRbufferEmpty, [], r)
  else if r.stop < r.start then (-errorOutOfMemory, [], r)
  else
    let available := r.stop - r.start
    let temp :=
      if r.start + available ≤ r.size then Slice.read r.buffer r.start available
      else Slice.read r.buffer r.start (r.size - r.start) ++ Slice.read r.buffer 0 (available - (r.size - r.start))
    let readLength := min available length
    let start := r.start + readLength
    (readLength, temp.take readLength,
      if start = r.stop then { r with start := 0, stop := 0 }
      else if start = r.size then { r with start := 0 }
      else { r with start := start })

/-- The bytes in the buffer. -/
def RingBuffer.contents (r : RingBuffer) : List UInt8 :=
  if r.start ≤ r.stop then Slice.read r.buffer r.start (r.stop - r.start)
  else Slice.read r.buffer r.start (r.size - r.start) ++ Slice.read r.buffer 0 r.stop

/-- The indices lie in the buffer. -/
structure RingBuffer.Ok (r : RingBuffer) : Prop where
  start : r.start ≤ r.size
  stop : r.stop ≤ r.size

/-- `n` more bytes fit: in one piece behind the others, or with a byte to spare. -/
def RingBuffer.Fits (r : RingBuffer) (n : Nat) : Prop :=
  r.start ≤ r.stop ∧ r.stop + n ≤ r.size ∨ r.contents.length + n < r.size

section
variable {r : RingBuffer}

theorem contents_of_le (h : r.start ≤ r.stop) : r.contents = Slice.read r.buffer r.start (r.stop - r.start) :=
  if_pos h

theorem contents_of_lt (h : r.stop < r.start) : r.contents =
    Slice.read r.buffer r.start (r.size - r.start) ++ Slice.read r.buffer 0 r.stop :=
  if_neg (by omega)

@[simp] theorem contents_rbufferNew (size : Nat) : (rbufferNew size).contents = [] := rfl

theorem ok_rbufferNew (size : Nat) : (rbufferNew size).Ok := ⟨Nat.zero_le _, Nat.zero_le _⟩

/-- An add that fits appends to the contents. -/
theorem ringBufferAdd_fits (hr : r.Ok) {data : List UInt8} (h : r.Fits data.length) :
    (ringBufferAdd r data).1 = data.length ∧ (ringBufferAdd r data).2.Ok ∧
      (ringBufferAdd r data).2.size = r.size ∧ (ringBufferAdd r data).2.contents = r.contents ++ data := by
  have h1 := hr.start
  have h2 := hr.stop
  rcases Nat.lt_or_ge r.stop r.start with hw | hw
  · -- the contents have wrapped around, and the data goes in front of them
    have hlen : r.contents.length = r.size - r.start + r.stop := by simp [contents_of_lt hw]
    have hfit : r.stop + data.length < r.start := by
      rcases h with h | h <;> omega
    rw [ringBufferAdd, if_neg (by omega), if_pos (by omega)]
    refine ⟨rfl, ⟨h1, by dsimp only; omega⟩, rfl, ?_⟩
    rw [contents_of_lt hfit, contents_of_lt hw]
    dsimp only
    have happ := Slice.read_write_append r.buffer 0 r.stop data
    rw [Nat.zero_add] at happ
    rw [happ, Slice.read_write_of_apart r.buffer (.inr (by omega)), List.append_assoc]
  · have hlen : r.contents.length = r.stop - r.start := by simp [contents_of_le hw]
    by_cases hend : r.stop + data.length ≤ r.size
    · rw [ringBufferAdd, if_neg (by omega), if_pos hend]
      refine ⟨rfl, ⟨h1, hend⟩, rfl, ?_⟩
      rw [contents_of_le (by dsimp only; omega), contents_of_le hw]
      dsimp only
      have happ := Slice.read_write_append r.buffer r.start (r.stop - r.start) data
      rw [Nat.add_sub_cancel' hw] at happ
      rw [← happ]
      congr 1
      omega
    · -- the data wraps around, and ends in front of the contents
      have hfit : data.length - (r.size - r.stop) < r.start := by
        rcases h with h | h <;> omega
      have htake : (data.take (r.size - r.stop)).length = r.size - r.stop := by
        rw [List.length_take]
        omega
      have hdrop : (data.drop (r.size - r.stop)).length = data.length - (r.size - r.stop) := List.length_drop ..
      rw [ringBufferAdd, if_neg (by omega), if_neg hend]
      refine ⟨rfl, ⟨h1, by dsimp only; omega⟩, rfl, ?_⟩
      rw [contents_of_lt (by exact hfit), contents_of_le hw]
      dsimp only
      rw [← hdrop, Slice.read_write_self, Slice.read_write_of_apart _ (.inr (by omega))]
      have happ := Slice.read_write_append r.buffer r.start (r.stop - r.start) (data.take (r.size - r.stop))
      rw [Nat.add_sub_cancel' hw, htake] at happ
      rw [show r.size - r.start = r.stop - r.start + (r.size - r.stop) by omega, happ, List.append_assoc,
        List.take_append_drop]

/-- An add that fails changes nothing. -/
theorem ringBufferAdd_full {data : List UInt8} (h : (ringBufferAdd r data).1 < 0) :
    (ringBufferAdd r data).2 = r := by
  unfold ringBufferAdd at h ⊢
  split
  · rfl
  · next hf =>
    rw [if_neg hf] at h
    split at h <;> dsimp only at h <;> omega

theorem ringBufferRead_append (hr : r.Ok) (length : Nat) :
    r.contents = (ringBufferRead r length).2.1 ++ (ringBufferRead r length).2.2.contents ∧
      (ringBufferRead r length).2.2.Ok ∧ (ringBufferRead r length).2.2.size = r.size := by
  have h1 := hr.start
  have h2 := hr.stop
  unfold ringBufferRead
  split
  · exact ⟨rfl, hr, rfl⟩
  · split
    · exact ⟨rfl, hr, rfl⟩
    · next hne hlt =>
      have hle : r.start ≤ r.stop := by omega
      dsimp only
      rw [if_pos (by omega), contents_of_le hle, Slice.take_read _ _ (Nat.min_le_left _ _)]
      have hmin := Nat.min_le_left (r.stop - r.start) length
      split
      · next hall =>
        have hread : min (r.stop - r.start) length = r.stop - r.start := by omega
        rw [hread]
        exact ⟨(List.append_nil _).symm, ⟨Nat.zero_le _, Nat.zero_le _⟩, rfl⟩
      · next hall =>
        rw [if_neg (by omega)]
        refine ⟨?_, ⟨by dsimp only; omega, h2⟩, rfl⟩
        rw [contents_of_le (by dsimp only; omega)]
        dsimp only
        rw [← Slice.read_add]
        congr 1
        omega

/-- A buffer that has not wrapped around returns as much as was asked for; the result is the number of bytes
copied, and negative exactly when there are none. -/
theorem ringBufferRead_take (hr : r.Ok) (hle : r.start ≤ r.stop) (length : Nat) :
    (ringBufferRead r length).2.1 = r.contents.take length ∧
      ((ringBufferRead r length).1 = (ringBufferRead r length).2.1.length ∧ r.contents ≠ [] ∨
        (ringBufferRead r length).1 < 0 ∧ r.contents = []) ∧
      (ringBufferRead r length).2.2.start ≤ (ringBufferRead r length).2.2.stop := by
  have h2 := hr.stop
  have hlen : r.contents.length = r.stop - r.start := by simp [contents_of_le hle]
  unfold ringBufferRead
  split
  · next he =>
    have hnil : r.contents = [] := List.eq_nil_of_length_eq_zero (by omega)
    exact ⟨by simp [hnil], .inr ⟨(by decide : -errorRbufferEmpty < 0), hnil⟩, hle⟩
  · next hne =>
    rw [if_neg (by omega)]
    dsimp only
    rw [if_pos (by omega), ← contents_of_le hle]
    have hmin := Nat.min_le_left (r.stop - r.start) length
    refine ⟨?_, .inl ⟨?_, fun hnil => ?_⟩, ?_⟩
    · rw [← hlen, List.take_eq_take_iff]
      omega
    · rw [List.length_take, hlen]
      omega
    · rw [hnil] at hlen
      simp only [List.length_nil] at hlen
      omega
    · split
      · exact Nat.le_refl _
      · rw [if_neg (by omega)]
        dsimp only
        omega

theorem ringBufferRead_wrapped (h : r.stop < r.start) (length : Nat) :
    ringBufferRead r length = (-errorOutOfMemory, [], r) := by
  rw [ringBufferRead, if_neg (by omega), if_pos h]

end

end RetrOS.RBuffer
