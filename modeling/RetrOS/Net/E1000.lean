import RetrOS.Lib.Ring

/-!
# The network card (`drivers/e1000.c`)

The driver and the card share two rings of 16 descriptors, each with its buffer. The bit `DD` of a descriptor says that
the card is done with it; the card works from its head register up to the tail register, which the driver sets.

* `e1000Attach`, `e1000Transmit`, `e1000Receive` : the driver;
* `cardSend`, `cardStore` : the card, as its documentation has it; it does nothing where the head is the tail;
* `Transmits`, `Receives` : the rings hold these frames (`Transmits.transmit`, `Transmits.send`,
  `Receives.store`, `Receives.receive`);
* `Transmits.stalled` : 16 frames in the ring of the transmitter look like none to the card, and it sends none of them.

A frame that the card stores fits in one buffer. A call of the driver and a step of the card are each done at once.
-/

namespace RetrOS.E1000
open RetrOS.Lib

/-- The memory behind a descriptor, `palloc(PACKET_SIZE)`. -/
structure Buffer where
  bytes : List UInt8
  length_eq : bytes.length = 2048

/-- `memcpy` to a buffer, of no more bytes than it has. -/
def Buffer.copy (buf : Buffer) (data : List UInt8) (h : data.length ≤ 2048) : Buffer where
  bytes := data ++ buf.bytes.drop data.length
  length_eq := by
    rw [List.length_append, List.length_drop, buf.length_eq]
    omega

/-- `struct e1000_tx_desc`, without its address and what is always zero. -/
structure TxDesc where
  length : BitVec 16
  cmd : BitVec 8
  status : BitVec 8

/-- `struct e1000_rx_desc`, without its address and what is always zero. -/
structure RxDesc where
  length : BitVec 16
  status : BitVec 8

/-- The driver's data and the registers of the card. -/
structure Device where
  txDescList : Nat → TxDesc
  txBuf : Nat → Buffer
  rxDescList : Nat → RxDesc
  rxBuf : Nat → Buffer
  next : Nat
  tdh : Nat
  tdt : Nat
  rdh : Nat
  rdt : Nat
  icr : BitVec 32
  /-- what the card has read of a frame whose end is in another descriptor -/
  part : List UInt8

/-- The rings of `e1000_attach`: `_e1000_tx_init` and `_e1000_rx_init`, with the pages of `palloc`. -/
def e1000Attach (txBuf rxBuf : Nat → Buffer) : Device where
  txDescList _ := ⟨0, (0x08000000#32 >>> 24 ||| 0x01000000#32 >>> 24).setWidth 8, 1⟩
  txBuf := txBuf
  rxDescList _ := ⟨0, 0⟩
  rxBuf := rxBuf
  next := 0
  tdh := 0
  tdt := 0
  rdh := 0
  rdt := 15
  icr := 0
  part := []

/-- `e1000_transmit`. The flag `E1000_TXD_CMD_EOP` is not in the eight bits of `cmd`. -/
def e1000Transmit (c : Device) (buffer : List UInt8) : Int × Device :=
  if h : 2048 ≤ buffer.length then (-1, c)
  else
    let tail := c.tdt
    let txdesc := c.txDescList tail
    if txdesc.status &&& 1 = 0 then (-1, c)
    else (buffer.length, { c with
      txBuf := Function.update c.txBuf tail ((c.txBuf tail).copy buffer (by omega))
      txDescList := Function.update c.txDescList tail
        ⟨BitVec.ofNat 16 buffer.length, (txdesc.cmd.setWidth 32 ||| 0x01000000#32).setWidth 8, txdesc.status &&& ~~~1⟩
      tdt := (tail + 1) % 16 })

/-- `e1000_receive`: the result, the bytes copied to the buffer, and what is left. -/
def e1000Receive (c : Device) (size : BitVec 32) : Int × List UInt8 × Device :=
  let desc := c.rxDescList c.next
  if desc.status &&& 1 = 0 then (-1, [], c)
  else
    let length := desc.length.toNat
    let next := (c.next + 1) % 16
    let c' := { c with
      rxDescList := Function.update c.rxDescList c.next { desc with status := 0 }
      next := next
      rdt := (next + 16 - 1) % 16 }
    if 2048 ≤ length ∨ size.toNat < length then (-1, [], c')
    else (length, (c.rxBuf c.next).bytes.take length, c')

/-- The card sends what the descriptor at the head holds, up to the end of a frame, and reports if it is told to. -/
def cardSend (c : Device) : Option (List UInt8) × Device :=
  if c.tdh = c.tdt then (none, c)
  else
    let desc := c.txDescList c.tdh
    let bytes := c.part ++ (c.txBuf c.tdh).bytes.take desc.length.toNat
    let c' := { c with
      txDescList := Function.update c.txDescList c.tdh
        { desc with status := if desc.cmd &&& 8 = 0 then desc.status else desc.status ||| 1 }
      tdh := (c.tdh + 1) % 16 }
    if desc.cmd &&& 1 = 0 then (none, { c' with part := bytes }) else (some bytes, { c' with part := [] })

/-- The card stores a frame at its head, or misses it; it tells the cause of the interrupt. -/
def cardStore (c : Device) (frame : List UInt8) : Bool × Device :=
  if h : 2048 < frame.length then (false, c)
  else if c.rdh = c.rdt then (false, { c with icr := c.icr ||| 0x40 })
  else (true, { c with
    rxBuf := Function.update c.rxBuf c.rdh ((c.rxBuf c.rdh).copy frame (by omega))
    rxDescList := Function.update c.rxDescList c.rdh ⟨BitVec.ofNat 16 frame.length, 3⟩
    rdh := (c.rdh + 1) % 16
    icr := c.icr ||| 0x80 })

/-- The frame that waits to be sent in a slot, if there is one. -/
def txFrame (desc : TxDesc) (buf : Buffer) : Option (List UInt8) :=
  if desc.status &&& 1 = 0 then some (buf.bytes.take desc.length.toNat) else none

/-- The frame that waits to be read in a slot, if there is one. -/
def rxFrame (desc : RxDesc) (buf : Buffer) : Option (List UInt8) :=
  if desc.status &&& 1 = 0 then none else some (buf.bytes.take desc.length.toNat)

def txSlots (descs : Nat → TxDesc) (bufs : Nat → Buffer) (i : Nat) : Option (List UInt8) := txFrame (descs i) (bufs i)

def rxSlots (descs : Nat → RxDesc) (bufs : Nat → Buffer) (i : Nat) : Option (List UInt8) := rxFrame (descs i) (bufs i)

/-- The frames between the head and the tail of the transmitter. -/
structure Transmits (c : Device) (l : List (List UInt8)) : Prop where
  ring : Ring 16 none (txSlots c.txDescList c.txBuf) c.tdh c.tdt (l.map some)
  /-- every descriptor is the end of a frame, and asks for a report -/
  cmd : ∀ i, (c.txDescList i).cmd = 9
  part : c.part = []

/-- The frames that the driver has not read; the driver keeps one slot from the card. -/
structure Receives (c : Device) (l : List (List UInt8)) : Prop where
  ring : Ring 16 none (rxSlots c.rxDescList c.rxBuf) c.next c.rdh (l.map some)
  rdt : c.rdt = (c.next + 15) % 16
  length_le : l.length ≤ 15
  fits : ∀ i, (c.rxDescList i).length.toNat ≤ 2048

section
variable {c : Device} {l : List (List UInt8)} {frame : List UInt8}

theorem Buffer.take_copy (buf : Buffer) {data : List UInt8} (h : data.length ≤ 2048) :
    (buf.copy data h).bytes.take (BitVec.ofNat 16 data.length).toNat = data := by
  have hlen : (BitVec.ofNat 16 data.length).toNat = data.length := by
    rw [BitVec.toNat_ofNat]
    omega
  rw [hlen]
  exact List.take_left

theorem rxFrame_free (length : BitVec 16) (buf : Buffer) : rxFrame ⟨length, 0⟩ buf = none :=
  if_pos (show 0#8 &&& 1 = 0 by decide)

theorem rxFrame_copy (buf : Buffer) {data : List UInt8} (h : data.length ≤ 2048) :
    rxFrame ⟨BitVec.ofNat 16 data.length, 3⟩ (buf.copy data h) = some data := by
  have hdone : ¬(3#8 &&& 1 = 0) := by decide
  exact (if_neg hdone).trans (congrArg some (buf.take_copy h))

theorem txSlots_update (descs : Nat → TxDesc) (bufs : Nat → Buffer) (i : Nat) (desc : TxDesc) (buf : Buffer) :
    txSlots (Function.update descs i desc) (Function.update bufs i buf) =
      Function.update (txSlots descs bufs) i (txFrame desc buf) := by
  funext k
  exact Function.apply_update₂ (fun _ => txFrame) descs bufs i desc buf k

theorem rxSlots_update (descs : Nat → RxDesc) (bufs : Nat → Buffer) (i : Nat) (desc : RxDesc) (buf : Buffer) :
    rxSlots (Function.update descs i desc) (Function.update bufs i buf) =
      Function.update (rxSlots descs bufs) i (rxFrame desc buf) := by
  funext k
  exact Function.apply_update₂ (fun _ => rxFrame) descs bufs i desc buf k

/-- The descriptor is written, and the buffer kept. -/
theorem txSlots_desc (descs : Nat → TxDesc) (bufs : Nat → Buffer) (i : Nat) (desc : TxDesc) :
    txSlots (Function.update descs i desc) bufs = Function.update (txSlots descs bufs) i (txFrame desc (bufs i)) := by
  rw [← txSlots_update, Function.update_eq_self]

theorem rxSlots_desc (descs : Nat → RxDesc) (bufs : Nat → Buffer) (i : Nat) (desc : RxDesc) :
    rxSlots (Function.update descs i desc) bufs = Function.update (rxSlots descs bufs) i (rxFrame desc (bufs i)) := by
  rw [← rxSlots_update, Function.update_eq_self]

theorem transmits_attach (txBuf rxBuf : Nat → Buffer) : Transmits (e1000Attach txBuf rxBuf) [] where
  ring := Ring.empty (by decide) fun _ => if_neg (show ¬(1#8 &&& 1 = 0) by decide)
  cmd _ := by rfl
  part := rfl

theorem receives_attach (txBuf rxBuf : Nat → Buffer) : Receives (e1000Attach txBuf rxBuf) [] where
  ring := Ring.empty (by decide) fun i => rxFrame_free 0 (rxBuf i)
  rdt := rfl
  length_le := by decide
  fits _ := Nat.zero_le _

/-! ## The ring of the transmitter -/

theorem Transmits.length_le (h : Transmits c l) : l.length ≤ 16 := by
  have hlen := h.ring.length_le
  rwa [List.length_map] at hlen

/-- All slots are taken: the two ends of the ring are the same. -/
theorem Transmits.tdh_eq_tdt_iff (h : Transmits c l) : c.tdh = c.tdt ↔ l = [] ∨ l.length = 16 := by
  rw [h.ring.toOccupied.first_eq_next_iff, List.map_eq_nil_iff, List.length_map]

/-- The driver looks at the slot of the tail; it is taken if all are. -/
theorem Transmits.status_tail (h : Transmits c l) : (c.txDescList c.tdt).status &&& 1 = 0 ↔ l.length = 16 := by
  constructor
  · intro hdd
    by_contra hne
    have hroom : (l.map some).length < 16 := by
      rw [List.length_map]
      exact lt_of_le_of_ne h.length_le hne
    have hslot := h.ring.slot_tail hroom
    rw [txSlots, txFrame, if_pos hdd] at hslot
    cases hslot
  · intro hfull
    have hpos : 0 < (l.map some).length := by
      rw [List.length_map]
      omega
    have hslot := h.ring.occupied 0 hpos
    rw [Nat.add_zero, Nat.mod_eq_of_lt h.ring.head_lt, h.tdh_eq_tdt_iff.mpr (.inr hfull), txSlots, txFrame] at hslot
    by_contra hdd
    rw [if_neg hdd, List.getElem_map] at hslot
    cases hslot

/-- A frame that is too long, or has no slot, is refused and changes nothing. -/
theorem Transmits.refused (h : Transmits c l) (hno : 2048 ≤ frame.length ∨ l.length = 16) :
    e1000Transmit c frame = (-1, c) := by
  unfold e1000Transmit
  split
  · rfl
  · next hlen => exact if_pos (h.status_tail.mpr (hno.resolve_left hlen))

/-- Any other one gets the slot of the tail. -/
theorem Transmits.transmit (h : Transmits c l) (hlen : frame.length < 2048) (hroom : l.length < 16) :
    (e1000Transmit c frame).1 = frame.length ∧ Transmits (e1000Transmit c frame).2 (l ++ [frame]) := by
  have hdd : ¬(c.txDescList c.tdt).status &&& 1 = 0 := fun hdd => absurd (h.status_tail.mp hdd) hroom.ne
  have hpush := h.ring.push (by rwa [List.length_map]) (some frame)
  rw [e1000Transmit, dif_neg (Nat.not_le.mpr hlen)]
  dsimp only
  rw [if_neg hdd]
  refine ⟨rfl, ⟨?_, ?_, h.part⟩⟩
  · have hclear : (c.txDescList c.tdt).status &&& ~~~1 &&& 1 = 0 := by
      rw [BitVec.and_assoc]
      exact BitVec.and_zero
    rw [List.map_append, txSlots_update, txFrame, if_pos hclear, Buffer.take_copy]
    exact hpush
  · refine (Function.forall_update_iff c.txDescList fun _ desc => desc.cmd = 9).mpr ⟨?_, fun i _ => h.cmd i⟩
    dsimp only
    rw [h.cmd]
    decide

/-- The card sends the first frame, and its slot can be used again. -/
theorem Transmits.send (h : Transmits c (frame :: l)) (hroom : l.length < 15) :
    (cardSend c).1 = some frame ∧ Transmits (cardSend c).2 l := by
  have hne : c.tdh ≠ c.tdt := by
    intro heq
    rcases h.tdh_eq_tdt_iff.mp heq with hnil | hfull
    · cases hnil
    · exact absurd (Nat.succ.inj hfull) hroom.ne
  have hpop := h.ring.pop
  have hslot : txFrame (c.txDescList c.tdh) (c.txBuf c.tdh) = some frame := h.ring.slot_head
  unfold txFrame at hslot
  split at hslot
  · next hdd =>
    rw [cardSend, if_neg hne]
    dsimp only
    rw [h.cmd, h.part, List.nil_append, if_neg (by decide), if_neg (by decide)]
    refine ⟨hslot, ⟨?_, ?_, rfl⟩⟩
    · have hdone : ¬((c.txDescList c.tdh).status ||| 1) &&& 1 = 0 := by
        rw [BitVec.and_or_distrib_right, hdd]
        decide
      dsimp only
      rw [txSlots_desc, txFrame, if_neg hdone]
      exact hpop
    · exact (Function.forall_update_iff c.txDescList fun _ desc => desc.cmd = 9).mpr ⟨rfl, fun i _ => h.cmd i⟩
  · cases hslot

/-- With no frame in the ring, or with no slot that is free, the card sends nothing. -/
theorem Transmits.idle (h : Transmits c l) (hno : l = [] ∨ l.length = 16) : cardSend c = (none, c) :=
  if_pos (h.tdh_eq_tdt_iff.mpr hno)

/-! ## The ring of the receiver -/

/-- The slots that the card has are those that are neither read nor waiting; the last one it does not get. -/
theorem Receives.rdh_eq_rdt_iff (h : Receives c l) : c.rdh = c.rdt ↔ l.length = 15 := by
  have hrdh := h.ring.tail_eq
  rw [List.length_map] at hrdh
  rw [hrdh, h.rdt]
  constructor
  · intro heq
    exact ring_index_inj (Nat.lt_succ_of_le h.length_le) (by decide) heq
  · intro hfull
    rw [hfull]

/-- The card stores a frame behind the others. -/
theorem Receives.store (h : Receives c l) (hlen : frame.length ≤ 2048) (hroom : l.length < 15) :
    (cardStore c frame).1 = true ∧ Receives (cardStore c frame).2 (l ++ [frame]) := by
  have hne : c.rdh ≠ c.rdt := fun heq => hroom.ne (h.rdh_eq_rdt_iff.mp heq)
  have hpush := h.ring.push (by rw [List.length_map]; omega) (some frame)
  rw [cardStore, dif_neg (Nat.not_lt.mpr hlen), if_neg hne]
  refine ⟨rfl, ⟨?_, h.rdt, ?_, ?_⟩⟩
  · dsimp only
    rw [List.map_append, rxSlots_update, rxFrame_copy]
    exact hpush
  · rw [List.length_append]
    exact hroom
  · refine (Function.forall_update_iff c.rxDescList fun _ desc => desc.length.toNat ≤ 2048).mpr ⟨?_, fun i _ => h.fits i⟩
    rw [BitVec.toNat_ofNat]
    exact (Nat.mod_le _ _).trans hlen

/-- It misses one for which there is no slot. -/
theorem Receives.missed (h : Receives c l) (hno : 2048 < frame.length ∨ l.length = 15) :
    (cardStore c frame).1 = false ∧ Receives (cardStore c frame).2 l := by
  unfold cardStore
  split
  · exact ⟨rfl, h⟩
  · next hlen =>
    rw [if_pos (h.rdh_eq_rdt_iff.mpr (hno.resolve_left hlen))]
    exact ⟨rfl, ⟨h.ring, h.rdt, h.length_le, h.fits⟩⟩

/-- With no frame in the ring nothing is read. -/
theorem Receives.empty (h : Receives c []) (size : BitVec 32) : e1000Receive c size = (-1, [], c) := by
  have hslot : rxFrame (c.rxDescList c.rdh) (c.rxBuf c.rdh) = none := h.ring.slot_tail (by decide)
  have hhead : c.rdh = c.next := h.ring.tail_eq.trans (Nat.mod_eq_of_lt h.ring.head_lt)
  rw [hhead, rxFrame] at hslot
  split at hslot
  · next hdd => exact if_pos hdd
  · cases hslot

/-- The first frame is read if it fits in the buffer, and lost if not; its slot goes to the card. -/
theorem Receives.receive (h : Receives c (frame :: l)) (size : BitVec 32) :
    ∃ c', e1000Receive c size = (if frame.length < 2048 ∧ frame.length ≤ size.toNat then
        ((frame.length : Int), frame, c') else (-1, [], c')) ∧ Receives c' l := by
  have hpop := h.ring.pop
  have hslot : rxFrame (c.rxDescList c.next) (c.rxBuf c.next) = some frame := h.ring.slot_head
  unfold rxFrame at hslot
  split at hslot
  · cases hslot
  · next hdd =>
    have hframe := Option.some.inj hslot
    have hlen : (c.rxDescList c.next).length.toNat = frame.length := by
      rw [← hframe, List.length_take, (c.rxBuf c.next).length_eq, Nat.min_eq_left (h.fits c.next)]
    refine ⟨{ c with
      rxDescList := Function.update c.rxDescList c.next { c.rxDescList c.next with status := 0 }
      next := (c.next + 1) % 16
      rdt := ((c.next + 1) % 16 + 16 - 1) % 16 }, ?_, ?_, rfl, ?_, ?_⟩
    · rw [e1000Receive]
      dsimp only
      rw [if_neg hdd, hframe, hlen]
      split
      · next hno => exact (if_neg (by omega)).symm
      · next hok => exact (if_pos (by omega)).symm
    · dsimp only
      rw [rxSlots_desc, rxFrame_free]
      exact hpop
    · exact (Nat.le_succ _).trans h.length_le
    · exact (Function.forall_update_iff c.rxDescList fun _ desc => desc.length.toNat ≤ 2048).mpr
        ⟨h.fits c.next, fun i _ => h.fits i⟩

end

end RetrOS.E1000
