import RetrOS.Net.E1000

/-!
# Frames in and out through the card (`drivers/e1000.c`, `kernel/kthreads/networking.c`)

`__net_transmit_skb` writes a frame to the card, and `e1000_callback` reads one at each interrupt of the receiver. The
card raises the interrupt with every frame that it stores, and reading `ICR` takes back all causes at once.

* `netIncomingPacket`, `e1000Callback`, `netTransmitSkb` : the calls;
* `Op`, `step` : these and the steps of the card, in any order;
* `Inv` : the two rings, and what of the frames is where (`Inv.step`);
* `frames_sent` : the frames leave in the order in which they were accepted, and none leaves after sixteen wait;
* `frames_left_behind` : the frames come in the order in which they were stored; each that was stored when an interrupt
  was already pending stays behind for good.

The interface of the card is the one that `e1000_attach` has registered.
-/

namespace RetrOS.E1000
open RetrOS.Lib

/-- `net_incoming_packet` for the card: the data of the buffer that is added to the receive queue, if there is one. -/
def netIncomingPacket (c : Device) : Option (List UInt8) × Device :=
  let (len, data, c) := e1000Receive c 0x600
  if len ≤ 0 then (none, c) else (some data, c)

/-- `e1000_callback`; to read `ICR` is to clear it. -/
def e1000Callback (c : Device) : Option (List UInt8) × Device :=
  let icr := c.icr
  let c := { c with icr := 0 }
  if icr &&& 0x80 = 0 then (none, c) else netIncomingPacket c

/-- The card and the network layer, and what has happened. -/
structure Machine where
  c : Device
  /-- what was added to `netd.skb_rx_queue` -/
  skbRxQueue : List (List UInt8)
  /-- the frames for which `e1000_transmit` did not fail, which `netd.stats.sent` counts -/
  accepted : List (List UInt8)
  sent : List (List UInt8)
  stored : List (List UInt8)
  /-- the number of interrupts that had the receiver as their cause -/
  taken : Nat
  /-- the number of frames that were stored when such an interrupt was pending -/
  coalesced : Nat

def start (txBuf rxBuf : Nat → Buffer) : Machine := ⟨e1000Attach txBuf rxBuf, [], [], [], [], 0, 0⟩

/-- `__net_transmit_skb` for a buffer of the card's interface. -/
def netTransmitSkb (s : Machine) (frame : List UInt8) : Machine :=
  let (ret, c) := e1000Transmit s.c frame
  if ret < 0 then { s with c := c } else { s with c := c, accepted := s.accepted ++ [frame] }

inductive Op
  | transmit (frame : List UInt8)
  | interrupt
  /-- the card sends a frame -/
  | send
  /-- a frame comes to the card -/
  | store (frame : List UInt8)
  deriving DecidableEq

def step (s : Machine) : Op → Machine
  | .transmit frame => netTransmitSkb s frame
  | .interrupt =>
    let (skb, c) := e1000Callback s.c
    { s with
      c := c
      skbRxQueue := s.skbRxQueue ++ skb.toList
      taken := if s.c.icr &&& 0x80 = 0 then s.taken else s.taken + 1 }
  | .send =>
    let (frame, c) := cardSend s.c
    { s with c := c, sent := s.sent ++ frame.toList }
  | .store frame =>
    let (done, c) := cardStore s.c frame
    if done then
      { s with
        c := c
        stored := s.stored ++ [frame]
        coalesced := if s.c.icr &&& 0x80 = 0 then s.coalesced else s.coalesced + 1 }
    else { s with c := c }

/-- An interrupt of the receiver is pending. -/
def Device.pending (c : Device) : Nat := if c.icr &&& 0x80 = 0 then 0 else 1

/-- What `net_incoming_packet` does not drop. -/
def Fits (frame : List UInt8) : Prop := 0 < frame.length ∧ frame.length ≤ 0x600

instance (frame : List UInt8) : Decidable (Fits frame) := inferInstanceAs (Decidable (_ ∧ _))

/-- The frames that wait to be sent are `waiting`; `read` are those that the driver has read, and `unread` the others. -/
structure Inv (s : Machine) (waiting read unread : List (List UInt8)) : Prop where
  transmits : Transmits s.c waiting
  receives : Receives s.c unread
  accepted : s.accepted = s.sent ++ waiting
  stored : s.stored = read ++ unread
  taken : s.taken = read.length
  queue : s.skbRxQueue = read.filter fun frame => Fits frame
  count : unread.length = s.coalesced + s.c.pending
  left : s.coalesced ≤ 14

section
variable {c : Device} {s : Machine} {l waiting read unread : List (List UInt8)} {frame : List UInt8}

/-- To read the causes takes them back. -/
theorem pending_read (c : Device) : Device.pending { c with icr := 0 } = 0 :=
  if_pos (show (0 : BitVec 32) &&& 0x80 = 0 by decide)

theorem inv_start (txBuf rxBuf : Nat → Buffer) : Inv (start txBuf rxBuf) [] [] [] where
  transmits := transmits_attach txBuf rxBuf
  receives := receives_attach txBuf rxBuf
  accepted := rfl
  stored := rfl
  taken := rfl
  queue := rfl
  count := (pending_read (e1000Attach txBuf rxBuf)).symm.trans (Nat.zero_add _).symm
  left := Nat.zero_le _

/-! ## What the calls and the card leave alone -/

theorem Receives.transmit (h : Receives c l) (frame : List UInt8) : Receives (e1000Transmit c frame).2 l := by
  unfold e1000Transmit
  split
  · exact h
  · dsimp only
    split
    · exact h
    · exact ⟨h.ring, h.rdt, h.length_le, h.fits⟩

theorem pending_transmit (c : Device) (frame : List UInt8) : (e1000Transmit c frame).2.pending = c.pending := by
  unfold e1000Transmit
  split
  · rfl
  · dsimp only
    split <;> rfl

theorem Receives.send (h : Receives c l) : Receives (cardSend c).2 l := by
  unfold cardSend
  split
  · exact h
  · dsimp only
    split
    · exact ⟨h.ring, h.rdt, h.length_le, h.fits⟩
    · exact ⟨h.ring, h.rdt, h.length_le, h.fits⟩

theorem pending_send (c : Device) : (cardSend c).2.pending = c.pending := by
  unfold cardSend
  split
  · rfl
  · dsimp only
    split <;> rfl

theorem Transmits.store (h : Transmits c l) (frame : List UInt8) : Transmits (cardStore c frame).2 l := by
  unfold cardStore
  split
  · exact h
  · split
    · exact ⟨h.ring, h.cmd, h.part⟩
    · exact ⟨h.ring, h.cmd, h.part⟩

/-- A stored frame raises the interrupt; a missed one has another cause, for which the driver does nothing. -/
theorem pending_store (c : Device) (frame : List UInt8) :
    (cardStore c frame).2.pending = if (cardStore c frame).1 then 1 else c.pending := by
  unfold cardStore
  split
  · rfl
  · split
    · have hsame : (c.icr ||| 0x40) &&& 0x80 = c.icr &&& 0x80 := by
        rw [BitVec.and_or_distrib_right, show (0x40 : BitVec 32) &&& 0x80 = 0 by decide]
        exact BitVec.or_zero
      rw [Device.pending, Device.pending, hsame]
      rfl
    · have hcause : ¬(c.icr ||| 0x80) &&& 0x80 = 0 := by
        intro heq
        rw [BitVec.and_or_distrib_right] at heq
        have hbit := congrArg (fun v => v.getLsbD 7) heq
        simp at hbit
      rw [Device.pending, if_neg hcause]
      rfl

theorem Transmits.receive (h : Transmits c l) (size : BitVec 32) : Transmits (e1000Receive c size).2.2 l := by
  unfold e1000Receive
  dsimp only
  split
  · exact h
  · split
    · exact ⟨h.ring, h.cmd, h.part⟩
    · exact ⟨h.ring, h.cmd, h.part⟩

theorem pending_receive (c : Device) (size : BitVec 32) : (e1000Receive c size).2.2.pending = c.pending := by
  unfold e1000Receive
  dsimp only
  split
  · rfl
  · split <;> rfl

/-! ## The steps -/

/-- The first frame is read and, if it fits, put into the queue. -/
theorem Receives.incoming (h : Receives c (frame :: l)) :
    (netIncomingPacket c).1 = (if Fits frame then some frame else none) ∧ Receives (netIncomingPacket c).2 l := by
  obtain ⟨c', hcall, hrest⟩ := h.receive 0x600
  have hsize : (0x600 : BitVec 32).toNat = 0x600 := rfl
  rw [hsize] at hcall
  unfold netIncomingPacket
  rw [hcall]
  by_cases hread : frame.length < 2048 ∧ frame.length ≤ 0x600
  · rw [if_pos hread]
    dsimp only
    by_cases hpos : 0 < frame.length
    · rw [if_neg (by omega), if_pos (show Fits frame from ⟨hpos, hread.2⟩)]
      exact ⟨rfl, hrest⟩
    · rw [if_pos (by omega), if_neg fun hfits : Fits frame => hpos hfits.1]
      exact ⟨rfl, hrest⟩
  · have hno : ¬Fits frame := fun hfits => hread ⟨hfits.2.trans_lt (by decide), hfits.2⟩
    rw [if_neg hread]
    dsimp only
    rw [if_pos (by decide), if_neg hno]
    exact ⟨rfl, hrest⟩

theorem Transmits.incoming (h : Transmits c l) : Transmits (netIncomingPacket c).2 l := by
  have hread := h.receive 0x600
  unfold netIncomingPacket
  dsimp only
  split
  · exact hread
  · exact hread

theorem pending_incoming (c : Device) : (netIncomingPacket c).2.pending = c.pending := by
  have hread := pending_receive c 0x600
  unfold netIncomingPacket
  dsimp only
  split
  · exact hread
  · exact hread

theorem Inv.transmit (h : Inv s waiting read unread) (hlen : frame.length < 2048) (hroom : waiting.length < 16) :
    Inv (step s (.transmit frame)) (waiting ++ [frame]) read unread := by
  obtain ⟨hret, htransmits⟩ := h.transmits.transmit hlen hroom
  have hok : ¬(e1000Transmit s.c frame).1 < 0 := by
    rw [hret]
    omega
  rw [step, netTransmitSkb]
  dsimp only
  rw [if_neg hok]
  refine ⟨htransmits, h.receives.transmit frame, ?_, h.stored, h.taken, h.queue, ?_, h.left⟩
  · rw [h.accepted, List.append_assoc]
  · rw [h.count, pending_transmit]

/-- A frame that the driver refuses is lost. -/
theorem Inv.refused (h : Inv s waiting read unread) (hno : 2048 ≤ frame.length ∨ waiting.length = 16) :
    step s (.transmit frame) = s := by
  rw [step, netTransmitSkb, h.transmits.refused hno]
  rfl

theorem Inv.send (h : Inv s (frame :: waiting) read unread) (hroom : waiting.length < 15) :
    Inv (step s .send) waiting read unread := by
  obtain ⟨hsent, htransmits⟩ := h.transmits.send hroom
  rw [step]
  dsimp only
  refine ⟨htransmits, h.receives.send, ?_, h.stored, h.taken, h.queue, ?_, h.left⟩
  · rw [hsent, Option.toList_some, List.append_assoc]
    exact h.accepted
  · rw [h.count, pending_send]

theorem Inv.idle (h : Inv s waiting read unread) (hno : waiting = [] ∨ waiting.length = 16) : step s .send = s := by
  rw [step, h.transmits.idle hno]
  dsimp only
  rw [Option.toList_none, List.append_nil]

/-- A frame is stored; the interrupt that was pending does for both. -/
theorem Inv.store (h : Inv s waiting read unread) (hlen : frame.length ≤ 2048) (hroom : unread.length < 15) :
    Inv (step s (.store frame)) waiting read (unread ++ [frame]) := by
  obtain ⟨hdone, hreceives⟩ := h.receives.store hlen hroom
  have hpending := pending_store s.c frame
  rw [hdone] at hpending
  rw [step]
  dsimp only
  rw [hdone, if_pos rfl]
  have hleft : unread.length = if s.c.icr &&& 0x80 = 0 then s.coalesced else s.coalesced + 1 := by
    rw [h.count, Device.pending]
    split <;> rfl
  refine ⟨h.transmits.store frame, hreceives, h.accepted, ?_, h.taken, h.queue, ?_, ?_⟩
  · rw [h.stored, List.append_assoc]
  · rw [hpending, List.length_append, List.length_singleton, hleft]
    rfl
  · exact hleft.symm.trans_le (Nat.le_of_lt_succ hroom)

/-- A frame for which there is no slot is missed. -/
theorem Inv.missed (h : Inv s waiting read unread) (hno : 2048 < frame.length ∨ unread.length = 15) :
    Inv (step s (.store frame)) waiting read unread := by
  obtain ⟨hdone, hreceives⟩ := h.receives.missed hno
  have hpending := pending_store s.c frame
  rw [hdone] at hpending
  rw [step]
  dsimp only
  rw [hdone, if_neg Bool.false_ne_true]
  refine ⟨h.transmits.store frame, hreceives, h.accepted, h.stored, h.taken, h.queue, ?_, h.left⟩
  rw [hpending]
  exact h.count

/-- An interrupt that the receiver has not caused. -/
theorem Inv.other (h : Inv s waiting read unread) (hno : s.c.icr &&& 0x80 = 0) :
    Inv (step s .interrupt) waiting read unread := by
  have hpending : s.c.pending = 0 := if_pos hno
  rw [step, e1000Callback]
  dsimp only
  rw [if_pos hno, if_pos hno]
  refine ⟨⟨h.transmits.ring, h.transmits.cmd, h.transmits.part⟩,
    ⟨h.receives.ring, h.receives.rdt, h.receives.length_le, h.receives.fits⟩, h.accepted, h.stored, h.taken, ?_, ?_,
    h.left⟩
  · exact (List.append_nil _).trans h.queue
  · dsimp only
    rw [h.count, hpending, pending_read]

/-- An interrupt of the receiver: there is a frame, and the first one is read. -/
theorem Inv.interrupt (h : Inv s waiting read (frame :: unread)) (hcause : ¬s.c.icr &&& 0x80 = 0) :
    Inv (step s .interrupt) waiting (read ++ [frame]) unread := by
  have hpending : s.c.pending = 1 := if_neg hcause
  have hreceives : Receives { s.c with icr := 0 } (frame :: unread) :=
    ⟨h.receives.ring, h.receives.rdt, h.receives.length_le, h.receives.fits⟩
  have htransmits : Transmits { s.c with icr := 0 } waiting := ⟨h.transmits.ring, h.transmits.cmd, h.transmits.part⟩
  obtain ⟨hskb, hrest⟩ := hreceives.incoming
  rw [step, e1000Callback]
  dsimp only
  rw [if_neg hcause, if_neg hcause]
  refine ⟨htransmits.incoming, hrest, h.accepted, ?_, ?_, ?_, ?_, h.left⟩
  · rw [h.stored, List.append_assoc]
    rfl
  · rw [h.taken, List.length_append]
    rfl
  · rw [hskb, h.queue, List.filter_append]
    by_cases hfits : Fits frame <;> simp [hfits]
  · have hcount := h.count
    rw [hpending, List.length_cons] at hcount
    dsimp only
    rw [pending_incoming, pending_read]
    exact Nat.succ.inj hcount

/-- What one step does to the frames that wait, and to those left behind. -/
theorem Inv.step (h : Inv s waiting read unread) (op : Op) :
    ∃ waiting' read' unread', Inv (E1000.step s op) waiting' read' unread' ∧
      (waiting.length = 16 → waiting' = waiting ∧ (E1000.step s op).sent = s.sent) ∧
      s.coalesced ≤ (E1000.step s op).coalesced := by
  cases op with
  | transmit frame =>
    by_cases hok : frame.length < 2048 ∧ waiting.length < 16
    · refine ⟨_, _, _, h.transmit hok.1 hok.2, fun hfull => absurd hfull hok.2.ne, ?_⟩
      rw [E1000.step, netTransmitSkb]
      dsimp only
      split <;> exact Nat.le_refl _
    · have hno : 2048 ≤ frame.length ∨ waiting.length = 16 := by
        have hle := h.transmits.length_le
        omega
      rw [h.refused hno]
      exact ⟨_, _, _, h, fun _ => ⟨rfl, rfl⟩, Nat.le_refl _⟩
  | interrupt =>
    by_cases hcause : s.c.icr &&& 0x80 = 0
    · exact ⟨_, _, _, h.other hcause, fun _ => ⟨rfl, rfl⟩, Nat.le_refl _⟩
    · cases unread with
      | nil =>
        have hcount := h.count
        rw [Device.pending, if_neg hcause] at hcount
        cases hcount
      | cons frame unread => exact ⟨_, _, _, h.interrupt hcause, fun _ => ⟨rfl, rfl⟩, Nat.le_refl _⟩
  | send =>
    by_cases hno : waiting = [] ∨ waiting.length = 16
    · rw [h.idle hno]
      exact ⟨_, _, _, h, fun _ => ⟨rfl, rfl⟩, Nat.le_refl _⟩
    · cases waiting with
      | nil => exact absurd (.inl rfl) hno
      | cons frame waiting =>
        have hle := h.transmits.length_le
        rw [List.length_cons] at hle hno
        exact ⟨_, _, _, h.send (by omega), fun hfull => absurd (.inr hfull) hno, Nat.le_refl _⟩
  | store frame =>
    have hsent : (E1000.step s (.store frame)).sent = s.sent := by
      rw [E1000.step]
      dsimp only
      split <;> rfl
    have hcoalesced : s.coalesced ≤ (E1000.step s (.store frame)).coalesced := by
      rw [E1000.step]
      dsimp only
      split
      · dsimp only
        split
        · exact Nat.le_refl _
        · exact Nat.le_succ _
      · exact Nat.le_refl _
    by_cases hok : frame.length ≤ 2048 ∧ unread.length < 15
    · exact ⟨_, _, _, h.store hok.1 hok.2, fun _ => ⟨rfl, hsent⟩, hcoalesced⟩
    · have hno : 2048 < frame.length ∨ unread.length = 15 := by
        have hle := h.receives.length_le
        omega
      exact ⟨_, _, _, h.missed hno, fun _ => ⟨rfl, hsent⟩, hcoalesced⟩

/-- A run from a state with these frames. -/
theorem Inv.foldl (h : Inv s waiting read unread) (ops : List Op) :
    ∃ waiting' read' unread', Inv (ops.foldl E1000.step s) waiting' read' unread' ∧
      (waiting.length = 16 → waiting' = waiting ∧ (ops.foldl E1000.step s).sent = s.sent) ∧
      s.coalesced ≤ (ops.foldl E1000.step s).coalesced := by
  induction ops generalizing s waiting read unread with
  | nil => exact ⟨_, _, _, h, fun _ => ⟨rfl, rfl⟩, Nat.le_refl _⟩
  | cons op ops ih =>
    obtain ⟨waiting₁, read₁, unread₁, h₁, hstall₁, hle₁⟩ := h.step op
    obtain ⟨waiting₂, read₂, unread₂, h₂, hstall₂, hle₂⟩ := ih h₁
    refine ⟨_, _, _, h₂, fun hfull => ?_, hle₁.trans hle₂⟩
    obtain ⟨rfl, hsent₁⟩ := hstall₁ hfull
    obtain ⟨rfl, hsent₂⟩ := hstall₂ hfull
    exact ⟨rfl, hsent₂.trans hsent₁⟩

end

/-- **The transmitter.** In every run the frames that were accepted are those that were sent, in their order, and at most
sixteen that wait. A frame is refused if it is too long, or if sixteen wait; and then the card sends none of them any
more, whatever is done. -/
theorem frames_sent (txBuf rxBuf : Nat → Buffer) (ops : List Op) :
    let s := ops.foldl step (start txBuf rxBuf)
    ∃ waiting, s.accepted = s.sent ++ waiting ∧ waiting.length ≤ 16 ∧
      (∀ frame, step s (.transmit frame) = s ↔ 2048 ≤ frame.length ∨ waiting.length = 16) ∧
      (waiting.length < 16 → (step s .send).sent = s.sent ++ waiting.head?.toList) ∧
      (waiting.length = 16 → ∀ ops' : List Op,
        (ops'.foldl step s).accepted = s.accepted ∧ (ops'.foldl step s).sent = s.sent) := by
  intro s
  obtain ⟨waiting, read, unread, h, -, -⟩ := (inv_start txBuf rxBuf).foldl ops
  refine ⟨waiting, h.accepted, h.transmits.length_le, fun frame => ⟨fun hsame => ?_, h.refused⟩, fun hroom => ?_,
    fun hfull ops' => ?_⟩
  · by_contra hno
    have hle := h.transmits.length_le
    have hlonger : Inv (step s (.transmit frame)) (waiting ++ [frame]) read unread :=
      h.transmit (by omega) (by omega)
    rw [hsame] at hlonger
    have hwaiting := List.append_cancel_left (h.accepted.symm.trans hlonger.accepted)
    simp at hwaiting
  · cases waiting with
    | nil =>
      rw [h.idle (.inl rfl)]
      exact (List.append_nil _).symm
    | cons frame waiting =>
      rw [List.length_cons] at hroom
      obtain ⟨hsent, -⟩ := h.transmits.send (by omega)
      rw [step]
      dsimp only
      rw [hsent]
      rfl
  · obtain ⟨waiting', read', unread', h', hstall, -⟩ := h.foldl ops'
    obtain ⟨rfl, hsent⟩ := hstall hfull
    refine ⟨?_, hsent⟩
    rw [h.accepted, h'.accepted, hsent]

/-- Pages of zeros. -/
def zeroPage : Buffer := ⟨List.replicate 2048 0, List.length_replicate⟩

example :
    let s := (List.replicate 17 (Op.transmit [1]) ++ [Op.send]).foldl step (start (fun _ => zeroPage) fun _ => zeroPage)
    s.accepted.length = 16 ∧ s.sent = [] := by decide +kernel

/-- **The receiver.** In every run the frames in the receive queue are the first of those that were stored, in their
order, without the ones that do not fit: one for each interrupt. Of the others one has its interrupt pending, and the
rest were stored when one was pending already; these are at most fourteen, and they never become fewer. -/
theorem frames_left_behind (txBuf rxBuf : Nat → Buffer) (ops : List Op) :
    let s := ops.foldl step (start txBuf rxBuf)
    s.skbRxQueue = ((s.stored.take s.taken).filter fun frame => Fits frame) ∧
      s.stored.length = s.taken + s.coalesced + s.c.pending ∧ s.coalesced ≤ 14 ∧
      (∀ frame, (step s (.store frame)).stored = s.stored ↔ 2048 < frame.length ∨ s.stored.length = s.taken + 15) ∧
      ∀ ops' : List Op, s.coalesced ≤ (ops'.foldl step s).coalesced := by
  intro s
  obtain ⟨waiting, read, unread, h, -, -⟩ := (inv_start txBuf rxBuf).foldl ops
  have hread : s.stored.take s.taken = read := by
    rw [h.stored, h.taken]
    exact List.take_left
  have hlen : s.stored.length = s.taken + unread.length := by
    rw [h.stored, h.taken, List.length_append]
  refine ⟨?_, ?_, h.left, fun frame => ⟨fun hsame => ?_, fun hno => ?_⟩, fun ops' => ?_⟩
  · rw [hread]
    exact h.queue
  · rw [hlen, h.count, Nat.add_assoc]
  · by_contra hno
    have hle := h.receives.length_le
    have hlonger : Inv (step s (.store frame)) waiting read (unread ++ [frame]) := h.store (by omega) (by omega)
    have hunread := List.append_cancel_left (h.stored.symm.trans (hsame.symm.trans hlonger.stored))
    simp at hunread
  · have hmissed : Inv (step s (.store frame)) waiting read unread := h.missed (by omega)
    exact hmissed.stored.trans h.stored.symm
  · obtain ⟨-, -, -, -, -, hle⟩ := h.foldl ops'
    exact hle

end RetrOS.E1000
