import RetrOS.Net.Transmit

/-!
# What `kernel_send` returns

`kernel_send` waits until its socket is established, sends the message as one segment, and returns its length.
`tcp_send_segment` sends the segment up to four times, waits for the acknowledgement after each time, and has a
result of its own, which `kernel_send` ignores. While a process waits, the network threads hand segments to the
socket.

* `Attempt`, `SendEnv` : what happens meanwhile; `deliver` : the segments of one wait;
* `awaitAck`, `sendRounds`, `kernelSendRun` : `tcp_send_segment` and `kernel_send`;
* `heard`, `AckedBy` : the segments that arrive in time, and whether they acknowledge the message;
* `sendRounds_decided`, `sendRounds_silent` : the loop ends well with an acknowledgement or a reset, and only then;
* `SendTruthful` : the result tells whether the message was acknowledged; `sendTruthful_iff` : it does exactly when
  there is nothing to report.
-/

namespace RetrOS.Net

abbrev errorInvalidSocket : Int := 11

abbrev errorMssSize : Int := 13

/-- The segments that are handed to a socket one after another. -/
def deliver (route : Route) (sk : Sock) (segs : List SkBuff) : Sock :=
  segs.foldl (fun sk skb => (tcpStateMachine route sk skb).sk) sk

def Sock.state (sk : Sock) : Option TcpState := sk.tcp.map TcpConnection.state

/-! ## `tcp_send_segment` -/

/-- A round of the loop of `tcp_send_segment`: what is below when the segment is sent, and the segments that come at
each `kernel_yield` until the clock runs out. -/
structure Attempt where
  below : Below
  yields : List (List SkBuff)

/-- The result of `tcp_send_segment`, the socket, and the segments that were sent. -/
structure SendOutcome where
  ret : Int
  sk : Sock
  sent : List Packet

/-- The wait of a round; the flag says that the socket is not in `waitAck` any more. -/
def awaitAck (route : Route) : List (List SkBuff) → Sock → Bool × Sock
  | [], sk => (false, sk)
  | segs :: rest, sk =>
    let sk := deliver route sk segs
    if sk.state = some .waitAck then awaitAck route rest sk else (true, sk)

/-- The rounds of the loop; what `__tcp_send` returns is ignored. -/
def sendRounds (route : Route) (u : Unacked) : List Attempt → Sock → SendOutcome
  | [], sk => ⟨-1, sk, []⟩
  | a :: rest, sk =>
    if ¬ a.below.buffer then ⟨-errorNullPointer, sk, []⟩
    else
      let p := transmit a.below.toRoute sk u
      match awaitAck route a.yields sk with
      | (true, sk) => ⟨0, sk, p.toList⟩
      | (false, sk) =>
        let o := sendRounds route u rest sk
        { o with sent := p.toList ++ o.sent }

/-! ## `kernel_send` -/

/-- What happens while a process is in `kernel_send`: the segments that come at each `kernel_yield` of its first
wait, and the four rounds of `tcp_send_segment`. -/
structure SendEnv where
  waits : Nat → List SkBuff
  attempts : Fin 4 → Attempt

/-- `WAIT(!net_sock_is_established(socket))`, from the yield `i` on; `none` if it takes more yields. -/
def waitEstablished (route : Route) (waits : Nat → List SkBuff) : Nat → Nat → Sock → Option Sock
  | 0, _, sk => if sk.state = some .established then some sk else none
  | fuel + 1, i, sk =>
    if sk.state = some .established then some sk
    else waitEstablished route waits fuel (i + 1) (deliver route sk (waits i))

/-- `kernel_send`, with its result, the socket and the segments that were sent. It is `none` while `kernel_send`
waits, and if it reads through the pointer to the connection when this is `NULL`. -/
def kernelSendRun (route : Route) (env : SendEnv) (fuel : Nat) (socket : Option Sock) (message : List UInt8) :
    Option (Int × Option Sock × List Packet) :=
  if 1400 < message.length then some (-errorMssSize, socket, [])
  else
    match socket with
    | none => some (-errorInvalidSocket, none, [])
    | some sk =>
      match waitEstablished route env.waits fuel 0 sk with
      | none => none
      | some sk =>
        match sk.tcp with
        | none => none
        | some tcp =>
          let (sk, u, _) := tcpSendSegment route sk { tcp with state := .waitAck } message true
          let o := sendRounds route u (List.ofFn env.attempts) sk
          some (message.length, some o.sk, o.sent)

/-! ## The truth -/

/-- The segments that are handed to the socket in the rounds, up to a round that finds no buffer. -/
def heard : List Attempt → List SkBuff
  | [] => []
  | a :: rest => if a.below.buffer then a.yields.flatten ++ heard rest else []

/-- The segment acknowledges everything in front of the number `next`. -/
def SkBuff.Acks (next : BitVec 32) (skb : SkBuff) : Prop :=
  skb.tcp.ack = true ∧ skb.tcp.syn = false ∧ skb.tcp.rst = false ∧ htonl skb.tcp.ackSeq = next

/-- An acknowledgement is among the segments, and no reset in front of it. -/
def AckedBy (next : BitVec 32) (segs : List SkBuff) : Prop :=
  ∃ l skb l', segs = l ++ skb :: l' ∧ skb.Acks next ∧ ∀ r ∈ l, r.tcp.rst = false

/-- The message was acknowledged: the socket became established, and behind its number and the length of the message
lies the number that is acknowledged in one of the rounds. -/
def Acknowledged (route : Route) (env : SendEnv) (socket : Option Sock) (message : List UInt8) : Prop :=
  ∃ sk fuel sk' tcp, socket = some sk ∧ waitEstablished route env.waits fuel 0 sk = some sk' ∧ sk'.tcp = some tcp ∧
    AckedBy (tcp.sequence + BitVec.ofNat 32 message.length) (heard (List.ofFn env.attempts))

/-- The socket has no connection, or it is closed. -/
def Unconnected (socket : Option Sock) : Prop :=
  ∀ sk ∈ socket, sk.tcp = none ∨ sk.state = some .closed

/-- `kernel_send` reports the truth. -/
structure SendTruthful (route : Route) (env : SendEnv) (socket : Option Sock) (message : List UInt8) : Prop where
  sent : ∀ fuel ret socket' packets, kernelSendRun route env fuel socket message = some (ret, socket', packets) →
    ret = message.length → Acknowledged route env socket message
  failed : Unconnected socket ∨ ¬ Acknowledged route env socket message → ∃ fuel ret socket' packets,
    kernelSendRun route env fuel socket message = some (ret, socket', packets) ∧ ret < 0
  left : ∀ fuel ret socket' packets, kernelSendRun route env fuel socket message = some (ret, socket', packets) →
    ret < 0 ∨ ¬ Acknowledged route env socket message → ∀ sk ∈ socket', sk.state ≠ some .waitAck

/-! ## The segments of a wait -/

section Segments
variable {route : Route} {sk : Sock} {tcp : TcpConnection} {skb : SkBuff} {segs : List SkBuff} {next : BitVec 32}

/-- A socket waits for the acknowledgement of everything in front of the number `next`. -/
def Waits (next : BitVec 32) (sk : Sock) : Prop :=
  ∃ tcp, sk.tcp = some tcp ∧ tcp.state = .waitAck ∧ tcp.sequence = next

theorem Waits.state (h : Waits next sk) : sk.state = some .waitAck := by
  obtain ⟨tcp, htcp, hstate, -⟩ := h
  rw [Sock.state, htcp, Option.map_some, hstate]

theorem Waits.machine (h : Waits next sk) (route : Route) (skb : SkBuff) : ∃ tcp, sk.tcp = some tcp ∧
    tcp.sequence = next ∧ tcpStateMachine route sk skb = recvWaitAck sk tcp skb := by
  obtain ⟨tcp, htcp, hstate, hnext⟩ := h
  refine ⟨tcp, htcp, hnext, ?_⟩
  rw [tcpStateMachine, htcp]
  dsimp only
  rw [hstate]

/-- The acknowledgement ends the wait, -/
theorem Waits.acked (h : Waits next sk) (hack : skb.Acks next) :
    (tcpStateMachine route sk skb).sk.state = some .established := by
  obtain ⟨tcp, htcp, hnext, hmachine⟩ := h.machine route skb
  obtain ⟨h1, h2, h3, h4⟩ := hack
  rw [hmachine, recvWaitAck, if_neg (by simp [h3]), if_pos (by simp [h1, h2]), if_neg (by simp [h4, hnext]), tcpRecvAck,
    if_pos (hnext.trans h4.symm)]
  rfl

/-- a reset closes the socket, -/
theorem Waits.reset (h : Waits next sk) (hrst : skb.tcp.rst = true) :
    (tcpStateMachine route sk skb).sk.state = some .closed := by
  obtain ⟨tcp, htcp, -, hmachine⟩ := h.machine route skb
  rw [hmachine, recvWaitAck, if_pos hrst]
  rfl

/-- and any other segment leaves it waiting. -/
theorem Waits.other (h : Waits next sk) (hrst : skb.tcp.rst = false) (hack : ¬ skb.Acks next) :
    Waits next (tcpStateMachine route sk skb).sk := by
  obtain ⟨tcp, htcp, hnext, hmachine⟩ := h.machine route skb
  rw [hmachine, recvWaitAck, if_neg (by simp [hrst])]
  split
  · next hplain =>
    split
    · exact h
    · have hne : tcp.sequence ≠ htonl skb.tcp.ackSeq := fun heq =>
        hack ⟨hplain.2, by simpa using hplain.1, hrst, heq.symm.trans hnext⟩
      rw [tcpRecvAck, if_neg hne]
      exact h
  · exact h

theorem withTcp_unwaiting {sk' : Sock} (htcp : sk'.tcp = some tcp) (hstate : tcp.state ≠ .waitAck) :
    sk'.state ≠ some .waitAck := by
  rw [Sock.state, htcp, Option.map_some]
  exact fun h => hstate (Option.some.inj h)

/-- Only `kernel_send` makes a socket wait. -/
theorem machine_unwaiting (h : sk.state ≠ some .waitAck) :
    (tcpStateMachine route sk skb).sk.state ≠ some .waitAck := by
  unfold tcpStateMachine
  split
  · exact h
  · next tcp htcp =>
    have hstate : tcp.state ≠ .waitAck := by
      intro heq
      rw [Sock.state, htcp, Option.map_some, heq] at h
      exact h rfl
    split
    · next hlisten =>
      unfold recvListen
      split
      · split
        · exact h
        · dsimp only
          unfold tcpRecvSyn
          rw [if_neg (not_not.mpr hlisten)]
          dsimp only
          split <;> exact withTcp_unwaiting rfl (by simp)
      · split <;> exact h
    · unfold recvSynRcvd
      split
      · exact withTcp_unwaiting rfl (by simp)
      · split
        · split
          · exact withTcp_unwaiting rfl (by simp)
          · exact h
        · exact h
    · unfold recvSynSent
      split
      · exact withTcp_unwaiting rfl (by simp)
      · exact h
    · next hwait => exact absurd hwait hstate
    · next hestablished =>
      unfold recvEstablished
      split
      · exact withTcp_unwaiting rfl (by simp)
      · split
        · split
          · exact h
          · refine withTcp_unwaiting (Sock.tcp_of_connection (netSockAddData_connection _ _)) ?_
            dsimp only
            rw [hestablished]
            simp
        · split
          · exact withTcp_unwaiting rfl (by simp)
          · exact h
    · unfold recvFinWait
      split
      · exact withTcp_unwaiting rfl (by simp)
      · exact h
    · unfold recvCloseWait
      split
      · exact withTcp_unwaiting rfl (by simp)
      · exact h
    · unfold recvCloseWait2
      split
      · dsimp only [drop]
        split <;> exact withTcp_unwaiting rfl (by simp)
      · exact h
    · exact h

theorem deliver_unwaiting (h : sk.state ≠ some .waitAck) : (deliver route sk segs).state ≠ some .waitAck := by
  induction segs generalizing sk with
  | nil => exact h
  | cons skb rest ih => exact ih (machine_unwaiting h)

/-- The segment ends the wait. -/
def SkBuff.Decides (next : BitVec 32) (skb : SkBuff) : Prop := skb.tcp.rst = true ∨ skb.Acks next

theorem AckedBy.decides (h : AckedBy next segs) : ∃ skb ∈ segs, skb.Decides next := by
  obtain ⟨l, skb, l', rfl, hack, -⟩ := h
  exact ⟨skb, by simp, .inr hack⟩

theorem Waits.decides (h : Waits next sk) (hskb : skb.Decides next) :
    (tcpStateMachine route sk skb).sk.state ≠ some .waitAck := by
  rcases hskb with hrst | hack
  · rw [h.reset hrst]
    simp
  · rw [h.acked hack]
    simp

theorem deliver_silent (route : Route) (h : Waits next sk) (hsegs : ∀ skb ∈ segs, ¬ skb.Decides next) :
    Waits next (deliver route sk segs) := by
  induction segs generalizing sk with
  | nil => exact h
  | cons skb rest ih =>
    obtain ⟨hskb, hrest⟩ := List.forall_mem_cons.mp hsegs
    obtain ⟨hrst, hack⟩ := not_or.mp hskb
    exact ih (h.other (by simpa using hrst) hack) hrest

open Classical in
theorem deliver_decided (route : Route) (h : Waits next sk) (hsegs : ∃ skb ∈ segs, skb.Decides next) :
    (deliver route sk segs).state ≠ some .waitAck := by
  induction segs generalizing sk with
  | nil =>
    obtain ⟨skb, hskb, -⟩ := hsegs
    cases hskb
  | cons skb rest ih =>
    by_cases hskb : skb.Decides next
    · rw [deliver, List.foldl_cons]
      exact deliver_unwaiting (h.decides hskb)
    · have hrest : ∃ skb ∈ rest, skb.Decides next := by
        simpa [hskb] using hsegs
      obtain ⟨hrst, hack⟩ := not_or.mp hskb
      exact ih (h.other (by simpa using hrst) hack) hrest

/-! ## The rounds -/

variable {u : Unacked} {yields : List (List SkBuff)} {attempts : List Attempt}

theorem awaitAck_silent (route : Route) (h : Waits next sk) (hsegs : ∀ skb ∈ yields.flatten, ¬ skb.Decides next) :
    (awaitAck route yields sk).1 = false ∧ Waits next (awaitAck route yields sk).2 := by
  induction yields generalizing sk with
  | nil => exact ⟨rfl, h⟩
  | cons segs rest ih =>
    rw [List.flatten_cons, List.forall_mem_append] at hsegs
    have hwaits := deliver_silent route h hsegs.1
    rw [awaitAck, if_pos hwaits.state]
    exact ih hwaits hsegs.2

open Classical in
theorem awaitAck_decided (route : Route) (h : Waits next sk) (hsegs : ∃ skb ∈ yields.flatten, skb.Decides next) :
    (awaitAck route yields sk).1 = true ∧ (awaitAck route yields sk).2.state ≠ some .waitAck := by
  induction yields generalizing sk with
  | nil =>
    obtain ⟨skb, hskb, -⟩ := hsegs
    cases hskb
  | cons segs rest ih =>
    by_cases hfirst : ∃ skb ∈ segs, skb.Decides next
    · have hstate := deliver_decided route h hfirst
      rw [awaitAck, if_neg hstate]
      exact ⟨rfl, hstate⟩
    · have hwaits := deliver_silent route h fun skb hskb hd => hfirst ⟨skb, hskb, hd⟩
      rw [awaitAck, if_pos hwaits.state]
      refine ih hwaits ?_
      obtain ⟨skb, hskb, hd⟩ := hsegs
      rw [List.flatten_cons, List.mem_append] at hskb
      exact ⟨skb, hskb.resolve_left fun hmem => hfirst ⟨skb, hmem, hd⟩, hd⟩

/-- **Without an acknowledgement and without a reset** `tcp_send_segment` fails, and the socket still waits. -/
theorem sendRounds_silent (h : Waits next sk) (hsegs : ∀ skb ∈ heard attempts, ¬ skb.Decides next) :
    (sendRounds route u attempts sk).ret < 0 ∧ Waits next (sendRounds route u attempts sk).sk := by
  induction attempts generalizing sk with
  | nil => exact ⟨Int.negSucc_lt_zero 0, h⟩
  | cons a rest ih =>
    unfold sendRounds
    rw [heard] at hsegs
    by_cases hbuffer : a.below.buffer = true
    · rw [if_pos hbuffer, List.forall_mem_append] at hsegs
      obtain ⟨hflag, hwaits⟩ := awaitAck_silent route h hsegs.1
      rw [if_neg (not_not.mpr hbuffer)]
      dsimp only
      cases hawait : awaitAck route a.yields sk with
      | mk flag sk' =>
        rw [hawait] at hflag hwaits
        cases hflag
        exact ih hwaits hsegs.2
    · rw [if_pos hbuffer]
      exact ⟨Int.negSucc_lt_zero 1, h⟩

open Classical in
/-- **With one of these** it returns `ERROR_OK`, and the socket does not wait any more. -/
theorem sendRounds_decided (h : Waits next sk) (hsegs : ∃ skb ∈ heard attempts, skb.Decides next) :
    (sendRounds route u attempts sk).ret = 0 ∧ (sendRounds route u attempts sk).sk.state ≠ some .waitAck := by
  induction attempts generalizing sk with
  | nil =>
    obtain ⟨skb, hskb, -⟩ := hsegs
    cases hskb
  | cons a rest ih =>
    obtain ⟨skb, hskb, hd⟩ := hsegs
    unfold sendRounds
    unfold heard at hskb
    by_cases hbuffer : a.below.buffer = true
    · rw [if_pos hbuffer, List.mem_append] at hskb
      rw [if_neg (not_not.mpr hbuffer)]
      dsimp only
      by_cases hfirst : ∃ skb ∈ a.yields.flatten, skb.Decides next
      · obtain ⟨hflag, hstate⟩ := awaitAck_decided route h hfirst
        cases hawait : awaitAck route a.yields sk with
        | mk flag sk' =>
          rw [hawait] at hflag hstate
          cases hflag
          exact ⟨rfl, hstate⟩
      · obtain ⟨hflag, hwaits⟩ := awaitAck_silent route h fun skb hskb hd => hfirst ⟨skb, hskb, hd⟩
        cases hawait : awaitAck route a.yields sk with
        | mk flag sk' =>
          rw [hawait] at hflag hwaits
          cases hflag
          exact ih hwaits ⟨skb, hskb.resolve_left fun hmem => hfirst ⟨skb, hmem, hd⟩, hd⟩
    · rw [if_neg hbuffer] at hskb
      cases hskb

end Segments

/-! ## The result -/

section Result
variable {route : Route} {env : SendEnv} {fuel i : Nat} {socket : Option Sock} {sk sk' : Sock} {message : List UInt8}

theorem waitEstablished_some (h : waitEstablished route env.waits fuel i sk = some sk') :
    sk'.state = some .established := by
  induction fuel generalizing i sk with
  | zero =>
    unfold waitEstablished at h
    split at h
    · next hstate =>
      cases h
      exact hstate
    · cases h
  | succ fuel ih =>
    unfold waitEstablished at h
    split at h
    · next hstate =>
      cases h
      exact hstate
    · exact ih h

theorem not_established (h : sk.tcp = none ∨ sk.state = some .closed) : sk.state ≠ some .established := by
  rcases h with h | h
  · rw [Sock.state, h]
    simp
  · rw [h]
    simp

/-- A socket that is closed or has no connection stays so, -/
theorem deliver_unconnected {segs : List SkBuff} (h : sk.tcp = none ∨ sk.state = some .closed) :
    (deliver route sk segs).tcp = none ∨ (deliver route sk segs).state = some .closed := by
  induction segs generalizing sk with
  | nil => exact h
  | cons skb rest ih =>
    have hdrop : tcpStateMachine route sk skb = drop sk := by
      unfold tcpStateMachine
      cases htcp : sk.tcp with
      | none => rfl
      | some tcp =>
        rw [Sock.state, htcp] at h
        have hclosed : tcp.state = .closed := by simpa using h
        dsimp only
        rw [hclosed]
    rw [deliver, List.foldl_cons, hdrop]
    exact ih h

/-- and `kernel_send` waits for ever. -/
theorem waitEstablished_unconnected (h : sk.tcp = none ∨ sk.state = some .closed) :
    waitEstablished route env.waits fuel i sk = none := by
  induction fuel generalizing i sk with
  | zero => rw [waitEstablished, if_neg (not_established h)]
  | succ fuel ih =>
    rw [waitEstablished, if_neg (not_established h)]
    exact ih (deliver_unconnected h)

/-- **Once the socket is established the result is the length**, whatever `tcp_send_segment` returns. -/
theorem kernelSendRun_established {tcp : TcpConnection} (hlen : message.length ≤ 1400)
    (h : waitEstablished route env.waits fuel 0 sk = some sk') (htcp : sk'.tcp = some tcp) :
    ∃ u sk₁, Waits (tcp.sequence + BitVec.ofNat 32 message.length) sk₁ ∧
      kernelSendRun route env fuel (some sk) message =
        some ((message.length : Int), some (sendRounds route u (List.ofFn env.attempts) sk₁).sk,
          (sendRounds route u (List.ofFn env.attempts) sk₁).sent) := by
  obtain ⟨⟨sk₁, u, p⟩, hsend⟩ : ∃ r, tcpSendSegment route sk' { tcp with state := .waitAck } message true = r := ⟨_, rfl⟩
  refine ⟨u, sk₁, ?_, ?_⟩
  · rw [tcpSendSegment] at hsend
    rw [← (Prod.mk.inj hsend).1]
    exact ⟨_, rfl, rfl, rfl⟩
  · unfold kernelSendRun
    rw [if_neg (Nat.not_lt.mpr hlen)]
    dsimp only
    rw [h]
    dsimp only
    rw [htcp]
    dsimp only
    rw [hsend]

theorem kernelSendRun_some {ret : Int} {socket' : Option Sock} {packets : List Packet} (hlen : message.length ≤ 1400)
    (h : kernelSendRun route env fuel (some sk) message = some (ret, socket', packets)) : ret = message.length := by
  cases hwait : waitEstablished route env.waits fuel 0 sk with
  | none =>
    rw [kernelSendRun, if_neg (Nat.not_lt.mpr hlen)] at h
    dsimp only at h
    rw [hwait] at h
    cases h
  | some sk' =>
    have hstate := waitEstablished_some hwait
    cases htcp : sk'.tcp with
    | none =>
      rw [Sock.state, htcp] at hstate
      cases hstate
    | some tcp =>
      obtain ⟨u, sk₁, -, hrun⟩ := kernelSendRun_established hlen hwait htcp
      rw [hrun] at h
      exact ((Prod.mk.inj (Option.some.inj h)).1).symm

theorem kernelSendRun_null (hlen : message.length ≤ 1400) :
    kernelSendRun route env fuel none message = some (-errorInvalidSocket, none, []) := by
  rw [kernelSendRun, if_neg (Nat.not_lt.mpr hlen)]

/-- A socket that has no connection or is closed does not send. -/
theorem Acknowledged.connected (h : Acknowledged route env socket message) : ¬ Unconnected socket := by
  obtain ⟨sk, fuel, sk', tcp, rfl, hwait, -⟩ := h
  intro hnot
  rw [waitEstablished_unconnected (hnot sk rfl)] at hwait
  cases hwait

/-- **The result is the truth exactly when there is no failure to report**: the socket is `NULL`, or it is established
before or while the process waits, and a segment that acknowledges the message arrives before any reset, and before a
round that finds no buffer. -/
theorem sendTruthful_iff (route : Route) (env : SendEnv) (socket : Option Sock) (message : List UInt8)
    (hlen : message.length ≤ 1400) :
    SendTruthful route env socket message ↔ socket = none ∨ Acknowledged route env socket message := by
  constructor
  · intro h
    by_contra hnot
    obtain ⟨hnull, hack⟩ := not_or.mp hnot
    obtain ⟨sk, rfl⟩ := Option.ne_none_iff_exists'.mp hnull
    obtain ⟨fuel, ret, socket', packets, hrun, hneg⟩ := h.failed (.inr hack)
    have hret := kernelSendRun_some hlen hrun
    omega
  · rintro (rfl | hack)
    · have hnot : ¬ Acknowledged route env none message := by
        rintro ⟨sk, _, _, _, hsk, -⟩
        cases hsk
      refine ⟨?_, ?_, ?_⟩
      · intro fuel ret socket' packets hrun hret
        rw [kernelSendRun_null hlen] at hrun
        have hret' := (Prod.mk.inj (Option.some.inj hrun)).1
        simp only [errorInvalidSocket] at hret'
        omega
      · intro _
        exact ⟨0, _, _, _, kernelSendRun_null hlen, by decide⟩
      · intro fuel ret socket' packets hrun _ sk hsk
        rw [kernelSendRun_null hlen] at hrun
        rw [← (Prod.mk.inj (Prod.mk.inj (Option.some.inj hrun)).2).1] at hsk
        cases hsk
    · have hsocket : ∃ sk, socket = some sk := by
        obtain ⟨sk, -, -, -, hsk, -⟩ := hack
        exact ⟨sk, hsk⟩
      obtain ⟨sk, rfl⟩ := hsocket
      refine ⟨?_, ?_, ?_⟩
      · intro fuel ret socket' packets _ _
        exact hack
      · rintro (hun | hnot)
        · exact absurd hun hack.connected
        · exact absurd hack hnot
      · rintro fuel ret socket' packets hrun (hneg | hnot)
        · have hret := kernelSendRun_some hlen hrun
          omega
        · exact absurd hack hnot

end Result

/-- A connected socket. -/
def senderSock : Sock :=
  { kernelSocketCreate with boundPort := 7, recvAddr := ⟨80, ntohl 1⟩, tcp := some ⟨.established, 2, 2⟩ }

/-- The acknowledgement of everything in front of the number `4`. -/
def ackOfFour : SkBuff where
  saddr := ntohl 1
  tcp := { source := 80, dest := 7, seq := htonl 2, ackSeq := htonl 4, ack := true }
  data := []

/-- At the first wait of each round the segments arrive. -/
def answering (segs : List SkBuff) : SendEnv := ⟨fun _ => [], fun _ => ⟨⟨true, anyRoute, some []⟩, [segs]⟩⟩

/-- Nobody answers: the result is the length. -/
theorem sendTruthful_unanswered : ¬ SendTruthful anyRoute (answering []) (some senderSock) [7, 8] := by
  intro h
  obtain ⟨sk, fuel, sk', tcp, -, -, -, l, skb, l', hl, -⟩ := h.sent 0 2 _ _ rfl rfl
  have hheard : heard (List.ofFn (answering []).attempts) = [] := rfl
  rw [hheard] at hl
  simp at hl

theorem sendTruthful_iff_acked : SendTruthful anyRoute (answering [ackOfFour]) (some senderSock) [7, 8] := by
  refine (sendTruthful_iff anyRoute (answering [ackOfFour]) (some senderSock) [7, 8] (by decide)).mpr (.inr ?_)
  refine ⟨senderSock, 0, senderSock, ⟨.established, 2, 2⟩, rfl, rfl, rfl, [], ackOfFour, _, rfl, ?_, by simp⟩
  exact ⟨rfl, rfl, rfl, htonl_htonl 4⟩

end RetrOS.Net
