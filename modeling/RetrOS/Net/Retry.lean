import RetrOS.Net.Ownership
import RetrOS.Net.SkbQueue

/-!
# The retry queue (`tcp_retry_all`)

A segment with data for a connection that is not accepted yet finds its listener, which puts it on the retry queue.
`tcp_retry_all` hands the segments of that queue to `tcp_state_machine` until the queue is empty, and the machine may
put a segment back.

* `RetryState` : the buffers by their addresses, linked in a queue; `retryOne`, `tcpRetryAll` : the loop;
* `RetryState.Refines` : the queue is the list of a `NetLayer`; `retryOne_refines` : a round of the loop is the step
  `NetOp.retry`;
* `attempts` : each round makes this number smaller, for every queue and every table of sockets;
* `Life` : the steps of the network threads, with the number of times the buffer at each address was put on the
  queue since it was allocated. Between the steps a process may change the sockets.
-/

namespace RetrOS.Net

open RetrOS.Lib

/-! ## The loop -/

/-- What `tcp_retry_all` works on: `memory` holds the buffers, `next` their links, and `freed` is every buffer
`skb_free` was called on. The links of the buffers in other queues are not kept. -/
structure RetryState where
  table : List (Option Sock)
  freed : List SkBuff
  memory : Nat → SkBuff
  next : Nat → Option Nat
  queue : SkbQueue

/-- The buffer is written and put on the retry queue. -/
def RetryState.add (st : RetryState) (skb : SkBuff) : RetryState :=
  let r := st.queue.add st.next skb.addr
  { st with memory := Function.update st.memory skb.addr skb, next := r.1, queue := r.2 }

/-- A round of the loop of `tcp_retry_all`: `none` if no buffer can be removed. -/
def retryOne (route : Route) (st : RetryState) : Option RetryState :=
  match st.queue.remove st.next with
  | none => none
  | some (addr, next, queue) =>
    let skb := st.memory addr
    let (ret, layer) := tcpMachine route ⟨st.table, [], [], st.freed⟩ skb
    let st := layer.retryQueue.foldl RetryState.add
      { st with table := layer.table, freed := layer.freed, next := next, queue := queue }
    some (if ret < 0 then { st with freed := st.freed ++ [skb] } else st)

/-- The loop of `tcp_retry_all` with the number of its rounds bounded: `none` if that is reached. The function
returns `-1`, or nothing at its end. -/
def tcpRetryAll (route : Route) : Nat → RetryState → Option (Option Int × RetryState)
  | 0, st => if 0 < st.queue.size then none else some (none, st)
  | fuel + 1, st =>
    if 0 < st.queue.size then
      match retryOne route st with
      | none => some (some (-1), st)
      | some st' => tcpRetryAll route fuel st'
    else some (none, st)

/-- The retry queue is the list. -/
structure RetryState.Holds (st : RetryState) (l : List SkBuff) : Prop where
  queue : st.queue.Holds st.next (l.map SkBuff.addr)
  memory : ∀ skb ∈ l, st.memory skb.addr = skb

/-- The network threads, seen from `tcp_retry_all`. -/
structure RetryState.Refines (st : RetryState) (layer : NetLayer) : Prop where
  table : st.table = layer.table
  freed : st.freed = layer.freed
  holds : st.Holds layer.retryQueue

/-- How often the segments of the queue can be handed to `tcp_state_machine`. -/
def attempts (l : List SkBuff) : Nat := (l.map fun skb => 1 + (3 - skb.retries)).sum

/-! ## What the machine puts on the queue -/

section Machine
variable {route : Route} {st st' : NetLayer} {skb q : SkBuff} {f : Frame} {ret : Int}

/-- The segment that `tcp_state_machine` puts on the retry queue. -/
def tcpRetries (route : Route) (table : List (Option Sock)) (skb : SkBuff) : Option SkBuff :=
  (tcpReceiver table skb).bind fun sk => (tcpStateMachine route sk skb).retry

theorem tcpStateMachine_retry (sk : Sock) (h : (tcpStateMachine route sk skb).retry = some q) :
    skb.retries < 3 ∧ q = { skb with retries := skb.retries + 1 } := by
  unfold tcpStateMachine at h
  split at h
  · cases h
  · split at h
    · unfold recvListen at h
      split at h
      · split at h <;> cases h
      · split at h
        · next hretry =>
          cases h
          exact ⟨hretry.2.2, rfl⟩
        · cases h
    · unfold recvSynRcvd at h
      repeat' split at h
      all_goals cases h
    · unfold recvSynSent at h
      split at h <;> cases h
    · unfold recvWaitAck at h
      repeat' split at h
      all_goals cases h
    · unfold recvEstablished at h
      repeat' split at h
      all_goals cases h
    · unfold recvFinWait at h
      split at h <;> cases h
    · unfold recvCloseWait at h
      split at h <;> cases h
    · unfold recvCloseWait2 at h
      split at h <;> cases h
    · cases h

theorem tcpRetries_some {table : List (Option Sock)} (h : tcpRetries route table skb = some q) :
    skb.retries < 3 ∧ q = { skb with retries := skb.retries + 1 } := by
  obtain ⟨sk, -, hsk⟩ := Option.bind_eq_some_iff.mp h
  exact tcpStateMachine_retry sk hsk

/-- The queues are not read, and the segment goes behind the others. -/
theorem tcpMachine_queues (route : Route) (table : List (Option Sock)) (freed : List SkBuff) (skb : SkBuff) :
    ∃ ret table' freed', ∀ works l, tcpMachine route ⟨table, works, l, freed⟩ skb =
      (ret, ⟨table', works, l ++ (tcpRetries route table skb).toList, freed'⟩) := by
  unfold tcpMachine tcpRetries tcpReceiver
  dsimp only
  cases hfind : netSockFindTcp table skb.tcp.source skb.tcp.dest (htonl skb.saddr) with
  | none => exact ⟨-1, table, freed, fun works l => by simp⟩
  | some i =>
    cases hslot : table[i]? with
    | none => exact ⟨-1, table, freed, fun works l => by simp [hslot]⟩
    | some o =>
      cases o with
      | none => exact ⟨-1, table, freed, fun works l => by simp [hslot]⟩
      | some sk =>
        refine ⟨(tcpStateMachine route sk skb).ret, table.set i (some (tcpStateMachine route sk skb).sk),
          freed ++ machineFrees route sk skb, fun works l => ?_⟩
        simp [hslot]

/-- A frame that is handled may put its own buffer on the retry queue. -/
theorem netHandleRecieve_retry (route : Route) (iface : Interface) (st : NetLayer) (f : Frame) :
    ∃ o : Option SkBuff, (netHandleRecieve route iface st f).2.works = st.works ∧
      (netHandleRecieve route iface st f).2.retryQueue = st.retryQueue ++ o.toList ∧
      ∀ q ∈ o, f.skb.retries < 3 ∧ q = { f.skb with retries := f.skb.retries + 1 } := by
  have hnone {st' : NetLayer} (hworks : st'.works = st.works) (hqueue : st'.retryQueue = st.retryQueue) :
      ∃ o : Option SkBuff, st'.works = st.works ∧ st'.retryQueue = st.retryQueue ++ o.toList ∧
        ∀ q ∈ o, f.skb.retries < 3 ∧ q = { f.skb with retries := f.skb.retries + 1 } :=
    ⟨none, hworks, by rw [hqueue]; simp, fun q hq => by cases hq⟩
  unfold netHandleRecieve
  split
  · exact hnone rfl rfl
  · split
    · split
      · exact hnone rfl rfl
      · split
        · have hudp : (netUdpParse st f).2.works = st.works ∧ (netUdpParse st f).2.retryQueue = st.retryQueue := by
            unfold netUdpParse
            split
            · exact ⟨rfl, rfl⟩
            · split <;> exact ⟨rfl, rfl⟩
          dsimp only
          split <;> exact hnone hudp.1 hudp.2
        · split
          · obtain ⟨ret, table, freed, hmachine⟩ := tcpMachine_queues route st.table st.freed f.skb
            have hst := hmachine st.works st.retryQueue
            refine ⟨tcpRetries route st.table f.skb, ?_⟩
            dsimp only
            rw [hst]
            refine ⟨?_, ?_, fun q hq => tcpRetries_some hq⟩ <;> split <;> rfl
          · split
            · split <;> exact hnone rfl rfl
            · exact hnone rfl rfl
    · split
      · split <;> exact hnone rfl rfl
      · exact hnone rfl rfl

end Machine

/-! ## A round of the loop -/

section Round
variable {route : Route} {iface : Interface} {st : RetryState} {layer : NetLayer} {skb q : SkBuff} {l : List SkBuff}

/-- The first segment is taken from the queue. -/
theorem RetryState.Holds.remove (h : st.Holds (skb :: l)) : ∃ queue',
    st.queue.remove st.next = some (skb.addr, Function.update st.next skb.addr none, queue') ∧
      ({ st with next := Function.update st.next skb.addr none, queue := queue' } : RetryState).Holds l := by
  obtain ⟨queue', hremove, hqueue⟩ := h.queue.remove
  exact ⟨queue', hremove, hqueue, fun x hx => h.memory x (List.mem_cons_of_mem skb hx)⟩

theorem RetryState.Holds.add (h : st.Holds l) (hq : q.addr ∉ l.map SkBuff.addr) (hnext : st.next q.addr = none) :
    (st.add q).Holds (l ++ [q]) := by
  refine ⟨?_, fun x hx => ?_⟩
  · rw [List.map_append]
    exact h.queue.add hq fun _ => hnext
  · unfold RetryState.add
    dsimp only
    rcases List.mem_append.mp hx with hx | hx
    · have hne : x.addr ≠ q.addr := fun heq => hq (heq ▸ List.mem_map_of_mem hx)
      rw [Function.update_of_ne hne]
      exact h.memory x hx
    · obtain rfl := List.mem_singleton.mp hx
      rw [Function.update_self]

theorem RetryState.Holds.congr {st' : RetryState} (h : st.Holds l) (hmemory : st'.memory = st.memory)
    (hnext : st'.next = st.next) (hqueue : st'.queue = st.queue) : st'.Holds l := by
  refine ⟨?_, fun x hx => ?_⟩
  · rw [hnext, hqueue]
    exact h.queue
  · rw [hmemory]
    exact h.memory x hx

/-- The segment that was taken goes back, if it does, behind the others. -/
theorem RetryState.Holds.retried (h : st.Holds l) {o : Option SkBuff} (hnew : skb.addr ∉ l.map SkBuff.addr)
    (hnext : st.next skb.addr = none) (ho : ∀ q ∈ o, q.addr = skb.addr) :
    (o.toList.foldl RetryState.add st).Refines ⟨st.table, [], l ++ o.toList, st.freed⟩ := by
  cases o with
  | none => exact ⟨rfl, rfl, by simpa using h⟩
  | some q =>
    have haddr : q.addr = skb.addr := ho q rfl
    refine ⟨rfl, rfl, ?_⟩
    exact h.add (by rw [haddr]; exact hnew) (by rw [haddr]; exact hnext)

/-- **A round of the loop is a step of the network threads.** -/
theorem retryOne_refines (route : Route) (iface : Interface) (h : st.Refines layer)
    (hqueue : layer.retryQueue = skb :: l) : ∃ st' layer',
    retryOne route st = some st' ∧ netStep route iface layer .retry = some layer' ∧ st'.Refines layer' ∧
      layer'.retryQueue = l ++ (tcpRetries route layer.table skb).toList := by
  obtain ⟨table, works, queue, freed⟩ := layer
  obtain ⟨htable, hfreed, hholds⟩ := h
  dsimp only at hqueue htable hfreed hholds ⊢
  subst hqueue htable hfreed
  obtain ⟨ret, table', freed', hmachine⟩ := tcpMachine_queues route st.table st.freed skb
  obtain ⟨queue', hremove, hrest⟩ := hholds.remove
  have hskb : st.memory skb.addr = skb := hholds.memory skb (List.mem_cons_self ..)
  have hnodup : (skb.addr :: l.map SkBuff.addr).Nodup := hholds.queue.linked.nodup
  have hrest' : RetryState.Holds { st with
      table := table', freed := freed', next := Function.update st.next skb.addr none, queue := queue' } l :=
    hrest.congr rfl rfl rfl
  have hretry := hrest'.retried (List.nodup_cons.mp hnodup).1 (Function.update_self ..)
    fun q (hq : tcpRetries route st.table skb = some q) => by rw [(tcpRetries_some hq).2]
  have hlayer : netStep route iface ⟨st.table, works, skb :: l, st.freed⟩ .retry =
      some (if ret < 0 then skbFree ⟨table', works, l ++ (tcpRetries route st.table skb).toList, freed'⟩ skb
        else ⟨table', works, l ++ (tcpRetries route st.table skb).toList, freed'⟩) := by
    unfold netStep
    dsimp only
    rw [hmachine]
  rw [retryOne, hremove, hlayer]
  dsimp only
  rw [hskb, hmachine, List.nil_append]
  dsimp only
  refine ⟨_, _, rfl, rfl, ?_, by split <;> rfl⟩
  split
  · exact ⟨hretry.table, by rw [hretry.freed]; rfl, hretry.holds.congr rfl rfl rfl⟩
  · exact ⟨hretry.table, hretry.freed, hretry.holds⟩

/-- Each round makes the number of attempts smaller. -/
theorem attempts_retried (route : Route) (table : List (Option Sock)) (skb : SkBuff) (l : List SkBuff) :
    attempts (l ++ (tcpRetries route table skb).toList) < attempts (skb :: l) := by
  simp only [attempts, List.map_append, List.sum_append, List.map_cons, List.sum_cons]
  cases hretry : tcpRetries route table skb with
  | none =>
    simp only [Option.toList_none, List.map_nil, List.sum_nil]
    omega
  | some q =>
    obtain ⟨hless, rfl⟩ := tcpRetries_some hretry
    simp only [Option.toList_some, List.map_cons, List.map_nil, List.sum_cons, List.sum_nil]
    omega

/-- **The loop ends with an empty queue**, and is a run of steps `NetOp.retry`. -/
theorem tcpRetryAll_empties (iface : Interface) {fuel : Nat} (h : st.Refines layer)
    (hfuel : attempts layer.retryQueue ≤ fuel) :
    ∃ st' layer' n, tcpRetryAll route fuel st = some (none, st') ∧ st'.Refines layer' ∧
      AnyRun (fun s op s' => netStep route iface s op = some s') layer (List.replicate n .retry) layer' ∧
      layer'.retryQueue = [] := by
  -- Every round takes one attempt of the fuel.
  induction fuel generalizing st layer with
  | zero =>
    have hempty : layer.retryQueue = [] := by
      cases hqueue : layer.retryQueue with
      | nil => rfl
      | cons skb l =>
        rw [hqueue, attempts, List.map_cons, List.sum_cons] at hfuel
        omega
    have hsize := h.holds.queue.size
    rw [hempty, List.map_nil, List.length_nil] at hsize
    exact ⟨st, layer, 0, by rw [tcpRetryAll, if_neg (by omega)], h, .nil layer, hempty⟩
  | succ fuel ih =>
    have hsize := h.holds.queue.size
    cases hqueue : layer.retryQueue with
    | nil =>
      rw [hqueue, List.map_nil, List.length_nil] at hsize
      exact ⟨st, layer, 0, by rw [tcpRetryAll, if_neg (by omega)], h, .nil layer, hqueue⟩
    | cons skb l =>
      rw [hqueue, List.map_cons, List.length_cons] at hsize
      obtain ⟨st', layer', hone, hstep, hrefines, hqueue'⟩ := retryOne_refines route iface h hqueue
      have hless := attempts_retried route layer.table skb l
      obtain ⟨st'', layer'', n, hall, hrefines', hrun, hempty⟩ := ih hrefines (by
        rw [hqueue']
        rw [hqueue] at hfuel
        omega)
      refine ⟨st'', layer'', n + 1, ?_, hrefines', ?_, hempty⟩
      · rw [tcpRetryAll, if_pos (by omega), hone]
        exact hall
      · rw [List.replicate_succ]
        exact .cons trivial hstep hrun

end Round

/-! ## The life of a buffer -/

/-- The network layer, and how often the buffer at each address was put on the retry queue since it was
allocated. -/
structure Life where
  layer : NetLayer
  puts : Nat → Nat

inductive LifeOp
  | net (op : NetOp)
  | sockets (table : List (Option Sock))

/-- The segments that a step puts on the retry queue. -/
def NetOp.retries (op : NetOp) (st st' : NetLayer) : List SkBuff :=
  match op with
  | .poll _ => []
  | .work => st'.retryQueue.drop st.retryQueue.length
  | .retry => st'.retryQueue.drop (st.retryQueue.length - 1)

/-- A step of the network threads, which takes buffers from `skb_new` as frames that arrive, or of a process that
changes the sockets. -/
def lifeStep (route : Route) (iface : Interface) (s : Life) (op : LifeOp) (s' : Life) : Prop :=
  match op with
  | .net op => netStep route iface s.layer op = some s'.layer ∧ ∀ a,
      s'.puts a = (if a ∈ op.arrives.map SkBuff.addr then 0 else s.puts a) + copies a (op.retries s.layer s'.layer)
  | .sockets table => s' = { s with layer := { s.layer with table := table } }

/-- The buffers that may come to the retry queue. -/
def NetLayer.queued (st : NetLayer) : List SkBuff := st.works.map Frame.skb ++ st.retryQueue

/-- A buffer that arrives is a new one: `skb_new` clears it, and `kalloc` gives memory that nobody holds. -/
def Allocated (s : Life) : LifeOp → Prop
  | .net op => ∀ skb ∈ op.arrives, skb.retries = 0 ∧ skb.addr ∉ s.layer.queued.map SkBuff.addr
  | .sockets _ => True

/-- The field `retries` of the queued buffers is the number of times they were put on the queue. -/
structure Counted (puts : Nat → Nat) (l : List SkBuff) : Prop where
  nodup : (l.map SkBuff.addr).Nodup
  retries : ∀ skb ∈ l, puts skb.addr = skb.retries
  le : ∀ a, puts a ≤ 3

section Life
variable {route : Route} {iface : Interface} {s s' : Life} {op : LifeOp} {puts puts' : Nat → Nat}
  {skb : SkBuff} {l l' : List SkBuff}

theorem Counted.perm (h : Counted puts l) (hl : l.Perm l') : Counted puts l' :=
  ⟨(hl.map _).nodup_iff.mp h.nodup, fun skb hskb => h.retries skb (hl.mem_iff.mpr hskb), h.le⟩

theorem Counted.tail (h : Counted puts (skb :: l)) : Counted puts l :=
  ⟨(List.nodup_cons.mp h.nodup).2, fun x hx => h.retries x (List.mem_cons_of_mem skb hx), h.le⟩

/-- A new buffer. -/
theorem Counted.cons (h : Counted puts l) (hskb : skb.retries = 0) (haddr : skb.addr ∉ l.map SkBuff.addr) :
    Counted (Function.update puts skb.addr 0) (skb :: l) := by
  refine ⟨List.nodup_cons.mpr ⟨haddr, h.nodup⟩, fun x hx => ?_, fun a => ?_⟩
  · rcases List.mem_cons.mp hx with rfl | hx
    · rw [Function.update_self, hskb]
    · have hne : x.addr ≠ skb.addr := fun heq => haddr (heq ▸ List.mem_map_of_mem hx)
      rw [Function.update_of_ne hne]
      exact h.retries x hx
  · rw [Function.update_apply]
    split
    · exact Nat.zero_le 3
    · exact h.le a

/-- A buffer is handled, and goes back to the retry queue with its field incremented, if it does. -/
theorem Counted.retried (h : Counted puts (skb :: l)) {o : Option SkBuff}
    (ho : ∀ q ∈ o, skb.retries < 3 ∧ q = { skb with retries := skb.retries + 1 }) :
    Counted (fun a => puts a + copies a o.toList) (o.toList ++ l) := by
  cases o with
  | none => simpa using h.tail
  | some q =>
    obtain ⟨hless, rfl⟩ := ho q rfl
    have hputs := h.retries skb (List.mem_cons_self ..)
    have hne (x : SkBuff) (hx : x ∈ l) : skb.addr ≠ x.addr := fun heq =>
      (List.nodup_cons.mp h.nodup).1 (heq ▸ List.mem_map_of_mem hx)
    refine ⟨h.nodup, fun x hx => ?_, fun a => ?_⟩
    · rcases List.mem_cons.mp hx with rfl | hx
      · simp [copies, hputs]
      · simpa [copies, hne x hx] using h.retries x (List.mem_cons_of_mem skb hx)
    · by_cases ha : skb.addr = a
      · subst ha
        simp only [Option.toList_some, copies, List.map_cons, List.map_nil, List.count_singleton_self]
        omega
      · simpa [copies, ha] using h.le a

theorem lifeStep_counted (hok : Allocated s op) (hstep : lifeStep route iface s op s')
    (h : Counted s.puts s.layer.queued) : Counted s'.puts s'.layer.queued := by
  obtain ⟨layer, puts⟩ := s
  obtain ⟨layer', puts'⟩ := s'
  cases op with
  | sockets table =>
    cases hstep
    exact h
  | net op =>
    obtain ⟨hnet, hputs⟩ := hstep
    dsimp only at hnet hputs h ⊢
    cases op with
    | poll f =>
      obtain rfl : (workQueueAdd layer f).2 = layer' := Option.some.inj hnet
      obtain ⟨hzero, haddr⟩ := hok f.skb (List.mem_singleton_self _)
      have hupdate : puts' = Function.update puts f.skb.addr 0 := by
        funext a
        rw [hputs, Function.update_apply]
        simp [NetOp.arrives, NetOp.retries]
      have hnew : Counted puts' (f.skb :: layer.queued) := hupdate ▸ h.cons hzero haddr
      unfold workQueueAdd
      split
      · refine hnew.perm ?_
        simp only [NetLayer.queued, List.map_append, List.map_cons, List.map_nil, List.append_assoc,
          List.singleton_append]
        exact List.perm_middle.symm
      · exact hnew.tail
    | work =>
      unfold netStep at hnet
      dsimp only at hnet
      split at hnet
      · cases hnet
      · next f rest hworks =>
        obtain ⟨o, hworks', hqueue', ho⟩ := netHandleRecieve_retry route iface { layer with works := rest } f
        rw [Option.some.inj hnet] at hworks' hqueue'
        have hsum : puts' = fun a => puts a + copies a o.toList := by
          funext a
          rw [hputs, NetOp.retries, hqueue', List.drop_left]
          simp [NetOp.arrives]
        have hqueued : layer.queued = f.skb :: (rest.map Frame.skb ++ layer.retryQueue) := by
          rw [NetLayer.queued, hworks, List.map_cons, List.cons_append]
        rw [hqueued] at h
        rw [hsum, NetLayer.queued, hworks', hqueue', ← List.append_assoc]
        exact (h.retried ho).perm List.perm_append_comm
    | retry =>
      unfold netStep at hnet
      dsimp only at hnet
      split at hnet
      · cases hnet
      · next skb rest hqueue =>
        obtain ⟨ret, table, freed, hmachine⟩ := tcpMachine_queues route layer.table layer.freed skb
        rw [hmachine] at hnet
        have hlayer : layer'.works = layer.works ∧
            layer'.retryQueue = rest ++ (tcpRetries route layer.table skb).toList := by
          rw [← Option.some.inj hnet]
          split <;> exact ⟨rfl, rfl⟩
        have hsum : puts' = fun a => puts a + copies a (tcpRetries route layer.table skb).toList := by
          funext a
          rw [hputs, NetOp.retries, hlayer.2, hqueue, List.length_cons, Nat.add_sub_cancel, List.drop_left]
          simp [NetOp.arrives]
        have hqueued : layer.queued.Perm (skb :: (layer.works.map Frame.skb ++ rest)) := by
          rw [NetLayer.queued, hqueue]
          exact List.perm_middle
        rw [hsum, NetLayer.queued, hlayer.1, hlayer.2, ← List.append_assoc]
        exact ((h.perm hqueued).retried fun q hq => tcpRetries_some hq).perm List.perm_append_comm

/-- After any steps a buffer was put on the retry queue as often as its field says, and at most three times. -/
theorem lifeRun_counted {ops : List LifeOp} (hrun : Run (lifeStep route iface) Allocated s ops s')
    (h : Counted s.puts s.layer.queued) : Counted s'.puts s'.layer.queued :=
  hrun.invariant (P := fun s => Counted s.puts s.layer.queued)
    (fun _ _ _ h hok hstep => lifeStep_counted hok hstep h) h

end Life

/-- No frame has arrived yet. -/
def Life.start (table : List (Option Sock)) : Life := ⟨⟨table, [], [], []⟩, fun _ => 0⟩

/-- **`tcp_retry_all` ends with an empty queue, whatever was in it and whatever the sockets are**, and in every run
of the network threads and the processes that use the sockets a buffer is put on the retry queue at most three times
from its allocation on. -/
theorem tcp_retry_all (route : Route) (iface : Interface) :
    (∀ st l, RetryState.Holds st l → ∃ fuel st',
      tcpRetryAll route fuel st = some (none, st') ∧ st'.Holds [] ∧ st'.queue.size = 0) ∧
    ∀ table ops s, Run (lifeStep route iface) Allocated (Life.start table) ops s → ∀ a, s.puts a ≤ 3 := by
  constructor
  · intro st l h
    have hrefines : st.Refines ⟨st.table, [], l, st.freed⟩ := ⟨rfl, rfl, h⟩
    obtain ⟨st', layer', n, hall, hrefines', -, hempty⟩ := tcpRetryAll_empties iface hrefines le_rfl
    have hholds : st'.Holds [] := hempty ▸ hrefines'.holds
    exact ⟨_, st', hall, hholds, hholds.queue.size⟩
  · intro table ops s hrun a
    have hstart : Counted (Life.start table).puts (Life.start table).layer.queued :=
      ⟨List.nodup_nil, fun skb hskb => absurd hskb List.not_mem_nil, fun a => Nat.zero_le 3⟩
    exact (lifeRun_counted hrun hstart).le a

/-- A socket that listens to port 80. -/
def listenTable : List (Option Sock) := [some (kernelListen { kernelSocketCreate with boundPort := 80 } 5)]

/-- The first data of a connection that is not accepted yet, in a buffer at the address `4096`. -/
def earlyFrame : Frame where
  dmac := 0x525400123456
  ethertype := ntohs ethertypeIp
  ip := ⟨1, 1, protoTcp, 0⟩
  destport := 0
  icmpChecksum := 0
  hwtype := 0
  protype := 0
  skb :=
    { saddr := ntohl 1
      tcp := { source := 7, dest := 80, seq := htonl 2, ackSeq := htonl 2, psh := true, ack := true }
      data := [7, 8]
      addr := 4096 }

/-- The segment is alone in the retry queue. -/
def earlyRetry : RetryState := ⟨listenTable, [], fun _ => earlyFrame.skb, fun _ => none, ⟨some 4096, some 4096, 1⟩⟩

theorem holds_earlyRetry : earlyRetry.Holds [earlyFrame.skb] := by
  refine ⟨⟨linked_cons.mpr ⟨rfl, linked_nil.mpr rfl⟩, fun p x h => ?_, rfl⟩, fun skb hskb => ?_⟩
  · obtain ⟨-, hx⟩ := List.append_inj' (show [] ++ [earlyFrame.skb.addr] = p ++ [x] from h) rfl
    exact congrArg some (List.cons.inj hx).1
  · obtain rfl := List.mem_singleton.mp hskb
    rfl

/-- The segment waits for its connection in vain, and a frame with it is put on the queue once when it is handled. -/
theorem tcp_retry_all_early :
    (∃ fuel st', tcpRetryAll anyRoute fuel earlyRetry = some (none, st') ∧ st'.queue.size = 0) ∧
    ∃ s, Run (lifeStep anyRoute sampleInterface) Allocated (Life.start listenTable)
      [.net (.poll earlyFrame), .net .work] s ∧ s.puts 4096 = 1 ∧ ∀ a, s.puts a ≤ 3 := by
  obtain ⟨hempties, hputs⟩ := tcp_retry_all anyRoute sampleInterface
  constructor
  · obtain ⟨fuel, st', hall, -, hsize⟩ := hempties earlyRetry _ holds_earlyRetry
    exact ⟨fuel, st', hall, hsize⟩
  · have hrun : Run (lifeStep anyRoute sampleInterface) Allocated (Life.start listenTable)
        [.net (.poll earlyFrame), .net .work]
        ⟨⟨listenTable, [], [{ earlyFrame.skb with retries := 1 }], []⟩, fun a => copies a [earlyFrame.skb]⟩ := by
      refine .cons (t := ⟨⟨listenTable, [earlyFrame], [], []⟩, fun _ => 0⟩) ?_ ⟨rfl, fun a => ?_⟩
        (.single ?_ ⟨rfl, fun a => ?_⟩)
      · intro skb hskb
        obtain rfl := List.mem_singleton.mp hskb
        exact ⟨rfl, List.not_mem_nil⟩
      · simp [Life.start, NetOp.retries]
      · exact fun skb hskb => absurd hskb List.not_mem_nil
      · simp [NetOp.arrives, NetOp.retries, copies]
    exact ⟨_, hrun, rfl, hputs _ _ _ hrun⟩

end RetrOS.Net
