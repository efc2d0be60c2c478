import RetrOS.Kernel.Bitmap
import RetrOS.Lib.Run
import RetrOS.Net.Receive

/-!
# Ports (`net/socket.c`, `net/net.c`)

A socket is bound by `net_sock_bind`, to the port it is given or, for port 0, to a port that `__get_free_port` takes
from a bitmap. Nothing gives a port back, an exhausted bitmap goes unnoticed, and the bitmap does not know the ports
that were given.

* `Sockets` : the socket table and the bitmaps; `Call`, `Call.next` : the calls of a program;
* `PortRun` : a run, which knows the sockets whose port is a dynamic one;
* `PortsKept` : what a call should do with the ports; `PortsAllowed` : the calls that do it;
* `ports_run` : the runs that keep the ports are those of allowed calls;
* `ports_leak` : a dynamic port is not available after its socket is closed.

The memory of the socket table is zero at first, and descriptors are below `NET_NUMBER_OF_SOCKETS`.
-/

namespace RetrOS.Net

open RetrOS.Lib RetrOS.Bitmap

/-! ## The source -/

abbrev netNumberOfSockets : Nat := 128

abbrev netDynamicPortStart : Nat := 49152

abbrev netNumberOfDynamicPorts : Nat := 16383

abbrev sockDgram : Int := 1

/-- `struct sock`, with the type it was created with. -/
structure OpenSock extends Sock where
  type : Int

/-- `socket_table`, `socket_map` and `port_map`. -/
structure Sockets where
  table : Nat → Option OpenSock
  socketMap : Nat → BitVec 8
  portMap : Nat → BitVec 8

def netInitSockets : Sockets := ⟨fun _ => none, fun _ => 0, fun _ => 0⟩

/-- `__get_free_port`; the `-1` of an exhausted bitmap goes the way of an index. -/
def getFreePort (portMap : Nat → BitVec 8) : BitVec 16 × (Nat → BitVec 8) :=
  match getFreeBitmap portMap netNumberOfDynamicPorts with
  | some (i, portMap) => (ntohs (BitVec.ofInt 16 (i + netDynamicPortStart)), portMap)
  | none => (ntohs (BitVec.ofInt 16 (-1 + netDynamicPortStart)), portMap)

def netSockBind (portMap : Nat → BitVec 8) (sk : OpenSock) (port : BitVec 16) (ip : BitVec 32) :
    OpenSock × (Nat → BitVec 8) :=
  let sk := { sk with boundIp := ip.setWidth 16 }
  if port = 0 then
    let (port, portMap) := getFreePort portMap
    ({ sk with boundPort := port }, portMap)
  else ({ sk with boundPort := port }, portMap)

/-- `kernel_socket_create`; `alloc` says if there is memory for the buffers of the socket. -/
def socketCreate (s : Sockets) (type : Int) (alloc : Bool) : Sockets :=
  match getFreeBitmap s.socketMap netNumberOfSockets with
  | none => s
  | some (current, socketMap) =>
    if alloc then
      { s with
        table := Function.update s.table current (some { toSock := kernelSocketCreate, type := type })
        socketMap := socketMap }
    else { s with table := Function.update s.table current none, socketMap := unsetBitmap socketMap current }

/-- `net_sock_bind` of a socket of the table. -/
def bindSocket (s : Sockets) (i : Nat) (port : BitVec 16) (ip : BitVec 32) : Sockets :=
  match s.table i with
  | none => s
  | some sk =>
    let (sk, portMap) := netSockBind s.portMap sk port ip
    { s with table := Function.update s.table i (some sk), portMap := portMap }

def kernelBind (s : Sockets) (i : Nat) (addr : SockaddrIn) : Sockets := bindSocket s i addr.port addr.addr

/-- What `kernel_connect` and `kernel_sendto` do first: a socket without a port gets one. -/
def bindUnbound (s : Sockets) (i : Nat) : Sockets :=
  match s.table i with
  | none => s
  | some sk => if sk.boundPort = 0 then bindSocket s i 0 (inaddrAny.setWidth 32) else s

/-- `kernel_sock_close`, from `kernel_sock_cleanup` on. -/
def kernelSockClose (s : Sockets) (i : Nat) : Sockets :=
  match s.table i with
  | none => s
  | some _ => { s with table := Function.update s.table i none, socketMap := unsetBitmap s.socketMap i }

/-- The calls of a program on sockets. -/
inductive Call
  | create (type : Int) (alloc : Bool)
  | bind (i : Nat) (addr : SockaddrIn)
  | connect (i : Nat)
  | sendto (i : Nat)
  | close (i : Nat)

def Call.next (s : Sockets) : Call → Sockets
  | .create type alloc => socketCreate s type alloc
  | .bind i addr => kernelBind s i addr
  | .connect i => bindUnbound s i
  | .sendto i => bindUnbound s i
  | .close i => kernelSockClose s i

/-! ## What a call does to the ports -/

/-- The port of an open socket. -/
def Sockets.portOf (s : Sockets) (i : Nat) : Option (BitVec 16) := (s.table i).map fun sk => sk.boundPort

/-- What a call does to the ports: nothing, a socket gets this port or is closed, a socket gets a dynamic port. -/
inductive Effect
  | same
  | put (i : Nat) (port : Option (BitVec 16))
  | assign (i : Nat)
  deriving DecidableEq

def Call.effect (s : Sockets) : Call → Effect
  | .create _ alloc =>
    match getFreeBitmap s.socketMap netNumberOfSockets with
    | none => .same
    | some (current, _) => .put current (if alloc then some 0 else none)
  | .bind i addr => if s.portOf i = none then .same else if addr.port = 0 then .assign i else .put i (some addr.port)
  | .connect i | .sendto i => if s.portOf i = some 0 then .assign i else .same
  | .close i => if s.portOf i = none then .same else .put i none

/-- The ports after an effect. -/
def Effect.ports (portMap : Nat → BitVec 8) (portOf : Nat → Option (BitVec 16)) : Effect → Nat → Option (BitVec 16)
  | .same => portOf
  | .put i port => Function.update portOf i port
  | .assign i => Function.update portOf i (some (getFreePort portMap).1)

/-- The bitmap after an effect. -/
def Effect.portMap (portMap : Nat → BitVec 8) : Effect → Nat → BitVec 8
  | .assign _ => (getFreePort portMap).2
  | _ => portMap

/-- The sockets with a dynamic port after an effect. -/
def Effect.dynamic (dynamic : Nat → Bool) : Effect → Nat → Bool
  | .same => dynamic
  | .put i _ => Function.update dynamic i false
  | .assign i => Function.update dynamic i true

theorem portOf_update (table : Nat → Option OpenSock) (i : Nat) (o : Option OpenSock) :
    (fun j => (Function.update table i o j).map fun sk => sk.boundPort) =
      Function.update (fun j => (table j).map fun sk => sk.boundPort) i (o.map fun sk => sk.boundPort) := by
  funext j
  by_cases h : j = i
  · rw [h, Function.update_self, Function.update_self]
  · rw [Function.update_of_ne h, Function.update_of_ne h]

theorem bindSocket_ports {s : Sockets} {i : Nat} (hopen : s.portOf i ≠ none) (port : BitVec 16) (ip : BitVec 32) :
    (bindSocket s i port ip).portOf =
        (if port = 0 then Effect.assign i else .put i (some port)).ports s.portMap s.portOf ∧
      (bindSocket s i port ip).portMap =
        (if port = 0 then Effect.assign i else .put i (some port)).portMap s.portMap := by
  obtain ⟨p, hp⟩ := Option.ne_none_iff_exists'.mp hopen
  obtain ⟨sk, hsk, -⟩ := Option.map_eq_some_iff.mp hp
  unfold bindSocket
  rw [hsk]
  dsimp only [netSockBind]
  split
  · exact ⟨portOf_update _ _ _, rfl⟩
  · exact ⟨portOf_update _ _ _, rfl⟩

/-- **A call** has its effect. -/
theorem next_effect (s : Sockets) (c : Call) : (c.next s).portOf = (c.effect s).ports s.portMap s.portOf ∧
    (c.next s).portMap = (c.effect s).portMap s.portMap := by
  have hunbound (i : Nat) : (bindUnbound s i).portOf =
        (if s.portOf i = some 0 then Effect.assign i else .same).ports s.portMap s.portOf ∧
      (bindUnbound s i).portMap = (if s.portOf i = some 0 then Effect.assign i else .same).portMap s.portMap := by
    unfold bindUnbound
    split
    · next h => simp [Sockets.portOf, h, Effect.ports, Effect.portMap]
    · next sk h =>
      have hp : s.portOf i = some sk.boundPort := by simp [Sockets.portOf, h]
      split
      · next hzero =>
        rw [hp, if_pos (by rw [hzero])]
        exact bindSocket_ports (by rw [hp]; exact Option.some_ne_none _) 0 _
      · next hzero =>
        rw [hp, if_neg (by simpa using hzero)]
        exact ⟨rfl, rfl⟩
  cases c with
  | create type alloc =>
    dsimp only [Call.next, Call.effect, socketCreate]
    split
    · exact ⟨rfl, rfl⟩
    · split
      · exact ⟨portOf_update _ _ _, rfl⟩
      · exact ⟨portOf_update _ _ _, rfl⟩
  | bind i addr =>
    dsimp only [Call.next, Call.effect, kernelBind]
    split
    · next h =>
      have hnone : s.table i = none := by simpa [Sockets.portOf] using h
      simp [bindSocket, hnone, Effect.ports, Effect.portMap]
    · next h => exact bindSocket_ports h _ _
  | connect i => exact hunbound i
  | sendto i => exact hunbound i
  | close i =>
    dsimp only [Call.next, Call.effect, kernelSockClose]
    cases hsk : s.table i with
    | none => simp [Sockets.portOf, hsk, Effect.ports, Effect.portMap]
    | some sk =>
      rw [if_neg (by simp [Sockets.portOf, hsk])]
      exact ⟨portOf_update _ _ _, rfl⟩

/-! ## Runs -/

/-- A run: the sockets, and which of them have a port that `__get_free_port` assigned. -/
structure PortRun where
  sockets : Sockets
  dynamic : Nat → Bool

def portRun : PortRun := ⟨netInitSockets, fun _ => false⟩

def portStep (s : PortRun) (c : Call) : PortRun :=
  ⟨c.next s.sockets, (c.effect s.sockets).dynamic s.dynamic⟩

/-- The port `get_free_bitmap` stands for, in network order. -/
def dynamicPort (k : Nat) : BitVec 16 := ntohs (BitVec.ofNat 16 (k + netDynamicPortStart))

/-- The bit of a dynamic port. -/
def portBit (port : BitVec 16) : Nat := (ntohs port).toNat - netDynamicPortStart

/-- No other open socket has a dynamic port of a socket, and a dynamic port is one. -/
structure PortsOk (s : PortRun) : Prop where
  distinct : ∀ i j port, i ≠ j → s.dynamic i = true → s.sockets.portOf i = some port →
    s.sockets.portOf j ≠ some port
  range : ∀ i port, s.dynamic i = true → s.sockets.portOf i = some port →
    netDynamicPortStart ≤ (ntohs port).toNat ∧ (ntohs port).toNat ≤ 65535

/-- A call keeps the ports: they are right after it; if it closes a socket with a dynamic port, the port is available
again; and if it needs a dynamic port when there is none, it fails, and the socket is not bound. -/
structure PortsKept (s : PortRun) (c : Call) : Prop where
  after : PortsOk (portStep s c)
  released : ∀ i port, c = .close i → s.dynamic i = true → s.sockets.portOf i = some port →
    getBitmap (portStep s c).sockets.portMap (portBit port) = false
  exhausted : ∀ i, c.effect s.sockets = .assign i →
    (∀ k < netNumberOfDynamicPorts, getBitmap s.sockets.portMap k = true) →
    (portStep s c).sockets.portOf i = s.sockets.portOf i

/-- The calls the code is right for: no socket with a dynamic port is closed; when a dynamic port is needed there is
one, and the first one is not the port of another open socket; and no socket is bound to the dynamic port of another
one. -/
structure PortsAllowed (s : PortRun) (c : Call) : Prop where
  close : ∀ i, c = .close i → s.sockets.portOf i ≠ none → s.dynamic i = false
  assign : ∀ i, c.effect s.sockets = .assign i → ∃ k portMap,
    getFreeBitmap s.sockets.portMap netNumberOfDynamicPorts = some (k, portMap) ∧
      ∀ j, j ≠ i → s.sockets.portOf j ≠ some (dynamicPort k)
  bind : ∀ i addr, c = .bind i addr → addr.port ≠ 0 → s.sockets.portOf i ≠ none →
    ∀ j, j ≠ i → s.dynamic j = true → s.sockets.portOf j ≠ some addr.port

/-- The invariant: the bits of the dynamic ports are set. -/
structure PortsInv (s : PortRun) : Prop extends PortsOk s where
  marked : ∀ i port, s.dynamic i = true → s.sockets.portOf i = some port →
    getBitmap s.sockets.portMap (portBit port) = true

theorem toNat_dynamicPort {k : Nat} (hk : k < netNumberOfDynamicPorts) :
    (ntohs (dynamicPort k)).toNat = k + netDynamicPortStart := by
  have hlt : k + 49152 < 65536 := Nat.add_lt_of_lt_sub (lt_trans hk (by decide))
  rw [dynamicPort, ntohs_ntohs, BitVec.toNat_ofNat]
  exact Nat.mod_eq_of_lt hlt

theorem portBit_dynamicPort {k : Nat} (hk : k < netNumberOfDynamicPorts) : portBit (dynamicPort k) = k :=
  Nat.sub_eq_of_eq_add (toNat_dynamicPort hk)

theorem getFreePort_some {portMap portMap' : Nat → BitVec 8} {k : Nat}
    (h : getFreeBitmap portMap netNumberOfDynamicPorts = some (k, portMap')) :
    getFreePort portMap = (dynamicPort k, portMap') := by
  rw [getFreePort, h]
  dsimp only [dynamicPort]
  rw [show ((k : Int) + (netDynamicPortStart : Int)) = ((k + netDynamicPortStart : Nat) : Int) by push_cast; rfl,
    BitVec.ofInt_natCast]

/-- The port of an exhausted bitmap is not a dynamic one. -/
theorem getFreePort_none {portMap : Nat → BitVec 8} (h : getFreeBitmap portMap netNumberOfDynamicPorts = none) :
    (ntohs (getFreePort portMap).1).toNat = 49151 := by
  rw [getFreePort, h, ntohs_ntohs]
  rfl

section Step
variable {s : PortRun} {c : Call}

theorem portStep_portOf (s : PortRun) (c : Call) : (portStep s c).sockets.portOf =
    (c.effect s.sockets).ports s.sockets.portMap s.sockets.portOf :=
  (next_effect s.sockets c).1

theorem portStep_portMap (s : PortRun) (c : Call) :
    (portStep s c).sockets.portMap = (c.effect s.sockets).portMap s.sockets.portMap :=
  (next_effect s.sockets c).2

/-- The only calls that give a socket a port of their own. -/
theorem effect_put {s : Sockets} {i : Nat} {port : Option (BitVec 16)} (h : c.effect s = .put i port) :
    port = none ∨ port = some 0 ∨
      ∃ addr, c = .bind i addr ∧ addr.port ≠ 0 ∧ s.portOf i ≠ none ∧ port = some addr.port := by
  cases c with
  | create type alloc =>
    dsimp only [Call.effect] at h
    split at h
    · cases h
    · obtain ⟨-, rfl⟩ := Effect.put.inj h
      cases alloc
      · exact .inl rfl
      · exact .inr (.inl rfl)
  | bind i' addr =>
    dsimp only [Call.effect] at h
    split at h
    · cases h
    · next hopen =>
      split at h
      · cases h
      · next hport =>
        obtain ⟨rfl, rfl⟩ := Effect.put.inj h
        exact .inr (.inr ⟨addr, rfl, hport, hopen, rfl⟩)
  | connect i' =>
    dsimp only [Call.effect] at h
    split at h <;> cases h
  | sendto i' =>
    dsimp only [Call.effect] at h
    split at h <;> cases h
  | close i' =>
    dsimp only [Call.effect] at h
    split at h
    · cases h
    · obtain ⟨-, rfl⟩ := Effect.put.inj h
      exact .inl rfl

theorem PortsInv.same (hinv : PortsInv s) (he : c.effect s.sockets = .same) : PortsInv (portStep s c) := by
  have hports := portStep_portOf s c
  have hmap := portStep_portMap s c
  have hdynamic : (portStep s c).dynamic = (c.effect s.sockets).dynamic s.dynamic := rfl
  rw [he] at hports hmap hdynamic
  refine ⟨⟨?_, ?_⟩, ?_⟩ <;> rw [hports, hdynamic]
  · exact hinv.distinct
  · exact hinv.range
  · rw [hmap]
    exact hinv.marked

/-- A socket is closed or gets a port that is no dynamic port of another one. -/
theorem PortsInv.put {i : Nat} {port : Option (BitVec 16)} (hinv : PortsInv s)
    (he : c.effect s.sockets = .put i port)
    (hport : ∀ j p, j ≠ i → s.dynamic j = true → s.sockets.portOf j = some p → port ≠ some p) :
    PortsInv (portStep s c) := by
  have hports := portStep_portOf s c
  have hmap := portStep_portMap s c
  have hdynamic : (portStep s c).dynamic = (c.effect s.sockets).dynamic s.dynamic := rfl
  rw [he] at hports hmap hdynamic
  -- the socket has no dynamic port any more
  have hold {j : Nat} {p : BitVec 16} (hj : (portStep s c).dynamic j = true)
      (hp : (portStep s c).sockets.portOf j = some p) : j ≠ i ∧ s.dynamic j = true ∧
        s.sockets.portOf j = some p := by
    rw [hdynamic] at hj
    rw [hports] at hp
    have hne : j ≠ i := fun heq => by simp [heq, Effect.dynamic] at hj
    exact ⟨hne, by simpa [Effect.dynamic, hne] using hj, by simpa [Effect.ports, hne] using hp⟩
  refine ⟨⟨fun a b p hab ha hp => ?_, fun a p ha hp => ?_⟩, fun a p ha hp => ?_⟩
  · obtain ⟨hne, ha, hp⟩ := hold ha hp
    rw [hports]
    by_cases hb : b = i
    · rw [hb]
      simpa [Effect.ports] using hport a p hne ha hp
    · simpa [Effect.ports, hb] using hinv.distinct a b p hab ha hp
  · obtain ⟨-, ha, hp⟩ := hold ha hp
    exact hinv.range a p ha hp
  · obtain ⟨-, ha, hp⟩ := hold ha hp
    rw [hmap]
    exact hinv.marked a p ha hp

/-- A socket gets a dynamic port that no other socket has. -/
theorem PortsInv.assign {i k : Nat} {portMap : Nat → BitVec 8} (hinv : PortsInv s)
    (he : c.effect s.sockets = .assign i)
    (hfree : getFreeBitmap s.sockets.portMap netNumberOfDynamicPorts = some (k, portMap))
    (hother : ∀ j, j ≠ i → s.sockets.portOf j ≠ some (dynamicPort k)) : PortsInv (portStep s c) := by
  have hports := portStep_portOf s c
  have hmap := portStep_portMap s c
  have hdynamic : (portStep s c).dynamic = (c.effect s.sockets).dynamic s.dynamic := rfl
  rw [he] at hports hmap hdynamic
  obtain ⟨hk, -, rfl⟩ := getFreeBitmap_some hfree
  have hport : (portStep s c).sockets.portOf i = some (dynamicPort k) := by
    rw [hports]
    simp [Effect.ports, getFreePort_some hfree]
  have hbits : (portStep s c).sockets.portMap = Bits.set s.sockets.portMap k := by
    rw [hmap]
    simp [Effect.portMap, getFreePort_some hfree]
  have hrest {j : Nat} (hne : j ≠ i) : (portStep s c).sockets.portOf j = s.sockets.portOf j := by
    rw [hports]
    simp [Effect.ports, hne]
  -- a dynamic port is the new one or was there before
  have hold {j : Nat} {p : BitVec 16} (hj : (portStep s c).dynamic j = true)
      (hp : (portStep s c).sockets.portOf j = some p) :
      j = i ∧ p = dynamicPort k ∨ j ≠ i ∧ s.dynamic j = true ∧ s.sockets.portOf j = some p := by
    by_cases hne : j = i
    · rw [hne, hport] at hp
      exact .inl ⟨hne, (Option.some.inj hp).symm⟩
    · rw [hrest hne] at hp
      exact .inr ⟨hne, by simpa [hdynamic, Effect.dynamic, hne] using hj, hp⟩
  refine ⟨⟨fun a b p hab ha hp => ?_, fun a p ha hp => ?_⟩, fun a p ha hp => ?_⟩
  · rcases hold ha hp with ⟨rfl, rfl⟩ | ⟨hai, ha, hp⟩
    · rw [hrest hab.symm]
      exact hother b hab.symm
    · by_cases hbi : b = i
      · rw [hbi, hport]
        rintro ⟨⟩
        exact hother a hai hp
      · rw [hrest hbi]
        exact hinv.distinct a b p hab ha hp
  · rcases hold ha hp with ⟨-, rfl⟩ | ⟨-, ha, hp⟩
    · have := (ntohs (dynamicPort k)).isLt
      exact ⟨by rw [toNat_dynamicPort hk]; omega, by omega⟩
    · exact hinv.range a p ha hp
  · rw [hbits, getBitmap, Bits.test_set]
    rcases hold ha hp with ⟨-, rfl⟩ | ⟨-, ha, hp⟩
    · rw [portBit_dynamicPort hk]
      simp
    · have := hinv.marked a p ha hp
      rw [getBitmap] at this
      simp [this]

theorem PortsInv.step (hinv : PortsInv s) (hok : PortsAllowed s c) : PortsInv (portStep s c) := by
  cases he : c.effect s.sockets with
  | same => exact hinv.same he
  | put i port =>
    refine hinv.put he fun j p hne hj hp => ?_
    rcases effect_put he with rfl | rfl | ⟨addr, rfl, hzero, hopen, rfl⟩
    · exact (Option.some_ne_none p).symm
    · rintro ⟨⟩
      exact absurd (hinv.range j 0 hj hp).1 (by decide)
    · rintro ⟨⟩
      exact hok.bind i addr rfl hzero hopen j hne hj hp
  | assign i =>
    obtain ⟨k, portMap, hfree, hother⟩ := hok.assign i he
    exact hinv.assign he hfree hother

/-- **One call** keeps the ports exactly if it is allowed. -/
theorem portsKept_iff (hinv : PortsInv s) : PortsKept s c ↔ PortsAllowed s c := by
  constructor
  · intro h
    refine ⟨fun i hc hopen => ?_, fun i he => ?_, fun i addr hc hzero hopen j hj hdyn hp => ?_⟩
    · obtain ⟨p, hp⟩ := Option.ne_none_iff_exists'.mp hopen
      by_contra hdyn
      rw [Bool.not_eq_false] at hdyn
      have hclear := h.released i p hc hdyn hp
      subst hc
      rw [portStep_portMap, Call.effect, if_neg hopen] at hclear
      exact absurd ((hinv.marked i p hdyn hp).symm.trans hclear) (by decide)
    · have hports := portStep_portOf s c
      have hdyn : (portStep s c).dynamic i = true := by
        change (c.effect s.sockets).dynamic s.dynamic i = true
        simp [he, Effect.dynamic]
      have hport : (portStep s c).sockets.portOf i = some (getFreePort s.sockets.portMap).1 := by
        rw [hports, he]
        simp [Effect.ports]
      cases hfree : getFreeBitmap s.sockets.portMap netNumberOfDynamicPorts with
      | none =>
        have hrange := (h.after.range i _ hdyn hport).1
        rw [getFreePort_none hfree] at hrange
        exact absurd hrange (by decide)
      | some km =>
        obtain ⟨k, portMap⟩ := km
        refine ⟨k, portMap, rfl, fun j hj hp => ?_⟩
        rw [getFreePort_some hfree] at hport
        refine h.after.distinct i j _ hj.symm hdyn hport ?_
        rw [hports, he]
        simpa [Effect.ports, hj] using hp
    · subst hc
      have he : (Call.bind i addr).effect s.sockets = .put i (some addr.port) := by
        rw [Call.effect, if_neg hopen, if_neg hzero]
      have hports := portStep_portOf s (.bind i addr)
      rw [he] at hports
      refine h.after.distinct j i addr.port hj ?_ ?_ ?_
      · change ((Call.bind i addr).effect s.sockets).dynamic s.dynamic j = true
        simpa [he, Effect.dynamic, hj] using hdyn
      · rw [hports]
        simpa [Effect.ports, hj] using hp
      · rw [hports]
        simp [Effect.ports]
  · intro h
    refine ⟨(hinv.step h).toPortsOk, fun i p hc hdyn hp => ?_, fun i he hfull => ?_⟩
    · rw [h.close i hc (by rw [hp]; exact Option.some_ne_none p)] at hdyn
      cases hdyn
    · obtain ⟨k, portMap, hfree, -⟩ := h.assign i he
      obtain ⟨hk, hclear, -⟩ := getFreeBitmap_some hfree
      have := hfull k hk
      rw [getBitmap, hclear] at this
      cases this

end Step

theorem portsInv_portRun : PortsInv portRun := by
  refine ⟨⟨fun _ _ _ _ h => ?_, fun _ _ h => ?_⟩, fun _ _ h => ?_⟩ <;> cases h

/-- **The runs** that keep the ports are those whose calls are allowed, and the ports are right at their end. -/
theorem ports_run (calls : List Call) (s : PortRun) :
    (Run (fun s c t => portStep s c = t) PortsKept portRun calls s ↔
      Run (fun s c t => portStep s c = t) PortsAllowed portRun calls s) ∧
    (Run (fun s c t => portStep s c = t) PortsAllowed portRun calls s → PortsOk s) := by
  have hstep : ∀ s c t, PortsInv s → PortsAllowed s c → portStep s c = t → PortsInv t := by
    rintro s c _ hinv hok rfl
    exact hinv.step hok
  refine ⟨?_, fun h => (h.invariant hstep portsInv_portRun).toPortsOk⟩
  exact (Run.congr hstep (fun _ _ hinv => (portsKept_iff hinv).symm) portsInv_portRun).symm

/-- A datagram socket is created, sends, and is closed: the port it was assigned is not available again. -/
theorem ports_leak : ¬ ∃ s, Run (fun s c t => portStep s c = t) PortsKept portRun
    [.create sockDgram true, .sendto 0, .close 0] s := by
  rintro ⟨s, h⟩
  obtain _ | ⟨-, rfl, _ | ⟨-, rfl, _ | ⟨hkept, -, -⟩⟩⟩ := h
  have := hkept.released 0 (dynamicPort 0) rfl (by decide) (by decide)
  exact absurd this (by decide)

end RetrOS.Net
