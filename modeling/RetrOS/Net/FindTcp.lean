import RetrOS.Lib.Table
import RetrOS.Net.Tcp

/-!
# Which socket a segment goes to (`net/socket.c`)

`net_sock_find_tcp` looks for the socket of a connection, and keeps a listening one to fall back on. Of the states
it only leaves out `TCP_LISTEN`, `TCP_SYN_RCVD` and `TCP_PREPARE`, so that a socket whose connection is over still
counts, and the segments of a new connection from the same remote go to it.

* `Sock.Belongs`, `Sock.Listens`, `Sock.Stale` : the socket of a connection, a listener, a connection that is over;
* `FindsTcp` : what a search should find;
* `netSockFindTcp_iff` : it does exactly if no stale socket is ahead of the connection;
* `findTcp_stale` : a closed connection hides the listener.
-/

namespace RetrOS.Net

open RetrOS.Lib.Table

/-- A connection that is open, or being opened or closed; `TCP_CLOSED` is "no connection state at all". -/
def TcpState.isOpen : TcpState → Bool
  | .created | .closed | .listen | .synRcvd | .prepare => false
  | _ => true

variable (sport dport : BitVec 16) (saddr : BitVec 32)

/-- A connected socket with these ports and this remote address, which is in host order. -/
def Sock.Belongs (sk : Sock) : Prop :=
  ∃ tcp, sk.tcp = some tcp ∧ tcp.state.isOpen ∧ sk.boundPort = dport ∧ sk.recvAddr = ⟨sport, saddr⟩

/-- A listening socket, which is in `TCP_SYN_RCVD` during a handshake. -/
def Sock.Listens (sk : Sock) : Prop :=
  ∃ tcp, sk.tcp = some tcp ∧ sk.boundPort = dport ∧ (tcp.state = .listen ∨ tcp.state = .synRcvd)

/-- A socket with these ports and this remote address whose connection is not open yet, or over. -/
def Sock.Stale (sk : Sock) : Prop :=
  ∃ tcp, sk.tcp = some tcp ∧ (tcp.state = .created ∨ tcp.state = .closed) ∧ sk.boundPort = dport ∧
    sk.recvAddr = ⟨sport, saddr⟩

/-- A result of the search for the socket of a segment: the socket of its connection, else a listening socket, else
none. A listener in `TCP_SYN_RCVD` is not taken when there is a connection. -/
structure FindsTcp (table : List (Option Sock)) (r : Option Nat) : Prop where
  connected : (∃ i, At table (·.Belongs sport dport saddr) i) →
    ∃ i, r = some i ∧ At table (·.Belongs sport dport saddr) i
  listening : (¬ ∃ i, At table (·.Belongs sport dport saddr) i) → (∃ i, At table (·.Listens dport) i) →
    ∃ i, r = some i ∧ At table (·.Listens dport) i
  nothing : (¬ ∃ i, At table (·.Belongs sport dport saddr) i) → (¬ ∃ i, At table (·.Listens dport) i) → r = none
  handshake : (∃ i, At table (·.Belongs sport dport saddr) i) →
    ∀ i, r = some i → ¬ At table (fun sk => ∃ tcp, sk.tcp = some tcp ∧ tcp.state = .synRcvd) i

section Predicates
variable {sport dport saddr} {sk : Sock}

theorem Sock.Belongs.not_stale (h : sk.Belongs sport dport saddr) : ¬ sk.Stale sport dport saddr := by
  rintro ⟨tcp, htcp, hstate, -⟩
  obtain ⟨tcp', htcp', hopen, -⟩ := h
  obtain rfl : tcp = tcp' := Option.some.inj (htcp.symm.trans htcp')
  rcases hstate with hstate | hstate <;> simp [hstate, TcpState.isOpen] at hopen

theorem Sock.Stale.not_listens (h : sk.Stale sport dport saddr) : ¬ sk.Listens dport := by
  rintro ⟨tcp, htcp, -, hstate⟩
  obtain ⟨tcp', htcp', hstale, -⟩ := h
  obtain rfl : tcp = tcp' := Option.some.inj (htcp.symm.trans htcp')
  rcases hstate with hstate | hstate <;> rw [hstate] at hstale <;> simp at hstale

theorem Sock.listens_iff : sk.listens dport = true ↔ sk.Listens dport := by
  unfold Sock.listens Sock.Listens
  split <;> simp_all

/-- The addresses are compared in network order. -/
theorem Sock.connected_iff : sk.connected sport dport (htonl saddr) = true ↔
    sk.Belongs sport dport saddr ∨ sk.Stale sport dport saddr := by
  have haddr : ntohl sk.recvAddr.addr = htonl saddr ↔ sk.recvAddr.addr = saddr :=
    ⟨fun h => by rw [← htonl_htonl sk.recvAddr.addr, ← htonl_htonl saddr, ← h]; rfl, fun h => by rw [h]; rfl⟩
  have hremote : sk.recvAddr = ⟨sport, saddr⟩ ↔ sk.recvAddr.port = sport ∧ sk.recvAddr.addr = saddr := by
    rw [← SockaddrIn.mk.injEq]
  unfold Sock.connected Sock.Belongs Sock.Stale
  split
  · next htcp => simp [htcp]
  · next tcp htcp =>
    simp only [htcp, haddr, hremote, decide_eq_true_eq, Option.some.injEq, exists_eq_left']
    cases tcp.state <;> simp [TcpState.isOpen]

end Predicates

/-! ## The loop -/

section Loop
variable {sport dport} {ip : BitVec 32} {table : List (Option Sock)}

/-- The first connected socket is found, wherever the listeners are. -/
theorem findTcp_connected {k : Nat} (hk : At table (·.connected sport dport ip = true) k)
    (hfirst : ∀ j < k, ¬ At table (·.connected sport dport ip = true) j) (i : Nat) (listener : Option Nat) :
    findTcp sport dport ip table i listener = some (i + k) := by
  induction table generalizing k i listener with
  | nil => exact absurd hk not_at_nil
  | cons o rest ih =>
    cases k with
    | zero =>
      obtain ⟨sk, rfl, hsk⟩ := at_zero.mp hk
      simp [findTcp, hsk]
    | succ k =>
      have hrest := ih (at_succ.mp hk) fun j hj hat => hfirst (j + 1) (by omega) (at_succ.mpr hat)
      cases o with
      | none =>
        rw [findTcp, hrest]
        congr 1
        omega
      | some sk =>
        have hsk : ¬ sk.connected sport dport ip = true := fun h =>
          hfirst 0 (by omega) (at_zero.mpr ⟨sk, rfl, h⟩)
        rw [findTcp, if_neg hsk, hrest]
        congr 1
        omega

/-- Without a connected socket a listening one is found, the last of the table. -/
theorem findTcp_listening (h : ∀ j, ¬ At table (·.connected sport dport ip = true) j) (i : Nat)
    (listener : Option Nat) : (∀ k, findTcp sport dport ip table i listener = some k →
        listener = some k ∨ ∃ j, k = i + j ∧ At table (·.listens dport = true) j) ∧
      (findTcp sport dport ip table i listener = none →
        listener = none ∧ ∀ j, ¬ At table (·.listens dport = true) j) := by
  induction table generalizing i listener with
  | nil => simp [findTcp]
  | cons o rest ih =>
    have hrest : ∀ j, ¬ At rest (·.connected sport dport ip = true) j := fun j hat => h (j + 1) (at_succ.mpr hat)
    cases o with
    | none =>
      obtain ⟨hsome, hnone⟩ := ih hrest (i + 1) listener
      rw [findTcp]
      refine ⟨fun k hk => (hsome k hk).imp_right ?_, fun hn => ⟨(hnone hn).1, fun j hj => ?_⟩⟩
      · rintro ⟨j, rfl, hj⟩
        exact ⟨j + 1, by omega, at_succ.mpr hj⟩
      · cases j with
        | zero => simp at hj
        | succ j => exact (hnone hn).2 j (at_succ.mp hj)
    | some sk =>
      have hsk : ¬ sk.connected sport dport ip = true := fun hc => h 0 (at_zero.mpr ⟨sk, rfl, hc⟩)
      obtain ⟨hsome, hnone⟩ := ih hrest (i + 1) (if sk.listens dport then some i else listener)
      rw [findTcp, if_neg hsk]
      refine ⟨fun k hk => ?_, fun hn => ?_⟩
      · rcases hsome k hk with hl | ⟨j, rfl, hj⟩
        · by_cases hlisten : sk.listens dport = true
          · rw [if_pos hlisten] at hl
            exact .inr ⟨0, (Option.some.inj hl).symm, at_zero.mpr ⟨sk, rfl, hlisten⟩⟩
          · rw [if_neg hlisten] at hl
            exact .inl hl
        · exact .inr ⟨j + 1, by omega, at_succ.mpr hj⟩
      · obtain ⟨hl, hat⟩ := hnone hn
        have hlisten : ¬ sk.listens dport = true := fun hc => by simp [hc] at hl
        rw [if_neg hlisten] at hl
        refine ⟨hl, fun j hj => ?_⟩
        cases j with
        | zero =>
          obtain ⟨sk', hsk', hc⟩ := at_zero.mp hj
          cases hsk'
          exact hlisten hc
        | succ j => exact hat j (at_succ.mp hj)

end Loop

/-! ## The search -/

section Search
variable {sport dport saddr} {table : List (Option Sock)}

/-- The search ends at the first socket of the connection, stale or not, and else at a listening socket. -/
theorem netSockFindTcp_spec : ∃ r,
    IsFirst table (fun sk => sk.Belongs sport dport saddr ∨ sk.Stale sport dport saddr) r ∧
      (∀ k, r = some k → netSockFindTcp table sport dport (htonl saddr) = some k) ∧
      (r = none → (∀ k, netSockFindTcp table sport dport (htonl saddr) = some k → At table (·.Listens dport) k) ∧
        (netSockFindTcp table sport dport (htonl saddr) = none → ∀ j, ¬ At table (·.Listens dport) j)) := by
  have hfirst : IsFirst table (·.connected sport dport (htonl saddr) = true)
      (table.findIdx? (Option.any (·.connected sport dport (htonl saddr)))) :=
    isFirst_findIdx? fun o => by cases o <;> simp
  have hlistens : (fun sk : Sock => sk.listens dport = true) = (·.Listens dport) :=
    funext fun sk => propext Sock.listens_iff
  refine ⟨table.findIdx? (Option.any (·.connected sport dport (htonl saddr))), ?_, fun k hk => ?_, fun hnone => ?_⟩
  · have hconnected : (fun sk : Sock => sk.connected sport dport (htonl saddr) = true) =
        fun sk => sk.Belongs sport dport saddr ∨ sk.Stale sport dport saddr :=
      funext fun sk => propext Sock.connected_iff
    rw [← hconnected]
    exact hfirst
  · rw [netSockFindTcp, findTcp_connected (hfirst.1 k hk).1 (hfirst.1 k hk).2, Nat.zero_add]
  · obtain ⟨hsome, hno⟩ := findTcp_listening (hfirst.2 hnone) 0 none
    rw [hlistens] at hsome hno
    refine ⟨fun k hk => ?_, fun hn => (hno hn).2⟩
    obtain hl | ⟨j, rfl, hj⟩ := hsome k hk
    · cases hl
    · rwa [Nat.zero_add]

variable (sport dport saddr table)

/-- **The search** finds the socket it should exactly if every stale socket of the connection comes after an open
one. -/
theorem netSockFindTcp_iff : FindsTcp sport dport saddr table (netSockFindTcp table sport dport (htonl saddr)) ↔
    Ahead table (·.Belongs sport dport saddr) (·.Stale sport dport saddr) := by
  obtain ⟨r, hfirst, hsome, hnone⟩ := @netSockFindTcp_spec sport dport saddr table
  rw [← hfirst.at_iff fun sk => Sock.Belongs.not_stale]
  constructor
  · intro h i hi
    refine (at_or.mp (hfirst.1 i hi).1).resolve_right fun hstale => ?_
    -- the socket found is neither connected nor listening
    by_cases hbelongs : ∃ j, At table (·.Belongs sport dport saddr) j
    · obtain ⟨j, hj, hat⟩ := h.connected hbelongs
      obtain rfl : i = j := Option.some.inj ((hsome i hi).symm.trans hj)
      obtain ⟨sk, hb, hs⟩ := hat.both hstale
      exact hb.not_stale hs
    · by_cases hlistens : ∃ j, At table (·.Listens dport) j
      · obtain ⟨j, hj, hat⟩ := h.listening hbelongs hlistens
        obtain rfl : i = j := Option.some.inj ((hsome i hi).symm.trans hj)
        obtain ⟨sk, hl, hs⟩ := hat.both hstale
        exact hs.not_listens hl
      · have := h.nothing hbelongs hlistens
        rw [hsome i hi] at this
        cases this
  · intro h
    -- without a connection there is no stale socket either
    have hfound (hno : ¬ ∃ j, At table (·.Belongs sport dport saddr) j) : r = none := by
      cases hr : r with
      | none => rfl
      | some k => exact absurd ⟨k, h k hr⟩ hno
    have hconnected (hb : ∃ j, At table (·.Belongs sport dport saddr) j) :
        ∃ i, netSockFindTcp table sport dport (htonl saddr) = some i ∧ At table (·.Belongs sport dport saddr) i := by
      obtain ⟨j, hj⟩ := hb
      obtain ⟨k, -, hk⟩ := hfirst.exists_some (hj.imp fun _ => .inl)
      exact ⟨k, hsome k hk, h k hk⟩
    refine ⟨hconnected, fun hno hl => ?_, fun hno hl => ?_, fun hb i hi hsyn => ?_⟩
    · obtain ⟨hlisten, hnolisten⟩ := hnone (hfound hno)
      obtain ⟨j, hj⟩ := hl
      cases hr : netSockFindTcp table sport dport (htonl saddr) with
      | none => exact absurd hj (hnolisten hr j)
      | some k => exact ⟨k, rfl, hlisten k hr⟩
    · cases hr : netSockFindTcp table sport dport (htonl saddr) with
      | none => rfl
      | some k => exact absurd ⟨k, (hnone (hfound hno)).1 k hr⟩ hl
    · obtain ⟨k, hk, hat⟩ := hconnected hb
      obtain rfl : i = k := Option.some.inj (hi.symm.trans hk)
      obtain ⟨sk, ⟨tcp, htcp, hopen, -⟩, tcp', htcp', hstate⟩ := hat.both hsyn
      obtain rfl : tcp = tcp' := Option.some.inj (htcp.symm.trans htcp')
      simp [hstate, TcpState.isOpen] at hopen

end Search

/-- A server socket on port 80 whose connection, from port 5 of the remote `9`, was reset. -/
def resetSock : Sock :=
  { kernelSocketCreate with boundPort := 80, recvAddr := ⟨5, 9⟩, tcp := some ⟨.closed, 1, 1⟩ }

/-- The listening socket of the server. -/
def listenSock : Sock := { kernelSocketCreate with boundPort := 80, tcp := some ⟨.listen, 1, 0⟩ }

/-- The remote connects again from the same port: its segments go to the socket of the old connection. -/
theorem findTcp_stale : ¬ FindsTcp 5 80 9 [some resetSock, some listenSock]
    (netSockFindTcp [some resetSock, some listenSock] 5 80 (htonl 9)) := by
  rw [netSockFindTcp_iff]
  intro h
  obtain ⟨j, hj, -⟩ := h 0 (at_zero.mpr ⟨resetSock, rfl, _, rfl, .inr rfl, rfl, rfl⟩)
  exact absurd hj (Nat.not_lt_zero j)

end RetrOS.Net
