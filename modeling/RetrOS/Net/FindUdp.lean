import RetrOS.Lib.Table
import RetrOS.Net.Ports

/-!
# Which socket a datagram goes to (`net/socket.c`)

`net_sock_bind` keeps 16 bits of the address a socket is bound to, and `net_socket_find_udp` compares them with the
32 bits of the destination. It does not ask for the type of a socket.

* `BoundSock` : a socket with the address it was bound to; `BoundSock.create`, `BoundSock.bind` : how they come about;
* `Serves` : the sockets a datagram may go to, `FindsUdp` : what a search should find;
* `Stray`, `Missed` : sockets the search takes for one, and does not take for one;
* `netSocketFindUdp_iff` : when the search is right;
* `findUdp_missed` : a datagram to the address its socket is bound to, and no socket is found.

Addresses are in the byte order of `struct sockaddr_in`, in which a datagram to the address a socket sends to has this
destination address.
-/

namespace RetrOS.Net

open RetrOS.Lib.Table

/-- A socket and the address it was bound to, `none` before it is bound. -/
structure BoundSock where
  sk : OpenSock
  address : Option (BitVec 32)
  stored : sk.boundIp = (address.map (BitVec.setWidth 16)).getD 0

/-- A socket of `kernel_socket_create`. -/
def BoundSock.create (type : Int) : BoundSock := ⟨{ toSock := kernelSocketCreate, type := type }, none, rfl⟩

/-- `net_sock_bind`. -/
def BoundSock.bind (b : BoundSock) (portMap : Nat → BitVec 8) (port : BitVec 16) (ip : BitVec 32) : BoundSock where
  sk := (netSockBind portMap b.sk port ip).1
  address := some ip
  stored := by
    unfold netSockBind
    split <;> rfl

variable (daddr : BitVec 32) (dport : BitVec 16)

/-- A datagram socket, bound to the port and to any address or this one. -/
def BoundSock.Serves (b : BoundSock) : Prop :=
  b.sk.type = sockDgram ∧ b.sk.boundPort = htons dport ∧
    (b.address = some (inaddrAny.setWidth 32) ∨ b.address = some daddr)

/-- The half of an address that is kept is any address, or this one. -/
def BoundSock.HalfMatches (b : BoundSock) : Prop :=
  b.sk.boundIp.setWidth 32 = daddr ∨ b.sk.boundIp = inaddrAny

/-- A socket with the port and a half that matches, but of another type or bound to another address. -/
def BoundSock.Stray (b : BoundSock) : Prop :=
  b.sk.boundPort = htons dport ∧ b.HalfMatches daddr ∧
    (b.sk.type ≠ sockDgram ∨ b.address ≠ some (inaddrAny.setWidth 32) ∧ b.address ≠ some daddr)

/-- A datagram socket with the port that is bound to exactly this address, which needs more than 16 bits. -/
def BoundSock.Missed (b : BoundSock) : Prop :=
  b.sk.type = sockDgram ∧ b.sk.boundPort = htons dport ∧ b.address = some daddr ∧ 2 ^ 16 ≤ daddr.toNat ∧
    daddr.setWidth 16 ≠ inaddrAny

/-- The socket found is one the datagram may go to, and one is found if there is one. -/
structure FindsUdp (table : List (Option BoundSock)) (r : Option Nat) : Prop where
  serves : ∀ i, r = some i → At table (·.Serves daddr dport) i
  finds : (∃ i, At table (·.Serves daddr dport) i) → r ≠ none

/-- The sockets of a table. -/
def socks (table : List (Option BoundSock)) : List (Option Sock) := table.map (Option.map fun b => b.sk.toSock)

section
variable {daddr dport} {b : BoundSock} {table : List (Option BoundSock)}

/-- The half of an address is the address exactly if the address has no other half. -/
theorem setWidth_setWidth_eq (a : BitVec 32) : (a.setWidth 16).setWidth 32 = a ↔ a.toNat < 2 ^ 16 := by
  rw [← BitVec.toNat_inj, BitVec.toNat_setWidth, BitVec.toNat_setWidth]
  have := a.isLt
  omega

theorem BoundSock.halfMatches_iff {a : BitVec 32} (ha : b.address = some a) :
    b.HalfMatches daddr ↔ (a.setWidth 16).setWidth 32 = daddr ∨ a.setWidth 16 = inaddrAny := by
  rw [BoundSock.HalfMatches, b.stored, ha]
  rfl

/-- What serves a datagram and is not found is a socket bound to exactly its address. -/
theorem BoundSock.missed_iff : b.Missed daddr dport ↔ b.Serves daddr dport ∧ ¬ b.HalfMatches daddr := by
  constructor
  · rintro ⟨htype, hport, haddr, hwide, hany⟩
    refine ⟨⟨htype, hport, .inr haddr⟩, ?_⟩
    rw [BoundSock.halfMatches_iff haddr, setWidth_setWidth_eq]
    rintro (h | h)
    · exact absurd h (by omega)
    · exact hany h
  · rintro ⟨⟨htype, hport, haddr | haddr⟩, hhalf⟩
    · rw [BoundSock.halfMatches_iff haddr] at hhalf
      exact absurd (.inr (by decide)) hhalf
    · rw [BoundSock.halfMatches_iff haddr, setWidth_setWidth_eq, not_or] at hhalf
      exact ⟨htype, hport, haddr, Nat.le_of_not_lt hhalf.1, hhalf.2⟩

theorem BoundSock.Serves.not_stray (h : b.Serves daddr dport) : ¬ b.Stray daddr dport := by
  rintro ⟨-, -, htype | ⟨hany, haddr⟩⟩
  · exact htype h.1
  · exact h.2.2.elim hany haddr

/-- What the search takes: a socket that serves the datagram, or a stray one. -/
theorem BoundSock.taken_iff : (b.sk.boundPort = htons dport ∧ b.HalfMatches daddr) ↔
    (b.Serves daddr dport ∧ b.HalfMatches daddr) ∨ b.Stray daddr dport := by
  constructor
  · rintro ⟨hport, hhalf⟩
    by_cases htype : b.sk.type = sockDgram
    · by_cases haddr : b.address = some (inaddrAny.setWidth 32) ∨ b.address = some daddr
      · exact .inl ⟨⟨htype, hport, haddr⟩, hhalf⟩
      · exact .inr ⟨hport, hhalf, .inr (not_or.mp haddr)⟩
    · exact .inr ⟨hport, hhalf, .inl htype⟩
  · rintro (⟨⟨-, hport, -⟩, hhalf⟩ | ⟨hport, hhalf, -⟩)
    · exact ⟨hport, hhalf⟩
    · exact ⟨hport, hhalf⟩

/-- The search ends at the first socket it takes. -/
theorem netSocketFindUdp_isFirst : IsFirst table
    (fun b => (b.Serves daddr dport ∧ b.HalfMatches daddr) ∨ b.Stray daddr dport)
    (netSocketFindUdp (socks table) daddr dport) := by
  rw [netSocketFindUdp, socks, List.findIdx?_map]
  refine isFirst_findIdx? fun o => ?_
  simp only [← BoundSock.taken_iff]
  cases o <;> simp [BoundSock.HalfMatches]

end

/-- **The search** is right exactly if every stray socket comes after one that serves the datagram and has a half that
matches, and there is such a one when one is missed. -/
theorem netSocketFindUdp_iff (table : List (Option BoundSock)) :
    FindsUdp daddr dport table (netSocketFindUdp (socks table) daddr dport) ↔
      Ahead table (fun b => b.Serves daddr dport ∧ b.HalfMatches daddr) (·.Stray daddr dport) ∧
        ((∃ i, At table (·.Missed daddr dport) i) →
          ∃ i, At table (fun b => b.Serves daddr dport ∧ b.HalfMatches daddr) i) := by
  have hfirst := @netSocketFindUdp_isFirst daddr dport table
  rw [← hfirst.at_iff fun b hb => hb.1.not_stray]
  constructor
  · intro h
    have hright (i : Nat) (hi : netSocketFindUdp (socks table) daddr dport = some i) :
        At table (fun b => b.Serves daddr dport ∧ b.HalfMatches daddr) i := by
      refine (at_or.mp (hfirst.1 i hi).1).resolve_right fun hstray => ?_
      obtain ⟨b, hb, hs⟩ := (h.serves i hi).both hstray
      exact hb.not_stray hs
    refine ⟨hright, fun ⟨i, hi⟩ => ?_⟩
    have hsome := h.finds ⟨i, hi.imp fun b hb => (BoundSock.missed_iff.mp hb).1⟩
    obtain ⟨k, hk⟩ := Option.ne_none_iff_exists'.mp hsome
    exact ⟨k, hright k hk⟩
  · rintro ⟨hright, hmissed⟩
    refine ⟨fun i hi => (hright i hi).imp fun b hb => hb.1, ?_⟩
    rintro ⟨i, b, hb, hserves⟩ hnone
    by_cases hhalf : b.HalfMatches daddr
    · exact hfirst.2 hnone i ⟨b, hb, .inl ⟨hserves, hhalf⟩⟩
    · obtain ⟨k, hk⟩ := hmissed ⟨i, b, hb, BoundSock.missed_iff.mpr ⟨hserves, hhalf⟩⟩
      exact hfirst.2 hnone k (hk.imp fun _ => .inl)

/-- A datagram socket bound to port 53 of 10.0.0.2, which a datagram to it does not find. -/
theorem findUdp_missed : ¬ FindsUdp 0x0a000002 53
    [some ((BoundSock.create sockDgram).bind (fun _ => 0) (htons 53) 0x0a000002)]
    (netSocketFindUdp (socks [some ((BoundSock.create sockDgram).bind (fun _ => 0) (htons 53) 0x0a000002)])
      0x0a000002 53) := by
  intro h
  refine h.finds ⟨0, at_zero.mpr ⟨_, rfl, ?_, ?_, .inr rfl⟩⟩ ?_
  · rfl
  · rfl
  · decide

end RetrOS.Net
