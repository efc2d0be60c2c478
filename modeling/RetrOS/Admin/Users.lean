import RetrOS.Lib.Run
import Mathlib.Data.Fin.Tuple.Basic
import Mathlib.Data.Fintype.Basic

/-!
# The user database (`admin/usermanager.c`)

* `UserDb.find`, `UserDb.authenticate` : what a login does. Neither looks at the `uid`, which is zero in an unused slot;
* `UserDb.add`, `UserDb.remove`, `UserDb.change` : the operations;
* `Authenticates` : a login succeeds for the users that are registered, and for nobody else;
* `authenticate_iff` : for which names and passwords that is so.
-/

namespace RetrOS.Admin
open RetrOS.Lib

/-- The characters of a `char name[32]`. -/
abbrev UserName := {name : List UInt8 // name.length < 32}

/-- `struct user` -/
structure User where
  uid : Int
  name : UserName
  hash : UInt32
  permissions : UInt32
  deriving DecidableEq

/-- The `magic` and the users of `struct userdb`. -/
structure UserDb where
  magic : UInt32
  users : Fin 8 → User

def usrmanMagic : UInt32 := 0x55DB

/-- `strcmp` of `lib/libc.c` returns 0: it compares as many characters as the first string has. -/
def strcmp (str str2 : List UInt8) : Bool := str.isPrefixOf str2

/-- `advanced_hash`; a `char` is signed. -/
def advancedHash (input : List UInt8) : UInt32 :=
  input.foldl (fun hash c => c.toInt8.toInt32.toUInt32 + (hash <<< 6) + (hash <<< 16) - hash) 0

namespace UserDb

/-- `IS_LOADED` -/
def IsLoaded (db : UserDb) : Prop := db.magic = usrmanMagic

instance (db : UserDb) : Decidable db.IsLoaded := inferInstanceAs (Decidable (db.magic = usrmanMagic))

/-- `__find_user`: the slot. -/
def find (db : UserDb) (username : List UInt8) : Option (Fin 8) :=
  if db.IsLoaded then
    Fin.find? fun i => strcmp (db.users i).name username && username.length == (db.users i).name.1.length
  else none

/-- `__authenticate_user` -/
def authenticate (db : UserDb) (username password : List UInt8) : Option (Fin 8) :=
  if db.IsLoaded then
    match db.find username with
    | none => none
    | some user => if advancedHash password = (db.users user).hash then some user else none
  else none

/-- `__add_user` -/
def add (db : UserDb) (user : User) : Int × UserDb :=
  if db.IsLoaded then
    match Fin.find? fun i => decide ((db.users i).uid = 0) with
    | some i => (0, { db with users := Function.update db.users i user })
    | none => (-1, db)
  else (-1, db)

/-- `__remove_user`, of a user with this `uid`. -/
def remove (db : UserDb) (uid : Int) : Int × UserDb :=
  if db.IsLoaded then
    match Fin.find? fun i => decide ((db.users i).uid = uid) with
    | some i => (0, { db with users := Function.update db.users i { db.users i with uid := 0 } })
    | none => (-1, db)
  else (-1, db)

/-- `__change_user`, of a user in the table. -/
def change (db : UserDb) (user : Fin 8) (permission : UInt32) : Int × UserDb :=
  if db.IsLoaded then
    (0, { db with users := Function.update db.users user { db.users user with permissions := permission } })
  else (-1, db)

section
variable {db : UserDb} {username : List UInt8} {i : Fin 8}

/-- `strcmp` and the comparison of the lengths: the strings are the same. -/
theorem strcmp_length {str str2 : List UInt8} : (strcmp str str2 && str2.length == str.length) = true ↔ str = str2 := by
  rw [Bool.and_eq_true, strcmp, List.isPrefixOf_iff_prefix, beq_iff_eq]
  constructor
  · rintro ⟨hpre, hlen⟩
    exact hpre.eq_of_length hlen.symm
  · rintro rfl
    exact ⟨List.prefix_rfl, rfl⟩

/-- The first slot that bears the name. -/
theorem find_eq_some (hload : db.IsLoaded) : db.find username = some i ↔
    (db.users i).name.1 = username ∧ ∀ j < i, (db.users j).name.1 ≠ username := by
  rw [find, if_pos hload, Fin.find?_eq_some_iff, strcmp_length]
  refine and_congr_right fun _ => forall₂_congr fun j _ => ?_
  rw [← Bool.not_eq_true, strcmp_length]

theorem find_eq_none (hload : db.IsLoaded) :
    db.find username = none ↔ ∀ i, (db.users i).name.1 ≠ username := by
  rw [find, if_pos hload, Fin.find?_eq_none_iff]
  refine forall_congr' fun j => ?_
  rw [← Bool.not_eq_true, strcmp_length]

end

end UserDb

/-- `ops->add`, `ops->remove`, `ops->change` -/
inductive UserOp
  | add (user : User)
  | remove (uid : Int)
  | change (user : Fin 8) (permission : UInt32)

def UserOp.run (db : UserDb) : UserOp → Int × UserDb
  | add user => db.add user
  | remove uid => db.remove uid
  | change user permission => db.change user permission

def UserStep (db : UserDb) (op : UserOp) (db' : UserDb) : Prop := db' = (op.run db).2

/-- A user that is registered has this name and this hash. -/
def UserDb.Registered (db : UserDb) (name : List UInt8) (hash : UInt32) : Prop :=
  ∃ i, (db.users i).uid ≠ 0 ∧ (db.users i).name.1 = name ∧ (db.users i).hash = hash

/-- A login succeeds if a user is registered with the name and the password, and through no unused slot. -/
structure Authenticates (db : UserDb) (name password : List UInt8) : Prop where
  iff : (db.authenticate name password).isSome ↔ db.Registered name (advancedHash password)
  used : ∀ i, db.authenticate name password = some i → (db.users i).uid ≠ 0

/-- The first slot that bears the name is in use if it has the hash; if it has not, no user that is registered behind it
under the same name has it. -/
def UserDb.Plain (db : UserDb) (name : List UInt8) (hash : UInt32) : Prop :=
  ∀ i, db.find name = some i → ((db.users i).hash = hash → (db.users i).uid ≠ 0) ∧
    ((db.users i).hash ≠ hash → ∀ j, i < j → (db.users j).uid ≠ 0 → (db.users j).name.1 = name →
      (db.users j).hash ≠ hash)

section
variable {db db' : UserDb} {name password : List UInt8} {i : Fin 8} {op : UserOp}

theorem authenticate_eq_some (hload : db.IsLoaded) : db.authenticate name password = some i ↔
    db.find name = some i ∧ advancedHash password = (db.users i).hash := by
  rw [UserDb.authenticate, if_pos hload]
  cases db.find name with
  | none => exact iff_of_false (Option.some_ne_none i).symm fun h => Option.some_ne_none i h.1.symm
  | some j =>
    dsimp only
    split
    · next hhash =>
      constructor
      · intro heq
        exact ⟨heq, Option.some.inj heq ▸ hhash⟩
      · exact fun h => h.1
    · next hhash =>
      refine iff_of_false (Option.some_ne_none i).symm fun h => hhash ?_
      rw [Option.some.inj h.1]
      exact h.2

theorem authenticates_iff (hload : db.IsLoaded) :
    Authenticates db name password ↔ db.Plain name (advancedHash password) := by
  constructor
  · rintro ⟨hiff, hused⟩ i hfind
    refine ⟨fun hhash => hused i ((authenticate_eq_some hload).mpr ⟨hfind, hhash.symm⟩),
      fun hhash j _ hj hname hjhash => ?_⟩
    obtain ⟨k, hk⟩ := Option.isSome_iff_exists.mp (hiff.mpr ⟨j, hj, hname, hjhash⟩)
    obtain ⟨hfind', hhash'⟩ := (authenticate_eq_some hload).mp hk
    obtain rfl := Option.some.inj (hfind.symm.trans hfind')
    exact hhash hhash'.symm
  · intro hplain
    have hused : ∀ i, db.authenticate name password = some i → (db.users i).uid ≠ 0 := by
      intro i hi
      obtain ⟨hfind, hhash⟩ := (authenticate_eq_some hload).mp hi
      exact (hplain i hfind).1 hhash.symm
    refine ⟨⟨fun h => ?_, ?_⟩, hused⟩
    · obtain ⟨i, hi⟩ := Option.isSome_iff_exists.mp h
      obtain ⟨hfind, hhash⟩ := (authenticate_eq_some hload).mp hi
      exact ⟨i, hused i hi, ((UserDb.find_eq_some hload).mp hfind).1, hhash.symm⟩
    · rintro ⟨j, hj, hname, hjhash⟩
      cases hfind : db.find name with
      | none => exact absurd hname ((UserDb.find_eq_none hload).mp hfind j)
      | some i =>
        obtain ⟨-, hfirst⟩ := (UserDb.find_eq_some hload).mp hfind
        refine Option.isSome_iff_exists.mpr ⟨i, (authenticate_eq_some hload).mpr ⟨hfind, ?_⟩⟩
        by_contra hhash
        rcases lt_trichotomy i j with hlt | rfl | hlt
        · exact (hplain i hfind).2 (Ne.symm hhash) j hlt hj hname hjhash
        · exact hhash hjhash.symm
        · exact hfirst j hlt hname

theorem magic_run (op : UserOp) (db : UserDb) : (op.run db).2.magic = db.magic := by
  cases op with
  | add user =>
    rw [UserOp.run, UserDb.add]
    split
    · split <;> rfl
    · rfl
  | remove uid =>
    rw [UserOp.run, UserDb.remove]
    split
    · split <;> rfl
    · rfl
  | change user permission =>
    rw [UserOp.run, UserDb.change]
    split <;> rfl

/-- After any sequence of operations. -/
theorem userRun_authenticates (hload : db.IsLoaded) {ops : List UserOp} (h : AnyRun UserStep db ops db')
    (name password : List UInt8) :
    Authenticates db' name password ↔ db'.Plain name (advancedHash password) := by
  refine authenticates_iff (h.invariant (P := UserDb.IsLoaded) ?_ hload)
  rintro db op _ hload - rfl
  exact (magic_run op db).trans hload

end

def accessFsRead : UInt32 := 0x1

def accessNet : UInt32 := 0x20

def ctrlProcCreate : UInt32 := 0x100

def adminFullAccess : UInt32 := 0x400000

def systemFullAccess : UInt32 := 0x800000

/-- `admin`, `system` and `guest` -/
def adminName : UserName := ⟨[97, 100, 109, 105, 110], by decide⟩

def systemName : UserName := ⟨[115, 121, 115, 116, 101, 109], by decide⟩

def guestName : UserName := ⟨[103, 117, 101, 115, 116], by decide⟩

/-- `default_db`; the slots that it does not mention are zero. -/
def defaultDb : UserDb where
  magic := usrmanMagic
  users
    | 0 => ⟨1, adminName, 525286959, adminFullAccess⟩
    | 1 => ⟨2, systemName, 1, systemFullAccess⟩
    | 2 => ⟨3, guestName, 0, ctrlProcCreate ||| accessNet ||| accessFsRead⟩
    | _ => ⟨0, ⟨[], by decide⟩, 0, 0⟩

/-- The administrator can log in, and so can the guest after it was removed. -/
theorem userRun_authenticates_default : Authenticates defaultDb adminName adminName ∧
    ∃ db, AnyRun UserStep defaultDb [.remove 3] db ∧ ¬ Authenticates db guestName [] := by
  have hload : defaultDb.IsLoaded := rfl
  have hremove : AnyRun UserStep defaultDb [.remove 3] (UserOp.run defaultDb (.remove 3)).2 := .single trivial rfl
  refine ⟨(userRun_authenticates hload (.nil defaultDb) _ _).mpr ?_, _, hremove, fun h => ?_⟩
  · intro i hfind
    obtain rfl : i = 0 := Option.some.inj (hfind.symm.trans (by decide))
    exact ⟨fun _ => by decide, fun hne => absurd (by decide) hne⟩
  · have hplain := (userRun_authenticates hload hremove guestName.1 []).mp h
    exact (hplain 2 (by decide)).1 (by decide) (by decide)

/-- A user that was removed logs in, and so does whoever gives no name and no password. -/
theorem unused_slot_authenticates : (∃ db, AnyRun UserStep defaultDb [.remove 3] db ∧
      db.authenticate guestName [] = some 2 ∧ (db.users 2).uid = 0) ∧
    defaultDb.authenticate [] [] = some 3 ∧ (defaultDb.users 3).uid = 0 :=
  ⟨⟨_, .single trivial rfl, by decide, by decide⟩, by decide, by decide⟩

end RetrOS.Admin
