import RetrOS.Admin.Users

/-!
# The commands `admin create` and `admin remove` (`admin/usermanager.c`)

Users are found by name and removed by `uid`, and `admin create` gives every user the `uid` 1.

* `adminCreate`, `adminRemove` : the commands;
* `Removable` : every user that is registered can be removed, alone; `removable_iff` says it of the table;
* `adminRun_removable` : which commands keep it so.
-/

namespace RetrOS.Admin
open RetrOS.Lib

def adminCreate (db : UserDb) (username : UserName) (password : List UInt8) : Int × UserDb :=
  (0, (db.add { uid := 1, name := username, hash := advancedHash password, permissions := 0 }).2)

def adminRemove (db : UserDb) (username : List UInt8) : Int × UserDb :=
  match db.find username with
  | none => (-1, db)
  | some user => (0, (db.remove (db.users user).uid).2)

inductive AdminCommand
  | create (username : UserName) (password : List UInt8)
  | remove (username : List UInt8)

def AdminCommand.run (db : UserDb) : AdminCommand → Int × UserDb
  | create username password => adminCreate db username password
  | remove username => adminRemove db username

def AdminStep (db : UserDb) (c : AdminCommand) (db' : UserDb) : Prop := db' = (c.run db).2

namespace UserDb

/-- The table without the user in slot `i`. -/
def without (db : UserDb) (i : Fin 8) : UserDb :=
  { db with users := Function.update db.users i { db.users i with uid := 0 } }

/-- The table with a user in slot `i`. -/
def put (db : UserDb) (i : Fin 8) (user : User) : UserDb := { db with users := Function.update db.users i user }

/-- Of the users that are registered under the name, one is removed and nothing else changed. -/
def RemovesOne (db : UserDb) (name : List UInt8) : Prop :=
  if ∃ i, (db.users i).uid ≠ 0 ∧ (db.users i).name.1 = name then
    ∃ i, (db.users i).uid ≠ 0 ∧ (db.users i).name.1 = name ∧ (adminRemove db name).2 = db.without i
  else (adminRemove db name).2 = db

/-- No two users that are registered have the same `uid`. -/
def Distinct (db : UserDb) : Prop :=
  ∀ i j, (db.users i).uid ≠ 0 → (db.users i).uid = (db.users j).uid → i = j

structure Removable (db : UserDb) : Prop where
  distinct : db.Distinct
  removes : ∀ name, db.RemovesOne name

/-- The name of a user that is registered is found in a slot that is in use. -/
def Unshadowed (db : UserDb) : Prop :=
  ∀ i j, (db.users j).uid ≠ 0 → db.find (db.users j).name = some i → (db.users i).uid ≠ 0

section
variable {db : UserDb} {name : List UInt8} {i : Fin 8} {uid : Int} {user : User}

theorem remove_eq_without (hload : db.IsLoaded) (hi : (db.users i).uid = uid)
    (hfirst : ∀ j < i, (db.users j).uid ≠ uid) : (db.remove uid).2 = db.without i := by
  have hfind : (Fin.find? fun j => decide ((db.users j).uid = uid)) = some i :=
    Fin.find?_eq_some_iff.mpr ⟨decide_eq_true hi, fun j hj => decide_eq_false (hfirst j hj)⟩
  rw [remove, if_pos hload, hfind]
  rfl

/-- Removing an unused slot. -/
theorem without_of_unused (h : (db.users i).uid = 0) : db.without i = db := by
  have heq : { db.users i with uid := 0 } = db.users i := by rw [← h]
  rw [without, heq, Function.update_eq_self]

theorem remove_zero (db : UserDb) : (db.remove 0).2 = db := by
  rw [remove]
  split
  · split
    · next i hi => exact without_of_unused (of_decide_eq_true (Fin.find?_eq_some_iff.mp hi).1)
    · rfl
  · rfl

theorem adminRemove_of_find (hload : db.IsLoaded) (hdistinct : db.Distinct) (h : db.find name = some i) :
    (adminRemove db name).2 = if (db.users i).uid = 0 then db else db.without i := by
  rw [adminRemove, h]
  dsimp only
  split
  · next hzero => rw [hzero, remove_zero]
  · next hne => exact remove_eq_without hload rfl fun j hj heq => hj.ne (hdistinct i j hne heq.symm).symm

/-- The users can be removed exactly if no `uid` is there twice, and no name of a user first in an unused slot. -/
theorem removable_iff (hload : db.IsLoaded) : db.Removable ↔ db.Distinct ∧ db.Unshadowed := by
  constructor
  · rintro ⟨hdistinct, hremoves⟩
    refine ⟨hdistinct, fun i j hj hfind hi => ?_⟩
    have hone := hremoves (db.users j).name
    rw [RemovesOne, if_pos ⟨j, hj, rfl⟩, adminRemove_of_find hload hdistinct hfind, if_pos hi] at hone
    obtain ⟨k, hk, -, heq⟩ := hone
    have huid := congrArg (fun db : UserDb => (db.users k).uid) heq
    dsimp only [without] at huid
    rw [Function.update_self] at huid
    exact hk huid
  · rintro ⟨hdistinct, hunshadowed⟩
    refine ⟨hdistinct, fun name => ?_⟩
    rw [RemovesOne]
    split
    · next hreg =>
      obtain ⟨j, hj, rfl⟩ := hreg
      cases hfind : db.find (db.users j).name with
      | none => exact absurd rfl ((find_eq_none hload).mp hfind j)
      | some i =>
        have hi := hunshadowed i j hj hfind
        refine ⟨i, hi, ((find_eq_some hload).mp hfind).1, ?_⟩
        rw [adminRemove_of_find hload hdistinct hfind, if_neg hi]
    · next hreg =>
      cases hfind : db.find name with
      | none => rw [adminRemove, hfind]
      | some i =>
        rw [adminRemove_of_find hload hdistinct hfind, if_pos]
        by_contra hi
        exact hreg ⟨i, hi, ((find_eq_some hload).mp hfind).1⟩

@[simp] theorem without_self (db : UserDb) (i : Fin 8) : (db.without i).users i = { db.users i with uid := 0 } :=
  Function.update_self ..

theorem without_of_ne {j : Fin 8} (h : j ≠ i) : (db.without i).users j = db.users j := Function.update_of_ne h _ _

@[simp] theorem put_self (db : UserDb) (i : Fin 8) (user : User) : (db.put i user).users i = user :=
  Function.update_self ..

theorem put_of_ne {j : Fin 8} (h : j ≠ i) : (db.put i user).users j = db.users j := Function.update_of_ne h _ _

/-- The names stay. -/
theorem name_without (db : UserDb) (i j : Fin 8) : ((db.without i).users j).name = (db.users j).name := by
  by_cases h : j = i
  · rw [h, without_self]
  · rw [without_of_ne h]

theorem find_without (hload : db.IsLoaded) (i : Fin 8) : (db.without i).find name = db.find name := by
  have hload' : (db.without i).IsLoaded := hload
  unfold find
  rw [if_pos hload, if_pos hload']
  congr 1
  funext j
  rw [name_without]

theorem distinct_without (h : db.Distinct) (i : Fin 8) : (db.without i).Distinct := by
  intro j k hj hjk
  have hji : j ≠ i := by
    rintro rfl
    exact hj (by rw [without_self])
  rw [without_of_ne hji] at hj hjk
  have hki : k ≠ i := by
    rintro rfl
    rw [without_self] at hjk
    exact hj hjk
  rw [without_of_ne hki] at hjk
  exact h j k hj hjk

/-- The name of the user removed is now in an unused slot. -/
theorem unshadowed_without (hload : db.IsLoaded) (h : db.Unshadowed) (hfind : db.find name = some i) :
    (db.without i).Unshadowed ↔ ∀ j, (db.users j).uid ≠ 0 → (db.users j).name.1 = name → j = i := by
  constructor
  · intro hun j hj hname
    by_contra hji
    refine hun i j ?_ ?_ ?_
    · rwa [without_of_ne hji]
    · rwa [find_without hload, name_without, hname]
    · rw [without_self]
  · intro honly k j hj hfind'
    have hji : j ≠ i := by
      rintro rfl
      exact hj (by rw [without_self])
    rw [without_of_ne hji] at hj
    rw [find_without hload, name_without] at hfind'
    have hki : k ≠ i := by
      rintro rfl
      have hname := ((find_eq_some hload).mp hfind).1
      exact hji (honly j hj (((find_eq_some hload).mp hfind').1.symm.trans hname))
    rw [without_of_ne hki]
    exact h k j hj hfind'

theorem distinct_put (h : db.Distinct) (hi : (db.users i).uid = 0) (huser : user.uid ≠ 0) :
    (db.put i user).Distinct ↔ ∀ j, (db.users j).uid ≠ user.uid := by
  constructor
  · intro hdistinct j hj
    have hji : j ≠ i := by
      rintro rfl
      exact huser (hj.symm.trans hi)
    have huid : ((db.put i user).users j).uid = ((db.put i user).users i).uid := by rw [put_of_ne hji, put_self, hj]
    exact hji (hdistinct j i (by rwa [huid, put_self]) huid)
  · intro hfree j k hj hjk
    by_cases hji : j = i
    · by_cases hki : k = i
      · exact hji.trans hki.symm
      · rw [hji, put_self, put_of_ne hki] at hjk
        exact absurd hjk.symm (hfree k)
    · rw [put_of_ne hji] at hj hjk
      by_cases hki : k = i
      · rw [hki, put_self] at hjk
        exact absurd hjk (hfree j)
      · rw [put_of_ne hki] at hjk
        exact h j k hj hjk

/-- The first unused slot is taken: no slot in front of it is unused. -/
theorem unshadowed_put (hload : db.IsLoaded) (h : db.Unshadowed) (hi : (db.users i).uid = 0)
    (hfirst : ∀ j < i, (db.users j).uid ≠ 0) (huser : user.uid ≠ 0) : (db.put i user).Unshadowed := by
  have hload' : (db.put i user).IsLoaded := hload
  intro k j hj hfind
  obtain ⟨hname, hbefore⟩ := (find_eq_some hload').mp hfind
  by_cases hki : k = i
  · rwa [hki, put_self]
  · rw [put_of_ne hki] at hname ⊢
    intro hk
    have hik : i < k := by
      rcases lt_trichotomy k i with hlt | heq | hlt
      · exact absurd hk (hfirst k hlt)
      · exact absurd heq hki
      · exact hlt
    have hji : j ≠ i := fun heq => hbefore i hik (by rw [heq])
    rw [put_of_ne hji] at hj hname hbefore
    by_cases hname' : (db.users i).name.1 = (db.users j).name.1
    · -- the name was in the unused slot that is taken now
      cases hfind' : db.find (db.users j).name with
      | none => exact (find_eq_none hload).mp hfind' j rfl
      | some l =>
        obtain ⟨hl, hl'⟩ := (find_eq_some hload).mp hfind'
        have hli : l = i := by
          rcases lt_trichotomy l i with hlt | heq | hlt
          · have hlk := hbefore l (hlt.trans hik)
            rw [put_of_ne hlt.ne] at hlk
            exact absurd hl hlk
          · exact heq
          · exact absurd hname' (hl' i hlt)
        exact h l j hj hfind' (hli ▸ hi)
    · refine h k j hj ((find_eq_some hload).mpr ⟨hname, fun l hl => ?_⟩) hk
      by_cases hli : l = i
      · rwa [hli]
      · have hlk := hbefore l hl
        rwa [put_of_ne hli] at hlk

end

end UserDb

/-- A user is created while no user that is registered has the `uid` 1, or there is no room; the name of the user removed
is nobody else's. -/
def AdminCommand.Apart (db : UserDb) : AdminCommand → Prop
  | create _ _ => (∀ i, (db.users i).uid ≠ 0) ∨ ∀ i, (db.users i).uid ≠ 1
  | remove name => ∀ i j, (db.users i).uid ≠ 0 → (db.users j).uid ≠ 0 → (db.users i).name.1 = name →
      (db.users j).name.1 = name → i = j

section
variable {db db' : UserDb}

theorem create_removable (hload : db.IsLoaded) (h : db.Removable) (username : UserName) (password : List UInt8) :
    (adminCreate db username password).2.Removable ↔ (AdminCommand.create username password).Apart db := by
  obtain ⟨hdistinct, hunshadowed⟩ := (UserDb.removable_iff hload).mp h
  have hone : (1 : Int) ≠ 0 := Int.one_ne_zero
  rw [adminCreate, UserDb.add, if_pos hload]
  cases hfind : Fin.find? fun i => decide ((db.users i).uid = 0) with
  | none =>
    exact iff_of_true h (.inl fun i => of_decide_eq_false (Fin.find?_eq_none_iff.mp hfind i))
  | some i =>
    obtain ⟨hi, hfirst⟩ := Fin.find?_eq_some_iff.mp hfind
    have hi := of_decide_eq_true hi
    have hload' (user : User) : (db.put i user).IsLoaded := hload
    refine (UserDb.removable_iff (hload' _)).trans ⟨fun hput => .inr ?_, fun hapart => ?_⟩
    · exact (UserDb.distinct_put hdistinct hi hone).mp hput.1
    · refine ⟨(UserDb.distinct_put hdistinct hi hone).mpr (hapart.resolve_left fun hfull => hfull i hi), ?_⟩
      exact UserDb.unshadowed_put hload hunshadowed hi (fun j hj => of_decide_eq_false (hfirst j hj)) hone

theorem remove_removable (hload : db.IsLoaded) (h : db.Removable) (name : List UInt8) :
    (adminRemove db name).2.Removable ↔ (AdminCommand.remove name).Apart db := by
  obtain ⟨hdistinct, hunshadowed⟩ := (UserDb.removable_iff hload).mp h
  by_cases hreg : ∃ j, (db.users j).uid ≠ 0 ∧ (db.users j).name.1 = name
  · obtain ⟨j, hj, rfl⟩ := hreg
    cases hfind : db.find (db.users j).name with
    | none => exact absurd rfl ((UserDb.find_eq_none hload).mp hfind j)
    | some i =>
      have hi := hunshadowed i j hj hfind
      have hname := ((UserDb.find_eq_some hload).mp hfind).1
      have hload' : (db.without i).IsLoaded := hload
      rw [UserDb.adminRemove_of_find hload hdistinct hfind, if_neg hi, UserDb.removable_iff hload',
        and_iff_right (UserDb.distinct_without hdistinct i), UserDb.unshadowed_without hload hunshadowed hfind]
      constructor
      · intro honly k l hk hl hkname hlname
        exact (honly k hk hkname).trans (honly l hl hlname).symm
      · exact fun hapart k hk hkname => hapart k i hk hi hkname hname
  · have hnone := h.removes name
    rw [UserDb.RemovesOne, if_neg hreg] at hnone
    rw [hnone]
    exact iff_of_true h fun i _ hi _ hname _ => absurd ⟨i, hi, hname⟩ hreg

theorem magic_admin (db : UserDb) (c : AdminCommand) : (c.run db).2.magic = db.magic := by
  cases c with
  | create username password => exact magic_run (.add _) db
  | remove name =>
    rw [AdminCommand.run, adminRemove]
    split
    · rfl
    · exact magic_run (.remove _) db

/-- Users that can be removed still can be after commands that keep them apart, and after the next one exactly if it
does. -/
theorem adminRun_removable (hload : db.IsLoaded) (hdb : db.Removable) {cs : List AdminCommand}
    (h : Run AdminStep (fun db c => c.Apart db) db cs db') :
    db'.Removable ∧ ∀ c : AdminCommand, (c.run db').2.Removable ↔ c.Apart db' := by
  have hstep : ∀ {db : UserDb}, db.IsLoaded → db.Removable → ∀ c : AdminCommand,
      (c.run db).2.Removable ↔ c.Apart db := by
    intro db hload hdb c
    cases c with
    | create username password => exact create_removable hload hdb username password
    | remove name => exact remove_removable hload hdb name
  have hdb' : db'.IsLoaded ∧ db'.Removable := by
    refine h.invariant (P := fun db => db.IsLoaded ∧ db.Removable) ?_ ⟨hload, hdb⟩
    rintro db c _ ⟨hload, hdb⟩ hok rfl
    exact ⟨(magic_admin db c).trans hload, (hstep hload hdb c).mpr hok⟩
  exact ⟨hdb'.2, fun c => hstep hdb'.1 hdb'.2 c⟩

end

theorem removable_defaultDb : defaultDb.Removable := by
  have hload : defaultDb.IsLoaded := rfl
  refine (UserDb.removable_iff hload).mpr ⟨?_, ?_⟩
  · unfold UserDb.Distinct
    decide
  · unfold UserDb.Unshadowed
    decide

/-- `bob` -/
def bobName : UserName := ⟨[98, 111, 98], by decide⟩

/-- The guest is removed; a user created then has the administrator's `uid`. -/
theorem adminRun_removable_default : ∃ db, Run AdminStep (fun db c => c.Apart db) defaultDb [.remove guestName] db ∧
    db.Removable ∧ ¬ (adminCreate db bobName bobName).2.Removable := by
  have hapart : (AdminCommand.remove guestName).Apart defaultDb := by unfold AdminCommand.Apart; decide
  have hrun : Run AdminStep (fun db c => c.Apart db) defaultDb [.remove guestName] _ := .single hapart rfl
  have hload : defaultDb.IsLoaded := rfl
  obtain ⟨hdb, hnext⟩ := adminRun_removable hload removable_defaultDb hrun
  refine ⟨_, hrun, hdb, fun h => ?_⟩
  rcases (hnext (.create bobName bobName)).mp h with hfull | hfree
  · exact hfull 2 (by decide)
  · exact hfree 0 (by decide)

/-- The command removes the administrator instead of the user created. -/
theorem remove_other_user : ∃ db, AnyRun AdminStep defaultDb [.create bobName bobName] db ∧ (db.users 3).name = bobName ∧
    (db.users 0).uid = 1 ∧ (db.users 3).uid = 1 ∧
      (adminRemove db bobName).2.users 0 = { defaultDb.users 0 with uid := 0 } ∧
      ((adminRemove db bobName).2.users 3).uid = 1 :=
  ⟨_, .single trivial rfl, by decide, by decide, by decide, by decide, by decide⟩

end RetrOS.Admin
