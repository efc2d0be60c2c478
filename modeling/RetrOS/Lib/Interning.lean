import Mathlib.Data.Finset.Card
import Mathlib.Data.List.Dedup

/-!
# Interning names in a table

A name is looked up among the entries of a table in their order and gets the first one that it hits, or else a new one
at the end. What hits an entry need not be its name.

* `intern`, `interned`, `internAll` : the table behind a name; the names of a list with their entries; the table behind
  the list;
* `internAll_pairwise` : a later entry never hits an earlier one;
* `same_iff_owned` : equal names get equal entries and different names different ones iff each name gets an entry of
  its own name;
* `owned_iff` : this is so iff no name occurs first behind a different name that it hits (`Shadowed`);
* `length_internAll` : then the table has as many entries as there are names.
-/

namespace RetrOS.Lib

variable {α : Type*} (hit : α → α → Bool)

/-- The entry of the name `w`; behind the table for a new one. -/
def entryOf (table : List α) (w : α) : Nat := table.findIdx (hit w)

def intern (table : List α) (w : α) : List α := if table.any (hit w) then table else table ++ [w]

/-- The names with their entries. -/
def interned (table : List α) : List α → List (α × Nat)
  | [] => []
  | w :: ws => (w, entryOf hit table w) :: interned (intern hit table w) ws

def internAll (table ws : List α) : List α := ws.foldl (intern hit) table

/-- A name occurs first behind a different name that it hits. -/
def Shadowed (ws : List α) : Prop :=
  ∃ pre long mid w post, ws = pre ++ long :: mid ++ w :: post ∧ w ∉ pre ∧ w ≠ long ∧ hit w long = true

section Table
variable {hit} {table ws vs : List α} {v w : α} {k : Nat}

@[simp] theorem internAll_nil (table : List α) : internAll hit table [] = table := rfl

@[simp] theorem internAll_cons (table : List α) (w : α) (ws : List α) :
    internAll hit table (w :: ws) = internAll hit (intern hit table w) ws := rfl

theorem internAll_append (table ws vs : List α) :
    internAll hit table (ws ++ vs) = internAll hit (internAll hit table ws) vs := List.foldl_append

theorem interned_append (table ws vs : List α) :
    interned hit table (ws ++ vs) = interned hit table ws ++ interned hit (internAll hit table ws) vs := by
  induction ws generalizing table with
  | nil => rfl
  | cons w ws ih => simp [interned, ih]

theorem prefix_intern (table : List α) (w : α) : table <+: intern hit table w := by
  unfold intern
  split
  · exact List.prefix_rfl
  · exact List.prefix_append table [w]

theorem prefix_internAll (table ws : List α) : table <+: internAll hit table ws := by
  induction ws generalizing table with
  | nil => exact List.prefix_rfl
  | cons w ws ih => exact (prefix_intern table w).trans (ih _)

theorem mem_intern (h : v ∈ intern hit table w) : v ∈ table ∨ v = w := by
  unfold intern at h
  split at h
  · exact .inl h
  · simpa using h

theorem mem_internAll (h : v ∈ internAll hit table ws) : v ∈ table ∨ v ∈ ws := by
  induction ws generalizing table with
  | nil => exact .inl h
  | cons w ws ih =>
    rcases ih h with h | h
    · rcases mem_intern h with h | rfl
      · exact .inl h
      · exact .inr (List.mem_cons_self ..)
    · exact .inr (List.mem_cons_of_mem _ h)

/-- The entry that a name gets. -/
theorem entryOf_spec (hrefl : hit w w = true) (table : List α) :
    ∃ v, (intern hit table w)[entryOf hit table w]? = some v ∧ hit w v = true ∧ (v ∈ table ∨ v = w) := by
  unfold intern entryOf
  split
  · next h =>
    obtain ⟨v, hv, hhit⟩ := List.any_eq_true.mp h
    have hlt := List.findIdx_lt_length_of_exists ⟨v, hv, hhit⟩
    exact ⟨table[table.findIdx (hit w)], List.getElem?_eq_getElem hlt, List.findIdx_getElem, .inl (List.getElem_mem hlt)⟩
  · next h =>
    have hlen : table.findIdx (hit w) = table.length := by
      refine List.findIdx_eq_length.mpr fun v hv => ?_
      exact Bool.eq_false_iff.mpr fun hhit => h (List.any_eq_true.mpr ⟨v, hv, hhit⟩)
    exact ⟨w, by simp [hlen], hrefl, .inr rfl⟩

theorem intern_pairwise (h : table.Pairwise fun v w => ¬ hit w v = true) (w : α) :
    (intern hit table w).Pairwise fun v w => ¬ hit w v = true := by
  unfold intern
  split
  · exact h
  · next hany =>
    refine List.pairwise_append.mpr ⟨h, List.pairwise_singleton _ _, fun v hv w' hw' hhit => ?_⟩
    obtain rfl := List.mem_singleton.mp hw'
    exact hany (List.any_eq_true.mpr ⟨v, hv, hhit⟩)

/-- A later entry does not hit an earlier one. -/
theorem internAll_pairwise (h : table.Pairwise fun v w => ¬ hit w v = true) (ws : List α) :
    (internAll hit table ws).Pairwise fun v w => ¬ hit w v = true := by
  induction ws generalizing table with
  | nil => exact h
  | cons w ws ih => exact ih (intern_pairwise h w)

end Table

/-- Each name gets an entry of its own name. -/
def Owned (ws : List α) : Prop := ∀ p ∈ interned hit [] ws, (internAll hit [] ws)[p.2]? = some p.1

section Owned
variable {hit} {table ws : List α} {v w : α} {k : Nat} {p : α × Nat}

theorem getElem?_of_prefix {l l' : List α} (h : l <+: l') (hk : l[k]? = some v) : l'[k]? = some v := by
  obtain ⟨t, rfl⟩ := h
  rw [List.getElem?_append_left (List.getElem?_eq_some_iff.mp hk).1, hk]

theorem nodup_internAll (hrefl : ∀ w, hit w w = true) (ws : List α) : (internAll hit [] ws).Nodup := by
  apply (internAll_pairwise List.Pairwise.nil ws).imp
  intro v w hnot heq
  exact hnot (heq ▸ hrefl v)

/-- An entry that is in the table hits itself first. -/
theorem getElem?_entryOf (hrefl : hit w w = true) (h : table.Pairwise fun v w => ¬ hit w v = true) (hw : w ∈ table) :
    table[entryOf hit table w]? = some w := by
  obtain ⟨front, back, rfl⟩ := List.append_of_mem hw
  have hfront : ∀ v ∈ front, ¬ hit w v = true := by
    intro v hv
    exact (List.pairwise_append.mp h).2.2 v hv w (List.mem_cons_self ..)
  have hindex : entryOf hit (front ++ w :: back) w = front.length := by
    rw [entryOf, List.findIdx_append, if_neg, List.findIdx_cons, hrefl]
    · simp
    · intro hlt
      obtain ⟨v, hv, hhit⟩ := List.findIdx_lt_length.mp hlt
      exact hfront v hv hhit
  simp [hindex]

theorem exists_mem_interned (table : List α) (h : w ∈ ws) : ∃ k, (w, k) ∈ interned hit table ws := by
  induction ws generalizing table with
  | nil => exact absurd h List.not_mem_nil
  | cons v ws ih =>
    rcases List.mem_cons.mp h with rfl | h
    · exact ⟨_, List.mem_cons_self ..⟩
    · obtain ⟨k, hk⟩ := ih (intern hit table v) h
      exact ⟨k, List.mem_cons_of_mem _ hk⟩

/-- The entry of a name is one that it hits. -/
theorem interned_spec (hrefl : ∀ w, hit w w = true) (hp : p ∈ interned hit table ws) :
    ∃ v, (internAll hit table ws)[p.2]? = some v ∧ hit p.1 v = true := by
  induction ws generalizing table with
  | nil => exact absurd hp List.not_mem_nil
  | cons w ws ih =>
    rcases List.mem_cons.mp hp with rfl | hp
    · obtain ⟨v, hv, hhit, -⟩ := entryOf_spec (hrefl w) table
      exact ⟨v, getElem?_of_prefix (prefix_internAll _ ws) hv, hhit⟩
    · exact ih hp

/-- Every entry is that of a name. -/
theorem mem_interned_of_entry (h : (internAll hit table ws)[k]? = some v) :
    table[k]? = some v ∨ (v, k) ∈ interned hit table ws := by
  induction ws generalizing table with
  | nil => exact .inl h
  | cons w ws ih =>
    rcases ih h with h | h
    · unfold intern at h
      split at h
      · exact .inl h
      · next hany =>
        rcases Nat.lt_trichotomy k table.length with hlt | rfl | hgt
        · rw [List.getElem?_append_left hlt] at h
          exact .inl h
        · obtain rfl : w = v := by simpa using h
          have hlen : entryOf hit table w = table.length := by
            refine List.findIdx_eq_length.mpr fun e he => Bool.eq_false_iff.mpr fun hhit => ?_
            exact hany (List.any_eq_true.mpr ⟨e, he, hhit⟩)
          refine .inr ?_
          rw [interned, hlen]
          exact List.mem_cons_self ..
        · rw [List.getElem?_eq_none (by simp; omega)] at h
          cases h
    · exact .inr (List.mem_cons_of_mem _ h)

/-- Equal names get equal entries and different names different ones iff each name gets an entry of its own name. -/
theorem same_iff_owned (hrefl : ∀ w, hit w w = true) (ws : List α) :
    (∀ p ∈ interned hit [] ws, ∀ q ∈ interned hit [] ws, p.2 = q.2 ↔ p.1 = q.1) ↔ Owned hit ws := by
  constructor
  · intro hsame p hp
    obtain ⟨v, hv, -⟩ := interned_spec hrefl hp
    have hmem : (v, p.2) ∈ interned hit [] ws := (mem_interned_of_entry hv).resolve_left (by simp)
    rw [hv, (hsame p hp _ hmem).mp rfl]
  · intro howned p hp q hq
    have hpe := howned p hp
    have hqe := howned q hq
    constructor
    · intro heq
      rw [heq, hqe] at hpe
      exact (Option.some.inj hpe).symm
    · intro heq
      have hlt := (List.getElem?_eq_some_iff.mp hpe).1
      exact (List.getElem?_inj hlt (nodup_internAll hrefl ws)).mp (by rw [hpe, hqe, heq])

/-- What was interned before a name is in the table there, if each name gets its own entry. -/
theorem Owned.mem {vs : List α} (hrefl : ∀ w, hit w w = true) (h : Owned hit (ws ++ vs)) (hw : w ∈ ws) :
    w ∈ internAll hit [] ws := by
  obtain ⟨k, hk⟩ := exists_mem_interned [] hw
  obtain ⟨v, hv, -⟩ := interned_spec hrefl hk
  have howned := h (w, k) (by rw [interned_append]; exact List.mem_append_left _ hk)
  rw [internAll_append, getElem?_of_prefix (prefix_internAll _ vs) hv] at howned
  obtain rfl : v = w := Option.some.inj howned
  exact List.mem_of_getElem? hv

theorem not_shadowed_of_owned (hrefl : ∀ w, hit w w = true) (h : Owned hit ws) : ¬ Shadowed hit ws := by
  rintro ⟨pre, long, mid, w, post, rfl, hpre, hne, hhit⟩
  -- the first time that the name occurs
  obtain ⟨mid, post, hmid, heq⟩ : ∃ mid' post', w ∉ mid' ∧
      pre ++ long :: mid ++ w :: post = (pre ++ long :: mid') ++ w :: post' := by
    obtain ⟨mid', post', hsplit, hnot⟩ := List.eq_append_cons_of_mem (show w ∈ mid ++ w :: post by simp)
    exact ⟨mid', post', hnot, by simp [hsplit]⟩
  rw [heq] at h
  have hlong : long ∈ internAll hit [] (pre ++ long :: mid) := Owned.mem hrefl h (by simp)
  have hany : (internAll hit [] (pre ++ long :: mid)).any (hit w) = true := List.any_eq_true.mpr ⟨long, hlong, hhit⟩
  obtain ⟨v, hv, -, -⟩ := entryOf_spec (hrefl w) (internAll hit [] (pre ++ long :: mid))
  have howned := h (w, entryOf hit (internAll hit [] (pre ++ long :: mid)) w) (by
    rw [interned_append]
    exact List.mem_append_right _ (List.mem_cons_self ..))
  rw [internAll_append, internAll_cons, getElem?_of_prefix (prefix_internAll _ post) hv] at howned
  obtain rfl := Option.some.inj howned
  have hw := List.mem_of_getElem? hv
  rw [intern, if_pos hany] at hw
  have hseen := (mem_internAll hw).resolve_left List.not_mem_nil
  simp [hpre, hne, hmid] at hseen

/-- By induction on the names, with those in front: the table has exactly these, and a new name hits none of them. -/
theorem owned_of_not_shadowed (hrefl : ∀ w, hit w w = true) : ∀ (ws pre table : List α),
    ¬ Shadowed hit (pre ++ ws) → (∀ v, v ∈ table ↔ v ∈ pre) → (table.Pairwise fun v w => ¬ hit w v = true) →
    ∀ p ∈ interned hit table ws, (internAll hit table ws)[p.2]? = some p.1
  | [], _, _, _, _, _ => fun p hp => absurd hp List.not_mem_nil
  | w :: ws, pre, table, hshadow, hmem, hpair => by
    have hown : (intern hit table w)[entryOf hit table w]? = some w := by
      by_cases hw : w ∈ table
      · exact getElem?_of_prefix (prefix_intern table w) (getElem?_entryOf (hrefl w) hpair hw)
      · obtain ⟨v, hv, hhit, hfrom⟩ := entryOf_spec (hrefl w) table
        rcases hfrom with hold | rfl
        · obtain ⟨x, y, rfl⟩ := List.append_of_mem ((hmem v).mp hold)
          refine absurd ⟨x, v, y, w, ws, rfl, fun hx => ?_, fun heq => ?_, hhit⟩ hshadow
          · exact hw ((hmem w).mpr (List.mem_append_left _ hx))
          · exact hw (heq ▸ hold)
        · exact hv
    have hmem' : ∀ v, v ∈ intern hit table w ↔ v ∈ pre ++ [w] := by
      intro v
      rw [List.mem_append, List.mem_singleton, ← hmem]
      constructor
      · exact mem_intern
      · rintro (hv | rfl)
        · exact (prefix_intern table w).subset hv
        · exact List.mem_of_getElem? hown
    intro p hp
    rcases List.mem_cons.mp hp with rfl | hp
    · exact getElem?_of_prefix (prefix_internAll _ ws) hown
    · exact owned_of_not_shadowed hrefl ws (pre ++ [w]) (intern hit table w) (by simpa using hshadow) hmem'
        (intern_pairwise hpair w) p hp

theorem owned_iff (hrefl : ∀ w, hit w w = true) (ws : List α) : Owned hit ws ↔ ¬ Shadowed hit ws :=
  ⟨not_shadowed_of_owned hrefl, fun h => owned_of_not_shadowed hrefl ws [] [] h (fun _ => Iff.rfl) List.Pairwise.nil⟩

/-- The table has an entry for each name. -/
theorem length_internAll [DecidableEq α] (hrefl : ∀ w, hit w w = true) (h : ¬ Shadowed hit ws) :
    (internAll hit [] ws).length = ws.dedup.length := by
  apply List.Perm.length_eq
  rw [List.perm_ext_iff_of_nodup (nodup_internAll hrefl ws) (List.nodup_dedup ws)]
  intro w
  rw [List.mem_dedup]
  constructor
  · intro hw
    exact (mem_internAll hw).resolve_left List.not_mem_nil
  · intro hw
    obtain ⟨k, hk⟩ := exists_mem_interned [] hw
    exact List.mem_of_getElem? ((owned_iff hrefl ws).mpr h _ hk)

end Owned

end RetrOS.Lib
