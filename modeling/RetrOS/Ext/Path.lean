import RetrOS.Ext.Directory

/-!
# Paths (`inode_from_path`)

* `pathNextIter`, `inodeFromPathRecursise`, `inodeFromPath` : the walk of the source;
* `Path` : a path as its components (`Path.text`);
* `lookupAll` : the components looked up one after another;
* `inodeFromPathRecursise_fitting`, `inodeFromPathRecursise_overflow` : the recursion sees every component once;
* `PathOk`, `pathLaw_iff` : when the walk is the lookups.

The first component ends at an offset of the path without its `./`, but the rest is taken from the whole path. Only
behind a leading `/` the rest begins with the `/` in front of the second component.
-/

namespace RetrOS.Ext

def slash : UInt8 := 47
def dot : UInt8 := 46

/-- `path_next_iter`: the component and what is returned; `none` where it does not fit in `next_iter`. -/
def pathNextIter (path : List UInt8) : Option (List UInt8 × Int) :=
  let next := path.takeWhile fun c => c ≠ 0 ∧ c ≠ slash
  if 20 < next.length + 1 then none
  else some (next, if path.getD next.length 0 = 0 then -1 else next.length + 1)

namespace ExtFs

def extClose (e : ExtFs) (i : BitVec 16) : ExtFs :=
  match e.inodeGet i with
  | (none, e) => e
  | (some k, e) => e.unlink k

/-- `inode_from_path_recursise`; `entry d` is the record on the stack of the lookup at depth `d`. -/
def inodeFromPathRecursise (e : ExtFs) (inode : BitVec 16) (path : List UInt8) (entry : Nat → Vector UInt8 24) :
    Option (BitVec 16 × ExtFs) :=
  if hslash : path.getD 0 0 = slash then do
    let (component, ret) ← pathNextIter (path.drop 1)
    if _ : ret < 1 then e.extOpenFromDirectory component inode (entry 0)
    else
      let (next, e) ← e.extOpenFromDirectory component inode (entry 0)
      if next.toInt ≤ 0 then some (next, e)
      else
        let (result, e) ← inodeFromPathRecursise e next (path.drop ret.toNat) fun d => entry (d + 1)
        some (result, e.extClose next)
  else some (-1, e)
termination_by path.length
decreasing_by
  cases path with
  | nil => exact absurd hslash (by decide)
  | cons c rest =>
    rw [List.length_drop, List.length_cons]
    omega

/-- `inode_from_path`, with the inodes of the root and of the current directory. -/
def inodeFromPath (e : ExtFs) (root currentDir : BitVec 16) (path : List UInt8) (entry : Nat → Vector UInt8 24) :
    Option (BitVec 16 × ExtFs) :=
  if path.getD 0 0 = slash ∧ path.getD 1 0 = 0 then some (root, e)
  else
    let index := if path.getD 0 0 = slash then 1 else if path.getD 0 0 = dot ∧ path.getD 1 0 = slash then 2 else 0
    let dir := if path.getD 0 0 = slash then root else currentDir
    do
      let (component, ret) ← pathNextIter (path.drop index)
      if ret < 1 then e.extOpenFromDirectory component dir (entry 0)
      else
        let (next, e) ← e.extOpenFromDirectory component dir (entry 0)
        if next.toInt ≤ 0 then some (next, e)
        else
          let (final, e) ← e.inodeFromPathRecursise next (path.drop ret.toNat) fun d => entry (d + 1)
          some (final, e.extClose next)

end ExtFs

/-! ## Paths as components -/

/-- A component of a path. -/
abbrev Component := { c : List UInt8 // c ≠ [] ∧ 0 ∉ c ∧ slash ∉ c }

/-- How a path begins. -/
inductive Lead
  | absolute
  | relative
  /-- `./` -/
  | dotted
deriving DecidableEq

def Lead.text : Lead → List UInt8
  | absolute => [slash]
  | relative => []
  | dotted => [dot, slash]

/-- A path; one that begins with `./` and more is spelled as dotted. -/
structure Path where
  lead : Lead
  components : List Component
  plain : lead = .relative → ∀ c cs, components = c :: cs → c.1 = [dot] → cs = []

/-- Components, each behind a slash. -/
def slashed (cs : List Component) : List UInt8 := cs.flatMap fun c => slash :: c.1

/-- Components with slashes between them. -/
def joined : List Component → List UInt8
  | [] => []
  | c :: cs => c.1 ++ slashed cs

def Path.text (p : Path) : List UInt8 := p.lead.text ++ joined p.components

/-- Where the lookups begin. -/
def Path.start (p : Path) (root currentDir : BitVec 16) : BitVec 16 :=
  if p.lead = .absolute then root else currentDir

/-- The components are looked up one after another, up to the first that is missing. -/
def ExtFs.lookupAll (e : ExtFs) (dir : BitVec 16) (entry : Nat → Vector UInt8 24) :
    List Component → Option (BitVec 16 × ExtFs)
  | [] => some (dir, e)
  | c :: cs =>
    do
      let (next, e) ← e.extOpenFromDirectory c.1 dir (entry 0)
      if next.toInt ≤ 0 then some (next, e) else lookupAll e next (fun d => entry (d + 1)) cs

/-- The walk returns what the lookups return. -/
def PathLaw (e : ExtFs) (root currentDir : BitVec 16) (p : Path) (entry : Nat → Vector UInt8 24) : Prop :=
  ∃ m e₁ e₂, e.inodeFromPath root currentDir p.text entry = some (m, e₁) ∧
    e.lookupAll (p.start root currentDir) entry p.components = some (m, e₂)

/-- The components that are looked up fit in `next_iter`. -/
def Fitting (e : ExtFs) (dir : BitVec 16) (entry : Nat → Vector UInt8 24) : List Component → Prop
  | [] => True
  | c :: cs => c.1.length < 20 ∧ ∀ next e', e.extOpenFromDirectory c.1 dir (entry 0) = some (next, e') →
      0 < next.toInt → Fitting e' next (fun d => entry (d + 1)) cs

/-- The path is absolute and the components that are looked up have less than 20 bytes. Or it is relative and has one
such component; or it has more and the first is missing, or the lookups end in -1; or it has none and an empty name is
found as the current directory. -/
def PathOk (e : ExtFs) (root currentDir : BitVec 16) (p : Path) (entry : Nat → Vector UInt8 24) : Prop :=
  if p.lead = .absolute then Fitting e root entry p.components
  else
    match p.components with
    | [] => ∃ e', e.extOpenFromDirectory [] currentDir (entry 0) = some (currentDir, e')
    | [c] => c.1.length < 20
    | c :: cs => c.1.length < 20 ∧
        ((∃ next e', e.extOpenFromDirectory c.1 currentDir (entry 0) = some (next, e') ∧ next.toInt ≤ 0) ∨
          ∃ e', e.lookupAll currentDir entry (c :: cs) = some (-1, e'))

/-! ## A lookup returns -/

/-- A record is never longer than what is left of its block and of the directory. -/
theorem inodeRead_ne_none (v : Volume) (inode : Inode) : v.inodeRead inode 24 ≠ none := by
  have hlt := inode.inBlock_lt
  have hle : inode.inBlock ≤ inode.pos.toNat := Nat.mod_le ..
  unfold Volume.inodeRead
  split
  · exact Option.some_ne_none _
  · next hsize =>
    rw [BitVec.le_def] at hsize
    rw [if_neg (by decide)]
    dsimp only
    rw [if_neg (by omega)]
    split <;> exact Option.some_ne_none _

theorem findEntry_ne_none (name : List UInt8) (k : Slot) (e : ExtFs) (entry : List UInt8) (size : Nat) :
    ExtFs.findEntry name k e entry size ≠ none := by
  -- On the rounds of the loop.
  fun_induction ExtFs.findEntry name k e entry size with
  | case1 e entry size hle hnone =>
    exact (inodeRead_ne_none _ _ (Option.map_eq_none_iff.mp hnone)).elim
  | case2 => exact Option.some_ne_none _
  | case3 e entry size hle n e' data hread hbegins ih => exact ih
  | case4 => exact Option.some_ne_none _
  | case5 => exact Option.some_ne_none _

theorem extOpenFromDirectory_total (e : ExtFs) (name : List UInt8) (i : BitVec 16) (entry : Vector UInt8 24) :
    ∃ m e', e.extOpenFromDirectory name i entry = some (m, e') := by
  unfold ExtFs.extOpenFromDirectory
  split
  · exact ⟨_, _, rfl⟩
  · split
    · exact ⟨_, _, rfl⟩
    · split
      · next h => exact (findEntry_ne_none _ _ _ _ _ h).elim
      · exact ⟨_, _, rfl⟩
      · split
        · exact ⟨_, _, rfl⟩
        · exact ⟨_, _, rfl⟩

/-! ## The pieces of a path -/

theorem takeWhile_component (c : Component) {rest : List UInt8} (h : rest.getD 0 0 = 0 ∨ rest.getD 0 0 = slash) :
    (c.1 ++ rest).takeWhile (fun x => x ≠ 0 ∧ x ≠ slash) = c.1 := by
  have hc : ∀ x ∈ c.1, decide (x ≠ 0 ∧ x ≠ slash) = true := by
    intro x hx
    rw [decide_eq_true_eq]
    exact ⟨fun h0 => c.2.2.1 (h0 ▸ hx), fun hs => c.2.2.2 (hs ▸ hx)⟩
  have hrest : rest.takeWhile (fun x => x ≠ 0 ∧ x ≠ slash) = [] := by
    cases rest with
    | nil => rfl
    | cons x rest =>
      refine List.takeWhile_cons_of_neg ?_
      rw [decide_eq_true_eq]
      exact fun hx => h.elim hx.1 hx.2
  rw [List.takeWhile_append_of_pos hc, hrest, List.append_nil]

theorem getD_component (c : Component) (rest : List UInt8) {j : Nat} (hj : j < c.1.length) :
    (c.1 ++ rest).getD j 0 ≠ 0 ∧ (c.1 ++ rest).getD j 0 ≠ slash := by
  rw [List.getD_append _ _ _ _ hj, List.getD_eq_getElem _ _ hj]
  have hmem := List.getElem_mem hj
  constructor
  · intro h0
    rw [h0] at hmem
    exact c.2.2.1 hmem
  · intro hs
    rw [hs] at hmem
    exact c.2.2.2 hmem

/-- What stands behind a component. -/
theorem getD_slashed (cs : List Component) :
    (slashed cs).getD 0 0 = if cs = [] then 0 else slash := by
  cases cs with
  | nil => rfl
  | cons c cs => rfl

/-- A component and what is returned with it. -/
theorem pathNextIter_component (c : Component) (cs : List Component) : pathNextIter (c.1 ++ slashed cs) =
    if c.1.length < 20 then some (c.1, if cs = [] then -1 else (c.1.length : Int) + 1) else none := by
  have hnext := getD_slashed cs
  have htake : (c.1 ++ slashed cs).takeWhile (fun x => x ≠ 0 ∧ x ≠ slash) = c.1 := by
    refine takeWhile_component c ?_
    rw [hnext]
    split
    · exact .inl rfl
    · exact .inr rfl
  have hend : (c.1 ++ slashed cs).getD c.1.length 0 = if cs = [] then 0 else slash := by
    rw [List.getD_append_right _ _ _ _ le_rfl, Nat.sub_self, hnext]
  unfold pathNextIter
  dsimp only
  rw [htake, hend]
  by_cases hlen : c.1.length < 20
  · rw [if_neg (by omega), if_pos hlen]
    by_cases hcs : cs = []
    · rw [if_pos hcs, if_pos rfl, if_pos hcs]
    · rw [if_neg hcs, if_neg (by decide), if_neg hcs]
  · rw [if_pos (by omega), if_neg hlen]

/-! ## The walk -/

section Walk
variable {e : ExtFs} {dir root currentDir : BitVec 16} {entry : Nat → Vector UInt8 24}

/-- One component of the recursion. -/
theorem inodeFromPathRecursise_step {c : Component} {cs : List Component} {next : BitVec 16} {e' : ExtFs}
    (hlen : c.1.length < 20) (hopen : e.extOpenFromDirectory c.1 dir (entry 0) = some (next, e')) :
    e.inodeFromPathRecursise dir (slashed (c :: cs)) entry =
      if cs = [] ∨ next.toInt ≤ 0 then some (next, e')
      else (e'.inodeFromPathRecursise next (slashed cs) fun d => entry (d + 1)).map fun result =>
        (result.1, result.2.extClose next) := by
  have hslashed : slashed (c :: cs) = slash :: (c.1 ++ slashed cs) := rfl
  have hrest : (slashed (c :: cs)).drop (c.1.length + 1) = slashed cs := by
    rw [hslashed, List.drop_succ_cons, List.drop_left]
  have htoNat : ((c.1.length : Int) + 1).toNat = c.1.length + 1 := rfl
  have hfirst : (slashed (c :: cs)).drop 1 = c.1 ++ slashed cs := rfl
  rw [ExtFs.inodeFromPathRecursise, dif_pos (show (slashed (c :: cs)).getD 0 0 = slash from rfl), hfirst,
    pathNextIter_component, if_pos hlen, Option.bind_eq_bind, Option.bind_some]
  dsimp only
  by_cases hcs : cs = []
  · rw [if_pos hcs, dif_pos (by decide), if_pos (.inl hcs), hopen]
  · rw [if_neg hcs, dif_neg (by omega), htoNat, hrest, hopen, Option.bind_eq_bind, Option.bind_some]
    dsimp only
    by_cases hnext : next.toInt ≤ 0
    · rw [if_pos hnext, if_pos (.inr hnext)]
    · rw [if_neg hnext, if_neg (not_or.mpr ⟨hcs, hnext⟩)]
      exact Option.map_eq_bind.symm

theorem inodeFromPathRecursise_long {c : Component} {cs : List Component} (hlen : ¬ c.1.length < 20) :
    e.inodeFromPathRecursise dir (slashed (c :: cs)) entry = none := by
  have hfirst : (slashed (c :: cs)).drop 1 = c.1 ++ slashed cs := rfl
  rw [ExtFs.inodeFromPathRecursise, dif_pos (show (slashed (c :: cs)).getD 0 0 = slash from rfl), hfirst,
    pathNextIter_component, if_neg hlen]
  rfl

theorem lookupAll_cons {c : Component} {next : BitVec 16} {e' : ExtFs}
    (hopen : e.extOpenFromDirectory c.1 dir (entry 0) = some (next, e')) (cs : List Component) :
    e.lookupAll dir entry (c :: cs) =
      if next.toInt ≤ 0 then some (next, e') else e'.lookupAll next (fun d => entry (d + 1)) cs := by
  rw [ExtFs.lookupAll, hopen]
  rfl

theorem lookupAll_total (e : ExtFs) (dir : BitVec 16) (entry : Nat → Vector UInt8 24) (cs : List Component) :
    ∃ m e', e.lookupAll dir entry cs = some (m, e') := by
  induction cs generalizing e dir entry with
  | nil => exact ⟨dir, e, rfl⟩
  | cons c cs ih =>
    obtain ⟨next, e', hopen⟩ := extOpenFromDirectory_total e c.1 dir (entry 0)
    rw [lookupAll_cons hopen]
    split
    · exact ⟨next, e', rfl⟩
    · exact ih ..

theorem fitting_cons {c : Component} {next : BitVec 16} {e' : ExtFs}
    (hopen : e.extOpenFromDirectory c.1 dir (entry 0) = some (next, e')) (cs : List Component) :
    Fitting e dir entry (c :: cs) ↔
      c.1.length < 20 ∧ (0 < next.toInt → Fitting e' next (fun d => entry (d + 1)) cs) := by
  rw [Fitting]
  refine and_congr_right fun _ => ⟨fun h => h next e' hopen, fun h next' e'' hopen' => ?_⟩
  cases hopen.symm.trans hopen'
  exact h

/-- **The recursion sees every component once.** -/
theorem inodeFromPathRecursise_fitting (c : Component) (cs : List Component)
    (h : Fitting e dir entry (c :: cs)) : ∃ m e₁ e₂, e.inodeFromPathRecursise dir (slashed (c :: cs)) entry =
      some (m, e₁) ∧ e.lookupAll dir entry (c :: cs) = some (m, e₂) := by
  induction cs generalizing c e dir entry with
  | nil =>
    obtain ⟨next, e', hopen⟩ := extOpenFromDirectory_total e c.1 dir (entry 0)
    refine ⟨next, e', e', ?_, ?_⟩
    · rw [inodeFromPathRecursise_step h.1 hopen, if_pos (.inl rfl)]
    · rw [lookupAll_cons hopen]
      exact ite_self _
  | cons c' cs ih =>
    obtain ⟨next, e', hopen⟩ := extOpenFromDirectory_total e c.1 dir (entry 0)
    obtain ⟨hlen, hrest⟩ := (fitting_cons hopen _).mp h
    rw [inodeFromPathRecursise_step hlen hopen, lookupAll_cons hopen]
    by_cases hnext : next.toInt ≤ 0
    · rw [if_pos (.inr hnext), if_pos hnext]
      exact ⟨next, e', e', rfl, rfl⟩
    · rw [if_neg (not_or.mpr ⟨List.cons_ne_nil c' cs, hnext⟩), if_neg hnext]
      obtain ⟨m, e₁, e₂, hwalk, hall⟩ := ih c' (hrest (by omega))
      rw [hwalk]
      exact ⟨m, _, e₂, rfl, hall⟩

theorem inodeFromPathRecursise_overflow (c : Component) (cs : List Component)
    (h : ¬ Fitting e dir entry (c :: cs)) : e.inodeFromPathRecursise dir (slashed (c :: cs)) entry = none := by
  induction cs generalizing c e dir entry with
  | nil => exact inodeFromPathRecursise_long fun hlen => h ⟨hlen, fun _ _ _ _ => trivial⟩
  | cons c' cs ih =>
    obtain ⟨next, e', hopen⟩ := extOpenFromDirectory_total e c.1 dir (entry 0)
    rw [fitting_cons hopen, not_and, Classical.not_imp] at h
    by_cases hlen : c.1.length < 20
    · obtain ⟨hnext, hrest⟩ := h hlen
      rw [inodeFromPathRecursise_step hlen hopen, if_neg (not_or.mpr ⟨List.cons_ne_nil c' cs, by omega⟩), ih c' hrest]
      rfl
    · exact inodeFromPathRecursise_long hlen

/-- An absolute path is what the recursion takes. -/
theorem inodeFromPath_absolute (c : Component) (cs : List Component) :
    e.inodeFromPath root currentDir (slashed (c :: cs)) entry =
      e.inodeFromPathRecursise root (slashed (c :: cs)) entry := by
  have hslashed : slashed (c :: cs) = slash :: (c.1 ++ slashed cs) := rfl
  have hsecond : (slashed (c :: cs)).getD 1 0 ≠ 0 := by
    rw [hslashed, List.getD_cons_succ]
    exact (getD_component c (slashed cs) (List.length_pos_iff.mpr c.2.1)).1
  have hfirst : (slashed (c :: cs)).getD 0 0 = slash := rfl
  rw [ExtFs.inodeFromPath, ExtFs.inodeFromPathRecursise, if_neg (fun h => hsecond h.2), dif_pos hfirst]
  dsimp only
  rw [if_pos hfirst, if_pos hfirst]
  simp only [dite_eq_ite]

/-- The text of a path that is not absolute: the first component is read at `index`, and the rest does not begin with
a slash. -/
theorem Path.relative_text (p : Path) (hlead : p.lead ≠ .absolute) :
    p.text.getD 0 0 ≠ slash ∧
      p.text.drop (if p.text.getD 0 0 = dot ∧ p.text.getD 1 0 = slash then 2 else 0) = joined p.components ∧
      ∀ c cs, p.components = c :: cs → cs ≠ [] → (p.text.drop (c.1.length + 1)).getD 0 0 ≠ slash := by
  have hpos (c : Component) : 0 < c.1.length := List.length_pos_iff.mpr c.2.1
  obtain ⟨lead, components, hplain⟩ := p
  cases lead with
  | absolute => exact absurd rfl hlead
  | dotted =>
    refine ⟨(by decide : dot ≠ slash), rfl, ?_⟩
    rintro c cs rfl -
    -- the last byte of the component
    obtain ⟨n, hn⟩ : ∃ n, c.1.length = n + 1 := ⟨c.1.length - 1, by have h := hpos c; omega⟩
    show ((dot :: slash :: (c.1 ++ slashed cs)).drop (c.1.length + 1)).getD 0 0 ≠ slash
    rw [hn, List.drop_succ_cons, List.drop_succ_cons, List.getD_eq_getElem?_getD,
      List.getElem?_drop, Nat.add_zero, ← List.getD_eq_getElem?_getD]
    exact (getD_component c _ (by omega)).2
  | relative =>
    cases components with
    | nil => exact ⟨(by decide : (0 : UInt8) ≠ slash), rfl, fun c cs h => absurd h.symm (List.cons_ne_nil c cs)⟩
    | cons c cs =>
      have htext : Path.text ⟨.relative, c :: cs, hplain⟩ = c.1 ++ slashed cs := rfl
      rw [htext]
      refine ⟨(getD_component c _ (hpos c)).2, ?_, ?_⟩
      · rw [if_neg]
        · rfl
        · rintro ⟨hdot, hslash⟩
          by_cases hone : 1 < c.1.length
          · exact (getD_component c _ hone).2 hslash
          · have hlen := hpos c
            obtain ⟨x, hx⟩ := List.length_eq_one_iff.mp (show c.1.length = 1 by omega)
            rw [hx] at hdot hslash
            have hcs : cs = [] := hplain rfl c cs rfl (by rw [hx, show x = dot from hdot])
            rw [hcs] at hslash
            exact absurd (show 0 = slash from hslash) (by decide)
      · rintro c' cs' heq hcs
        cases heq
        obtain ⟨d, ds, rfl⟩ := List.exists_cons_of_ne_nil hcs
        have hslashed : slashed (d :: ds) = slash :: (d.1 ++ slashed ds) := rfl
        rw [← List.drop_drop, List.drop_left, hslashed]
        exact (getD_component d _ (hpos d)).2

/-- Such a path begins with its first component in the current directory. -/
theorem inodeFromPath_relative (p : Path) (hlead : p.lead ≠ .absolute) :
    e.inodeFromPath root currentDir p.text entry = (pathNextIter (joined p.components)).bind fun (component, ret) =>
      if ret < 1 then e.extOpenFromDirectory component currentDir (entry 0)
      else (e.extOpenFromDirectory component currentDir (entry 0)).bind fun (next, e) =>
        if next.toInt ≤ 0 then some (next, e)
        else (e.inodeFromPathRecursise next (p.text.drop ret.toNat) fun d => entry (d + 1)).bind fun (final, e) =>
          some (final, e.extClose next) := by
  obtain ⟨hslash, hindex, -⟩ := p.relative_text hlead
  rw [ExtFs.inodeFromPath, if_neg fun h => hslash h.1]
  dsimp only
  rw [if_neg hslash, if_neg hslash, hindex]
  rfl

theorem inodeFromPathRecursise_lost {path : List UInt8} (h : path.getD 0 0 ≠ slash) :
    e.inodeFromPathRecursise dir path entry = some (-1, e) := by
  rw [ExtFs.inodeFromPathRecursise, dif_neg h]

theorem inodeFromPath_none (p : Path) (hlead : p.lead ≠ .absolute) (hnil : p.components = []) :
    e.inodeFromPath root currentDir p.text entry = e.extOpenFromDirectory [] currentDir (entry 0) := by
  have hnext : pathNextIter [] = some ([], -1) := rfl
  rw [inodeFromPath_relative p hlead, hnil, joined, hnext, Option.bind_some]
  dsimp only
  rw [if_pos (by decide)]

theorem inodeFromPath_long (p : Path) (hlead : p.lead ≠ .absolute) {c : Component} {cs : List Component}
    (hcons : p.components = c :: cs) (hlen : ¬ c.1.length < 20) :
    e.inodeFromPath root currentDir p.text entry = none := by
  have hnext := pathNextIter_component c cs
  rw [if_neg hlen] at hnext
  rw [inodeFromPath_relative p hlead, hcons, joined, hnext, Option.bind_none]

theorem inodeFromPath_one (p : Path) (hlead : p.lead ≠ .absolute) {c : Component} (hone : p.components = [c])
    (hlen : c.1.length < 20) :
    e.inodeFromPath root currentDir p.text entry = e.extOpenFromDirectory c.1 currentDir (entry 0) := by
  have hnext := pathNextIter_component c []
  rw [if_pos hlen, if_pos rfl] at hnext
  rw [inodeFromPath_relative p hlead, hone, joined, hnext, Option.bind_some]
  dsimp only
  rw [if_pos (by decide)]

/-- What is behind the first component of such a path is not looked up. -/
theorem inodeFromPath_more (p : Path) (hlead : p.lead ≠ .absolute) {c : Component} {cs : List Component}
    (hcons : p.components = c :: cs) (hcs : cs ≠ []) (hlen : c.1.length < 20) {next : BitVec 16} {e' : ExtFs}
    (hopen : e.extOpenFromDirectory c.1 currentDir (entry 0) = some (next, e')) :
    e.inodeFromPath root currentDir p.text entry =
      if next.toInt ≤ 0 then some (next, e') else some (-1, e'.extClose next) := by
  have hnext := pathNextIter_component c cs
  have htoNat : ((c.1.length : Int) + 1).toNat = c.1.length + 1 := rfl
  have hlost := (p.relative_text hlead).2.2 c cs hcons hcs
  rw [if_pos hlen, if_neg hcs] at hnext
  rw [inodeFromPath_relative p hlead, hcons, joined, hnext, Option.bind_some]
  dsimp only
  rw [if_neg (by omega), hopen, Option.bind_some, htoNat]
  dsimp only
  rw [inodeFromPathRecursise_lost hlost, Option.bind_some]

/-! ## The law -/

theorem pathLaw_of_result {p : Path} {m : BitVec 16} {e₁ : ExtFs}
    (h : e.inodeFromPath root currentDir p.text entry = some (m, e₁)) :
    PathLaw e root currentDir p entry ↔
      ∃ e₂, e.lookupAll (p.start root currentDir) entry p.components = some (m, e₂) := by
  constructor
  · rintro ⟨m', e₁', e₂, hwalk, hall⟩
    obtain ⟨rfl, rfl⟩ := Prod.mk.inj (Option.some.inj (h.symm.trans hwalk))
    exact ⟨e₂, hall⟩
  · rintro ⟨e₂, hall⟩
    exact ⟨m, e₁, e₂, h, hall⟩

theorem not_pathLaw_of_overflow {p : Path} (h : e.inodeFromPath root currentDir p.text entry = none) :
    ¬ PathLaw e root currentDir p entry := by
  rintro ⟨m, e₁, e₂, hwalk, -⟩
  exact Option.some_ne_none _ (hwalk.symm.trans h)

end Walk

/-- **The walk is the lookups exactly when** the path is absolute, or of one component, or ends at its first one. -/
theorem pathLaw_iff (e : ExtFs) (root currentDir : BitVec 16) (p : Path) (entry : Nat → Vector UInt8 24) :
    PathLaw e root currentDir p entry ↔ PathOk e root currentDir p entry := by
  by_cases hlead : p.lead = .absolute
  · rw [PathOk, if_pos hlead]
    have hstart : p.start root currentDir = root := if_pos hlead
    have htext : p.text = slash :: joined p.components := by
      rw [Path.text, hlead]
      rfl
    cases hcomponents : p.components with
    | nil =>
      rw [hcomponents] at htext
      refine iff_of_true ⟨root, e, e, ?_, ?_⟩ trivial
      · rw [htext]
        rfl
      · rw [hstart, hcomponents]
        rfl
    | cons c cs =>
      have hslashed : p.text = slashed (c :: cs) := by
        rw [htext, hcomponents]
        rfl
      by_cases hfit : Fitting e root entry (c :: cs)
      · refine iff_of_true ?_ hfit
        obtain ⟨m, e₁, e₂, hwalk, hall⟩ := inodeFromPathRecursise_fitting c cs hfit
        refine ⟨m, e₁, e₂, ?_, ?_⟩
        · rw [hslashed, inodeFromPath_absolute, hwalk]
        · rw [hstart, hcomponents, hall]
      · refine iff_of_false (not_pathLaw_of_overflow ?_) hfit
        rw [hslashed, inodeFromPath_absolute, inodeFromPathRecursise_overflow c cs hfit]
  · rw [PathOk, if_neg hlead]
    have hstart : p.start root currentDir = currentDir := if_neg hlead
    cases hcomponents : p.components with
    | nil =>
      obtain ⟨m, e', hopen⟩ := extOpenFromDirectory_total e [] currentDir (entry 0)
      rw [pathLaw_of_result ((inodeFromPath_none p hlead hcomponents).trans hopen), hstart, hcomponents, hopen]
      simp only [ExtFs.lookupAll, Option.some.injEq, Prod.mk.injEq, exists_eq_right', eq_comm]
    | cons c cs =>
      by_cases hlen : c.1.length < 20
      · obtain ⟨next, e', hopen⟩ := extOpenFromDirectory_total e c.1 currentDir (entry 0)
        have hall := lookupAll_cons hopen cs
        cases cs with
        | nil =>
          rw [pathLaw_of_result ((inodeFromPath_one p hlead hcomponents hlen).trans hopen), hstart, hcomponents, hall]
          refine iff_of_true ⟨e', ?_⟩ hlen
          exact ite_self _
        | cons d ds =>
          have hmore : e.inodeFromPath root currentDir p.text entry = _ :=
            inodeFromPath_more p hlead hcomponents (List.cons_ne_nil d ds) hlen hopen
          by_cases hnext : next.toInt ≤ 0
          · rw [if_pos hnext] at hmore hall
            rw [pathLaw_of_result hmore, hstart, hcomponents]
            exact iff_of_true ⟨e', hall⟩ ⟨hlen, .inl ⟨next, e', hopen, hnext⟩⟩
          · rw [if_neg hnext] at hmore
            rw [pathLaw_of_result hmore, hstart, hcomponents]
            refine ⟨fun h => ⟨hlen, .inr h⟩, fun h => h.2.resolve_left ?_⟩
            rintro ⟨next', e'', hopen', hmissing⟩
            cases hopen.symm.trans hopen'
            exact hnext hmissing
      · refine iff_of_false (not_pathLaw_of_overflow (inodeFromPath_long p hlead hcomponents hlen)) ?_
        cases cs with
        | nil => exact hlen
        | cons d ds => exact fun h => hlen h.1

/-! ## A directory in a directory -/

theorem inode_atRecord (e : ExtFs) (k : Slot) (j : Nat) (l : Slot) :
    ((atRecord e k j).cache l).inode = (e.cache l).inode := by
  by_cases hl : l = k
  · subst hl
    rw [atRecord, ExtFs.setInode_self]
    rfl
  · rw [atRecord, e.setInode_of_ne _ hl]

theorem inodeGet_atRecord {e : ExtFs} {i : BitVec 16} {l : Slot}
    (h : Fin.find? (fun l => (e.cache l).inode == i) = some l) (k : Slot) (j : Nat) :
    (atRecord e k j).inodeGet i = (some l, atRecord e k j) := by
  refine inodeGet_of_cached ?_
  simp only [inode_atRecord]
  exact h

/-- The lookup of an inode that is cached moves the position in the directory only. -/
theorem extOpenFromDirectory_cached {e : ExtFs} {i : BitVec 16} {k l : Slot} {name x : List UInt8}
    (hget : e.inodeGet i = (some k, e)) {n : Nat} (hn : (e.cache k).size.toNat = 24 * n) (hname : IsName name)
    (hfirst : firstRecord e.volume (e.cache k) name 0 = some x)
    (hcached : Fin.find? (fun l => (e.cache l).inode == entryInode x) = some l) (entry : Vector UInt8 24) :
    ∃ j, e.extOpenFromDirectory name i entry = some (entryInode x, atRecord e k j) := by
  have hlen := hname.1
  obtain ⟨m, hloop⟩ := findEntry_eq hn (Nat.zero_le n) (show offset 0 < 65536 by decide) name entry.size_toArray
  have hstart : ExtFs.findEntry name k (atRecord e k 0) entry.toList 0 = some (some x, atRecord e k m) :=
    hfirst ▸ hloop
  refine ⟨m, ?_⟩
  unfold ExtFs.extOpenFromDirectory
  rw [hget]
  dsimp only
  rw [if_neg (by omega), setPos_eq_atRecord, hstart]
  dsimp only
  rw [inodeGet_atRecord hcached]

/-- The directory `a`. -/
def directoryA : DirectoryEntry := ⟨[97], 2, DirectoryEntry.flagDirectory, entryA.isName⟩

/-- The file `b`. -/
def entryB : DirectoryEntry := ⟨[98], 3, DirectoryEntry.flagFile, by decide⟩

/-- The directory of inode `i`, whose only entry is in block `b`. -/
def oneEntry (i b : BitVec 16) : Inode :=
  { Inode.zero with
    inode := i
    type := fsTypeDirectory
    nlink := 1
    size := 24
    blocks := fun k => if k.val = 0 then b else 0 }

/-- Inode 1 has the entry `a`, and inode 2 behind it the entry `b`. -/
def nested : ExtFs where
  volume := .createFileSystem 2 404 fun a o =>
    if a = 8 then directoryA.encode.getD o 0 else if a = 9 then entryB.encode.getD o 0 else 0
  cache k := if k.val = 0 then oneEntry 1 1 else if k.val = 1 then oneEntry 2 2 else .zero

theorem nested_root : Fin.find? (fun l => (nested.cache l).inode == 1) = some 0 :=
  Fin.find?_eq_some_iff.mpr ⟨by decide, fun j hj => absurd hj (Nat.not_lt_zero j)⟩

theorem nested_a : Fin.find? (fun l => (nested.cache l).inode == 2) = some 1 := by
  refine Fin.find?_eq_some_iff.mpr ⟨by decide, fun j hj => ?_⟩
  obtain rfl : j = 0 := Fin.ext (Nat.lt_one_iff.mp hj)
  decide

theorem directory_one {e : ExtFs} {k : Slot} {x : DirectoryEntry} (hsize : (e.cache k).size = 24)
    (hbytes : e.volume.bytesAt { e.cache k with pos := 0 } 24 = x.encode) (hx : x.inode ≠ -2) :
    Directory e k [x] := by
  refine ⟨by rw [hsize]; rfl, by rw [List.flatMap_singleton]; exact hbytes, ?_⟩
  intro y hy
  rw [List.mem_singleton.mp hy]
  exact hx

theorem nested_directoryA : Directory nested 0 [directoryA] :=
  directory_one (by decide) (by decide +kernel) (by decide)

theorem nested_entryB : Directory nested 1 [entryB] := directory_one (by decide) (by decide +kernel) (by decide)

def componentA : Component := ⟨[97], by decide⟩
def componentB : Component := ⟨[98], by decide⟩

/-- `a/b` -/
def pathAB : Path := ⟨.relative, [componentA, componentB], by
  intro _ c cs heq hdot
  cases heq
  exact absurd hdot (by decide)⟩

/-- A stack of zeros. -/
def blank (_ : Nat) : Vector UInt8 24 := Vector.replicate 24 0

theorem nested_openA (entry : Nat → Vector UInt8 24) :
    ∃ j, nested.extOpenFromDirectory componentA.1 1 (entry 0) = some (2, atRecord nested 0 j) := by
  have hopen := extOpenFromDirectory_cached (inodeGet_of_cached nested_root) nested_directoryA.size
    (show IsName componentA.1 by decide) (firstRecord_entries nested_directoryA componentA.1) nested_a (entry 0)
  rwa [entryInode_encode] at hopen

theorem nested_openB (j : Nat) (entry : Nat → Vector UInt8 24) :
    ∃ e', (atRecord nested 0 j).extOpenFromDirectory componentB.1 2 (entry 0) = some (3, e') := by
  have hslot : (atRecord nested 0 j).cache 1 = nested.cache 1 := nested.setInode_of_ne _ (by decide)
  have hfirst : firstRecord (atRecord nested 0 j).volume ((atRecord nested 0 j).cache 1) componentB.1 0 =
      some entryB.encode := by
    rw [hslot]
    exact firstRecord_entries nested_entryB componentB.1
  have hcan : (atRecord nested 0 j).CanGet 3 := (canGet_atRecord ..).mpr (.inr ⟨2, .inl (by decide)⟩)
  obtain ⟨hnone, -⟩ | ⟨x, hsome, hopen⟩ := extOpenFromDirectory_eq (inodeGet_atRecord nested_a 0 j)
    (hslot ▸ nested_entryB.size) (show IsName componentB.1 by decide) (entry 0)
  · exact absurd (hnone.symm.trans hfirst) (Option.some_ne_none _).symm
  · obtain rfl : x = entryB.encode := Option.some.inj (hsome.symm.trans hfirst)
    rw [entryInode_encode] at hopen
    exact (hopen.resolve_right fun h => h.1 hcan).2

/-- `b` is not looked up in `a`. -/
theorem pathLaw_lost : ¬ PathLaw nested 1 1 pathAB blank := by
  obtain ⟨j, hopen⟩ := nested_openA blank
  obtain ⟨e', hopen'⟩ := nested_openB j fun d => blank (d + 1)
  have hmore : nested.inodeFromPath 1 1 pathAB.text blank = _ :=
    inodeFromPath_more pathAB (by decide) rfl (List.cons_ne_nil _ _) (by decide) hopen
  have hcomponents : pathAB.components = [componentA, componentB] := rfl
  have hstart : pathAB.start 1 1 = 1 := rfl
  have hlookups : (atRecord nested 0 j).lookupAll 2 (fun d => blank (d + 1)) [componentB] = some (3, e') := by
    refine (lookupAll_cons ?_ []).trans (ite_self _)
    exact hopen'
  rw [if_neg (by decide)] at hmore
  rw [pathLaw_of_result hmore, hstart, hcomponents, lookupAll_cons hopen, if_neg (by decide), hlookups]
  rintro ⟨e₂, hall⟩
  have hresult : (3 : BitVec 16) = -1 := congrArg Prod.fst (Option.some.inj hall)
  exact absurd hresult (by decide)

end RetrOS.Ext
