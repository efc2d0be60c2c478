import RetrOS.Developer.Evaluation

/-!
# Compiled functions

The machine on the code of statements and functions, against `Stmt.exec` and `Program.call`: for calls of any depth,
recursive ones included.

* `Stmt.executed` : the machine does what a statement means, or comes to a `LEV`;
* `frame_run` : a function, from `ENT` to `LEV`, leaves the stack as it was;
* `calls_run` : a call of a function does what the function means.
-/

namespace RetrOS.Interpreter
open RetrOS.Lib

section
variable {ctx : Context} {text : Word → Word} {sys : SysCall → Vm → Word × Memory} {call : Call} {env : Env}
  {stop k n m : Nat} {vm : Vm} {st st' : Store} {r : Exit}

/-! ## Statements -/

/-- The machine is behind a statement, or at a `LEV` with the value that is returned. -/
def Leaves (ctx : Context) (text : Word → Word) (sys : SysCall → Vm → Word × Memory) (env : Env) (vm : Vm) (stop : Nat)
    (st : Store) : Exit → Prop
  | .next => Reaches ctx text sys env 0 vm stop st fun _ => True
  | .returned v => ∃ m, textAt ctx text m = some Op.lev.code ∧
      Reaches ctx text sys env 0 vm m st fun x => ∀ w, v = some w → x = w

theorem leaves_next : Leaves ctx text sys env vm stop st .next ↔ Reaches ctx text sys env 0 vm stop st fun _ => True :=
  Iff.rfl

theorem Reaches.leaves {post : Word → Prop} (h : Reaches ctx text sys env 0 vm m st post)
    (h' : ∀ vm' : Vm, vm'.pc = ctx.addr m → env.Ready 0 vm' st → post vm'.ax →
      Leaves ctx text sys env vm' stop st' r) : Leaves ctx text sys env vm stop st' r := by
  obtain ⟨vm₁, hsteps, hpc, hready, hmem, hax⟩ := h
  have hrest := h' vm₁ hpc hready hax
  cases r with
  | next => exact (leaves_next.mp hrest).behind hsteps hmem
  | returned v =>
    obtain ⟨l, hlev, hrest⟩ := hrest
    exact ⟨l, hlev, hrest.behind hsteps hmem⟩

theorem Leaves.at_stop {stop' : Nat} (h : Leaves ctx text sys env vm stop st r) (hstop : stop' = stop) :
    Leaves ctx text sys env vm stop' st r := hstop ▸ h

/-- What `andThen` does: the second part, or nothing more. -/
theorem Leaves.andThen {r₁ : Exit} {st₁ : Store} {f : Store → Option (Exit × Store)}
    (h : Leaves ctx text sys env vm m st₁ r₁) (hf : andThen (r₁, st₁) f = some (r, st'))
    (h' : ∀ vm' : Vm, vm'.pc = ctx.addr m → env.Ready 0 vm' st₁ → f st₁ = some (r, st') →
      Leaves ctx text sys env vm' stop st' r) : Leaves ctx text sys env vm stop st' r := by
  cases r₁ with
  | next => exact (leaves_next.mp h).leaves fun vm' hpc hready _ => h' vm' hpc hready hf
  | returned v =>
    obtain ⟨rfl, rfl⟩ := Prod.mk.inj (Option.some.inj hf)
    exact h

/-- The machine does what the statement means. -/
def Stmt.Executed (ctx : Context) (text : Word → Word) (sys : SysCall → Vm → Word × Memory) (call : Call) (env : Env)
    (k : Nat) (s : Stmt) : Prop :=
  ∀ n st r st' vm, s.exec call env k st = some (r, st') → Seg (textAt ctx text) n (s.gen ctx n) →
    vm.pc = ctx.addr n → env.Ready 0 vm st → Leaves ctx text sys env vm (n + (s.gen ctx n).length) st' r

/-- A `JMP` behind a statement. -/
theorem Leaves.jump {j : Nat} (hleaves : Leaves ctx text sys env vm m st r)
    (hseg : Seg (textAt ctx text) m [Op.jmp.code, ctx.addr j]) : Leaves ctx text sys env vm j st r := by
  cases r with
  | next =>
    exact (leaves_next.mp hleaves).trans fun vm' hpc hready _ => (reaches_jmp hseg hpc hready).imp rfl fun _ _ => trivial
  | returned v => exact hleaves

theorem executed_seq {a rest : Stmt} (ha : a.Executed ctx text sys call env k)
    (hrest : rest.Executed ctx text sys call env k) : (Stmt.seq a rest).Executed ctx text sys call env (k + 1) := by
  intro n st r st' vm hv hseg hpc hready
  obtain ⟨⟨r₁, st₁⟩, hr₁, hv⟩ := Option.bind_eq_some_iff.mp hv
  rw [Stmt.gen] at hseg ⊢
  rw [List.length_append, ← Nat.add_assoc]
  exact (ha n st r₁ st₁ vm hr₁ hseg.left hpc hready).andThen hv fun vm' hpc' hready' hv =>
    hrest _ st₁ r st' vm' hv hseg.right hpc' hready'

section
variable (h : Setting ctx text sys call env)
include h

/-- A condition, and the jump behind it. -/
theorem executed_condition {c : Leaf} {x : Word} {st₁ : Store} {els stop : Nat}
    (hx : c.expr.eval call env .condition 0 st = some (x, st₁))
    (hseg : Seg (textAt ctx text) n (c.expr.gen ctx n ++ [Op.jz.code, ctx.addr els])) (hpc : vm.pc = ctx.addr n)
    (hready : env.Ready 0 vm st)
    (hthen : x ≠ 0 → ∀ vm' : Vm, vm'.pc = ctx.addr (n + (c.expr.gen ctx n).length + 2) → env.Ready 0 vm' st₁ →
      Leaves ctx text sys env vm' stop st' r)
    (helse : x = 0 → ∀ vm' : Vm, vm'.pc = ctx.addr els → env.Ready 0 vm' st₁ →
      Leaves ctx text sys env vm' stop st' r) : Leaves ctx text sys env vm stop st' r := by
  have hcode := (Expr.evaluated h c.expr).1 .condition 0 n st x st₁ vm hx hseg.left hpc hready (Nat.zero_le _)
  refine hcode.leaves fun vm' hpc' hready' hax => ?_
  have hzero : vm'.ax = 0 ↔ x = 0 := hax
  have hjump : Reaches ctx text sys env 0 vm' _ _ _ := reaches_jz hseg.right hpc' hready'
  by_cases hx0 : x = 0
  · rw [if_pos (hzero.mpr hx0)] at hjump
    exact hjump.leaves fun vm'' hpc'' hready'' _ => helse hx0 vm'' hpc'' hready''
  · rw [if_neg fun h' => hx0 (hzero.mp h')] at hjump
    exact hjump.leaves fun vm'' hpc'' hready'' _ => hthen hx0 vm'' hpc'' hready''

theorem executed_ifThen {c : Leaf} {a : Stmt} (ha : a.Executed ctx text sys call env k) :
    (Stmt.ifThen c a).Executed ctx text sys call env (k + 1) := by
  intro n st r st' vm hv hseg hpc hready
  obtain ⟨⟨x, st₁⟩, hx, hv⟩ := Option.bind_eq_some_iff.mp hv
  simp only [Stmt.gen, List.length_append, List.length_cons, List.length_nil] at hseg ⊢
  have hbody : Seg (textAt ctx text) (n + (c.expr.gen ctx n).length + 2)
      (a.gen ctx (n + (c.expr.gen ctx n).length + 2)) :=
    hseg.behind (by simp only [List.length_append, List.length_cons, List.length_nil]; omega)
  dsimp only at hv
  refine executed_condition h hx hseg.left hpc hready (fun hne vm' hpc' hready' => ?_) fun heq vm' hpc' hready' => ?_
  · rw [if_pos hne] at hv
    exact (ha _ st₁ r st' vm' hv hbody hpc' hready').at_stop (by omega)
  · rw [if_neg (not_not.mpr heq)] at hv
    obtain ⟨rfl, rfl⟩ := Prod.mk.inj (Option.some.inj hv)
    exact (reaches_refl hpc' hready').imp (by omega) fun _ _ => trivial

theorem executed_ifElse {c : Leaf} {a b : Stmt} (ha : a.Executed ctx text sys call env k)
    (hb : b.Executed ctx text sys call env k) : (Stmt.ifElse c a b).Executed ctx text sys call env (k + 1) := by
  intro n st r st' vm hv hseg hpc hready
  obtain ⟨⟨x, st₁⟩, hx, hv⟩ := Option.bind_eq_some_iff.mp hv
  simp only [Stmt.gen, List.length_append, List.length_cons, List.length_nil] at hseg ⊢
  have hthen : Seg (textAt ctx text) (n + (c.expr.gen ctx n).length + 2)
      (a.gen ctx (n + (c.expr.gen ctx n).length + 2)) :=
    hseg.left.left.behind (by simp only [List.length_append, List.length_cons, List.length_nil]; omega)
  have hcond := hseg.left.left.left
  generalize hm : n + (c.expr.gen ctx n).length + 2 = m at *
  generalize hj : m + (a.gen ctx m).length = j at *
  have hover := hseg.left.behind (m := j) (by simp only [List.length_append, List.length_cons, List.length_nil]; omega)
  have helse : Seg (textAt ctx text) (j + 2) (b.gen ctx (j + 2)) :=
    hseg.behind (by simp only [List.length_append, List.length_cons, List.length_nil]; omega)
  dsimp only at hv
  refine executed_condition h hx hcond hpc hready (fun hne vm' hpc' hready' => ?_) fun heq vm' hpc' hready' => ?_
  · rw [if_pos hne] at hv
    have hbody := ha _ st₁ r st' vm' hv hthen (hm ▸ hpc') hready'
    rw [hj] at hbody
    exact (hbody.jump hover).at_stop (by omega)
  · rw [if_neg (not_not.mpr heq)] at hv
    exact (hb _ st₁ r st' vm' hv helse hpc' hready').at_stop (by omega)

theorem executed_while {c : Leaf} {a : Stmt} (ha : a.Executed ctx text sys call env k)
    (hloop : (Stmt.while_ c a).Executed ctx text sys call env k) :
    (Stmt.while_ c a).Executed ctx text sys call env (k + 1) := by
  intro n st r st' vm hv hseg hpc hready
  obtain ⟨⟨x, st₁⟩, hx, hv⟩ := Option.bind_eq_some_iff.mp hv
  have hstop := hloop n
  have hwhole := hseg
  simp only [Stmt.gen, List.length_append, List.length_cons, List.length_nil] at hseg hstop ⊢
  have hbody : Seg (textAt ctx text) (n + (c.expr.gen ctx n).length + 2)
      (a.gen ctx (n + (c.expr.gen ctx n).length + 2)) :=
    hseg.left.behind (by simp only [List.length_append, List.length_cons, List.length_nil]; omega)
  have hback := hseg.behind (m := n + (c.expr.gen ctx n).length + 2 +
    (a.gen ctx (n + (c.expr.gen ctx n).length + 2)).length)
    (by simp only [List.length_append, List.length_cons, List.length_nil]; omega)
  dsimp only at hv
  refine executed_condition h hx hseg.left.left hpc hready (fun hne vm' hpc' hready' => ?_)
    fun heq vm' hpc' hready' => ?_
  · rw [if_pos hne] at hv
    obtain ⟨⟨r₁, st₂⟩, hr₁, hv⟩ := Option.bind_eq_some_iff.mp hv
    have hturn := (ha _ st₁ r₁ st₂ vm' hr₁ hbody hpc' hready').jump hback
    exact hturn.andThen hv fun vm'' hpc'' hready'' hv => hstop st₂ r st' vm'' hv hwhole hpc'' hready''
  · rw [if_neg (not_not.mpr heq)] at hv
    obtain ⟨rfl, rfl⟩ := Prod.mk.inj (Option.some.inj hv)
    exact (reaches_refl hpc' hready').imp (by omega) fun _ _ => trivial

/-- **The machine** does what a statement means. -/
theorem Stmt.executed (k : Nat) (s : Stmt) : s.Executed ctx text sys call env k := by
  have hnext {s : Stmt} (k : Nat) (hs : ∀ st, s.exec call env (k + 1) st = some (.next, st))
      (hgen : ∀ n, s.gen ctx n = []) : s.Executed ctx text sys call env (k + 1) := by
    intro n st r st' vm hv hseg hpc hready
    obtain ⟨rfl, rfl⟩ := Prod.mk.inj (Option.some.inj ((hs st).symm.trans hv))
    rw [hgen]
    exact (reaches_refl hpc hready).imp rfl fun _ _ => trivial
  induction k generalizing s with
  | zero => exact fun _ _ _ _ _ hv => absurd hv (Option.some_ne_none _).symm
  | succ k ih =>
    cases s with
    | ifThen c a => exact executed_ifThen h (ih a)
    | ifElse c a b => exact executed_ifElse h (ih a) (ih b)
    | while_ c a => exact executed_while h (ih a) (ih _)
    | block body => exact ih body
    | seq a rest => exact executed_seq (ih a) (ih rest)
    | done => exact hnext k (fun _ => rfl) fun _ => rfl
    | empty => exact hnext k (fun _ => rfl) fun _ => rfl
    | return_ e =>
      intro n st r st' vm hv hseg hpc hready
      cases e with
      | none =>
        obtain ⟨rfl, rfl⟩ := Prod.mk.inj (Option.some.inj hv)
        exact ⟨n, hseg.head, (reaches_refl hpc hready).imp rfl fun _ _ _ hw => absurd hw (Option.some_ne_none _).symm⟩
      | some e =>
        obtain ⟨⟨v, st₁⟩, hv', hv⟩ := Option.bind_eq_some_iff.mp hv
        obtain ⟨rfl, rfl⟩ := Prod.mk.inj (Option.some.inj hv)
        have hcode := (Expr.evaluated h e.expr).1 .operand 0 n st v st₁ vm hv' hseg.left hpc hready (Nat.zero_le _)
        exact ⟨_, hseg.right.head, hcode.imp rfl fun x hx w hw => (show x = v from hx).trans (Option.some.inj hw)⟩
    | expr e =>
      intro n st r st' vm hv hseg hpc hready
      obtain ⟨⟨v, st₁⟩, hv', hv⟩ := Option.bind_eq_some_iff.mp hv
      obtain ⟨rfl, rfl⟩ := Prod.mk.inj (Option.some.inj hv)
      have hcode := (Expr.evaluated h e.expr).1 .effect 0 n st v st₁ vm hv' hseg hpc hready (Nat.zero_le _)
      exact hcode.imp rfl fun _ _ => trivial

end

end

/-! ## Functions -/

/-- The byte of a word, where the word is read. -/
theorem byteOf_loadInt (mem : Memory) (a : Word) {j : Nat} (hj : j < 4) :
    byteOf (mem.loadInt a) j = mem (a + BitVec.ofNat 32 j) := by
  have hzero : a + BitVec.ofNat 32 0 = a := BitVec.add_zero a
  have h₀ := (mem a).toNat_lt
  have h₁ := (mem (a + 1)).toNat_lt
  have h₂ := (mem (a + 2)).toNat_lt
  apply UInt8.toNat_inj.mp
  rw [toNat_byteOf, Memory.loadInt, toNat_word32]
  obtain rfl | rfl | rfl | rfl : j = 0 ∨ j = 1 ∨ j = 2 ∨ j = 3 := by omega
  · rw [hzero]
    omega
  · show _ = (mem (a + 1)).toNat
    omega
  · show _ = (mem (a + 2)).toNat
    omega
  · have h₃ := (mem (a + 3)).toNat_lt
    show _ = (mem (a + 3)).toNat
    omega

/-- The code of a function: its statements between `ENT` and `LEV`. -/
def Function.gen (base : Word) (f : Function) (n : Nat) : List Word :=
  [Op.ent.code, BitVec.ofNat 32 f.locals] ++ f.body.gen ⟨base, BitVec.ofNat 32 (f.params + 1)⟩ (n + 2) ++ [Op.lev.code]

/-- The code of the functions is in the text. -/
def Program.Placed (program : Program) (base : Word) (text : Word → Word) : Prop :=
  ∀ value f, program value = some f →
    ∃ n, value = Context.addr ⟨base, 0⟩ n ∧ Seg (textAt ⟨base, 0⟩ text) n (f.gen base n)

/-! ### The frame of a call -/

section
variable {f : Function} {sp : Word} {room : Nat} {objects : Word → Bool} {args : List Word} {st : Store} {a b : Word}
  (hlocals : f.locals + 2 ≤ room) (hsmall : f.params + room < 2 ^ 30)

theorem Function.objects_eq_false : f.objects sp objects b = false ↔
    objects b = false ∧ ¬ (b - sp).toNat < 4 * f.params ∧ ¬ (b - f.bottom sp).toNat < 4 * f.locals := by
  simp [Function.objects, and_assoc]

include hlocals hsmall

theorem Function.toNat_sub_bottom (h : (a - sp).toNat + 4 * room < 2 ^ 32) :
    (a - f.bottom sp).toNat = (a - sp).toNat + 8 + 4 * f.locals := by
  have hnat : (BitVec.ofNat 32 f.locals).toNat = f.locals := BitVec.toNat_ofNat .. ▸ Nat.mod_eq_of_lt (by omega)
  unfold Function.bottom
  bv_omega

theorem Function.clear (hapart : ∀ a, objects a = true → (a - sp).toNat + 4 * room < 2 ^ 32) :
    (f.env sp room objects).Clear := by
  refine ⟨show room - (f.locals + 2) < 2 ^ 30 by omega, fun a ha => ?_⟩
  have htop : (f.env sp room objects).top 0 = f.bottom sp := BitVec.sub_zero _
  unfold Env.Apart
  rw [htop]
  show (a - f.bottom sp).toNat + 4 * (room - (f.locals + 2) - 0) < 2 ^ 32
  have hfar (h : (a - sp).toNat + 4 * room < 2 ^ 32) :
      (a - f.bottom sp).toNat + 4 * (room - (f.locals + 2) - 0) < 2 ^ 32 := by
    rw [Function.toNat_sub_bottom hlocals hsmall h]
    omega
  by_cases hobject : objects a = true
  · exact hfar (hapart a hobject)
  by_cases hparam : (a - sp).toNat < 4 * f.params
  · exact hfar (by omega)
  by_cases hlocal : (a - f.bottom sp).toNat < 4 * f.locals
  · omega
  · have hfalse := Function.objects_eq_false.mpr ⟨Bool.eq_false_iff.mpr hobject, hparam, hlocal⟩
    exact absurd (hfalse.symm.trans ha) Bool.false_ne_true

/-- The return address and the frame pointer are no objects, and not left for the stack. -/
theorem Function.saved (hapart : ∀ a, objects a = true → (a - sp).toNat + 4 * room < 2 ^ 32) {i : Word}
    (hi : i.toNat < 8) : (f.env sp room objects).objects (sp - 8 + i) = false ∧
      (f.env sp room objects).Apart 0 (sp - 8 + i) := by
  have hnat : (BitVec.ofNat 32 f.locals).toNat = f.locals := BitVec.toNat_ofNat .. ▸ Nat.mod_eq_of_lt (by omega)
  have hup : (sp - 8 + i - sp).toNat = 2 ^ 32 - 8 + i.toNat := by bv_omega
  have hdown : (sp - 8 + i - f.bottom sp).toNat = 4 * f.locals + i.toNat := by
    unfold Function.bottom
    bv_omega
  have htop : (f.env sp room objects).top 0 = f.bottom sp := BitVec.sub_zero _
  refine ⟨Function.objects_eq_false.mpr ⟨?_, by omega, by omega⟩, ?_⟩
  · by_contra hne
    have hfar := hapart _ (Bool.not_eq_false _ ▸ hne)
    omega
  · unfold Env.Apart
    rw [htop, hdown]
    show 4 * f.locals + i.toNat + 4 * (room - (f.locals + 2) - 0) < 2 ^ 32
    omega

/-- What the caller keeps, the callee keeps. -/
theorem Function.kept (hb : objects b = false)
    (hfar : (b - (sp + 4 * BitVec.ofNat 32 f.params)).toNat + 4 * (room + f.params) < 2 ^ 32) :
    (f.env sp room objects).objects b = false ∧ (f.env sp room objects).Apart 0 b ∧ (b - (sp - 8)).toNat ≥ 8 := by
  have hnat : (BitVec.ofNat 32 f.params).toNat = f.params := BitVec.toNat_ofNat .. ▸ Nat.mod_eq_of_lt (by omega)
  have hsub : (b - sp).toNat = (b - (sp + 4 * BitVec.ofNat 32 f.params)).toNat + 4 * f.params := by bv_omega
  have hbottom : (b - f.bottom sp).toNat = (b - sp).toNat + 8 + 4 * f.locals :=
    Function.toNat_sub_bottom hlocals hsmall (by omega)
  have htop : (f.env sp room objects).top 0 = f.bottom sp := BitVec.sub_zero _
  refine ⟨Function.objects_eq_false.mpr ⟨hb, by omega, by omega⟩, ?_, by bv_omega⟩
  unfold Env.Apart
  rw [htop, hbottom]
  show (b - sp).toNat + 8 + 4 * f.locals + 4 * (room - (f.locals + 2) - 0) < 2 ^ 32
  omega

/-- The parameters are on the stack. -/
theorem Function.enter_holds {vm : Vm} {mem : Memory} (hargs : args.length = f.params)
    (hapart : ∀ a, objects a = true → (a - vm.sp).toNat + 4 * room < 2 ^ 32) (hholds : Holds objects st vm.mem)
    (hstack : OnStack vm args) (hmem : ∀ b, (b - (vm.sp - 8)).toNat ≥ 8 → mem b = vm.mem b) :
    Holds (f.objects vm.sp objects) (f.enter vm.sp args st) mem := by
  intro a b ha hb
  unfold Function.enter at hb
  split at hb
  · next v hv =>
    obtain ⟨hlt, hv⟩ := List.getElem?_eq_some_iff.mp hv
    have hword := hstack _ hlt
    rw [hv] at hword
    rw [List.length_reverse] at hlt
    have hdiv : vm.sp + 4 * BitVec.ofNat 32 ((a - vm.sp).toNat / 4) + BitVec.ofNat 32 ((a - vm.sp).toNat % 4) = a := by
      have hlt' := (a - vm.sp).isLt
      have h₁ : (BitVec.ofNat 32 ((a - vm.sp).toNat / 4)).toNat = (a - vm.sp).toNat / 4 :=
        BitVec.toNat_ofNat .. ▸ Nat.mod_eq_of_lt (by omega)
      have h₂ : (BitVec.ofNat 32 ((a - vm.sp).toNat % 4)).toNat = (a - vm.sp).toNat % 4 :=
        BitVec.toNat_ofNat .. ▸ Nat.mod_eq_of_lt (by omega)
      bv_omega
    have hbyte := byteOf_loadInt vm.mem (vm.sp + 4 * BitVec.ofNat 32 ((a - vm.sp).toNat / 4))
      (Nat.mod_lt (a - vm.sp).toNat (show 0 < 4 by decide))
    rw [hword, hdiv] at hbyte
    rw [hmem a (by bv_omega), ← hbyte]
    exact Option.some.inj hb
  · next hnone =>
    have hparam : ¬ (a - vm.sp).toNat < 4 * f.params := by
      have hlen := List.getElem?_eq_none_iff.mp hnone
      rw [List.length_reverse] at hlen
      omega
    obtain ⟨hlocal, hb⟩ := Option.ite_none_left_eq_some.mp hb
    have hobject : objects a = true := by
      by_contra hne
      have hfalse := Function.objects_eq_false.mpr ⟨Bool.eq_false_iff.mpr hne, hparam, hlocal⟩
      exact absurd (hfalse.symm.trans ha) Bool.false_ne_true
    have hfar := hapart a hobject
    rw [hmem a (by bv_omega)]
    exact hholds a b hobject hb

end

/-! ### Calls -/

/-- The value that a function returns. -/
def Exit.value : Exit → Option Word
  | .next => none
  | .returned v => v

section
variable {base : Word} {text : Word → Word} {sys : SysCall → Vm → Word × Memory} {m n k room : Nat} {vm : Vm}
  {f : Function} {objects : Word → Bool} {args : List Word} {st st' : Store} {ra : Word} {r : Exit} {program : Program}

/-- At the end of a function there is a `LEV`, too. -/
theorem Leaves.at_lev {ctx : Context} {env : Env} {stop : Nat} (h : Leaves ctx text sys env vm stop st r)
    (hstop : textAt ctx text stop = some Op.lev.code) :
    ∃ l, textAt ctx text l = some Op.lev.code ∧
      Reaches ctx text sys env 0 vm l st fun x => ∀ w, r.value = some w → x = w := by
  cases r with
  | next => exact ⟨stop, hstop, (leaves_next.mp h).imp rfl fun _ _ _ hw => absurd hw (Option.some_ne_none _).symm⟩
  | returned v => exact h

/-- The machine at the first word of a function. -/
abbrev Vm.enters (vm : Vm) (ra : Word) (base : Word) (m : Nat) : Vm :=
  { vm.push ra with pc := Context.addr ⟨base, 0⟩ m }

variable (sys vm ra) in
/-- `ENT`: the machine is in the frame of the function. -/
theorem ent_step {locals : Nat} (hent : Seg (textAt ⟨base, 0⟩ text) m [Op.ent.code, BitVec.ofNat 32 locals]) :
    ∃ vm', (vm.enters ra base m).step text sys = some vm' ∧ vm'.pc = Context.addr ⟨base, 0⟩ (m + 2) ∧
      vm'.bp = vm.sp - 8 ∧ vm'.sp = vm.sp - 8 - 4 * BitVec.ofNat 32 locals ∧
      vm'.mem = (vm.mem.storeInt (vm.sp - 4) ra).storeInt (vm.sp - 8) vm.bp := by
  let vm₁ := vm.enters ra base m
  have hpc₁ : vm₁.pc = Context.addr ⟨base, 0⟩ m := rfl
  have hsp₁ : vm₁.sp - 4 = vm.sp - 8 := by
    show vm.sp - 4 - 4 = vm.sp - 8
    bv_omega
  let vm₂ : Vm := { ({ vm₁ with pc := vm₁.pc + 8 } : Vm).push vm₁.bp with
    bp := vm₁.sp - 4, sp := vm₁.sp - 4 - 4 * BitVec.ofNat 32 locals }
  have hstep : vm₁.step text sys = some vm₂ := by
    simp only [Vm.step, textAt_decode hent.head hpc₁, textAt_arg hent.tail.head hpc₁, vm₂]
  refine ⟨vm₂, hstep, Context.addr_add_two _ m, hsp₁, ?_, ?_⟩
  · show vm₁.sp - 4 - _ = _
    rw [hsp₁]
  · show (vm.mem.storeInt (vm.sp - 4) _).storeInt (vm₁.sp - 4) vm.bp = _
    rw [hsp₁]

/-- `LEV`: the machine is behind the call. -/
theorem lev_step {ctx : Context} {l : Nat} (hlev : textAt ctx text l = some Op.lev.code) (hpc : vm.pc = ctx.addr l) :
    vm.step text sys =
      some { vm with sp := vm.bp + 8, bp := vm.mem.loadInt vm.bp, pc := vm.mem.loadInt (vm.bp + 4) } := by
  simp only [Vm.step, textAt_decode hlev hpc]

variable (ra) in
/-- The code of a function, from `ENT` to `LEV`: the machine comes back to the return address. -/
theorem frame_run (hcalls : CallsRun ⟨base, BitVec.ofNat 32 (f.params + 1)⟩ text sys (program.call k))
    (hcode : Seg (textAt ⟨base, 0⟩ text) m (f.gen base m)) (hargs : args.length = f.params)
    (hlocals : f.locals + 2 ≤ room)
    (hbody : f.body.exec (program.call k) (f.env vm.sp room objects) k (f.enter vm.sp args st) = some (r, st'))
    (hstack : OnStack vm args) (hargroom : args.length + room < 2 ^ 30)
    (hapart : ∀ a, objects a = true → (a - vm.sp).toNat + 4 * room < 2 ^ 32) (hholds : Holds objects st vm.mem) :
    ∃ vm', Steps text sys (vm.enters ra base m) vm' ∧ vm'.pc = ra ∧ vm'.sp = vm.sp ∧ vm'.bp = vm.bp ∧
      Holds objects st' vm'.mem ∧
      (∀ b, objects b = false →
        (b - (vm.sp + 4 * BitVec.ofNat 32 args.length)).toNat + 4 * (room + args.length) < 2 ^ 32 →
        vm'.mem b = vm.mem b) ∧
      ∀ x, r.value = some x → vm'.ax = x := by
  have hsmall : f.params + room < 2 ^ 30 := by omega
  obtain ⟨vm₂, hstep₂, hpc₂, hbp₂, hsp₂, hmem₂⟩ := ent_step sys vm ra hcode.left.left
  have hsteps₂ : Steps text sys (vm.enters ra base m) vm₂ := .single hstep₂
  have hold (b : Word) (hb : (b - (vm.sp - 8)).toNat ≥ 8) : vm₂.mem b = vm.mem b := by
    rw [hmem₂, storeInt_other (by omega), storeInt_other (by bv_omega)]
  have hsaved (i : Word) (hi : i.toNat < 8) := Function.saved hlocals hsmall hapart hi
  have hready₂ : (f.env vm.sp room objects).Ready 0 vm₂ (f.enter vm.sp args st) :=
    ⟨hsp₂.trans (BitVec.sub_zero _).symm, hbp₂, Function.enter_holds hlocals hsmall hargs hapart hholds hstack hold⟩
  have hsetting : Setting ⟨base, BitVec.ofNat 32 (f.params + 1)⟩ text sys (program.call k) (f.env vm.sp room objects) :=
    ⟨Function.clear hlocals hsmall hapart, rfl, hcalls⟩
  have hleaves := Stmt.executed hsetting k f.body (m + 2) _ r st' vm₂ hbody hcode.left.right hpc₂ hready₂
  obtain ⟨l, hlev, vm₃, hsteps₃, hpc₃, hready₃, hmem₃, hax₃⟩ := hleaves.at_lev (hcode.behind (by
    simp only [List.length_append, List.length_cons, List.length_nil]
    omega)).head
  have hbp₃ : vm₃.bp = vm.sp - 8 := hready₃.bp
  -- the body has left the two words that `LEV` restores
  have hword₀ : vm₃.mem.loadInt (vm.sp - 8) = vm.bp := by
    have hkept : vm₃.mem.loadInt (vm.sp - 8) = vm₂.mem.loadInt (vm.sp - 8) :=
      loadInt_eq fun i hi => hmem₃ _ (hsaved i (by omega)).1 (hsaved i (by omega)).2
    rw [hkept, hmem₂, Memory.loadInt_storeInt]
  have hword₁ : vm₃.mem.loadInt (vm.sp - 8 + 4) = ra := by
    have hkept : vm₃.mem.loadInt (vm.sp - 8 + 4) = vm₂.mem.loadInt (vm.sp - 8 + 4) := by
      refine loadInt_eq fun i hi => ?_
      rw [BitVec.add_assoc]
      exact hmem₃ _ (hsaved (4 + i) (by bv_omega)).1 (hsaved (4 + i) (by bv_omega)).2
    have hother : vm₂.mem.loadInt (vm.sp - 8 + 4) =
        (vm.mem.storeInt (vm.sp - 4) ra).loadInt (vm.sp - 8 + 4) := by
      rw [hmem₂]
      exact loadInt_eq fun i hi => storeInt_other (by bv_omega)
    rw [hkept, hother, show vm.sp - 8 + 4 = vm.sp - 4 by bv_omega, Memory.loadInt_storeInt]
  refine ⟨_, (hsteps₂.trans hsteps₃).tail (lev_step hlev hpc₃), ?_, ?_, ?_, ?_, fun b hb hfar => ?_, hax₃⟩
  · show vm₃.mem.loadInt (vm₃.bp + 4) = _
    rw [hbp₃, hword₁]
  · show vm₃.bp + 8 = _
    rw [hbp₃, BitVec.sub_add_cancel]
  · show vm₃.mem.loadInt vm₃.bp = _
    rw [hbp₃, hword₀]
  · intro a b ha hb
    exact hready₃.holds a b (show f.objects vm.sp objects a = true by simp [Function.objects, ha]) hb
  · rw [hargs] at hfar
    obtain ⟨hobject, hfar, hbehind⟩ := Function.kept hlocals hsmall hb hfar
    exact (hmem₃ b hobject hfar).trans (hold b hbehind)

/-- What a call with a value needs. -/
theorem Program.call_succ {value sp : Word} {v : Option Word}
    (hv : program.call (k + 1) value sp room args objects st = some (v, st')) :
    ∃ f r, program value = some f ∧ args.length = f.params ∧ f.locals + 2 ≤ room ∧
      f.body.exec (program.call k) (f.env sp room objects) k (f.enter sp args st) = some (r, st') ∧ r.value = v := by
  rw [Program.call] at hv
  split at hv
  · exact absurd hv (Option.some_ne_none _).symm
  next f hf =>
  obtain ⟨⟨hargs, hlocals⟩, hv⟩ := Option.ite_none_right_eq_some.mp hv
  obtain ⟨⟨r, st₁⟩, hbody, hv⟩ := Option.bind_eq_some_iff.mp hv
  have hresult : r.value = v ∧ st₁ = st' := by
    cases r <;> exact Prod.mk.inj (Option.some.inj hv)
  obtain ⟨rfl, rfl⟩ := hresult
  exact ⟨f, r, hf, hargs, hlocals, hbody, rfl⟩

/-- **The machine** does what the functions of a program mean. -/
theorem calls_run (h : program.Placed base text) (k : Nat) (indexOfBp : Word) :
    CallsRun ⟨base, indexOfBp⟩ text sys (program.call k) := by
  induction k generalizing indexOfBp with
  | zero => exact fun _ _ _ _ _ _ _ _ _ hv => absurd hv (Option.some_ne_none _).symm
  | succ k ih =>
    intro value room args objects st v st' vm n hv hseg hpc hstack hargroom hapart hholds
    obtain ⟨f, r, hf, hargs, hlocals, hbody, rfl⟩ := Program.call_succ hv
    obtain ⟨m, rfl, hcode⟩ := h value f hf
    have hcall : vm.step text sys = some (vm.enters (Context.addr ⟨base, indexOfBp⟩ (n + 2)) base m) := by
      simp only [Vm.step, textAt_decode hseg.head hpc, textAt_arg hseg.tail.head hpc]
      rw [hpc, Context.addr_add_two]
    obtain ⟨vm', hsteps, hrest⟩ := frame_run _ (ih _) hcode hargs hlocals hbody hstack hargroom hapart hholds
    exact ⟨vm', .head hcall hsteps, hrest⟩

end

end RetrOS.Interpreter
