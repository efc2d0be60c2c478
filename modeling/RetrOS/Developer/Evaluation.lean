import RetrOS.Developer.Preservation

/-!
# The machine computes the meaning of expressions

The code that `expression` emits for a tree, against `Expr.eval`.

* `CallsRun` : what is assumed of functions;
* `Expr.Evaluated`, `Expr.Addressed` : the machine computes the value, and the address of an object;
* `Expr.evaluated` : it does so for every expression.
-/

namespace RetrOS.Interpreter
open RetrOS.Lib

theorem Purpose.agrees_refl (p : Purpose) (v : Word) : p.Agrees v v := by
  cases p with
  | operand => rfl
  | condition => exact Iff.rfl
  | effect => trivial

/-- The arguments are on the stack, the last one on top. -/
def OnStack (vm : Vm) (args : List Word) : Prop :=
  ∀ i (hi : i < args.reverse.length), vm.mem.loadInt (vm.sp + 4 * BitVec.ofNat 32 i) = args.reverse[i]

/-- A call does what `call` says, and comes back behind its instruction. -/
def CallsRun (ctx : Context) (text : Word → Word) (sys : SysCall → Vm → Word × Memory) (call : Call) : Prop :=
  ∀ value room args objects st v st' vm n,
    call value vm.sp room args objects st = some (v, st') → Seg (textAt ctx text) n [Op.call.code, value] →
    vm.pc = ctx.addr n → OnStack vm args → args.length + room < 2 ^ 30 →
    (∀ a, objects a = true → (a - vm.sp).toNat + 4 * room < 2 ^ 32) → Holds objects st vm.mem →
    ∃ vm', Steps text sys vm vm' ∧ vm'.pc = ctx.addr (n + 2) ∧ vm'.sp = vm.sp ∧ vm'.bp = vm.bp ∧
      Holds objects st' vm'.mem ∧
      (∀ b, objects b = false →
        (b - (vm.sp + 4 * BitVec.ofNat 32 args.length)).toNat + 4 * (room + args.length) < 2 ^ 32 →
        vm'.mem b = vm.mem b) ∧
      ∀ x, v = some x → vm'.ax = x

/-- The words between an address and `LC` or `LI`. -/
abbrev Expr.genPlace (ctx : Context) (e : Expr) (n : Nat) : List Word := (e.gen ctx n).dropLast

section
variable (ctx : Context) (text : Word → Word) (sys : SysCall → Vm → Word × Memory) (call : Call) (env : Env)

/-- The machine computes the value. -/
def Expr.Evaluated (e : Expr) : Prop :=
  ∀ p d n st v st' vm, e.eval call env p d st = some (v, st') → Seg (textAt ctx text) n (e.gen ctx n) →
    vm.pc = ctx.addr n → env.Ready d vm st → d ≤ env.room →
      Reaches ctx text sys env d vm (n + (e.gen ctx n).length) st' (p.Agrees · v)

/-- The machine computes the address; the last word of the expression loads the object. -/
def Expr.Addressed (e : Expr) : Prop :=
  ∀ d n st a st' vm, e.place call env d st = some (a, st') → Seg (textAt ctx text) n (e.genPlace ctx n) →
    vm.pc = ctx.addr n → env.Ready d vm st → d ≤ env.room →
      Reaches ctx text sys env d vm (n + (e.genPlace ctx n).length) st' (· = a)

/-- The machine pushes the arguments. -/
def Args.Evaluated (args : Args) : Prop :=
  ∀ d n st vs st' vm, args.eval call env d st = some (vs, st') → Seg (textAt ctx text) n (args.gen ctx n) →
    vm.pc = ctx.addr n → env.Ready d vm st → d ≤ env.room →
      d + args.length ≤ env.room ∧ vs.length = args.length ∧
      ∃ vm', Steps text sys vm vm' ∧ vm'.pc = ctx.addr (n + (args.gen ctx n).length) ∧
        env.Ready (d + args.length) vm' st' ∧
        (∀ b, env.objects b = false → env.Apart d b → vm'.mem b = vm.mem b) ∧ OnStack vm' vs

end

/-- Where the code of a function's body runs. -/
structure Setting (ctx : Context) (text : Word → Word) (sys : SysCall → Vm → Word × Memory) (call : Call) (env : Env) :
    Prop where
  clear : env.Clear
  frame : ctx.indexOfBp = env.indexOfBp
  calls : CallsRun ctx text sys call

section
variable {ctx : Context} {text : Word → Word} {sys : SysCall → Vm → Word × Memory} {call : Call} {env : Env}
  {e a b c i : Expr}

-- The equations of the two recursions, which almost every proof rewrites with.
attribute [local simp] Expr.eval Expr.place Args.eval Expr.gen

/-! ## Objects -/

/-- An expression that loads an object. -/
def Expr.IsObject : Expr → Prop
  | .loc _ _ => True
  | .glo _ _ => True
  | .dereference _ => True
  | .bracket _ _ => True
  | _ => False

theorem Expr.isObject_of_place {d : Nat} {st : Store} {q : Word × Store} (h : e.place call env d st = some q) :
    e.IsObject := by
  cases e <;> trivial

theorem Expr.gen_object (he : e.IsObject) (n : Nat) :
    e.gen ctx n = e.genPlace ctx n ++ [(loadOp e.type).code] := by
  have hlast (words : List Word) {w : Word} (h : e.gen ctx n = words ++ [w]) (hw : w = (loadOp e.type).code) :
      e.gen ctx n = e.genPlace ctx n ++ [(loadOp e.type).code] := by
    rw [genPlace, h, List.dropLast_concat, hw]
  cases e with
  | loc value type => exact hlast [Op.lea.code, ctx.indexOfBp - value] rfl rfl
  | glo value type => exact hlast [Op.imm.code, value] rfl rfl
  | dereference e => exact hlast _ rfl rfl
  | bracket a i =>
    refine hlast (a.gen ctx n ++ [Op.push.code] ++ i.gen ctx (n + (a.gen ctx n).length + 1) ++
      (scaleWords a.type ++ [(Op.bin .add).code])) ?_ rfl
    rw [Expr.gen]
    simp only [List.append_assoc, List.cons_append, List.nil_append]
    rfl
  | _ => exact he.elim

/-- The value of an object is loaded from its address. -/
theorem Expr.eval_object (he : e.IsObject) (p : Purpose) (d : Nat) (st : Store) :
    e.eval call env p d st =
      (e.place call env d st).bind fun q => (q.2.load env.objects e.type q.1).map (·, q.2) := by
  cases e with
  | loc value type => rfl
  | glo value type => rfl
  | dereference e => rfl
  | bracket a i =>
    rw [Expr.eval, Expr.place]
    split
    · simp only [Option.bind_eq_bind, Option.bind_assoc, Option.bind_some]
      rfl
    · rfl
  | _ => exact he.elim

theorem evaluated_object (he : e.IsObject) (h : e.Addressed ctx text sys call env) :
    e.Evaluated ctx text sys call env := by
  intro p d n st v st' vm hv hseg hpc hready hd
  rw [Expr.eval_object he] at hv
  obtain ⟨⟨x, st₁⟩, hplace, hv⟩ := Option.bind_eq_some_iff.mp hv
  obtain ⟨w, hload, hv⟩ := Option.map_eq_some_iff.mp hv
  obtain ⟨rfl, rfl⟩ := Prod.mk.inj hv
  rw [Expr.gen_object he] at hseg ⊢
  rw [List.length_append, List.length_singleton, ← Nat.add_assoc]
  refine (h d n st x st₁ vm hplace hseg.left hpc hready hd).trans fun vm' hpc' hready' hax => ?_
  refine (reaches_load hseg.right.head hpc' hready' (by rw [hax]; exact hload)).imp rfl fun y hy => ?_
  rw [hy]
  exact p.agrees_refl w

theorem addressed_loc (hctx : ctx.indexOfBp = env.indexOfBp) (value : Word) (type : Nat) :
    (Expr.loc value type).Addressed ctx text sys call env := by
  intro d n st x st' vm hv hseg hpc hready _
  obtain ⟨rfl, rfl⟩ := Prod.mk.inj (Option.some.inj hv)
  refine (reaches_lea (v := ctx.indexOfBp - value) hseg hpc hready).imp rfl fun y hy => ?_
  rw [hy, hctx]
  rfl

theorem addressed_glo (value : Word) (type : Nat) : (Expr.glo value type).Addressed ctx text sys call env := by
  intro d n st x st' vm hv hseg hpc hready _
  obtain ⟨rfl, rfl⟩ := Prod.mk.inj (Option.some.inj hv)
  exact reaches_imm hseg hpc hready

theorem addressed_dereference (he : e.Evaluated ctx text sys call env) :
    (Expr.dereference e).Addressed ctx text sys call env := by
  intro d n st x st' vm hv hseg hpc hready hd
  have hgen : (Expr.dereference e).genPlace ctx n = e.gen ctx n := List.dropLast_concat
  rw [hgen] at hseg ⊢
  exact he .operand d n st x st' vm hv hseg hpc hready hd

/-- Two operands, the second one behind the first one on the stack. -/
theorem Expr.Evaluated.both (hclear : env.Clear) (ha : a.Evaluated ctx text sys call env)
    (hb : b.Evaluated ctx text sys call env) {d n j : Nat} {st st₁ st₂ st' : Store} {x y : Word} {vm : Vm}
    {R : Word → Prop} (hx : a.eval call env .operand d st = some (x, st₁))
    (hy : b.eval call env .operand (d + 1) st₁ = some (y, st₂))
    (hseg : Seg (textAt ctx text) n
      (a.gen ctx n ++ [Op.push.code] ++ b.gen ctx (n + (a.gen ctx n).length + 1))) (hpc : vm.pc = ctx.addr n)
    (hready : env.Ready d vm st) (hd : d + 2 ≤ env.room)
    (hop : ∀ vm' : Vm, vm'.pc = ctx.addr (n + (a.gen ctx n).length + 1 +
        (b.gen ctx (n + (a.gen ctx n).length + 1)).length) → env.Ready (d + 1) vm' st₂ → vm'.top = x → vm'.ax = y →
      Reaches ctx text sys env d vm' j st' R) : Reaches ctx text sys env d vm j st' R := by
  have hleft := ha .operand d n st x st₁ vm hx hseg.left.left hpc hready (by omega)
  have hpush := (hseg.left.behind rfl).head
  refine hleft.over (Q := (· = y)) hclear (by omega) hpush (fun vm' hpc' hready' _ _ => ?_) fun vm' hpc' hready' htop hax =>
    hop vm' hpc' hready' htop hax
  exact hb .operand (d + 1) _ st₁ y st₂ vm' hy
    (hseg.behind (by rw [List.length_append, List.length_singleton]; omega)) hpc' hready' (by omega)

theorem addressed_bracket (hclear : env.Clear) (ha : a.Evaluated ctx text sys call env)
    (hi : i.Evaluated ctx text sys call env) : (Expr.bracket a i).Addressed ctx text sys call env := by
  intro d n st x st' vm hv hseg hpc hready _
  rw [Expr.place] at hv
  obtain ⟨hfits, hv⟩ := Option.ite_none_right_eq_some.mp hv
  obtain ⟨⟨y, st₁⟩, hy, hv⟩ := Option.bind_eq_some_iff.mp hv
  obtain ⟨⟨z, st₂⟩, hz, hv⟩ := Option.bind_eq_some_iff.mp hv
  obtain ⟨rfl, rfl⟩ := Prod.mk.inj (Option.some.inj hv)
  have hgen : (Expr.bracket a i).genPlace ctx n = a.gen ctx n ++ [Op.push.code] ++
      i.gen ctx (n + (a.gen ctx n).length + 1) ++ (scaleWords a.type ++ [(Op.bin .add).code]) := by
    have h : (Expr.bracket a i).gen ctx n = _ := Expr.gen_object (show (Expr.bracket a i).IsObject from trivial) n
    refine List.append_cancel_right (h.symm.trans ?_)
    rw [Expr.gen]
    simp only [List.append_assoc, List.cons_append, List.nil_append]
    rfl
  rw [hgen] at hseg ⊢
  refine ha.both hclear hi hy hz hseg.left hpc hready hfits fun vm' hpc' hready' htop hax => ?_
  have hseg' := hseg.behind (m := n + (a.gen ctx n).length + 1 + (i.gen ctx (n + (a.gen ctx n).length + 1)).length)
    (by simp only [List.length_append, List.length_singleton]; omega)
  refine (reaches_scaled hclear hfits hseg' hpc' hready' htop (by rw [hax]; rfl)).imp ?_ fun _ => id
  simp only [List.length_append, List.length_singleton]
  omega

/-! ## Values -/

theorem evaluated_imm (v : Word) (type : Nat) : (Expr.imm v type).Evaluated ctx text sys call env := by
  intro p d n st w st' vm hv hseg hpc hready _
  obtain ⟨rfl, rfl⟩ := Prod.mk.inj (Option.some.inj hv)
  refine (reaches_imm hseg hpc hready).imp rfl fun y hy => ?_
  rw [hy]
  exact p.agrees_refl v

theorem evaluated_cast (type : Nat) (he : e.Evaluated ctx text sys call env) :
    (Expr.cast type e).Evaluated ctx text sys call env := by
  intro p d n st v st' vm hv hseg hpc hready hd
  obtain ⟨⟨w, st₁⟩, hw, hv⟩ := Option.bind_eq_some_iff.mp hv
  obtain ⟨-, hv⟩ := Option.ite_none_right_eq_some.mp hv
  obtain ⟨rfl, rfl⟩ := Prod.mk.inj (Option.some.inj hv)
  refine (he .operand d n st w st₁ vm hw hseg hpc hready hd).imp rfl fun y hy => ?_
  rw [show y = w from hy]
  exact p.agrees_refl w

theorem evaluated_plus (he : e.Evaluated ctx text sys call env) : (Expr.plus e).Evaluated ctx text sys call env := by
  intro p d n st v st' vm hv hseg hpc hready hd
  refine (he .operand d n st v st' vm hv hseg hpc hready hd).imp rfl fun y hy => ?_
  rw [show y = v from hy]
  exact p.agrees_refl v

theorem evaluated_minus (hclear : env.Clear) (he : e.Evaluated ctx text sys call env) :
    (Expr.minus e).Evaluated ctx text sys call env := by
  intro p d n st v st' vm hv hseg hpc hready _
  rw [Expr.eval] at hv
  obtain ⟨hfits, hv⟩ := Option.ite_none_right_eq_some.mp hv
  obtain ⟨⟨w, st₁⟩, hw, hv⟩ := Option.bind_eq_some_iff.mp hv
  obtain ⟨rfl, rfl⟩ := Prod.mk.inj (Option.some.inj hv)
  have hd : d + 1 ≤ env.room := Nat.le_of_succ_le hfits
  rw [Expr.gen] at hseg ⊢
  have himm : Seg (textAt ctx text) n [Op.imm.code, -1] :=
    (show Seg _ n ([Op.imm.code, -1] ++ [Op.push.code]) from hseg.left.left).left
  have hpush := hseg.left.left.tail.tail.head
  have hmul := (hseg.behind (m := n + 3 + (e.gen ctx (n + 3)).length) (by
    simp only [List.length_append, List.length_cons, List.length_nil]; omega)).head
  have hall := (reaches_imm himm hpc hready).over (Q := (· = w)) hclear hd hpush
    (fun vm' hpc' hready' _ _ => he .operand (d + 1) (n + 3) st w st₁ vm' hw hseg.left.right hpc' hready' hd)
    fun vm' hpc' hready' htop hax => reaches_bin (v := -1 * w) hmul hpc' hready' (by rw [htop, hax]; rfl)
  refine hall.imp ?_ fun y hy => ?_
  · simp only [List.length_append, List.length_cons, List.length_nil]
    omega
  · have hneg : UnOp.neg.value w = -1 * w := by
      rw [UnOp.value, wrap, BitVec.ofInt_neg, BitVec.ofInt_toInt, BitVec.neg_mul]
      bv_omega
    rw [hneg, hy]
    exact p.agrees_refl _

/-- The operators in front that are computed with a number behind their operand. -/
theorem evaluated_with (op : UnOp) (q : Purpose) {o : BinOp} {w : Word} {f : Expr} (hclear : env.Clear)
    (he : e.Evaluated ctx text sys call env) (hgen : ∀ n, f.gen ctx n = e.gen ctx n ++ withWords w o)
    (heval : ∀ p d st r, f.eval call env p d st = some r →
      env.Fits d ∧ ∃ v, e.eval call env q d st = some (v, r.2) ∧ r.1 = op.value v)
    (hvalue : ∀ x v, q.Agrees x v → o.eval x w = some (op.value v)) : f.Evaluated ctx text sys call env := by
  intro p d n st v st' vm hv hseg hpc hready hd
  obtain ⟨hfits, x, hx, rfl⟩ := heval p d st (v, st') hv
  rw [hgen] at hseg ⊢
  rw [List.length_append, ← Nat.add_assoc]
  refine (he q d n st x st' vm hx hseg.left hpc hready hd).trans fun vm' hpc' hready' hax => ?_
  have hall : Reaches ctx text sys env d vm' _ _ _ :=
    reaches_with hclear (Nat.le_of_succ_le hfits) hseg.right hpc' hready' (hvalue _ _ hax)
  refine hall.imp rfl fun y hy => ?_
  rw [hy]
  exact p.agrees_refl _

theorem evaluated_not (hclear : env.Clear) (he : e.Evaluated ctx text sys call env) :
    (Expr.not e).Evaluated ctx text sys call env := by
  refine evaluated_with .not .condition hclear he (fun _ => rfl) (fun p d st r hr => ?_) fun x v hx => ?_
  · rw [Expr.eval] at hr
    obtain ⟨hfits, hr⟩ := Option.ite_none_right_eq_some.mp hr
    obtain ⟨⟨v, st₁⟩, hv, hr⟩ := Option.bind_eq_some_iff.mp hr
    obtain rfl := Option.some.inj hr
    exact ⟨hfits, v, hv, rfl⟩
  · rw [BinOp.eval, UnOp.value, truth]
    simp only [show x = 0 ↔ v = 0 from hx]

theorem evaluated_complement (hclear : env.Clear) (he : e.Evaluated ctx text sys call env) :
    (Expr.complement e).Evaluated ctx text sys call env := by
  refine evaluated_with .complement .operand hclear he (fun _ => rfl) (fun p d st r hr => ?_)
    fun x v hx => ?_
  · rw [Expr.eval] at hr
    obtain ⟨hfits, hr⟩ := Option.ite_none_right_eq_some.mp hr
    obtain ⟨⟨v, st₁⟩, hv, hr⟩ := Option.bind_eq_some_iff.mp hr
    obtain rfl := Option.some.inj hr
    exact ⟨hfits, v, hv, rfl⟩
  · obtain rfl : x = v := hx
    have hones : (-1 : Word) = BitVec.allOnes 32 := by decide
    rw [BinOp.eval, UnOp.value, hones, BitVec.xor_allOnes]

theorem evaluated_addressOf (he : e.Addressed ctx text sys call env) :
    (Expr.addressOf e).Evaluated ctx text sys call env := by
  intro p d n st v st' vm hv hseg hpc hready hd
  refine (he d n st v st' vm hv hseg hpc hready hd).imp rfl fun y hy => ?_
  rw [hy]
  exact p.agrees_refl v

theorem evaluated_binary {op : BinOp} (hclear : env.Clear) (ha : a.Evaluated ctx text sys call env)
    (hb : b.Evaluated ctx text sys call env) : (Expr.binary op a b).Evaluated ctx text sys call env := by
  intro p d n st v st' vm hv hseg hpc hready _
  rw [Expr.eval] at hv
  obtain ⟨hfits, hv⟩ := Option.ite_none_right_eq_some.mp hv
  obtain ⟨⟨x, st₁⟩, hx, hv⟩ := Option.bind_eq_some_iff.mp hv
  obtain ⟨⟨y, st₂⟩, hy, hv⟩ := Option.bind_eq_some_iff.mp hv
  obtain ⟨w, hw, hv⟩ := Option.map_eq_some_iff.mp hv
  obtain ⟨rfl, rfl⟩ := Prod.mk.inj hv
  rw [Expr.gen] at hseg ⊢
  refine ha.both hclear hb hx hy hseg.left hpc hready hfits fun vm' hpc' hready' htop hax => ?_
  have hseg' := hseg.behind (m := n + (a.gen ctx n).length + 1 + (b.gen ctx (n + (a.gen ctx n).length + 1)).length)
    (by simp only [List.length_append, List.length_singleton]; omega)
  refine (reaches_finish hclear hfits hseg' hpc' hready' htop (by rw [hax]; exact hw)).imp ?_ fun z hz => ?_
  · simp only [List.length_append, List.length_singleton]
    omega
  · rw [hz]
    exact p.agrees_refl w

/-! ## Assignments -/

theorem length_pushed (words : List Word) : (pushed words).length = words.dropLast.length + 1 := List.length_append

theorem evaluated_assign (hclear : env.Clear) (ha : a.Addressed ctx text sys call env)
    (hb : b.Evaluated ctx text sys call env) : (Expr.assign a b).Evaluated ctx text sys call env := by
  intro p d n st v st' vm hv hseg hpc hready _
  rw [Expr.eval] at hv
  obtain ⟨hfits, hv⟩ := Option.ite_none_right_eq_some.mp hv
  obtain ⟨⟨x, st₁⟩, hx, hv⟩ := Option.bind_eq_some_iff.mp hv
  obtain ⟨⟨y, st₂⟩, hy, hv⟩ := Option.bind_eq_some_iff.mp hv
  obtain ⟨st₃, hstore, hv⟩ := Option.bind_eq_some_iff.mp hv
  obtain ⟨rfl, rfl⟩ := Prod.mk.inj (Option.some.inj hv)
  have hd : d + 1 ≤ env.room := Nat.le_of_succ_le hfits
  rw [Expr.gen] at hseg ⊢
  have haddr : Seg (textAt ctx text) n (a.genPlace ctx n ++ [Op.push.code]) := hseg.left.left
  have hm : n + (pushed (a.gen ctx n)).length = n + (a.genPlace ctx n).length + 1 := by
    rw [length_pushed, Nat.add_assoc]
  have hright (vm' : Vm) (hpc' : vm'.pc = ctx.addr (n + (a.genPlace ctx n).length + 1))
      (hready' : env.Ready (d + 1) vm' st₁) :=
    hb .operand (d + 1) _ st₁ y st₂ vm' hy hseg.left.right (hm ▸ hpc') hready' hd
  have hplace := ha d n st x st₁ vm hx haddr.left hpc hready (by omega)
  refine hplace.over hclear hd (haddr.behind rfl).head (fun vm' hpc' hready' _ _ => hright vm' hpc' hready')
    fun vm' hpc' hready' htop hax => ?_
  have hax' : vm'.ax = y := hax
  have hop := (hseg.behind (by rw [List.length_append, ← Nat.add_assoc])).head
  refine (reaches_store hop hpc' hready' (by rw [htop, hax']; exact hstore)).imp ?_ fun z hz => ?_
  · simp only [List.length_append, List.length_singleton]
    omega
  · rw [hz, hax']
    exact p.agrees_refl _

theorem length_changed (hobject : e.IsObject) (n : Nat) (tmp : IncDec) : n + (e.gen ctx n).length + 5 =
    n + (duplicated (e.gen ctx n) ++ withWords (stride e.type) tmp.op).length := by
  have hwith : (withWords (stride e.type) tmp.op).length = 4 := rfl
  rw [Expr.gen_object hobject, duplicated, List.getLast?_concat, Option.toList_some]
  simp only [List.length_append, length_pushed, List.dropLast_concat, List.length_singleton, hwith]
  omega

/-- An object is loaded behind its address, and the changed value computed. -/
theorem reaches_changed (hclear : env.Clear) (he : e.Addressed ctx text sys call env) (hobject : e.IsObject)
    {tmp : IncDec} {d n j : Nat} {st st₁ st' : Store} {x v : Word} {vm : Vm} {R : Word → Prop}
    (hx : e.place call env d st = some (x, st₁)) (hload : st₁.load env.objects e.type x = some v)
    (hseg : Seg (textAt ctx text) n (duplicated (e.gen ctx n) ++ withWords (stride e.type) tmp.op))
    (hpc : vm.pc = ctx.addr n) (hready : env.Ready d vm st) (hd : d + 2 ≤ env.room)
    (hop : ∀ vm' : Vm, vm'.pc = ctx.addr (n + (e.gen ctx n).length + 5) → env.Ready (d + 1) vm' st₁ → vm'.top = x →
      vm'.ax = tmp.value e.type v → Reaches ctx text sys env d vm' j st' R) :
    Reaches ctx text sys env d vm j st' R := by
  have hgen : e.gen ctx n = _ := Expr.gen_object hobject n
  have hlength : (e.gen ctx n).length = (e.genPlace ctx n).length + 1 := by
    rw [hgen, List.length_append, List.length_singleton]
  have hdup : duplicated (e.gen ctx n) = e.genPlace ctx n ++ [Op.push.code, (loadOp e.type).code] := by
    rw [duplicated, pushed, hgen, List.getLast?_concat, List.dropLast_concat, Option.toList_some, List.append_assoc]
    rfl
  rw [hdup] at hseg
  have hplace := he d n st x st₁ vm hx hseg.left.left hpc hready (by omega)
  have hvalue (vm' : Vm) (hpc' : vm'.pc = ctx.addr (n + (e.genPlace ctx n).length + 1))
      (hready' : env.Ready (d + 1) vm' st₁) (hax : vm'.ax = x) :
      Reaches ctx text sys env (d + 1) vm' (n + (e.gen ctx n).length + 5) st₁ (· = tmp.value e.type v) := by
    refine (reaches_load hseg.left.right.tail.head hpc' hready' (by rw [hax]; exact hload)).trans
      fun vm'' hpc'' hready'' hax'' => ?_
    have hwith := hseg.behind (m := n + (e.genPlace ctx n).length + 1 + 1) (by
      rw [List.length_append, ← Nat.add_assoc]; rfl)
    refine (reaches_with (v := tmp.value e.type v) hclear hd hwith hpc'' hready'' ?_).imp (by omega) fun _ => id
    rw [hax'']
    cases tmp <;> rfl
  exact hplace.over hclear (by omega) hseg.left.right.head
    (fun vm' hpc' hready' htop hax => hvalue vm' hpc' hready' (hax.trans htop)) hop

theorem evaluated_preIncrement (tmp : IncDec) (hclear : env.Clear) (he : e.Addressed ctx text sys call env) :
    (Expr.preIncrement tmp e).Evaluated ctx text sys call env := by
  intro p d n st w st' vm hv hseg hpc hready _
  rw [Expr.eval] at hv
  obtain ⟨hfits, hv⟩ := Option.ite_none_right_eq_some.mp hv
  obtain ⟨⟨x, st₁⟩, hx, hv⟩ := Option.bind_eq_some_iff.mp hv
  obtain ⟨v, hload, hv⟩ := Option.bind_eq_some_iff.mp hv
  obtain ⟨st₂, hstore, hv⟩ := Option.bind_eq_some_iff.mp hv
  obtain ⟨rfl, rfl⟩ := Prod.mk.inj (Option.some.inj hv)
  have hobject := Expr.isObject_of_place hx
  rw [Expr.gen] at hseg ⊢
  have hlength : n + (e.gen ctx n).length + 5 = _ := length_changed hobject n tmp
  refine reaches_changed hclear he hobject hx hload hseg.left hpc hready hfits fun vm' hpc' hready' htop hax => ?_
  have hop := (hseg.behind hlength).head
  refine (reaches_store hop hpc' hready' (by rw [htop, hax]; exact hstore)).imp ?_ fun z hz => ?_
  · rw [List.length_append, List.length_singleton, ← Nat.add_assoc, ← hlength]
  · rw [hz, hax]
    exact p.agrees_refl _

theorem evaluated_postIncrement (tmp : IncDec) (hclear : env.Clear) (he : e.Addressed ctx text sys call env) :
    (Expr.postIncrement tmp e).Evaluated ctx text sys call env := by
  intro p d n st w st' vm hv hseg hpc hready _
  rw [Expr.eval] at hv
  obtain ⟨hfits, hv⟩ := Option.ite_none_right_eq_some.mp hv
  obtain ⟨⟨x, st₁⟩, hx, hv⟩ := Option.bind_eq_some_iff.mp hv
  obtain ⟨v, hload, hv⟩ := Option.bind_eq_some_iff.mp hv
  obtain ⟨st₂, hstore, hv⟩ := Option.bind_eq_some_iff.mp hv
  obtain ⟨hkept, hv⟩ := Option.ite_none_right_eq_some.mp hv
  obtain ⟨rfl, rfl⟩ := Prod.mk.inj (Option.some.inj hv)
  have hobject := Expr.isObject_of_place hx
  rw [Expr.gen] at hseg ⊢
  have hlength : n + (e.gen ctx n).length + 5 = _ := length_changed hobject n tmp
  refine reaches_changed hclear he hobject hx hload hseg.left.left hpc hready hfits
    fun vm' hpc' hready' htop hax => ?_
  have hop := (hseg.left.behind hlength).head
  refine (reaches_store hop hpc' hready' (by rw [htop, hax]; exact hstore)).trans fun vm'' hpc'' hready'' hax'' => ?_
  have hwith := hseg.behind (m := n + (e.gen ctx n).length + 5 + 1) (by
    rw [List.length_append, List.length_singleton, ← Nat.add_assoc, ← hlength])
  have hback : tmp.back.eval (tmp.value e.type v) (stride e.type) = some v := by
    cases tmp with
    | inc => exact congrArg some (BitVec.add_sub_cancel v _)
    | dec => exact congrArg some (BitVec.sub_add_cancel v _)
  refine (reaches_with (v := v) hclear (Nat.le_of_succ_le hfits) hwith hpc'' hready'' ?_).imp ?_ fun z hz => ?_
  · rw [hax'', hax, hkept]
    exact hback
  · rw [List.length_append, List.length_append, List.length_singleton, ← Nat.add_assoc, ← Nat.add_assoc, ← hlength]
    rfl
  · rw [hz]
    exact p.agrees_refl v

/-! ## Jumps -/

theorem evaluated_cond (hc : c.Evaluated ctx text sys call env) (ha : a.Evaluated ctx text sys call env)
    (hb : b.Evaluated ctx text sys call env) : (Expr.cond c a b).Evaluated ctx text sys call env := by
  intro p d n st v st' vm hv hseg hpc hready hd
  obtain ⟨⟨x, st₁⟩, hx, hv⟩ := Option.bind_eq_some_iff.mp hv
  simp only [Expr.gen, List.length_append, List.length_cons, List.length_nil] at hseg ⊢
  have hcode := hc .condition d n st x st₁ vm hx hseg.left.left.left.left hpc hready hd
  generalize hm : n + (c.gen ctx n).length = m at *
  generalize hj : m + 2 + (a.gen ctx (m + 2)).length = j at *
  have hthen : Seg (textAt ctx text) (m + 2) (a.gen ctx (m + 2)) :=
    hseg.left.left.behind (by simp only [List.length_append, List.length_cons, List.length_nil]; omega)
  have hover := hseg.left.behind (m := j) (by simp only [List.length_append, List.length_cons, List.length_nil]; omega)
  have helse : Seg (textAt ctx text) (j + 2) (b.gen ctx (j + 2)) :=
    hseg.behind (by simp only [List.length_append, List.length_cons, List.length_nil]; omega)
  have hall : Reaches ctx text sys env d vm (j + 2 + (b.gen ctx (j + 2)).length) st' (p.Agrees · v) := by
    refine hcode.trans fun vm' hpc' hready' hax => ?_
    have hjump : Reaches ctx text sys env d vm' _ _ _ := reaches_jz (hseg.left.left.left.behind hm.symm) hpc' hready'
    have hzero : vm'.ax = 0 ↔ x = 0 := hax
    dsimp only at hv
    split at hv
    · next hne =>
      rw [if_neg (fun h => hne (hzero.mp h))] at hjump
      refine hjump.trans fun vm'' hpc'' hready'' _ => ?_
      refine (ha p d (m + 2) st₁ v st' vm'' hv hthen hpc'' hready'' hd).trans fun vm₃ hpc₃ hready₃ hax₃ => ?_
      rw [hj] at hpc₃
      exact (reaches_jmp hover hpc₃ hready₃).imp rfl fun w hw => by rw [hw]; exact hax₃
    · next heq =>
      rw [if_pos (hzero.mpr (not_not.mp heq))] at hjump
      refine hjump.trans fun vm'' hpc'' hready'' _ => ?_
      exact hb p d (j + 2) st₁ v st' vm'' hv helse hpc'' hready'' hd
  exact hall.imp (by omega) fun _ => id

/-- What the value of `||` and `&&` is as good as. -/
theorem Purpose.agrees_decided {p : Purpose} {x y v : Word} (h : p.Agrees x y) (hv : p.decided y = some v) :
    p.Agrees x v := by
  cases p with
  | operand =>
    obtain ⟨-, hv⟩ := Option.ite_none_right_eq_some.mp hv
    obtain rfl := Option.some.inj hv
    exact h
  | condition =>
    obtain rfl := Option.some.inj hv
    refine Iff.trans h ?_
    unfold truth
    split
    · next hne => exact iff_of_false hne (by decide)
    · next heq => exact iff_of_true (not_not.mp heq) rfl
  | effect => trivial

theorem Junction.zero_iff_of_first {j : Junction} {p : Purpose} {w x : Word} (h : (j.first p).Agrees w x) :
    w = 0 ↔ x = 0 := by
  cases j <;> cases p <;> first | exact h | exact iff_of_eq (congrArg (· = 0) h)

theorem Junction.agrees_of_decides {j : Junction} {p : Purpose} {w x v : Word} (h : (j.first p).Agrees w x)
    (hd : j.Decides x) (hv : p.decided x = some v) : p.Agrees w v := by
  refine Purpose.agrees_decided ?_ hv
  have hzero := Junction.zero_iff_of_first h
  cases p with
  | operand =>
    cases j with
    | lor => exact h
    | lan => exact (hzero.mpr hd).trans (show x = 0 from hd).symm
  | condition => exact hzero
  | effect => trivial

theorem reaches_junction {j : Junction} {d m k : Nat} {st : Store} {vm : Vm}
    (hseg : Seg (textAt ctx text) m [j.jump.code, ctx.addr k]) (hpc : vm.pc = ctx.addr m)
    (hready : env.Ready d vm st) :
    Reaches ctx text sys env d vm (if j.Decides vm.ax then k else m + 2) st (· = vm.ax) := by
  cases j with
  | lan => exact reaches_jz hseg hpc hready
  | lor =>
    refine (reaches_jnz hseg hpc hready).imp ?_ fun _ => id
    unfold Junction.Decides
    exact ite_not _ _ _

theorem evaluated_logical (j : Junction) (ha : a.Evaluated ctx text sys call env)
    (hb : b.Evaluated ctx text sys call env) : (Expr.logical j a b).Evaluated ctx text sys call env := by
  intro p d n st v st' vm hv hseg hpc hready hd
  obtain ⟨⟨x, st₁⟩, hx, hv⟩ := Option.bind_eq_some_iff.mp hv
  simp only [Expr.gen, List.length_append, List.length_cons, List.length_nil] at hseg ⊢
  have hcode := ha (j.first p) d n st x st₁ vm hx hseg.left.left hpc hready hd
  generalize hm : n + (a.gen ctx n).length = m at *
  have hright : Seg (textAt ctx text) (m + 2) (b.gen ctx (m + 2)) :=
    hseg.behind (by simp only [List.length_append, List.length_cons, List.length_nil]; omega)
  have hall : Reaches ctx text sys env d vm (m + 2 + (b.gen ctx (m + 2)).length) st' (p.Agrees · v) := by
    refine hcode.trans fun vm' hpc' hready' hax => ?_
    have hjump : Reaches ctx text sys env d vm' _ _ _ := reaches_junction (hseg.left.behind hm.symm) hpc' hready'
    have hdecides : j.Decides vm'.ax ↔ j.Decides x := Junction.decides_congr (Junction.zero_iff_of_first hax)
    dsimp only at hv
    split at hv
    · next h =>
      obtain ⟨w, hw, hv⟩ := Option.map_eq_some_iff.mp hv
      obtain ⟨rfl, rfl⟩ := Prod.mk.inj hv
      rw [if_pos (hdecides.mpr h)] at hjump
      exact hjump.imp rfl fun y hy => by rw [hy]; exact Junction.agrees_of_decides hax h hw
    · next h =>
      obtain ⟨⟨y, st₂⟩, hy, hv⟩ := Option.bind_eq_some_iff.mp hv
      obtain ⟨w, hw, hv⟩ := Option.map_eq_some_iff.mp hv
      obtain ⟨rfl, rfl⟩ := Prod.mk.inj hv
      rw [if_neg (fun h' => h (hdecides.mp h'))] at hjump
      refine hjump.trans fun vm'' hpc'' hready'' _ => ?_
      exact (hb p d (m + 2) st₁ y st₂ vm'' hy hright hpc'' hready'' hd).imp rfl fun z hz =>
        Purpose.agrees_decided hz hw
  exact hall.imp (by omega) fun _ => id

/-! ## Calls -/

theorem args_nil : Args.nil.Evaluated ctx text sys call env := by
  intro d n st vs st' vm hv hseg hpc hready hd
  obtain ⟨rfl, rfl⟩ := Prod.mk.inj (Option.some.inj hv)
  exact ⟨hd, rfl, vm, .refl, hpc, hready, fun _ _ _ => rfl, fun i hi => absurd hi (Nat.not_lt_zero i)⟩

theorem args_snoc {args : Args} (hclear : env.Clear) (hargs : args.Evaluated ctx text sys call env)
    (he : e.Evaluated ctx text sys call env) : (args.snoc e).Evaluated ctx text sys call env := by
  intro d n st vs st' vm hv hseg hpc hready hd
  rw [Args.eval] at hv
  obtain ⟨⟨ws, st₁⟩, hws, hv⟩ := Option.bind_eq_some_iff.mp hv
  obtain ⟨⟨v, st₂⟩, hval, hv⟩ := Option.bind_eq_some_iff.mp hv
  obtain ⟨hroom, hv⟩ := Option.ite_none_right_eq_some.mp hv
  obtain ⟨rfl, rfl⟩ := Prod.mk.inj (Option.some.inj hv)
  rw [Args.gen] at hseg ⊢
  obtain ⟨hle, hlen, vm₁, hsteps₁, hpc₁, hready₁, hmem₁, hstack₁⟩ :=
    hargs d n st ws st₁ vm hws hseg.left.left hpc hready hd
  obtain ⟨vm₂, hsteps₂, hpc₂, hready₂, hmem₂, hax₂⟩ :=
    he .operand (d + args.length) _ st₁ v st₂ vm₁ hval hseg.left.right hpc₁ hready₁ hle
  have hax₂' : vm₂.ax = v := hax₂
  have hpush := (hseg.behind (m := n + (args.gen ctx n).length +
    (e.gen ctx (n + (args.gen ctx n).length)).length) (by rw [List.length_append, ← Nat.add_assoc])).head
  obtain ⟨vm₃, hstep₃, hpc₃, hready₃, htop₃, -, hmem₃⟩ := push_step sys hpush hpc₂ hclear hready₂ hroom
  refine ⟨hroom, by rw [List.length_append, hlen]; rfl, vm₃, (hsteps₁.trans hsteps₂).tail hstep₃, ?_, hready₃, ?_, ?_⟩
  · rw [hpc₃]
    congr 1
    simp only [List.length_append, List.length_singleton]
    omega
  · intro b hb hapart
    rw [hmem₃ b (hapart.add hle), hmem₂ b hb (hapart.add hle), hmem₁ b hb hapart]
  · intro i hi
    have hrev : (ws ++ [v]).reverse = v :: ws.reverse := List.reverse_concat
    simp only [hrev]
    cases i with
    | zero =>
      rw [show vm₃.sp + 4 * BitVec.ofNat 32 0 = vm₃.sp by bv_omega]
      exact htop₃.trans hax₂'
    | succ k =>
      rw [List.length_reverse, List.length_append, List.length_singleton] at hi
      have hk : k < args.length := by omega
      obtain ⟨l, hl⟩ : ∃ l, d + args.length = l + 1 + k := ⟨d + args.length - 1 - k, by omega⟩
      have hold := hstack₁ k (by rw [List.length_reverse]; omega)
      have hword {D : Nat} {vm : Vm} (hsp : vm.sp = env.top (l + 1 + D)) :
          vm.sp + 4 * BitVec.ofNat 32 D = env.top (l + 1) := by rw [hsp, Env.top_add]
      have hsp₁ : vm₁.sp = env.top (l + 1 + k) := by rw [hready₁.sp, hl]
      have hsp₃ : vm₃.sp = env.top (l + 1 + (k + 1)) := by rw [hready₃.sp, hl]; rfl
      rw [hword hsp₁] at hold
      rw [hword hsp₃, List.getElem_cons_succ, ← hold]
      refine hclear.word_eq (k := k) (by omega) fun b hb hapart => ?_
      rw [← hl] at hapart
      rw [hmem₃ b hapart, hmem₂ b hb hapart]

variable (sys) in
/-- The arguments are taken from the stack. -/
theorem adj_steps {d m l : Nat} {st : Store} {vm : Vm} (hseg : Seg (textAt ctx text) m (adjWords l))
    (hpc : vm.pc = ctx.addr m) (hready : env.Ready (d + l) vm st) :
    ∃ vm', Steps text sys vm vm' ∧ vm'.pc = ctx.addr (m + (adjWords l).length) ∧ env.Ready d vm' st ∧
      vm'.mem = vm.mem ∧ vm'.ax = vm.ax := by
  unfold adjWords at hseg ⊢
  split at hseg
  · next h =>
    rw [if_pos h]
    have hstep : vm.step text sys = some { vm with pc := vm.pc + 8, sp := vm.sp + 4 * BitVec.ofNat 32 l } := by
      simp only [Vm.step, textAt_decode hseg.head hpc, textAt_arg hseg.tail.head hpc]
    refine ⟨_, .single hstep, by rw [hpc, Context.addr_add_two]; rfl, ⟨?_, hready.bp, hready.holds⟩, rfl, rfl⟩
    show vm.sp + 4 * BitVec.ofNat 32 l = _
    rw [hready.sp, Env.top_add]
  · next h =>
    obtain rfl : l = 0 := by omega
    rw [if_neg h]
    exact ⟨vm, .refl, hpc, hready, rfl, rfl⟩

theorem evaluated_call (value : Word) (type : Nat) {args : Args} (hclear : env.Clear)
    (hcall : CallsRun ctx text sys call) (hargs : args.Evaluated ctx text sys call env) :
    (Expr.call (.fun_ value) type args).Evaluated ctx text sys call env := by
  intro p d n st v st' vm hv hseg hpc hready hd
  rw [Expr.eval] at hv
  obtain ⟨⟨vs, st₁⟩, hvs, hv⟩ := Option.bind_eq_some_iff.mp hv
  obtain ⟨⟨r, st₂⟩, hr, hv⟩ := Option.bind_eq_some_iff.mp hv
  rw [Expr.gen] at hseg ⊢
  obtain ⟨hle, hlen, vm₁, hsteps₁, hpc₁, hready₁, hmem₁, hstack₁⟩ :=
    hargs d n st vs st₁ vm hvs hseg.left hpc hready hd
  have hsmall := hclear.small
  have hcallee : call value vm₁.sp (env.room - (d + args.length)) vs env.objects st₁ = some (r, st₂) := by
    rw [hready₁.sp]
    exact hr
  have hapart (a : Word) (ha : env.objects a = true) :
      (a - vm₁.sp).toNat + 4 * (env.room - (d + args.length)) < 2 ^ 32 := by
    rw [hready₁.sp]
    exact hclear.apart_at ha hle
  obtain ⟨vm₂, hsteps₂, hpc₂, hsp₂, hbp₂, hholds₂, hmem₂, hax₂⟩ :=
    hcall value _ vs env.objects st₁ r st₂ vm₁ _ hcallee hseg.right.left hpc₁ hstack₁ (by omega) hapart hready₁.holds
  have hready₂ : env.Ready (d + args.length) vm₂ st₂ := ⟨hsp₂.trans hready₁.sp, hbp₂.trans hready₁.bp, hholds₂⟩
  have hadj := hseg.right.behind (m := n + (args.gen ctx n).length + 2) rfl
  obtain ⟨vm₃, hsteps₃, hpc₃, hready₃, hmem₃, hax₃⟩ := adj_steps sys hadj hpc₂ hready₂
  have hresult : st₂ = st' ∧ p.Agrees vm₂.ax v := by
    cases r with
    | some x =>
      obtain ⟨rfl, rfl⟩ := Prod.mk.inj (Option.some.inj hv)
      rw [hax₂ x rfl]
      exact ⟨rfl, p.agrees_refl x⟩
    | none =>
      cases p with
      | effect =>
        obtain ⟨-, rfl⟩ := Prod.mk.inj (Option.some.inj hv)
        exact ⟨rfl, trivial⟩
      | operand => exact absurd hv (Option.some_ne_none _).symm
      | condition => exact absurd hv (Option.some_ne_none _).symm
  obtain ⟨rfl, hagrees⟩ := hresult
  refine ⟨vm₃, (hsteps₁.trans hsteps₂).trans hsteps₃, ?_, hready₃, fun b hb hfar => ?_, by rw [hax₃]; exact hagrees⟩
  · rw [hpc₃]
    congr 1
    have hwords : (Callee.fun_ value).words.length = 2 := rfl
    simp only [List.length_append, hwords]
    omega
  · rw [hmem₃, hmem₂ b hb ?_, hmem₁ b hb hfar]
    rw [hlen, hready₁.sp, Env.top_add]
    unfold Env.Apart at hfar
    omega

/-! ## Every expression -/

theorem addressed_other (he : ¬ e.IsObject) : e.Addressed ctx text sys call env :=
  fun _ _ _ _ _ _ hv => absurd (Expr.isObject_of_place hv) he

section
variable (h : Setting ctx text sys call env)
include h

mutual

/-- **The machine** computes the value of an expression, and the address of an object. -/
theorem Expr.evaluated : ∀ e : Expr, e.Evaluated ctx text sys call env ∧ e.Addressed ctx text sys call env
  | .imm v type => ⟨evaluated_imm v type, addressed_other id⟩
  | .loc value type =>
    have haddr := addressed_loc h.frame value type
    ⟨evaluated_object trivial haddr, haddr⟩
  | .glo value type =>
    have haddr := addressed_glo value type
    ⟨evaluated_object trivial haddr, haddr⟩
  | .call (.sys _) _ _ =>
    ⟨fun _ _ _ _ _ _ _ hv => absurd hv (Option.some_ne_none _).symm, addressed_other id⟩
  | .call (.fun_ value) type args =>
    ⟨evaluated_call value type h.clear h.calls (Args.evaluated args), addressed_other id⟩
  | .cast type e => ⟨evaluated_cast type (Expr.evaluated e).1, addressed_other id⟩
  | .plus e => ⟨evaluated_plus (Expr.evaluated e).1, addressed_other id⟩
  | .minus e => ⟨evaluated_minus h.clear (Expr.evaluated e).1, addressed_other id⟩
  | .not e => ⟨evaluated_not h.clear (Expr.evaluated e).1, addressed_other id⟩
  | .complement e => ⟨evaluated_complement h.clear (Expr.evaluated e).1, addressed_other id⟩
  | .dereference e =>
    have haddr := addressed_dereference (Expr.evaluated e).1
    ⟨evaluated_object trivial haddr, haddr⟩
  | .addressOf e => ⟨evaluated_addressOf (Expr.evaluated e).2, addressed_other id⟩
  | .preIncrement tmp e =>
    ⟨evaluated_preIncrement tmp h.clear (Expr.evaluated e).2, addressed_other id⟩
  | .postIncrement tmp e =>
    ⟨evaluated_postIncrement tmp h.clear (Expr.evaluated e).2, addressed_other id⟩
  | .assign a b =>
    ⟨evaluated_assign h.clear (Expr.evaluated a).2 (Expr.evaluated b).1, addressed_other id⟩
  | .cond c a b =>
    ⟨evaluated_cond (Expr.evaluated c).1 (Expr.evaluated a).1 (Expr.evaluated b).1,
      addressed_other id⟩
  | .logical j a b =>
    ⟨evaluated_logical j (Expr.evaluated a).1 (Expr.evaluated b).1, addressed_other id⟩
  | .binary _ a b =>
    ⟨evaluated_binary h.clear (Expr.evaluated a).1 (Expr.evaluated b).1, addressed_other id⟩
  | .bracket a i =>
    have haddr := addressed_bracket h.clear (Expr.evaluated a).1 (Expr.evaluated i).1
    ⟨evaluated_object trivial haddr, haddr⟩

theorem Args.evaluated : ∀ args : Args, args.Evaluated ctx text sys call env
  | .nil => args_nil
  | .snoc args e => args_snoc h.clear (Args.evaluated args) (Expr.evaluated e).1

end

end

end

end RetrOS.Interpreter
