import Mathlib.Logic.Relation
import RetrOS.Developer.ConstantExpr
import RetrOS.Developer.Emission
import RetrOS.Lib.Seg

/-!
# The values of constant expressions

What C says a constant expression means, and what the machine computes on the words that `expression` emits for it.

* `CExpr.value` : the value in 32-bit arithmetic that wraps around;
* `CExpr.Clean` : every `||` and `&&` whose value is used as a number is decided by a 0 or a 1;
* `expression_constant` : the machine ends with the value in `ax`.
-/

namespace RetrOS.Interpreter
open RetrOS.Lib

/-! ## The meaning in C -/

/-- The 32 bits of an integer. -/
def wrap (z : Int) : Word := BitVec.ofInt 32 z

def truth (p : Prop) [Decidable p] : Word := if p then 1 else 0

def UnOp.value (op : UnOp) (x : Word) : Word :=
  match op with
  | .plus => x
  | .neg => wrap (-x.toInt)
  | .not => truth (x = 0)
  | .complement => ~~~x

/-- No division by zero, and shift counts from 0 to 31. -/
def BinOp.value (op : BinOp) (x y : Word) : Option Word :=
  match op with
  | .or => some (x ||| y)
  | .xor => some (x ^^^ y)
  | .and => some (x &&& y)
  | .eq => some (truth (x.toInt = y.toInt))
  | .ne => some (truth (x.toInt ≠ y.toInt))
  | .lt => some (truth (x.toInt < y.toInt))
  | .gt => some (truth (x.toInt > y.toInt))
  | .le => some (truth (x.toInt ≤ y.toInt))
  | .ge => some (truth (x.toInt ≥ y.toInt))
  | .shl => if y.toNat < 32 then some (wrap (x.toInt * 2 ^ y.toNat)) else none
  | .shr => if y.toNat < 32 then some (wrap (x.toInt / 2 ^ y.toNat)) else none
  | .add => some (wrap (x.toInt + y.toInt))
  | .sub => some (wrap (x.toInt - y.toInt))
  | .mul => some (wrap (x.toInt * y.toInt))
  | .div => if y = 0 then none else some (wrap (x.toInt.tdiv y.toInt))
  | .mod => if y = 0 then none else some (wrap (x.toInt.tmod y.toInt))

/-- The left operand decides. -/
def Junction.Decides (j : Junction) (x : Word) : Prop :=
  match j with
  | .lor => x ≠ 0
  | .lan => x = 0

instance (j : Junction) (x : Word) : Decidable (j.Decides x) := by
  cases j
  · exact inferInstanceAs (Decidable (x ≠ 0))
  · exact inferInstanceAs (Decidable (x = 0))

namespace CExpr

def value : CExpr → Option Word
  | num v => some v
  | paren e => e.value
  | unary op e => e.value.map op.value
  | operation (.bin op) a b => do
    let x ← a.value
    let y ← b.value
    op.value x y
  | operation (.junction j) a b => do
    let x ← a.value
    if j.Decides x then some (truth (x ≠ 0))
    else do
      let y ← b.value
      some (truth (y ≠ 0))
  | cond c a b => do
    let x ← c.value
    if x ≠ 0 then a.value else b.value

end CExpr

/-! ## The instructions -/

/-- The division that the processor traps at, though it has a value. -/
def BinOp.Overflows (op : BinOp) (x y : Word) : Prop :=
  (op = .div ∨ op = .mod) ∧ x.toInt = -2 ^ 31 ∧ y = -1

theorem wrap_toInt (x : Word) : wrap x.toInt = x := BitVec.ofInt_toInt

theorem BinOp.eval_of_value {op : BinOp} {x y v : Word} (hv : op.value x y = some v) (hover : ¬ op.Overflows x y) :
    op.eval x y = some v := by
  cases op with
  | eq => rw [← hv, BinOp.value, BinOp.eval, truth]; simp only [BitVec.toInt_inj]
  | ne => rw [← hv, BinOp.value, BinOp.eval, truth]; simp only [ne_eq, BitVec.toInt_inj]
  | shl =>
    rw [BinOp.value] at hv
    split at hv
    · next hlt =>
      have hpow : BitVec.ofInt 32 (2 ^ y.toNat) = BitVec.twoPow 32 y.toNat := BitVec.eq_of_toNat_eq (by
        rw [BitVec.toNat_twoPow, show (2 ^ y.toNat : Int) = ((2 ^ y.toNat : Nat) : Int) by push_cast; rfl,
          BitVec.ofInt_natCast, BitVec.toNat_ofNat])
      rw [← hv, BinOp.eval, Nat.mod_eq_of_lt hlt, BitVec.shiftLeft_eq_mul_twoPow, wrap, BitVec.ofInt_mul,
        BitVec.ofInt_toInt, hpow]
    · exact absurd hv (Option.some_ne_none _).symm
  | shr =>
    rw [BinOp.value] at hv
    split at hv
    · next hlt =>
      have hshift : x.toInt / 2 ^ y.toNat = (x.sshiftRight y.toNat).toInt := by
        rw [BitVec.toInt_sshiftRight, Int.shiftRight_eq_div_pow]
        push_cast
        rfl
      rw [← hv, BinOp.eval, Nat.mod_eq_of_lt hlt, hshift, wrap_toInt]
    · exact absurd hv (Option.some_ne_none _).symm
  | add => rw [← hv, BinOp.value, BinOp.eval, wrap, BitVec.ofInt_add, BitVec.ofInt_toInt, BitVec.ofInt_toInt]
  | sub =>
    rw [← hv, BinOp.value, BinOp.eval, wrap, Int.sub_eq_add_neg, BitVec.ofInt_add, BitVec.ofInt_neg, BitVec.ofInt_toInt,
      BitVec.ofInt_toInt, BitVec.sub_eq_add_neg]
  | mul => rw [← hv, BinOp.value, BinOp.eval, wrap, BitVec.ofInt_mul, BitVec.ofInt_toInt, BitVec.ofInt_toInt]
  | div =>
    rw [BinOp.value] at hv
    split at hv
    · exact absurd hv (Option.some_ne_none _).symm
    · next hzero =>
      have hquot : wrap (x.toInt.tdiv y.toInt) = x.sdiv y := BitVec.eq_of_toInt_eq (by
        rw [wrap, BitVec.toInt_ofInt, BitVec.toInt_sdiv])
      rw [← hv, BinOp.eval, if_neg (by rintro (h | h); exacts [hzero h, hover ⟨.inl rfl, h⟩]), hquot]
  | mod =>
    rw [BinOp.value] at hv
    split at hv
    · exact absurd hv (Option.some_ne_none _).symm
    · next hzero =>
      rw [← hv, BinOp.eval, if_neg (by rintro (h | h); exacts [hzero h, hover ⟨.inr rfl, h⟩]), ← BitVec.toInt_srem,
        wrap_toInt]
  | _ => exact hv

/-! ## Runs -/

/-- The words of the text, wherever they are. -/
abbrev textAt (ctx : Context) (text : Word → Word) (i : Nat) : Option Word := some (text (ctx.addr i))

abbrev Steps (text : Word → Word) (sys : SysCall → Vm → Word × Memory) : Vm → Vm → Prop :=
  Relation.ReflTransGen fun a b => a.step text sys = some b

/-- The machine comes to the word `m` with `post` of `ax`; the stack is as it was, and less than `len` words have been
pushed meanwhile. -/
def Computes (ctx : Context) (text : Word → Word) (sys : SysCall → Vm → Word × Memory) (vm : Vm) (m len : Nat)
    (post : Word → Prop) : Prop :=
  ∃ vm', Steps text sys vm vm' ∧ vm'.pc = ctx.addr m ∧ vm'.sp = vm.sp ∧ vm'.bp = vm.bp ∧
    (∀ b, (b - vm.sp).toNat + 4 * len < 2 ^ 32 → vm'.mem b = vm.mem b) ∧ post vm'.ax

section
variable {ctx : Context} {text : Word → Word} {sys : SysCall → Vm → Word × Memory} {vm : Vm} {n m k len len' : Nat}
  {post post' : Word → Prop} {v : Word}

theorem textAt_decode {op : Op} (hop : textAt ctx text n = some op.code) (hpc : vm.pc = ctx.addr n) :
    Op.decode (text vm.pc) = some op := by
  rw [hpc, Option.some.inj hop, Op.decode_code]

theorem textAt_arg {w : Word} (harg : textAt ctx text (n + 1) = some w) (hpc : vm.pc = ctx.addr n) :
    text (vm.pc + 4) = w := by
  rw [hpc, ← Option.some.inj harg, ← Context.addr_add]
  rfl

theorem Computes.imp (h : Computes ctx text sys vm m len post) (hm : k = m) (hlen : len ≤ len')
    (hpost : ∀ x, post x → post' x) : Computes ctx text sys vm k len' post' := by
  obtain ⟨vm', hsteps, hpc, hsp, hbp, hmem, hax⟩ := h
  exact ⟨vm', hsteps, hm ▸ hpc, hsp, hbp, fun b hb => hmem b (by omega), hpost _ hax⟩

theorem Computes.trans (h : Computes ctx text sys vm m len post)
    (h' : ∀ vm' : Vm, vm'.pc = ctx.addr m → post vm'.ax → Computes ctx text sys vm' k len' post') :
    Computes ctx text sys vm k (len + len') post' := by
  obtain ⟨vm', hsteps, hpc, hsp, hbp, hmem, hax⟩ := h
  obtain ⟨vm'', hsteps', hpc', hsp', hbp', hmem', hax'⟩ := h' vm' hpc hax
  refine ⟨vm'', hsteps.trans hsteps', hpc', hsp'.trans hsp, hbp'.trans hbp, fun b hb => ?_, hax'⟩
  rw [hmem' b (by rw [hsp]; omega), hmem b (by omega)]

/-- An instruction that leaves the stack alone. -/
theorem computes_step {vm' : Vm} (hstep : vm.step text sys = some vm') (hpc : vm'.pc = ctx.addr m)
    (hsp : vm'.sp = vm.sp) (hbp : vm'.bp = vm.bp) (hmem : vm'.mem = vm.mem) (hax : post vm'.ax) :
    Computes ctx text sys vm m len post :=
  ⟨vm', .single hstep, hpc, hsp, hbp, fun _ _ => by rw [hmem], hax⟩

theorem computes_imm (hop : textAt ctx text n = some Op.imm.code) (harg : textAt ctx text (n + 1) = some v)
    (hpc : vm.pc = ctx.addr n) : Computes ctx text sys vm (n + 2) 2 (· = v) := by
  have hstep : vm.step text sys = some { vm with pc := vm.pc + 8, ax := v } := by
    simp only [Vm.step, textAt_decode hop hpc, textAt_arg harg hpc]
  exact computes_step hstep (by rw [hpc, Context.addr_add_two]) rfl rfl rfl rfl

theorem computes_jmp (hseg : Seg (textAt ctx text) n [Op.jmp.code, ctx.addr k]) (hpc : vm.pc = ctx.addr n) :
    Computes ctx text sys vm k 2 (· = vm.ax) := by
  have hstep : vm.step text sys = some { vm with pc := ctx.addr k } := by
    simp only [Vm.step, textAt_decode hseg.head hpc, textAt_arg hseg.tail.head hpc]
  exact computes_step hstep rfl rfl rfl rfl rfl

theorem computes_jz (hseg : Seg (textAt ctx text) n [Op.jz.code, ctx.addr k]) (hpc : vm.pc = ctx.addr n) :
    Computes ctx text sys vm (if vm.ax = 0 then k else n + 2) 2 (· = vm.ax) := by
  have hstep : vm.step text sys = some { vm with pc := ctx.addr (if vm.ax = 0 then k else n + 2) } := by
    simp only [Vm.step, textAt_decode hseg.head hpc, textAt_arg hseg.tail.head hpc, ite_not]
    split
    · rfl
    · rw [hpc, Context.addr_add_two]
  exact computes_step hstep rfl rfl rfl rfl rfl

/-- The jump of `||` and `&&` leaves out the right operand if the left one decides. -/
theorem computes_junction {j : Junction} (hseg : Seg (textAt ctx text) n [j.jump.code, ctx.addr k])
    (hpc : vm.pc = ctx.addr n) :
    Computes ctx text sys vm (if j.Decides vm.ax then k else n + 2) 2 (· = vm.ax) := by
  cases j with
  | lan => exact computes_jz hseg hpc
  | lor =>
    have hstep : vm.step text sys =
        some { vm with pc := ctx.addr (if Junction.lor.Decides vm.ax then k else n + 2) } := by
      have hdecode : Op.decode (text vm.pc) = some .jnz := textAt_decode hseg.head hpc
      have hskip : vm.pc + 8 = ctx.addr (n + 2) := by rw [hpc, Context.addr_add_two]
      by_cases hax : vm.ax = 0
      · simp only [Vm.step, hdecode, Junction.Decides, hax, ne_eq, not_true_eq_false, if_false, hskip]
      · simp only [Vm.step, hdecode, textAt_arg hseg.tail.head hpc, Junction.Decides, hax, ne_eq, not_false_eq_true,
          if_true]
    exact computes_step hstep rfl rfl rfl rfl rfl

theorem loadInt_congr {mem mem' : Memory} {a : Word} {len : Nat} (hlen : len < 2 ^ 30 - 1)
    (h : ∀ b, (b - a).toNat + 4 * len < 2 ^ 32 → mem' b = mem b) : mem'.loadInt a = mem.loadInt a := by
  have hnear (i : Word) (hi : i.toNat < 4) : mem' (a + i) = mem (a + i) := h _ (by
    have hsub : a + i - a = i := by bv_omega
    rw [hsub]
    omega)
  have hzero : mem' a = mem a := h a (by bv_omega)
  rw [Memory.loadInt, Memory.loadInt, hzero, hnear 1 (by decide), hnear 2 (by decide), hnear 3 (by decide)]

theorem storeInt_other {mem : Memory} {a b v : Word} (h : (b - a).toNat ≥ 4) : mem.storeInt a v b = mem b := by
  unfold Memory.storeInt
  rw [if_neg, if_neg, if_neg, if_neg] <;> (rintro rfl; bv_omega)

/-- Two operands: the left one stays on the stack while the right one is computed. -/
theorem Computes.binary {op : BinOp} {len₂ : Nat} {Q R : Word → Prop}
    (ha : Computes ctx text sys vm m len post) (hpush : textAt ctx text m = some Op.push.code)
    (hb : ∀ vm' : Vm, vm'.pc = ctx.addr (m + 1) → Computes ctx text sys vm' k len₂ Q)
    (hop : textAt ctx text k = some (Op.bin op).code) (hsmall : len₂ < 2 ^ 30 - 1)
    (heval : ∀ x y, post x → Q y → ∃ v, op.eval x y = some v ∧ R v) :
    Computes ctx text sys vm (k + 1) (len + 1 + len₂ + 1) R := by
  obtain ⟨vm₁, hsteps₁, hpc₁, hsp₁, hbp₁, hmem₁, hax₁⟩ := ha
  have hnext (n : Nat) : ctx.addr n + 4 = ctx.addr (n + 1) := ctx.addr_add n 1
  let vm₂ : Vm := { vm₁ with pc := vm₁.pc + 4 }.push vm₁.ax
  have hstep₂ : vm₁.step text sys = some vm₂ := by simp only [Vm.step, textAt_decode hpush hpc₁, vm₂]
  have hpc₂ : vm₂.pc = ctx.addr (m + 1) := by rw [← hnext, ← hpc₁]; rfl
  obtain ⟨vm₃, hsteps₃, hpc₃, hsp₃, hbp₃, hmem₃, hax₃⟩ := hb vm₂ hpc₂
  obtain ⟨v, hv, hpost⟩ := heval vm₁.ax vm₃.ax hax₁ hax₃
  have htop : vm₃.top = vm₁.ax := by
    rw [Vm.top, hsp₃, loadInt_congr hsmall hmem₃]
    exact Memory.loadInt_storeInt _ _ _
  have hstep₄ : vm₃.step text sys = some { vm₃ with pc := vm₃.pc + 4, sp := vm₃.sp + 4, ax := v } := by
    simp only [Vm.step, textAt_decode hop hpc₃, htop, hv, Option.map_some]
  have hsp : vm₂.sp = vm.sp - 4 := by rw [← hsp₁]; rfl
  refine ⟨_, ((hsteps₁.tail hstep₂).trans hsteps₃).tail hstep₄, by rw [hpc₃, hnext], ?_, hbp₃.trans hbp₁,
    fun b hfar => ?_, hpost⟩
  · show vm₃.sp + 4 = vm.sp
    rw [hsp₃, hsp]
    bv_omega
  · show vm₃.mem b = vm.mem b
    rw [hmem₃ b (by rw [hsp]; bv_omega)]
    show vm₁.mem.storeInt (vm₁.sp - 4) vm₁.ax b = vm.mem b
    rw [storeInt_other (by rw [hsp₁]; bv_omega), hmem₁ b (by omega)]

end

/-! ## What the machine computes -/

/-- What a value is used for: as a number, or only to decide. -/
inductive Use
  | number
  | condition

/-- The word is as good as the value. -/
def Use.Agrees (use : Use) (x v : Word) : Prop :=
  match use with
  | .number => x = v
  | .condition => x = 0 ↔ v = 0

theorem Use.agrees_refl (use : Use) (v : Word) : use.Agrees v v := by
  cases use with
  | number => rfl
  | condition => exact Iff.rfl

theorem Use.Agrees.zero_iff {use : Use} {x v : Word} (h : use.Agrees x v) : x = 0 ↔ v = 0 := by
  cases use with
  | number => exact iff_of_eq (congrArg (· = 0) h)
  | condition => exact h

theorem Use.Agrees.truth {use : Use} {x v : Word} (h : use.Agrees x v) (hbit : use = .number → v = 0 ∨ v = 1) :
    use.Agrees x (truth (v ≠ 0)) := by
  cases use with
  | number =>
    obtain rfl : x = v := h
    rcases hbit rfl with rfl | rfl <;> rfl
  | condition =>
    refine Iff.trans h ?_
    unfold Interpreter.truth
    split
    · next hv => exact iff_of_false hv (by decide)
    · next hv => exact iff_of_true (not_not.mp hv) rfl

theorem Junction.decides_congr {j : Junction} {x v : Word} (h : x = 0 ↔ v = 0) : j.Decides x ↔ j.Decides v := by
  cases j with
  | lor => exact not_congr h
  | lan => exact h

namespace CExpr

/-- Where `||` and `&&` are used as numbers, the operand that decides is 0 or 1. No division overflows. -/
def Clean : CExpr → Use → Prop
  | num _, _ => True
  | paren e, use => e.Clean use
  | unary .not e, _ => e.Clean .condition
  | unary _ e, _ => e.Clean .number
  | operation (.bin op) a b, _ =>
    a.Clean .number ∧ b.Clean .number ∧ ∀ x y, a.value = some x → b.value = some y → ¬ op.Overflows x y
  | operation (.junction j) a b, .condition =>
    a.Clean .condition ∧ ∀ x, a.value = some x → ¬ j.Decides x → b.Clean .condition
  | operation (.junction j) a b, .number =>
    a.Clean .condition ∧ ∀ x, a.value = some x →
      (j.Decides x → a.Clean .number ∧ (x = 0 ∨ x = 1)) ∧
      (¬ j.Decides x → b.Clean .number ∧ ∀ y, b.value = some y → y = 0 ∨ y = 1)
  | cond c a b, use =>
    c.Clean .condition ∧ ∀ x, c.value = some x → (x ≠ 0 → a.Clean use) ∧ (x = 0 → b.Clean use)

/-- What the code of `e` computes. -/
def Correct (ctx : Context) (text : Word → Word) (sys : SysCall → Vm → Word × Memory) (e : CExpr) : Prop :=
  ∀ use n v vm, e.value = some v → e.Clean use → Seg (textAt ctx text) n (e.toExpr.gen ctx n) →
    (e.toExpr.gen ctx n).length < 2 ^ 30 → vm.pc = ctx.addr n →
      Computes ctx text sys vm (n + (e.toExpr.gen ctx n).length) (e.toExpr.gen ctx n).length (use.Agrees · v)

theorem toExpr_type (e : CExpr) : e.toExpr.type = INT := by
  induction e with
  | num v => rfl
  | paren e ih => exact ih
  | unary op e =>
    cases op with
    | neg => cases e <;> rfl
    | _ => rfl
  | operation op a b iha ihb =>
    cases op with
    | junction j => rfl
    | bin op =>
      show (op.finish a.toExpr.type b.toExpr.type).2 = INT
      rw [iha, ihb]
      cases op <;> rfl
  | cond c a b _ _ ihb => exact ihb

section
variable {ctx : Context} {text : Word → Word} {sys : SysCall → Vm → Word × Memory} {e a b c : CExpr}

theorem correct_num (v : Word) : (num v).Correct ctx text sys := by
  rintro use n w vm hv - hseg - hpc
  obtain rfl := Option.some.inj hv
  refine (computes_imm hseg.head hseg.tail.head hpc).imp rfl (Nat.le_refl _) fun x hx => ?_
  rw [hx]
  exact use.agrees_refl v

theorem correct_plus (he : e.Correct ctx text sys) : (unary .plus e).Correct ctx text sys := by
  rintro use n v vm hv hclean hseg hsmall hpc
  obtain ⟨x, hx, rfl⟩ := Option.map_eq_some_iff.mp hv
  refine (he .number n x vm hx hclean hseg hsmall hpc).imp rfl (Nat.le_refl _) fun y hy => ?_
  obtain rfl : y = x := hy
  exact use.agrees_refl y

/-- The operators in front that are computed with a number behind their operand. -/
theorem correct_with {op : UnOp} {o : BinOp} {w : Word} {u : Use} (he : e.Correct ctx text sys)
    (hgen : ∀ n, (unary op e).toExpr.gen ctx n = e.toExpr.gen ctx n ++ withWords w o)
    (hclean : ∀ use, (unary op e).Clean use → e.Clean u)
    (heval : ∀ x v, u.Agrees x v → o.eval x w = some (op.value v)) : (unary op e).Correct ctx text sys := by
  rintro use n v vm hv hcl hseg hsmall hpc
  obtain ⟨x, hx, rfl⟩ := Option.map_eq_some_iff.mp hv
  rw [hgen] at hseg hsmall ⊢
  rw [List.length_append] at hsmall ⊢
  have hcode := he u n x vm hx (hclean use hcl) hseg.left (by omega) hpc
  have himm (vm' : Vm) (hpc' : vm'.pc = ctx.addr (n + (e.toExpr.gen ctx n).length + 1)) :
      Computes ctx text sys vm' (n + (e.toExpr.gen ctx n).length + 1 + 2) 2 (· = w) :=
    computes_imm hseg.right.tail.head hseg.right.tail.tail.head hpc'
  have hall := hcode.binary (R := (· = op.value x)) hseg.right.head himm hseg.right.tail.tail.tail.head (by decide)
    fun y z hy hz => ⟨op.value x, by rw [hz]; exact heval y x hy, rfl⟩
  refine hall.imp (by rw [← Nat.add_assoc]; rfl) (Nat.le_refl _) fun y hy => ?_
  obtain rfl := hy
  exact use.agrees_refl _

theorem correct_minus (he : e.Correct ctx text sys) (htree : (unary .neg e).toExpr = .minus e.toExpr) :
    (unary .neg e).Correct ctx text sys := by
  rintro use n v vm hv hclean hseg hsmall hpc
  obtain ⟨x, hx, rfl⟩ := Option.map_eq_some_iff.mp hv
  rw [htree, Expr.gen] at hseg hsmall ⊢
  simp only [List.length_append, List.length_cons, List.length_nil] at hsmall ⊢
  have hone : Computes ctx text sys vm (n + 2) 2 (· = -1) :=
    computes_imm hseg.left.left.head hseg.left.left.tail.head hpc
  have hcode (vm' : Vm) (hpc' : vm'.pc = ctx.addr (n + 3)) :=
    he .number (n + 3) x vm' hx hclean hseg.left.right (by omega) hpc'
  have hmul : textAt ctx text (n + 3 + (e.toExpr.gen ctx (n + 3)).length) = some (Op.bin .mul).code :=
    (hseg.behind (by rw [List.length_append, ← Nat.add_assoc]; rfl)).head
  have hall := hone.binary (R := (· = UnOp.neg.value x)) hseg.left.left.tail.tail.head hcode hmul (by omega)
    fun y z hy hz => by
      obtain rfl := hy
      obtain rfl : z = x := hz
      refine ⟨-1 * z, rfl, ?_⟩
      rw [UnOp.value, wrap, BitVec.ofInt_neg, BitVec.ofInt_toInt, BitVec.neg_mul]
      bv_omega
  refine hall.imp (by omega) (by omega) fun y hy => ?_
  obtain rfl := hy
  exact use.agrees_refl _

theorem correct_unary {op : UnOp} (he : e.Correct ctx text sys) : (unary op e).Correct ctx text sys := by
  cases op with
  | plus => exact correct_plus he
  | neg =>
    cases e with
    | num w =>
      rintro use n v vm hv - hseg - hpc
      obtain rfl := Option.some.inj hv
      refine (computes_imm hseg.head hseg.tail.head hpc).imp rfl (Nat.le_refl _) fun x hx => ?_
      rw [hx, UnOp.value, wrap, BitVec.ofInt_neg, BitVec.ofInt_toInt]
      exact use.agrees_refl _
    | _ => exact correct_minus he rfl
  | not =>
    refine correct_with (w := 0) (o := .eq) (u := .condition) he (fun _ => rfl) (fun _ => id) fun x v hx => ?_
    rw [BinOp.eval, UnOp.value, truth]
    simp only [show x = 0 ↔ v = 0 from hx]
  | complement =>
    refine correct_with (w := -1) (o := .xor) (u := .number) he (fun _ => rfl) (fun _ => id) fun x v hx => ?_
    obtain rfl : x = v := hx
    have hones : (-1 : Word) = BitVec.allOnes 32 := by decide
    rw [BinOp.eval, UnOp.value, hones, BitVec.xor_allOnes]

theorem finish_int (op : BinOp) : (op.finish INT INT).1 = [(Op.bin op).code] := by
  cases op <;> rfl

theorem correct_bin {op : BinOp} (ha : a.Correct ctx text sys) (hb : b.Correct ctx text sys) :
    (operation (.bin op) a b).Correct ctx text sys := by
  rintro use n v vm hv ⟨hca, hcb, hover⟩ hseg hsmall hpc
  obtain ⟨x, hx, hv⟩ := Option.bind_eq_some_iff.mp hv
  obtain ⟨y, hy, hv⟩ := Option.bind_eq_some_iff.mp hv
  have hgen : (operation (.bin op) a b).toExpr.gen ctx n = a.toExpr.gen ctx n ++ [Op.push.code] ++
      b.toExpr.gen ctx (n + (a.toExpr.gen ctx n).length + 1) ++ [(Op.bin op).code] := by
    show (Expr.binary op a.toExpr b.toExpr).gen ctx n = _
    rw [Expr.gen, toExpr_type, toExpr_type, finish_int]
  rw [hgen] at hseg hsmall ⊢
  simp only [List.length_append, List.length_singleton] at hsmall ⊢
  generalize hm : n + (a.toExpr.gen ctx n).length = m at *
  have hleft := ha .number n x vm hx hca hseg.left.left.left (by omega) hpc
  rw [hm] at hleft
  have hright (vm' : Vm) (hpc' : vm'.pc = ctx.addr (m + 1)) :=
    hb .number (m + 1) y vm' hy hcb (hseg.left.behind (by rw [List.length_append, List.length_singleton]; omega))
      (by omega) hpc'
  have hop : textAt ctx text (m + 1 + (b.toExpr.gen ctx (m + 1)).length) = some (Op.bin op).code :=
    (hseg.behind (by simp only [List.length_append, List.length_singleton]; omega)).head
  have hpush := (hseg.left.left.behind hm.symm).head
  have hall := hleft.binary (R := (· = v)) hpush hright hop (by omega) fun x' y' hx' hy' => by
    obtain rfl : x' = x := hx'
    obtain rfl : y' = y := hy'
    exact ⟨v, BinOp.eval_of_value hv (hover _ _ hx hy), rfl⟩
  refine hall.imp (by omega) (by omega) fun w hw => ?_
  obtain rfl : w = v := hw
  exact use.agrees_refl _

/-- What `Clean` says of the operand that decides, and of the other one. -/
theorem Clean.junction {j : Junction} {use : Use} {x : Word} (h : (operation (.junction j) a b).Clean use)
    (hx : a.value = some x) : (j.Decides x → a.Clean use ∧ (use = .number → x = 0 ∨ x = 1)) ∧
      (¬ j.Decides x → a.Clean .condition ∧ b.Clean use ∧ ∀ y, b.value = some y → use = .number → y = 0 ∨ y = 1) := by
  cases use with
  | number =>
    obtain ⟨ha, hboth⟩ := h
    obtain ⟨hyes, hno⟩ := hboth x hx
    exact ⟨fun hd => ⟨(hyes hd).1, fun _ => (hyes hd).2⟩, fun hd => ⟨ha, (hno hd).1, fun y hy _ => (hno hd).2 y hy⟩⟩
  | condition =>
    obtain ⟨ha, hb⟩ := h
    exact ⟨fun _ => ⟨ha, fun h => nomatch h⟩, fun hd => ⟨ha, hb x hx hd, fun _ _ h => nomatch h⟩⟩

theorem correct_junction {j : Junction} (ha : a.Correct ctx text sys) (hb : b.Correct ctx text sys) :
    (operation (.junction j) a b).Correct ctx text sys := by
  rintro use n v vm hv hclean hseg hsmall hpc
  obtain ⟨x, hx, hv⟩ := Option.bind_eq_some_iff.mp hv
  obtain ⟨hyes, hno⟩ := hclean.junction hx
  change Seg _ n ((Expr.logical j a.toExpr b.toExpr).gen ctx n) at hseg
  change ((Expr.logical j a.toExpr b.toExpr).gen ctx n).length < _ at hsmall
  show Computes ctx text sys vm (n + ((Expr.logical j a.toExpr b.toExpr).gen ctx n).length)
    ((Expr.logical j a.toExpr b.toExpr).gen ctx n).length _
  simp only [Expr.gen, List.length_append, List.length_cons, List.length_nil] at hseg hsmall ⊢
  have hcode (u : Use) (hclean : a.Clean u) := ha u n x vm hx hclean hseg.left.left (by omega) hpc
  generalize hm : n + (a.toExpr.gen ctx n).length = m at *
  have hjump (vm' : Vm) (hpc' : vm'.pc = ctx.addr m) : Computes ctx text sys vm' _ 2 (· = vm'.ax) :=
    computes_junction (hseg.left.behind hm.symm) hpc'
  split at hv
  · next hd =>
    obtain rfl := Option.some.inj hv
    obtain ⟨hca, hbit⟩ := hyes hd
    have hall : Computes ctx text sys vm (m + 2 + (b.toExpr.gen ctx (m + 2)).length)
        ((a.toExpr.gen ctx n).length + 2) (use.Agrees · (truth (x ≠ 0))) :=
      (hcode use hca).trans fun vm' hpc' hax => by
        have hd' : j.Decides vm'.ax := (Junction.decides_congr hax.zero_iff).mpr hd
        refine (hjump vm' hpc').imp (if_pos hd').symm (Nat.le_refl _) fun w hw => ?_
        rw [hw]
        exact hax.truth hbit
    exact hall.imp (by omega) (by omega) fun _ => id
  · next hd =>
    obtain ⟨y, hy, hv⟩ := Option.bind_eq_some_iff.mp hv
    obtain rfl := Option.some.inj hv
    obtain ⟨hca, hcb, hbit⟩ := hno hd
    have hright : Seg (textAt ctx text) (m + 2) (b.toExpr.gen ctx (m + 2)) :=
      hseg.behind (by simp only [List.length_append, List.length_cons, List.length_nil]; omega)
    have hall : Computes ctx text sys vm (m + 2 + (b.toExpr.gen ctx (m + 2)).length)
        ((a.toExpr.gen ctx n).length + (2 + (b.toExpr.gen ctx (m + 2)).length)) (use.Agrees · (truth (y ≠ 0))) :=
      (hcode .condition hca).trans fun vm' hpc' hax => by
        have hd' : ¬ j.Decides vm'.ax := fun h => hd ((Junction.decides_congr hax.zero_iff).mp h)
        have hskip := (hjump vm' hpc').imp (if_neg hd').symm (Nat.le_refl _) fun _ => id
        refine hskip.trans fun vm'' hpc'' _ => ?_
        exact (hb use (m + 2) y vm'' hy hcb hright (by omega) hpc'').imp rfl (Nat.le_refl _) fun w hw =>
          hw.truth (hbit y hy)
    exact hall.imp (by omega) (by omega) fun _ => id

theorem correct_cond (hc : c.Correct ctx text sys) (ha : a.Correct ctx text sys) (hb : b.Correct ctx text sys) :
    (cond c a b).Correct ctx text sys := by
  rintro use n v vm hv ⟨hcc, hboth⟩ hseg hsmall hpc
  obtain ⟨x, hx, hv⟩ := Option.bind_eq_some_iff.mp hv
  obtain ⟨hyes, hno⟩ := hboth x hx
  simp only [toExpr, Expr.gen, List.length_append, List.length_cons, List.length_nil] at hseg hsmall ⊢
  have hcode := hc .condition n x vm hx hcc hseg.left.left.left.left (by omega) hpc
  generalize hm : n + (c.toExpr.gen ctx n).length = m at *
  generalize hj : m + 2 + (a.toExpr.gen ctx (m + 2)).length = j at *
  have hjump (vm' : Vm) (hpc' : vm'.pc = ctx.addr m) : Computes ctx text sys vm' _ 2 (· = vm'.ax) :=
    computes_jz (hseg.left.left.left.behind hm.symm) hpc'
  split at hv
  · next hne =>
    have hthen : Seg (textAt ctx text) (m + 2) (a.toExpr.gen ctx (m + 2)) :=
      hseg.left.left.behind (by simp only [List.length_append, List.length_cons, List.length_nil]; omega)
    have hover := hseg.left.behind (m := j)
      (by simp only [List.length_append, List.length_cons, List.length_nil]; omega)
    have hall : Computes ctx text sys vm (j + 2 + (b.toExpr.gen ctx (j + 2)).length)
        ((c.toExpr.gen ctx n).length + (2 + ((a.toExpr.gen ctx (m + 2)).length + 2))) (use.Agrees · v) :=
      hcode.trans fun vm' hpc' hax => by
        have hax' : vm'.ax ≠ 0 := fun h => hne (hax.zero_iff.mp h)
        have hskip := (hjump vm' hpc').imp (if_neg hax').symm (Nat.le_refl _) fun _ => id
        refine hskip.trans fun vm'' hpc'' _ => ?_
        have htrue := ha use (m + 2) v vm'' hv (hyes hne) hthen (by omega) hpc''
        rw [hj] at htrue
        refine htrue.trans fun vm₃ hpc₃ hax₃ => ?_
        exact (computes_jmp hover hpc₃).imp rfl (Nat.le_refl _) fun w hw => by rw [hw]; exact hax₃
    exact hall.imp (by omega) (by omega) fun _ => id
  · next heq =>
    have helse : Seg (textAt ctx text) (j + 2) (b.toExpr.gen ctx (j + 2)) :=
      hseg.behind (by simp only [List.length_append, List.length_cons, List.length_nil]; omega)
    have hzero : x = 0 := not_not.mp heq
    have hall : Computes ctx text sys vm (j + 2 + (b.toExpr.gen ctx (j + 2)).length)
        ((c.toExpr.gen ctx n).length + (2 + (b.toExpr.gen ctx (j + 2)).length)) (use.Agrees · v) :=
      hcode.trans fun vm' hpc' hax => by
        have hskip := (hjump vm' hpc').imp (if_pos (hax.zero_iff.mpr hzero)).symm (Nat.le_refl _) fun _ => id
        refine hskip.trans fun vm'' hpc'' _ => ?_
        exact hb use (j + 2) v vm'' hv (hno hzero) helse (by omega) hpc''
    exact hall.imp (by omega) (by omega) fun _ => id

variable (ctx text sys) in
/-- The machine computes what C says. -/
theorem correct (e : CExpr) : e.Correct ctx text sys := by
  induction e with
  | num v => exact correct_num v
  | paren e ih => exact ih
  | unary op e ih => exact correct_unary ih
  | operation op a b iha ihb =>
    cases op with
    | bin op => exact correct_bin iha ihb
    | junction j => exact correct_junction iha ihb
  | cond c a b ihc iha ihb => exact correct_cond ihc iha ihb

end

end CExpr

theorem Loaded.textAt {ctx : Context} {text : Word → Word} {t words : List Word} (h : Loaded ctx (t ++ words) text) :
    Seg (textAt ctx text) t.length words := fun _ hi => congrArg some (h.behind hi)

/-- The tokens of a constant expression are read to its end, and the machine computes its value. -/
theorem expression_constant {ctx : Context} {fuel : Nat} {s s' : Lexer} {e : CExpr} {rest : List Lexeme} {v : Word}
    (hs : expression ctx fuel .assign s = some s') (hinput : s.input.At (e.tokens ++ rest)) (hrest : Closes rest)
    (hgr : e.Grammatical) (hvalue : e.value = some v) (hsmall : s'.text.length < 2 ^ 30) (hsep : e.EqSeparate)
    (hclean : e.Clean .number) :
    s'.input.At rest ∧ ∀ text sys vm, Loaded ctx s'.text text → vm.pc = ctx.addr s.text.length →
      ∃ vm', Steps text sys vm vm' ∧ vm'.pc = ctx.addr s'.text.length ∧ vm'.ax = v ∧ vm'.sp = vm.sp ∧
        vm'.bp = vm.bp := by
  obtain ⟨tree, hparse, htext, -, -⟩ := expression_compiles ctx fuel .assign s s' hs
  obtain ⟨rfl, hat⟩ := parseExpression_constant hgr hsep hrest hinput hparse
  refine ⟨hat, fun text sys vm hloaded hpc => ?_⟩
  rw [htext] at hloaded hsmall ⊢
  rw [List.length_append] at hsmall ⊢
  obtain ⟨vm', hsteps, hpc', hsp, hbp, -, hax⟩ :=
    CExpr.correct ctx text sys e .number s.text.length v vm hvalue hclean hloaded.textAt (by omega) hpc
  exact ⟨vm', hsteps, hpc', hax, hsp, hbp⟩

theorem CExpr.no_overflow {op : BinOp} {a b : CExpr} (hop : ¬ (op = .div ∨ op = .mod)) (x y : Word) :
    a.value = some x → b.value = some y → ¬ op.Overflows x y := fun _ _ h => hop h.1

/-- A lexer in front of an expression and a semicolon. -/
def CExpr.lexer (e : CExpr) : Lexer where
  input := Input.enter ⟨e.tokens ++ [.tok .semicolon], 0, ⟨.undefined, 0⟩⟩
  exprType := INT
  text := []

/-- `2 && 1 + 2 * 3 == 7` -/
def andSum : CExpr :=
  .operation (.junction .lan) (.num 2) (.operation (.bin .eq)
    (.operation (.bin .add) (.num 1) (.operation (.bin .mul) (.num 2) (.num 3))) (.num 7))

theorem expression_constant_andSum : ∃ s', expression ⟨0x1000, 0⟩ 10 .assign andSum.lexer = some s' ∧
    s'.input.At [.tok .semicolon] ∧ ∀ text sys vm, Loaded ⟨0x1000, 0⟩ s'.text text → vm.pc = 0x1000 →
      ∃ vm', Steps text sys vm vm' ∧ vm'.pc = Context.addr ⟨0x1000, 0⟩ s'.text.length ∧ vm'.ax = 1 ∧
        vm'.sp = vm.sp ∧ vm'.bp = vm.bp := by
  have hrun : (expression ⟨0x1000, 0⟩ 10 .assign andSum.lexer).map (fun s => s.text.length) = some 18 := by rfl
  obtain ⟨s', hs, hlen⟩ := Option.map_eq_some_iff.mp hrun
  refine ⟨s', hs, expression_constant (e := andSum) (v := 1) hs ⟨rfl, ?_⟩ ⟨by decide, by decide, by decide⟩ ?_ (by rfl)
    (by rw [hlen]; decide) ?_ ?_⟩
  · intro v rest h
    obtain rfl := Lexeme.num.inj (List.cons.inj h).1
    rfl
  · simp [andSum, CExpr.Grammatical, CExpr.prec, Operator.prec]
  · simp [andSum, CExpr.EqSeparate, CExpr.IsEq]
  · have hsum : CExpr.Clean (.operation (.bin .add) (.num 1) (.operation (.bin .mul) (.num 2) (.num 3))) .number :=
      ⟨trivial, ⟨trivial, trivial, CExpr.no_overflow (by decide)⟩, CExpr.no_overflow (by decide)⟩
    refine ⟨trivial, fun x hx => ⟨fun hd => ?_, fun _ => ⟨⟨hsum, trivial, ?_⟩, fun y hy => .inr ?_⟩⟩⟩
    · obtain rfl := Option.some.inj hx
      exact absurd hd (by decide)
    · exact CExpr.no_overflow (by decide)
    · exact (Option.some.inj hy).symm

/-- `2 == 2 != 2` in C -/
def eqThenNe : CExpr :=
  .operation (.bin .ne) (.operation (.bin .eq) (.num 2) (.num 2)) (.num 2)

/-- `2 == (2 != 2)`, which is computed. -/
def eqOfNe : CExpr :=
  .operation (.bin .eq) (.num 2) (.operation (.bin .ne) (.num 2) (.num 2))

theorem steps_stuck {text : Word → Word} {sys : SysCall → Vm → Word × Memory} {vm a b : Vm}
    (ha : Steps text sys vm a) (hb : Steps text sys vm b) (hstuck : a.step text sys = none)
    (hstuck' : b.step text sys = none) : a = b := by
  have hunique : Relator.RightUnique fun a b : Vm => a.step text sys = some b := fun _ _ _ h h' =>
    Option.some.inj (h.symm.trans h')
  rcases Relation.ReflTransGen.total_of_right_unique hunique ha hb with h | h
  · rcases Relation.ReflTransGen.cases_head h with rfl | ⟨c, hc, -⟩
    · rfl
    · exact absurd (hstuck.symm.trans hc) (Option.some_ne_none _).symm
  · rcases Relation.ReflTransGen.cases_head h with rfl | ⟨c, hc, -⟩
    · rfl
    · exact absurd (hstuck'.symm.trans hc) (Option.some_ne_none _).symm

/-- C has `2 == 2 != 2` as 1, the machine computes 0. -/
theorem eqThenNe_miscompiled : ∃ s', expression ⟨0x1000, 0⟩ 10 .assign eqThenNe.lexer = some s' ∧
    eqThenNe.Grammatical ∧ eqThenNe.value = some 1 ∧
      ¬ ∀ text sys vm, Loaded ⟨0x1000, 0⟩ s'.text text → vm.pc = 0x1000 →
        ∃ vm', Steps text sys vm vm' ∧ vm'.pc = Context.addr ⟨0x1000, 0⟩ s'.text.length ∧ vm'.ax = 1 := by
  have hrun : (expression ⟨0x1000, 0⟩ 10 .assign eqThenNe.lexer).map (fun s => s.text) =
    some (eqOfNe.toExpr.gen ⟨0x1000, 0⟩ 0) := by rfl
  obtain ⟨s', hs, htext⟩ := Option.map_eq_some_iff.mp hrun
  refine ⟨s', hs, by simp [eqThenNe, CExpr.Grammatical, CExpr.prec, Operator.prec], by rfl, fun h => ?_⟩
  rw [htext] at h
  let words := eqOfNe.toExpr.gen ⟨0x1000, 0⟩ 0
  -- behind the words the machine stops, at an unknown instruction
  let text (a : Word) : Word := words.getD ((a - 0x1000).toNat / 4) 99
  let sys (_ : SysCall) (vm : Vm) : Word × Memory := (0, vm.mem)
  have hloaded : Loaded ⟨0x1000, 0⟩ ([] ++ words) text := by
    have hall : ∀ i : Fin words.length, text (Context.addr ⟨0x1000, 0⟩ i) = words.get i := by decide
    exact fun i hi => hall ⟨i, hi⟩
  have hclean : eqOfNe.Clean .number :=
    ⟨trivial, ⟨trivial, trivial, CExpr.no_overflow (by decide)⟩, CExpr.no_overflow (by decide)⟩
  let vm : Vm := ⟨0x1000, 0x9000, 0x8000, 0, fun _ => 0⟩
  obtain ⟨a, ha, hpca, -, -, -, hax⟩ :=
    CExpr.correct _ text sys eqOfNe .number 0 0 vm (by rfl) hclean hloaded.textAt (by decide) (by decide)
  obtain ⟨b, hb, hpcb, hbx⟩ := h text sys vm hloaded rfl
  have hstuck (vm : Vm) (hpc : vm.pc = Context.addr ⟨0x1000, 0⟩ 10) : vm.step text sys = none := by
    have hdecode : Op.decode (text vm.pc) = none := by rw [hpc]; decide
    simp only [Vm.step, hdecode]
  obtain rfl := steps_stuck ha hb (hstuck a hpca) (hstuck b hpcb)
  rw [show a.ax = 0 from hax] at hbx
  exact absurd hbx (by decide)

end RetrOS.Interpreter
