import RetrOS.Developer.Statement
import RetrOS.Lib.Seg
import RetrOS.Lib.Until

/-!
# The stack discipline of compiled code

The machine on the words that `expression` and `statement` emit, with a count of the words that they have on the stack.
Either way of a conditional jump is taken; a function that is called returns, with `sp` and `bp` as they were.

* `Fragment.Disciplined` : until the machine is behind the code, nothing is popped that the code has not pushed, and
  behind it `sp` and `bp` are as they were;
* `Fragment.Moves` : what a piece of code does to the stack, with the rules `Moves.trans`, `Moves.frame`;
* `Expr.Sound` : only the operands whose last word loads their value are stored to.
-/

namespace RetrOS.Interpreter
open RetrOS.Lib

/-! ## The machine on a piece of code -/

/-- How many words an instruction takes from the stack. -/
def Op.pops (op : Op) (arg : Word) : Nat :=
  match op with
  | .si => 1
  | .sc => 1
  | .bin _ => 1
  | .adj => arg.toNat
  | _ => 0

def Op.pushes (op : Op) (arg : Word) : Nat :=
  match op with
  | .push => 1
  | .ent => arg.toNat + 1
  | _ => 0

/-- The instruction goes on to the next one. -/
def Op.Straight : Op → Prop
  | .jmp | .call | .jz | .jnz | .ent | .lev => False
  | _ => True

/-- The words of an instruction with its operand. -/
def Op.size : Op → Nat
  | .lea | .imm | .jmp | .call | .jz | .jnz | .ent | .adj => 2
  | _ => 1

theorem Vm.step_straight {text : Word → Word} {sys : SysCall → Vm → Word × Memory} {vm vm' : Vm} {op : Op}
    (hdecode : Op.decode (text vm.pc) = some op) (hop : op.Straight) (hstep : vm.step text sys = some vm') :
    vm'.pc = vm.pc + 4 * BitVec.ofNat 32 op.size ∧
      vm'.sp + 4 * BitVec.ofNat 32 (op.pushes (text (vm.pc + 4))) =
        vm.sp + 4 * BitVec.ofNat 32 (op.pops (text (vm.pc + 4))) ∧ vm'.bp = vm.bp := by
  rw [Vm.step, hdecode] at hstep
  cases op with
  | bin op =>
    obtain ⟨v, -, rfl⟩ := Option.map_eq_some_iff.mp hstep
    exact ⟨rfl, by simp [Op.pushes, Op.pops], rfl⟩
  | sys f =>
    cases f with
    | exit => exact absurd hstep (Option.some_ne_none _).symm
    | _ =>
      obtain rfl := Option.some.inj hstep
      exact ⟨rfl, rfl, rfl⟩
  | adj =>
    obtain rfl := Option.some.inj hstep
    exact ⟨rfl, by simp [Op.pushes, Op.pops], rfl⟩
  | push =>
    obtain rfl := Option.some.inj hstep
    refine ⟨rfl, ?_, rfl⟩
    show vm.sp - 4 + 4 * 1 = vm.sp + 4 * 0
    bv_omega
  | jmp | call | jz | jnz | ent | lev => exact hop.elim
  | _ =>
    obtain rfl := Option.some.inj hstep
    exact ⟨rfl, by simp [Op.pushes, Op.pops], rfl⟩

/-- The machine, and how many words the code has on the stack. -/
structure Counted where
  vm : Vm
  pushed : Nat

/-- Where `sp` would be without them. -/
def Counted.floor (c : Counted) : Word := c.vm.sp + 4 * BitVec.ofNat 32 c.pushed

/-- The words from `lo` up to `hi` of the text. -/
structure Fragment where
  ctx : Context
  text : Word → Word
  sys : SysCall → Vm → Word × Memory
  lo : Nat
  hi : Nat

namespace Fragment

def Inside (p : Fragment) (vm : Vm) : Prop := ∃ i, p.lo ≤ i ∧ i < p.hi ∧ vm.pc = p.ctx.addr i

/-- What an instruction can do; `LEV` leaves the code. -/
def Effect (p : Fragment) (op : Op) (vm vm' : Vm) : Prop :=
  match op with
  | .lev => False
  | .call => vm'.pc = vm.pc + 8 ∧ vm'.sp = vm.sp ∧ vm'.bp = vm.bp
  | .jz => ∃ ax, { vm with ax }.step p.text p.sys = some vm'
  | .jnz => ∃ ax, { vm with ax }.step p.text p.sys = some vm'
  | _ => vm.step p.text p.sys = some vm'

def Step (p : Fragment) (c c' : Counted) : Prop :=
  p.Inside c.vm ∧ ∃ op, Op.decode (p.text c.vm.pc) = some op ∧ p.Effect op c.vm c'.vm ∧
    c'.pushed = c.pushed + op.pushes (p.text (c.vm.pc + 4)) - op.pops (p.text (c.vm.pc + 4))

/-- The next instruction is in the code, and pops only what the code has pushed. -/
def Safe (p : Fragment) (c : Counted) : Prop :=
  p.Inside c.vm ∧ ∀ op, Op.decode (p.text c.vm.pc) = some op → op.pops (p.text (c.vm.pc + 4)) ≤ c.pushed

def Disciplined (p : Fragment) : Prop :=
  ∀ vm, vm.pc = p.ctx.addr p.lo →
    Until p.Step p.Safe (fun c => c.vm.pc = p.ctx.addr p.hi ∧ c.vm.sp = vm.sp ∧ c.vm.bp = vm.bp) ⟨vm, 0⟩

/-- The words of the text from `lo` up to `hi`. -/
def code (p : Fragment) (i : Nat) : Option Word :=
  if p.lo ≤ i ∧ i < p.hi then some (p.text (p.ctx.addr i)) else none

/-- `c'` is at the word `m`, with `b` words on the stack in the place of `a`. -/
structure Arrived (p : Fragment) (a m b : Nat) (c c' : Counted) : Prop where
  pc : c'.vm.pc = p.ctx.addr m
  pushed : c'.pushed + a = c.pushed + b
  floor : c'.floor = c.floor
  bp : c'.vm.bp = c.vm.bp

/-- The code from `n` to `m` takes `a` words from the stack, all pushed by the code, and leaves `b` there. -/
def Moves (p : Fragment) (n a m b : Nat) : Prop :=
  ∀ c : Counted, c.vm.pc = p.ctx.addr n → a ≤ c.pushed → Until p.Step p.Safe (p.Arrived a m b c) c

section
variable {p : Fragment} {n m k a b d : Nat}

theorem Arrived.trans {c c' t : Counted} (ht : p.Arrived b k d c' t) (hc : p.Arrived a m b c c') :
    p.Arrived a k d c t :=
  ⟨ht.pc, by have := hc.pushed; have := ht.pushed; omega, ht.floor.trans hc.floor, ht.bp.trans hc.bp⟩

theorem Moves.refl : p.Moves n a n a := fun _ hpc _ => .here ⟨hpc, rfl, rfl, rfl⟩

/-- What comes next, once the machine is there. -/
theorem Moves.after {c c' : Counted} (h : p.Moves m b k d) (hc : p.Arrived a m b c c') (ha : a ≤ c.pushed) :
    Until p.Step p.Safe (p.Arrived a k d c) c' := by
  have hpushed := hc.pushed
  exact (h c' hc.pc (by omega)).imp (fun _ => id) fun _ ht => ht.trans hc

theorem Moves.trans (h : p.Moves n a m b) (h' : p.Moves m b k d) : p.Moves n a k d := fun c hpc ha =>
  (h c hpc ha).bind fun _ hc' => h'.after hc' ha

theorem Moves.frame (h : p.Moves n a m b) (d : Nat) : p.Moves n (a + d) m (b + d) := by
  intro c hpc ha
  refine (h c hpc (by omega)).imp (fun _ => id) fun t ht => ?_
  exact ⟨ht.pc, by have := ht.pushed; omega, ht.floor, ht.bp⟩

theorem code_eq {w : Word} (h : p.code n = some w) : (p.lo ≤ n ∧ n < p.hi) ∧ p.text (p.ctx.addr n) = w := by
  unfold code at h
  split at h
  · next hin => exact ⟨hin, Option.some.inj h⟩
  · exact absurd h (Option.some_ne_none _).symm

theorem moves_step (h : ∀ c : Counted, c.vm.pc = p.ctx.addr n → a ≤ c.pushed →
    p.Safe c ∧ ∀ c', p.Step c c' → p.Arrived a m b c c') : p.Moves n a m b := fun c hpc ha =>
  .step (h c hpc ha).1 fun c' hc' => .here ((h c hpc ha).2 c' hc')

/-! ## Instructions -/

/-- An instruction in its place: its effect is all that can happen. -/
theorem op_step {op : Op} {c : Counted} (hop : p.code n = some op.code) (hpc : c.vm.pc = p.ctx.addr n)
    (hpops : op.pops (p.text (c.vm.pc + 4)) ≤ c.pushed) : p.Safe c ∧ Op.decode (p.text c.vm.pc) = some op ∧
      ∀ c', p.Step c c' → p.Effect op c.vm c'.vm ∧
        c'.pushed = c.pushed + op.pushes (p.text (c.vm.pc + 4)) - op.pops (p.text (c.vm.pc + 4)) := by
  obtain ⟨⟨hlo, hhi⟩, htext⟩ := code_eq hop
  have hdecode : Op.decode (p.text c.vm.pc) = some op := by rw [hpc, htext, Op.decode_code]
  refine ⟨⟨⟨n, hlo, hhi, hpc⟩, fun op' hop' => ?_⟩, hdecode, ?_⟩
  · obtain rfl := Option.some.inj (hdecode.symm.trans hop')
    exact hpops
  · rintro c' ⟨-, op', hop', heffect, hpushed⟩
    obtain rfl := Option.some.inj (hdecode.symm.trans hop')
    exact ⟨heffect, hpushed⟩

theorem floor_eq {c c' : Counted} {pops pushes : Nat} (hpushed : c'.pushed + pops = c.pushed + pushes)
    (hsp : c'.vm.sp + 4 * BitVec.ofNat 32 pushes = c.vm.sp + 4 * BitVec.ofNat 32 pops) : c'.floor = c.floor := by
  unfold Counted.floor
  bv_omega

theorem moves_straight (op : Op) (hop : p.code n = some op.code) (hstraight : op.Straight)
    (hpops : op.pops (p.text (p.ctx.addr n + 4)) ≤ a)
    (hb : a + op.pushes (p.text (p.ctx.addr n + 4)) = b + op.pops (p.text (p.ctx.addr n + 4))) :
    p.Moves n a (n + op.size) b := by
  refine moves_step fun c hpc ha => ?_
  obtain ⟨hsafe, hdecode, hstep⟩ := op_step hop hpc (by rw [hpc]; omega)
  refine ⟨hsafe, fun c' hc' => ?_⟩
  obtain ⟨heffect, hpushed⟩ := hstep c' hc'
  have hvm : c.vm.step p.text p.sys = some c'.vm := by
    cases op <;> first | exact heffect | exact hstraight.elim
  obtain ⟨hpc', hsp, hbp⟩ := Vm.step_straight hdecode hstraight hvm
  rw [hpc] at hpc' hsp hpushed
  exact ⟨by rw [hpc', Context.addr_add], by omega, floor_eq (by omega) hsp, hbp⟩

theorem arg_eq {c : Counted} {w : Word} (harg : p.code (n + 1) = some w) (hpc : c.vm.pc = p.ctx.addr n) :
    p.text (c.vm.pc + 4) = w := by
  rw [← (code_eq harg).2, ← Context.addr_add, hpc]
  rfl

/-- The stack and its registers are as they were. -/
theorem arrived_same {c c' : Counted} (hpc : c'.vm.pc = p.ctx.addr m) (hpushed : c'.pushed = c.pushed)
    (hsp : c'.vm.sp = c.vm.sp) (hbp : c'.vm.bp = c.vm.bp) : p.Arrived a m a c c' :=
  ⟨hpc, by rw [hpushed], by rw [Counted.floor, Counted.floor, hsp, hpushed], hbp⟩

theorem branch_effect {op : Op} {vm vm' : Vm} (hbranch : op = .jz ∨ op = .jnz)
    (hdecode : Op.decode (p.text vm.pc) = some op) (heffect : p.Effect op vm vm') :
    (vm'.pc = vm.pc + 8 ∨ vm'.pc = p.text (vm.pc + 4)) ∧ vm'.sp = vm.sp ∧ vm'.bp = vm.bp := by
  have hif (ax : Word) (h : { vm with ax }.step p.text p.sys = some vm') :
      vm' = { vm with ax, pc := vm.pc + 8 } ∨ vm' = { vm with ax, pc := p.text (vm.pc + 4) } := by
    simp only [Vm.step, hdecode] at h
    rcases hbranch with rfl | rfl
    · have heq := Option.some.inj h
      split at heq
      · exact .inl heq.symm
      · exact .inr heq.symm
    · have heq := Option.some.inj h
      split at heq
      · exact .inr heq.symm
      · exact .inl heq.symm
  obtain ⟨ax, hax⟩ : ∃ ax, { vm with ax }.step p.text p.sys = some vm' := by
    rcases hbranch with rfl | rfl <;> exact heffect
  rcases hif ax hax with rfl | rfl
  · exact ⟨.inl rfl, rfl, rfl⟩
  · exact ⟨.inr rfl, rfl, rfl⟩

theorem branch_step {op : Op} {c : Counted} (hbranch : op = .jz ∨ op = .jnz) (hop : p.code n = some op.code)
    (harg : p.code (n + 1) = some (p.ctx.addr k)) (hpc : c.vm.pc = p.ctx.addr n) :
    p.Safe c ∧ ∀ c', p.Step c c' → p.Arrived a (n + 2) a c c' ∨ p.Arrived a k a c c' := by
  have hnone (arg : Word) : op.pops arg = 0 ∧ op.pushes arg = 0 := by rcases hbranch with rfl | rfl <;> exact ⟨rfl, rfl⟩
  obtain ⟨hsafe, hdecode, hstep⟩ := op_step hop hpc (by rw [(hnone _).1]; omega)
  refine ⟨hsafe, fun c' hc' => ?_⟩
  obtain ⟨heffect, hpushed⟩ := hstep c' hc'
  rw [(hnone _).1, (hnone _).2] at hpushed
  obtain ⟨hskip | hjump, hsp, hbp⟩ := branch_effect hbranch hdecode heffect
  · exact .inl (arrived_same (by rw [hskip, hpc, Context.addr_add_two]) hpushed hsp hbp)
  · exact .inr (arrived_same (by rw [hjump, arg_eq harg hpc]) hpushed hsp hbp)

theorem moves_jmp (hop : p.code n = some Op.jmp.code) (harg : p.code (n + 1) = some (p.ctx.addr k))  :
    p.Moves n a k a := by
  refine moves_step fun c hpc ha => ?_
  obtain ⟨hsafe, hdecode, hstep⟩ := op_step hop hpc (Nat.zero_le _)
  refine ⟨hsafe, fun c' hc' => ?_⟩
  obtain ⟨heffect, hpushed⟩ := hstep c' hc'
  have hvm : c.vm.step p.text p.sys = some c'.vm := heffect
  rw [Vm.step, hdecode] at hvm
  rw [arg_eq harg hpc] at hvm
  have heq := Option.some.inj hvm
  exact arrived_same (by rw [← heq]) hpushed (by rw [← heq]) (by rw [← heq])

theorem moves_branch {op : Op} (hbranch : op = .jz ∨ op = .jnz) (hop : p.code n = some op.code)
    (harg : p.code (n + 1) = some (p.ctx.addr k)) (hnext : p.Moves (n + 2) a m b) (hjump : p.Moves k a m b) :
    p.Moves n a m b := by
  intro c hpc ha
  obtain ⟨hsafe, hstep⟩ := branch_step (a := a) hbranch hop harg hpc
  refine .step hsafe fun c' hc' => ?_
  rcases hstep c' hc' with hc | hc
  · exact hnext.after hc ha
  · exact hjump.after hc ha

/-- The function that is called returns. -/
theorem moves_call (hop : p.code n = some Op.call.code) : p.Moves n a (n + 2) a := by
  refine moves_step fun c hpc ha => ?_
  obtain ⟨hsafe, -, hstep⟩ := op_step hop hpc (Nat.zero_le _)
  refine ⟨hsafe, fun c' hc' => ?_⟩
  obtain ⟨⟨hpc', hsp, hbp⟩, hpushed⟩ := hstep c' hc'
  exact arrived_same (by rw [hpc', hpc, Context.addr_add_two]) hpushed hsp hbp

theorem moves_lev (hop : p.code n = some Op.lev.code) : p.Moves n a m b := by
  refine moves_step fun c hpc ha => ?_
  obtain ⟨hsafe, -, hstep⟩ := op_step hop hpc (Nat.zero_le _)
  exact ⟨hsafe, fun c' hc' => (hstep c' hc').1.elim⟩

/-- A loop, whose condition is followed by a jump behind it. -/
theorem moves_loop {j : Nat} (hcond : p.Moves n a m a) (hop : p.code m = some Op.jz.code)
    (harg : p.code (m + 1) = some (p.ctx.addr k)) (hbody : p.Moves (m + 2) a j a) (hback : p.Moves j a n a) :
    p.Moves n a k a := by
  intro c hpc ha
  have hhead : ∀ c', p.Arrived a m a c c' → p.Safe c' ∧ ∀ t, p.Step c' t →
      Until p.Step p.Safe (fun u => p.Arrived a k a c u ∨ p.Arrived a m a c u) t := by
    intro c' hc'
    obtain ⟨hsafe, hstep⟩ := branch_step (a := a) (.inl rfl) hop harg hc'.pc
    refine ⟨hsafe, fun t ht => ?_⟩
    rcases hstep t ht with ht | ht
    · have hnext := ((hbody.trans hback).trans hcond).after ht (by have := hc'.pushed; omega)
      exact hnext.imp (fun _ => id) fun u hu => .inr (hu.trans hc')
    · exact .here (.inl (ht.trans hc'))
  exact (hcond c hpc ha).bind fun c' hc' => Until.loop hhead hc'

theorem moves_push (hop : p.code n = some Op.push.code) : p.Moves n a (n + 1) (a + 1) :=
  moves_straight _ hop trivial (Nat.zero_le _) rfl

theorem moves_imm (hop : p.code n = some Op.imm.code) : p.Moves n a (n + 2) a :=
  moves_straight _ hop trivial (Nat.zero_le _) rfl

theorem moves_lea (hop : p.code n = some Op.lea.code) : p.Moves n a (n + 2) a :=
  moves_straight _ hop trivial (Nat.zero_le _) rfl

theorem moves_bin {op : BinOp} (hop : p.code n = some (Op.bin op).code) : p.Moves n (a + 1) (n + 1) a :=
  moves_straight _ hop trivial (Nat.le_add_left _ _) rfl

theorem moves_sys {f : SysCall} (hop : p.code n = some (Op.sys f).code) : p.Moves n a (n + 1) a :=
  moves_straight _ hop trivial (Nat.zero_le _) rfl

theorem moves_load {w : Word} (hload : IsLoad w) (hop : p.code n = some w) : p.Moves n a (n + 1) a := by
  rcases hload with rfl | rfl
  · exact moves_straight .lc hop trivial (Nat.zero_le _) rfl
  · exact moves_straight .li hop trivial (Nat.zero_le _) rfl

theorem moves_store {type : Nat} (hop : p.code n = some (storeOp type).code) : p.Moves n (a + 1) (n + 1) a := by
  unfold storeOp at hop
  split at hop
  · exact moves_straight .sc hop trivial (Nat.le_add_left _ _) rfl
  · exact moves_straight .si hop trivial (Nat.le_add_left _ _) rfl

theorem isLoad_loadOp (type : Nat) : IsLoad (loadOp type).code := by
  unfold loadOp
  split
  · exact .inl rfl
  · exact .inr rfl

theorem moves_withWords {v : Word} {op : BinOp} (h : Seg p.code n (withWords v op)) : p.Moves n a (n + 4) a :=
  ((moves_push h.head).trans (moves_imm h.tail.head)).trans (moves_bin h.tail.tail.tail.head)

theorem moves_scale {type : Nat} (h : Seg p.code n (scaleWords type)) :
    p.Moves n a (n + (scaleWords type).length) a := by
  unfold scaleWords at h ⊢
  split at h
  · next hp => rw [if_pos hp]; exact moves_withWords h
  · next hp => rw [if_neg hp]; exact .refl

/-- The words behind the right operand take the left one from the stack. -/
theorem moves_finish {op : BinOp} {tmp right : Nat} (h : Seg p.code n (op.finish tmp right).1) :
    p.Moves n (a + 1) (n + (op.finish tmp right).1.length) a := by
  have hscaled {o : BinOp} (h : Seg p.code n (withWords 4 .mul ++ [(Op.bin o).code])) : p.Moves n (a + 1) (n + 5) a :=
    (moves_withWords h.left).trans (moves_bin h.right.head)
  have hlast {o : BinOp} (h : Seg p.code n [(Op.bin o).code]) : p.Moves n (a + 1) (n + 1) a := moves_bin h.head
  cases op with
  | add =>
    simp only [BinOp.finish] at h ⊢
    split at h
    · next hp => rw [if_pos hp]; exact hscaled h
    · next hp => rw [if_neg hp]; exact hlast h
  | sub =>
    simp only [BinOp.finish] at h ⊢
    split at h
    · next hp => rw [if_pos hp]; exact (moves_bin h.head).trans (moves_withWords h.tail)
    · next hp =>
      rw [if_neg hp]
      split at h
      · next hq => rw [if_pos hq]; exact hscaled h
      · next hq => rw [if_neg hq]; exact hlast h
  | _ => exact hlast h

/-- The address of an operand that is stored to is pushed. -/
theorem moves_pushed {c : List Word} (h : Seg p.code n (pushed c))
    (haddr : Seg p.code n c.dropLast → p.Moves n 0 (n + c.dropLast.length) 0) :
    p.Moves n 0 (n + (pushed c).length) 1 := by
  rw [pushed] at h ⊢
  rw [List.length_append, ← Nat.add_assoc]
  exact (haddr h.left).trans (moves_push h.right.head)

/-- Its value is loaded, too. -/
theorem moves_duplicated {c : List Word} (hload : EndsInLoad c) (h : Seg p.code n (duplicated c))
    (haddr : Seg p.code n c.dropLast → p.Moves n 0 (n + c.dropLast.length) 0) :
    p.Moves n 0 (n + (duplicated c).length) 1 := by
  obtain ⟨init, w, hc, hw⟩ := hload
  have hlast : c.getLast?.toList = [w] := by rw [hc, List.getLast?_concat, Option.toList_some]
  rw [duplicated, hlast] at h ⊢
  rw [List.length_append, ← Nat.add_assoc]
  exact (moves_pushed h.left haddr).trans (moves_load hw h.right.head)

theorem length_le_hi {words : List Word} (h : Seg p.code n words) : words.length ≤ p.hi := by
  by_contra hlt
  have hlast := (code_eq (h (words.length - 1) (by omega))).1.2
  omega

end

end Fragment

/-! ## Expressions -/

/-- The last word loads the value: a variable, `*e` or `e[i]`, also behind a cast or `+`. -/
def Expr.LValue : Expr → Prop
  | .loc _ _ => True
  | .glo _ _ => True
  | .dereference _ => True
  | .bracket _ _ => True
  | .cast _ e => e.LValue
  | .plus e => e.LValue
  | _ => False

mutual

/-- Every operand of `=`, `&`, `++` and `--` is one whose last word loads its value. -/
def Expr.Sound : Expr → Prop
  | .imm _ _ => True
  | .loc _ _ => True
  | .glo _ _ => True
  | .call _ _ args => args.Sound
  | .cast _ e => e.Sound
  | .plus e => e.Sound
  | .minus e => e.Sound
  | .not e => e.Sound
  | .complement e => e.Sound
  | .dereference e => e.Sound
  | .addressOf e => e.Sound ∧ e.LValue
  | .preIncrement _ e => e.Sound ∧ e.LValue
  | .postIncrement _ e => e.Sound ∧ e.LValue
  | .assign a b => a.Sound ∧ a.LValue ∧ b.Sound
  | .cond c a b => c.Sound ∧ a.Sound ∧ b.Sound
  | .logical _ a b => a.Sound ∧ b.Sound
  | .binary _ a b => a.Sound ∧ b.Sound
  | .bracket a i => a.Sound ∧ i.Sound

def Args.Sound : Args → Prop
  | .nil => True
  | .snoc args e => args.Sound ∧ e.Sound

end

namespace Fragment

section
variable {p : Fragment}

/-- The code of `c ? a : b` and of `if (c) a else b`. -/
theorem moves_conditional {cc ca cb : List Word} {n m j stop : Nat} (hm : n + cc.length = m)
    (hj : m + 2 + ca.length = j)
    (h : Seg p.code n (cc ++ [Op.jz.code, p.ctx.addr (j + 2)] ++ ca ++ [Op.jmp.code, p.ctx.addr stop] ++ cb))
    (hc : Seg p.code n cc → p.Moves n 0 m 0) (ha : Seg p.code (m + 2) ca → p.Moves (m + 2) 0 j 0)
    (hb : Seg p.code (j + 2) cb → p.Moves (j + 2) 0 stop 0) : p.Moves n 0 stop 0 := by
  have hjz := h.left.left.left.behind hm.symm
  have hjmp := h.left.behind (m := j) (by simp only [List.length_append, List.length_cons, List.length_nil]; omega)
  have hthen := ha (h.left.left.behind (by simp only [List.length_append, List.length_cons, List.length_nil]; omega))
  have helse := hb (h.behind (by simp only [List.length_append, List.length_cons, List.length_nil]; omega))
  exact (hc h.left.left.left.left).trans (moves_branch (.inl rfl) hjz.head hjz.tail.head
    (hthen.trans (moves_jmp hjmp.head hjmp.tail.head)) helse)

theorem moves_callee {f : Callee} {n a : Nat} (h : Seg p.code n f.words) : p.Moves n a (n + f.words.length) a := by
  cases f with
  | sys f => exact moves_sys h.head
  | fun_ value => exact moves_call h.head

theorem moves_adj {n tmp : Nat} (htmp : tmp < 2 ^ 32) (h : Seg p.code n (adjWords tmp)) :
    p.Moves n tmp (n + (adjWords tmp).length) 0 := by
  unfold adjWords at h ⊢
  split at h
  · next hpos =>
    have harg : (p.text (p.ctx.addr n + 4)).toNat = tmp := by
      have htext := (code_eq h.tail.head).2
      rw [← Context.addr_add] at htext
      rw [show p.text (p.ctx.addr n + 4) = BitVec.ofNat 32 tmp from htext, BitVec.toNat_ofNat, Nat.mod_eq_of_lt htmp]
    rw [if_pos hpos]
    refine moves_straight .adj h.head trivial (Nat.le_of_eq harg) ?_
    simp only [Op.pops, Op.pushes, harg, Nat.zero_add]
    rfl
  · next hpos =>
    rw [if_neg hpos, Nat.eq_zero_of_not_pos hpos]
    exact .refl

theorem Args.length_le (ctx : Context) : ∀ (args : Args) (n : Nat), args.length ≤ (args.gen ctx n).length
  | .nil, _ => Nat.zero_le _
  | .snoc args e, n => by
    have hle := Args.length_le ctx args n
    simp only [Args.gen, Args.length, List.length_append, List.length_singleton]
    omega

mutual

theorem moves_expr (hsmall : p.hi < 2 ^ 30) : ∀ {e : Expr} {n : Nat}, e.Accepted p.ctx n → e.Sound →
    (Seg p.code n (e.gen p.ctx n) → p.Moves n 0 (n + (e.gen p.ctx n).length) 0) ∧
      (e.LValue → Seg p.code n (e.gen p.ctx n).dropLast → p.Moves n 0 (n + (e.gen p.ctx n).dropLast.length) 0)
  | .imm _ _, _, _, _ => ⟨fun h => moves_imm h.head, False.elim⟩
  | .loc _ _, _, _, _ =>
    ⟨fun h => (moves_lea h.head).trans (moves_load (isLoad_loadOp _) h.tail.tail.head), fun _ h => moves_lea h.head⟩
  | .glo _ _, _, _, _ =>
    ⟨fun h => (moves_imm h.head).trans (moves_load (isLoad_loadOp _) h.tail.tail.head), fun _ h => moves_imm h.head⟩
  | .call f _ args, n, hacc, hsound => by
    refine ⟨fun h => ?_, False.elim⟩
    rw [Expr.gen] at h ⊢
    have hargs := moves_args hsmall hacc hsound h.left
    have hadj : args.length < 2 ^ 32 := by
      have hle := Args.length_le p.ctx args n
      have hhi := length_le_hi h.left
      omega
    rw [List.length_append, List.length_append, ← Nat.add_assoc, ← Nat.add_assoc]
    exact (hargs.trans (moves_callee h.right.left)).trans (moves_adj hadj h.right.right)
  | .cast _ e, _, hacc, hsound => moves_expr hsmall (e := e) hacc hsound
  | .plus e, _, hacc, hsound => moves_expr hsmall (e := e) hacc hsound
  | .minus e, n, hacc, hsound => by
    refine ⟨fun h => ?_, False.elim⟩
    rw [Expr.gen] at h ⊢
    have hpush : p.Moves n 0 (n + 3) 1 := (moves_imm h.left.left.head).trans (moves_push h.left.left.tail.tail.head)
    have he := ((moves_expr hsmall (e := e) hacc hsound).1 h.left.right).frame 1
    rw [List.length_append, List.length_append, ← Nat.add_assoc, ← Nat.add_assoc]
    exact (hpush.trans he).trans (moves_bin (h.behind (by rw [List.length_append, ← Nat.add_assoc]; rfl)).head)
  | .not e, n, hacc, hsound => by
    refine ⟨fun h => ?_, False.elim⟩
    rw [Expr.gen] at h ⊢
    rw [List.length_append, ← Nat.add_assoc]
    exact ((moves_expr hsmall (e := e) hacc hsound).1 h.left).trans (moves_withWords h.right)
  | .complement e, n, hacc, hsound => by
    refine ⟨fun h => ?_, False.elim⟩
    rw [Expr.gen] at h ⊢
    rw [List.length_append, ← Nat.add_assoc]
    exact ((moves_expr hsmall (e := e) hacc hsound).1 h.left).trans (moves_withWords h.right)
  | .dereference e, n, hacc, hsound => by
    have he := (moves_expr hsmall (e := e) hacc hsound).1
    rw [Expr.gen, List.dropLast_concat]
    refine ⟨fun h => ?_, fun _ => he⟩
    rw [List.length_append, ← Nat.add_assoc]
    exact (he h.left).trans (moves_load (isLoad_loadOp _) h.right.head)
  | .addressOf e, n, hacc, hsound =>
    ⟨fun h => (moves_expr hsmall (e := e) hacc.1 hsound.1).2 hsound.2 h, False.elim⟩
  | .preIncrement tmp e, n, hacc, hsound => by
    refine ⟨fun h => ?_, False.elim⟩
    have haddr := (moves_expr hsmall (e := e) hacc.1 hsound.1).2 hsound.2
    rw [Expr.gen] at h ⊢
    rw [List.length_append, List.length_append, ← Nat.add_assoc, ← Nat.add_assoc]
    have hwords := (moves_duplicated hacc.2 h.left.left haddr).trans (moves_withWords h.left.right)
    exact hwords.trans (moves_store (h.behind (by rw [List.length_append, ← Nat.add_assoc]; rfl)).head)
  | .postIncrement tmp e, n, hacc, hsound => by
    refine ⟨fun h => ?_, False.elim⟩
    have haddr := (moves_expr hsmall (e := e) hacc.1 hsound.1).2 hsound.2
    rw [Expr.gen] at h ⊢
    rw [List.length_append, List.length_append, List.length_append, ← Nat.add_assoc, ← Nat.add_assoc, ← Nat.add_assoc]
    have hwords := (moves_duplicated hacc.2 h.left.left.left haddr).trans (moves_withWords h.left.left.right)
    have hstore := hwords.trans (moves_store (h.left.behind (by rw [List.length_append, ← Nat.add_assoc]; rfl)).head)
    exact hstore.trans (moves_withWords (h.behind (by simp only [List.length_append, ← Nat.add_assoc]; rfl)))
  | .assign a b, n, hacc, hsound => by
    refine ⟨fun h => ?_, False.elim⟩
    have haddr := (moves_expr hsmall (e := a) hacc.1 hsound.1).2 hsound.2.1
    have hb := (moves_expr hsmall (e := b) hacc.2.2 hsound.2.2).1
    rw [Expr.gen] at h ⊢
    rw [List.length_append, List.length_append, ← Nat.add_assoc, ← Nat.add_assoc]
    have hwords := (moves_pushed h.left.left haddr).trans ((hb h.left.right).frame 1)
    exact hwords.trans (moves_store (h.behind (by rw [List.length_append, ← Nat.add_assoc])).head)
  | .cond c a b, n, hacc, hsound => by
    refine ⟨fun h => ?_, False.elim⟩
    obtain ⟨hc, ha, hb⟩ := hacc
    have hcond := (moves_expr hsmall (e := c) hc hsound.1).1
    have htrue := (moves_expr hsmall (e := a) ha hsound.2.1).1
    have hfalse := (moves_expr hsmall (e := b) hb hsound.2.2).1
    simp only [Expr.gen, List.length_append, List.length_cons, List.length_nil] at h ⊢
    generalize hm : n + (c.gen p.ctx n).length = m at *
    generalize hj : m + 2 + (a.gen p.ctx (m + 2)).length = j at *
    have hstop : n + ((c.gen p.ctx n).length + (0 + 1 + 1) + (a.gen p.ctx (m + 2)).length + (0 + 1 + 1) +
        (b.gen p.ctx (j + 2)).length) = j + 2 + (b.gen p.ctx (j + 2)).length := by omega
    rw [hstop]
    exact moves_conditional hm hj h hcond htrue hfalse
  | .logical i a b, n, hacc, hsound => by
    refine ⟨fun h => ?_, False.elim⟩
    have ha := (moves_expr hsmall (e := a) hacc.1 hsound.1).1
    have hb := (moves_expr hsmall (e := b) hacc.2 hsound.2).1
    rw [Expr.gen] at h ⊢
    rw [List.length_append, List.length_append, ← Nat.add_assoc, ← Nat.add_assoc]
    have hjump : i.jump = .jz ∨ i.jump = .jnz := by cases i <;> simp [Junction.jump]
    have hright := hb (h.behind (by rw [List.length_append, ← Nat.add_assoc]; rfl))
    exact (ha h.left.left).trans (moves_branch hjump h.left.right.head h.left.right.tail.head hright .refl)
  | .binary op a b, n, hacc, hsound => by
    refine ⟨fun h => ?_, False.elim⟩
    have ha := (moves_expr hsmall (e := a) hacc.1 hsound.1).1
    have hb := (moves_expr hsmall (e := b) hacc.2 hsound.2).1
    rw [Expr.gen] at h ⊢
    rw [List.length_append, List.length_append, List.length_append, ← Nat.add_assoc, ← Nat.add_assoc, ← Nat.add_assoc]
    have hleft := (ha h.left.left.left).trans (moves_push h.left.left.right.head)
    have hright := (hb (h.left.behind (by rw [List.length_append, ← Nat.add_assoc]; rfl))).frame 1
    exact (hleft.trans hright).trans (moves_finish (h.behind (by simp only [List.length_append, ← Nat.add_assoc]; rfl)))
  | .bracket a i, n, hacc, hsound => by
    have ha := (moves_expr hsmall (e := a) hacc.1 hsound.1).1
    have hi := (moves_expr hsmall (e := i) hacc.2 hsound.2).1
    let init := a.gen p.ctx n ++ [Op.push.code] ++ i.gen p.ctx (n + (a.gen p.ctx n).length + 1) ++ scaleWords a.type ++
      [(Op.bin .add).code]
    have hgen : (Expr.bracket a i).gen p.ctx n = init ++ [(loadOp (a.type - PTR)).code] := by
      simp [Expr.gen, init]
    have haddr (h : Seg p.code n init) : p.Moves n 0 (n + init.length) 0 := by
      simp only [init, List.length_append, ← Nat.add_assoc] at h ⊢
      have hleft := (ha h.left.left.left.left).trans (moves_push h.left.left.left.right.head)
      have hright := (hi (h.left.left.behind (by rw [List.length_append, ← Nat.add_assoc]; rfl))).frame 1
      have hscale := moves_scale (a := 1) (h.left.behind (by simp only [List.length_append, ← Nat.add_assoc]; rfl))
      exact ((hleft.trans hright).trans hscale).trans
        (moves_bin (h.behind (by simp only [List.length_append, ← Nat.add_assoc])).head)
    rw [hgen, List.dropLast_concat]
    refine ⟨fun h => ?_, fun _ => haddr⟩
    rw [List.length_append, ← Nat.add_assoc]
    exact (haddr h.left).trans (moves_load (isLoad_loadOp _) h.right.head)

theorem moves_args (hsmall : p.hi < 2 ^ 30) : ∀ {args : Args} {n : Nat}, args.Accepted p.ctx n → args.Sound →
    Seg p.code n (args.gen p.ctx n) → p.Moves n 0 (n + (args.gen p.ctx n).length) args.length
  | .nil, _, _, _, _ => .refl
  | .snoc args e, n, hacc, hsound, h => by
    rw [Args.gen] at h ⊢
    have hargs := moves_args hsmall hacc.1 hsound.1 h.left.left
    have he := ((moves_expr hsmall hacc.2 hsound.2).1 h.left.right).frame args.length
    rw [List.length_append, List.length_append, ← Nat.add_assoc, ← Nat.add_assoc]
    rw [Nat.zero_add] at he
    exact (hargs.trans he).trans (moves_push (h.behind (by rw [List.length_append, ← Nat.add_assoc])).head)

end

end

end Fragment

/-! ## Statements -/

/-- `Expr.Sound` of the expressions. -/
def Stmt.Sound : Stmt → Prop
  | .ifThen c a => c.expr.Sound ∧ a.Sound
  | .ifElse c a b => c.expr.Sound ∧ a.Sound ∧ b.Sound
  | .while_ c a => c.expr.Sound ∧ a.Sound
  | .block body => body.Sound
  | .seq a rest => a.Sound ∧ rest.Sound
  | .done => True
  | .return_ none => True
  | .return_ (some e) => e.expr.Sound
  | .empty => True
  | .expr e => e.expr.Sound

namespace Fragment

section
variable {p : Fragment}

theorem moves_stmt (hsmall : p.hi < 2 ^ 30) {st : Stmt} {n stop : Nat} (hacc : st.Accepted p.ctx n)
    (hsound : st.Sound) (h : Seg p.code n (st.gen p.ctx n)) (hstop : stop = n + (st.gen p.ctx n).length) :
    p.Moves n 0 stop 0 := by
  induction st generalizing n stop with
  | ifThen c a ih =>
    obtain ⟨hc, ha⟩ := hacc
    have hcond := (moves_expr hsmall hc hsound.1).1
    simp only [Stmt.gen, List.length_append, List.length_cons, List.length_nil] at h hstop
    have hcode := hcond h.left.left
    generalize hm : n + (c.expr.gen p.ctx n).length = m at *
    obtain rfl : stop = m + 2 + (a.gen p.ctx (m + 2)).length := by omega
    have hjz := h.left.behind hm.symm
    have hthen := ih ha hsound.2 (h.behind (by
      simp only [List.length_append, List.length_cons, List.length_nil]
      omega)) rfl
    exact hcode.trans (moves_branch (.inl rfl) hjz.head hjz.tail.head hthen .refl)
  | ifElse c a b iha ihb =>
    obtain ⟨hc, ha, hb⟩ := hacc
    have hcond := (moves_expr hsmall hc hsound.1).1
    simp only [Stmt.gen, List.length_append, List.length_cons, List.length_nil] at h hstop
    generalize hm : n + (c.expr.gen p.ctx n).length = m at *
    generalize hj : m + 2 + (a.gen p.ctx (m + 2)).length = j at *
    obtain rfl : stop = j + 2 + (b.gen p.ctx (j + 2)).length := by omega
    exact moves_conditional hm hj h hcond (fun hthen => iha ha hsound.2.1 hthen hj.symm)
      fun helse => ihb hb hsound.2.2 helse rfl
  | while_ c a ih =>
    obtain ⟨hc, ha⟩ := hacc
    have hcond := (moves_expr hsmall hc hsound.1).1
    simp only [Stmt.gen, List.length_append, List.length_cons, List.length_nil] at h hstop
    have hcode := hcond h.left.left.left
    generalize hm : n + (c.expr.gen p.ctx n).length = m at *
    generalize hj : m + 2 + (a.gen p.ctx (m + 2)).length = j at *
    obtain rfl : stop = j + 2 := by omega
    have hjz := h.left.left.behind hm.symm
    have hjmp := h.behind (m := j) (by simp only [List.length_append, List.length_cons, List.length_nil]; omega)
    have hbody := ih ha hsound.2
      (h.left.behind (by simp only [List.length_append, List.length_cons, List.length_nil]; omega)) hj.symm
    exact moves_loop hcode hjz.head hjz.tail.head hbody (moves_jmp hjmp.head hjmp.tail.head)
  | block body ih => exact ih hacc hsound h hstop
  | seq a rest iha ihr =>
    rw [Stmt.gen] at h hstop
    rw [List.length_append, ← Nat.add_assoc] at hstop
    exact (iha hacc.1 hsound.1 h.left rfl).trans (ihr hacc.2 hsound.2 h.right hstop)
  | done => exact hstop ▸ .refl
  | return_ e =>
    cases e with
    | none => exact moves_lev h.head
    | some e =>
      rw [Stmt.gen] at h hstop
      exact ((moves_expr hsmall hacc hsound).1 h.left).trans (moves_lev h.right.head)
  | empty => exact hstop ▸ .refl
  | expr e => exact hstop ▸ (moves_expr hsmall hacc hsound).1 h

theorem disciplined_of_moves (h : p.Moves p.lo 0 p.hi 0) : p.Disciplined := by
  intro vm hpc
  refine (h ⟨vm, 0⟩ hpc (Nat.zero_le _)).imp (fun _ => id) fun c hc => ?_
  have hzero : c.pushed = 0 := hc.pushed
  have hfloor : c.vm.sp + 4 * BitVec.ofNat 32 c.pushed = vm.sp + 4 * BitVec.ofNat 32 0 := hc.floor
  rw [hzero] at hfloor
  exact ⟨hc.pc, by bv_omega, hc.bp⟩

end

end Fragment

/-- What has been emitted from `s` to `s'` keeps the discipline, whatever is behind it. -/
def KeepsStack (ctx : Context) (s s' : Lexer) : Prop :=
  ∀ text sys, Loaded ctx s'.text text → (Fragment.mk ctx text sys s.text.length s'.text.length).Disciplined

theorem Loaded.seg {ctx : Context} {text : Word → Word} {sys : SysCall → Vm → Word × Memory} {t words : List Word}
    (h : Loaded ctx (t ++ words) text) :
    Seg (Fragment.mk ctx text sys t.length (t ++ words).length).code t.length words := by
  intro i hi
  have hlt : t.length + i < (t ++ words).length := by rw [List.length_append]; omega
  rw [Fragment.code, if_pos ⟨Nat.le_add_right _ _, hlt⟩, ← h.behind hi]

theorem compiled_keepsStack {ctx : Context} {fuel : Nat} {s s' : Lexer} (hsmall : s'.text.length < 2 ^ 30) :
    (∀ level, expression ctx fuel level s = some s' →
      (∀ e i, parseExpression fuel level s.input = some (e, i) → e.Sound) → KeepsStack ctx s s') ∧
    (statement ctx fuel s = some s' →
      (∀ st i, parseStatement fuel s.input = some (st, i) → st.Sound) → KeepsStack ctx s s') := by
  constructor
  · intro level hs hsound text sys hloaded
    obtain ⟨e, hparse, htext, -, hacc⟩ := expression_compiles ctx fuel level s s' hs
    rw [htext] at hloaded hsmall ⊢
    refine Fragment.disciplined_of_moves ?_
    have hseg : Seg (Fragment.mk ctx text sys s.text.length _).code s.text.length (e.gen ctx s.text.length) :=
      hloaded.seg
    have hmoves := (Fragment.moves_expr hsmall hacc (hsound e _ hparse)).1 hseg
    rwa [← List.length_append] at hmoves
  · intro hs hsound text sys hloaded
    obtain ⟨st, hparse, htext, hacc⟩ := statement_emits hs
    rw [htext] at hloaded hsmall ⊢
    exact Fragment.disciplined_of_moves
      (Fragment.moves_stmt hsmall hacc (hsound st _ hparse) hloaded.seg (List.length_append ..))

/-- `9 = 5 ;`, where `9` is the word of `LI`. -/
def assignNine : Lexer where
  input := Input.enter ⟨[.num 9, .tok .assign, .num 5, .tok .semicolon], 0, ⟨.undefined, 0⟩⟩
  exprType := INT
  text := []

/-- The machine pops the word below the code: `9` is pushed by an instruction that `IMM` takes for its operand. -/
theorem assignNine_pops :
    ∃ s', statement ⟨0x1000, 0⟩ 10 assignNine = some s' ∧ ¬ KeepsStack ⟨0x1000, 0⟩ assignNine s' := by
  have hrun : (statement ⟨0x1000, 0⟩ 10 assignNine).map (fun s => s.text) = some [1, 13, 1, 5, 11] := by rfl
  obtain ⟨s', hs, htext⟩ := Option.map_eq_some_iff.mp hrun
  refine ⟨s', hs, fun h => ?_⟩
  let text (a : Word) : Word := [1, 13, 1, 5, 11].getD ((a - 0x1000).toNat / 4) 0
  let sys (_ : SysCall) (vm : Vm) : Word × Memory := (0, vm.mem)
  let vm (pc ax : Word) : Vm := ⟨pc, 0x9000, 0x8000, ax, fun _ => 0⟩
  have hloaded : Loaded ⟨0x1000, 0⟩ s'.text text := by
    rw [htext]
    intro i hi
    match i, hi with
    | 0, _ => rfl
    | 1, _ => rfl
    | 2, _ => rfl
    | 3, _ => rfl
    | 4, _ => rfl
  have hdisciplined := h text sys hloaded (vm 0x1000 0) rfl
  rw [htext] at hdisciplined
  have himm (pc ax v : Word) (hop : Op.decode (text pc) = some .imm) (harg : text (pc + 4) = v) :
      (vm pc ax).step text sys = some (vm (pc + 8) v) := by simp only [Vm.step, vm, hop, harg]
  have hfirst : (Fragment.mk ⟨0x1000, 0⟩ text sys 0 5).Step ⟨vm 0x1000 0, 0⟩ ⟨vm 0x1008 13, 0⟩ :=
    ⟨⟨0, by decide, by decide, rfl⟩, .imm, by decide, himm _ _ _ (by decide) (by decide), rfl⟩
  have hsecond : (Fragment.mk ⟨0x1000, 0⟩ text sys 0 5).Step ⟨vm 0x1008 13, 0⟩ ⟨vm 0x1010 5, 0⟩ :=
    ⟨⟨2, by decide, by decide, rfl⟩, .imm, by decide, himm _ _ _ (by decide) (by decide), rfl⟩
  have hnot (pc ax : Word) (hpc : pc ≠ 0x1014) : ¬ ((vm pc ax).pc = Context.addr ⟨0x1000, 0⟩ 5 ∧
      (vm pc ax).sp = 0x8000 ∧ (vm pc ax).bp = 0x9000) := fun hgoal => hpc hgoal.1
  rcases hdisciplined ⟨vm 0x1010 5, 0⟩
    (.tail (.single ⟨hnot _ _ (by decide), hfirst⟩) ⟨hnot _ _ (by decide), hsecond⟩) with hend | ⟨-, hsafe⟩
  · exact hnot _ _ (by decide) hend
  · exact absurd (hsafe .si (by decide)) (by decide)

/-- `if (x) x = 1; else x++;` for a local variable. -/
def assignVariable : Lexer where
  input := Input.enter ⟨[.tok .if_, .tok .lparen, .id ⟨.loc 0, INT⟩, .tok .rparen, .id ⟨.loc 0, INT⟩, .tok .assign,
    .num 1, .tok .semicolon, .tok .else_, .id ⟨.loc 0, INT⟩, .tok .inc, .tok .semicolon], 0, ⟨.undefined, 0⟩⟩
  exprType := INT
  text := []

theorem compiled_keepsStack_variable : ∃ s', statement ⟨0x1000, 0⟩ 10 assignVariable = some s' ∧
    KeepsStack ⟨0x1000, 0⟩ assignVariable s' := by
  have hrun : (statement ⟨0x1000, 0⟩ 10 assignVariable).map (fun s => s.text.length) = some 26 := by rfl
  obtain ⟨s', hs, hlen⟩ := Option.map_eq_some_iff.mp hrun
  refine ⟨s', hs, (compiled_keepsStack (by rw [hlen]; decide)).2 hs fun st i hparse => ?_⟩
  obtain ⟨rfl, -⟩ := Prod.mk.inj (Option.some.inj hparse)
  exact ⟨trivial, ⟨trivial, trivial, trivial⟩, trivial, trivial⟩

end RetrOS.Interpreter
