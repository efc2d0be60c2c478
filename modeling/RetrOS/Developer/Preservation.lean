import RetrOS.Developer.Meaning

/-!
# The machine and the store

Runs of the machine against the meaning of programs, and the instructions that operators are compiled to.

* `Holds`, `Env.Ready` : the memory has the values of the objects, `sp` and `bp` are where the frame wants them;
* `Reaches` : the machine comes to a word of the text with a store, and changes no byte that is neither an object nor
  left for the stack; `Reaches.trans`, `Reaches.over` put runs together;
* `reaches_finish` : the words behind the right operand compute `BinOp.meaning`.
-/

namespace RetrOS.Interpreter
open RetrOS.Lib

/-! ## Memory -/

/-- The memory has the values of the objects. -/
def Holds (objects : Word → Bool) (st : Store) (mem : Memory) : Prop :=
  ∀ a b, objects a = true → st a = some b → mem a = b

namespace Memory

def read (mem : Memory) (type : Nat) (a : Word) : Word := if type = CHAR then mem.loadChar a else mem.loadInt a

def write (mem : Memory) (type : Nat) (a v : Word) : Memory :=
  if type = CHAR then mem.storeChar a v else mem.storeInt a v

end Memory

section
variable {objects : Word → Bool} {st st' : Store} {mem : Memory} {type : Nat} {a b v : Word}

theorem Covers.at (h : Covers objects type a) (htype : type ≠ CHAR) :
    objects a = true ∧ objects (a + 1) = true ∧ objects (a + 2) = true ∧ objects (a + 3) = true := ⟨h.1, h.2 htype⟩

theorem Holds.load (h : Holds objects st mem) (hv : st.load objects type a = some v) : mem.read type a = v := by
  unfold Store.load at hv
  split at hv
  · next hcovers =>
    obtain ⟨b, hb, hv⟩ := Option.bind_eq_some_iff.mp hv
    unfold Memory.read
    split at hv
    · next htype =>
      rw [if_pos htype, Memory.loadChar, h a b hcovers.1 hb]
      exact Option.some.inj hv
    · next htype =>
      obtain ⟨b₁, h₁, hv⟩ := Option.bind_eq_some_iff.mp hv
      obtain ⟨b₂, h₂, hv⟩ := Option.bind_eq_some_iff.mp hv
      obtain ⟨b₃, h₃, hv⟩ := Option.bind_eq_some_iff.mp hv
      obtain ⟨ho, ho₁, ho₂, ho₃⟩ := hcovers.at htype
      rw [if_neg htype, Memory.loadInt, h a b ho hb, h _ b₁ ho₁ h₁, h _ b₂ ho₂ h₂, h _ b₃ ho₃ h₃]
      exact Option.some.inj hv
  · exact absurd hv (Option.some_ne_none _).symm

theorem Holds.store (h : Holds objects st mem) (hs : st.store objects type a v = some st') :
    Holds objects st' (mem.write type a v) := by
  unfold Store.store at hs
  split at hs
  · obtain rfl := Option.some.inj hs
    intro b c hb hc
    unfold Store.put at hc
    unfold Memory.write
    by_cases htype : type = CHAR
    · rw [if_pos htype, Memory.storeChar]
      by_cases hab : b = a
      · rw [if_pos hab] at hc
        rw [hab, Function.update_self]
        exact Option.some.inj hc
      · rw [if_neg hab, if_pos htype] at hc
        rw [Function.update_of_ne hab]
        exact h b c hb hc
    · rw [if_neg htype, Memory.storeInt]
      rw [if_neg htype] at hc
      split_ifs at hc ⊢
      · exact Option.some.inj hc
      · exact Option.some.inj hc
      · exact Option.some.inj hc
      · exact Option.some.inj hc
      · exact h b c hb hc
  · exact absurd hs (Option.some_ne_none _).symm

/-- A byte that is no object is not changed. -/
theorem write_other (hs : st.store objects type a v = some st') (hb : objects b = false) :
    mem.write type a v b = mem b := by
  have hne {c : Word} (hc : objects c = true) : b ≠ c := fun h => by rw [h, hc] at hb; cases hb
  unfold Store.store at hs
  split at hs
  · next hcovers =>
    unfold Memory.write
    by_cases htype : type = CHAR
    · rw [if_pos htype]
      exact Function.update_of_ne (hne hcovers.1) _ _
    · obtain ⟨ho, ho₁, ho₂, ho₃⟩ := hcovers.at htype
      rw [if_neg htype, Memory.storeInt, if_neg (hne ho), if_neg (hne ho₁), if_neg (hne ho₂), if_neg (hne ho₃)]
  · exact absurd hs (Option.some_ne_none _).symm

theorem loadInt_eq {mem' : Memory} (h : ∀ i : Word, i.toNat < 4 → mem' (a + i) = mem (a + i)) :
    mem'.loadInt a = mem.loadInt a := by
  have hzero := h 0 (by decide)
  rw [show a + 0 = a from BitVec.add_zero a] at hzero
  rw [Memory.loadInt, Memory.loadInt, hzero, h 1 (by decide), h 2 (by decide), h 3 (by decide)]

end

/-! ## The stack -/

namespace Env

/-- `sp` behind `d` words. -/
def top (env : Env) (d : Nat) : Word := env.sp - 4 * BitVec.ofNat 32 d

/-- The byte is not among those left for the stack. -/
def Apart (env : Env) (d : Nat) (b : Word) : Prop := (b - env.top d).toNat + 4 * (env.room - d) < 2 ^ 32

/-- No object is among the words left for the stack. -/
structure Clear (env : Env) : Prop where
  small : env.room < 2 ^ 30
  apart : ∀ a, env.objects a = true → env.Apart 0 a

/-- The machine is in the function's frame, behind `d` words, and its memory has the values of the store. -/
structure Ready (env : Env) (d : Nat) (vm : Vm) (st : Store) : Prop where
  sp : vm.sp = env.top d
  bp : vm.bp = env.bp
  holds : Holds env.objects st vm.mem

variable {env : Env} {d : Nat} {b : Word}

theorem top_succ : env.top (d + 1) = env.top d - 4 := by
  unfold top
  rw [BitVec.ofNat_add]
  bv_omega

theorem top_add (k : Nat) : env.top (d + k) + 4 * BitVec.ofNat 32 k = env.top d := by
  unfold top
  rw [BitVec.ofNat_add]
  bv_omega

theorem Apart.succ (h : env.Apart d b) (hd : d + 1 ≤ env.room) : env.Apart (d + 1) b := by
  unfold Apart at h ⊢
  rw [top_succ]
  bv_omega

theorem Apart.add (h : env.Apart d b) {k : Nat} (hd : d + k ≤ env.room) : env.Apart (d + k) b := by
  induction k with
  | zero => exact h
  | succ k ih => exact (ih (by omega)).succ (by omega)

theorem Clear.apart_at (h : env.Clear) {a : Word} (ha : env.objects a = true) (hd : d ≤ env.room) : env.Apart d a := by
  have hzero := (h.apart a ha).add (k := d) (by omega)
  rwa [Nat.zero_add] at hzero

/-- The word that is pushed next. -/
theorem Apart.behind (h : env.Apart d b) (hd : d + 1 ≤ env.room) : (b - (env.top d - 4)).toNat ≥ 4 := by
  unfold Apart at h
  bv_omega

theorem Clear.apart_top (h : env.Clear) {i : Word} (hi : i.toNat < 4) : env.Apart (d + 1) (env.top (d + 1) + i) := by
  have hsmall := h.small
  unfold Apart
  have hsub : env.top (d + 1) + i - env.top (d + 1) = i := by bv_omega
  rw [hsub]
  omega

theorem Clear.objects_top (h : env.Clear) (hd : d + 1 ≤ env.room) {i : Word} (hi : i.toNat < 4) :
    env.objects (env.top (d + 1) + i) = false := by
  by_contra hne
  have hapart := h.apart_at (d := d) (Bool.not_eq_false _ ▸ hne) (by omega)
  have hbehind := hapart.behind hd
  rw [top_succ] at hbehind
  have hsub : env.top d - 4 + i - (env.top d - 4) = i := by bv_omega
  rw [hsub] at hbehind
  omega

end Env

/-! ## Runs -/

/-- The machine comes to the word `m` of the text with the store and with `post` of `ax`. It changes no byte that is
neither an object nor left for the stack. -/
def Reaches (ctx : Context) (text : Word → Word) (sys : SysCall → Vm → Word × Memory) (env : Env) (d : Nat) (vm : Vm)
    (m : Nat) (st : Store) (post : Word → Prop) : Prop :=
  ∃ vm', Steps text sys vm vm' ∧ vm'.pc = ctx.addr m ∧ env.Ready d vm' st ∧
    (∀ b, env.objects b = false → env.Apart d b → vm'.mem b = vm.mem b) ∧ post vm'.ax

section
variable {ctx : Context} {text : Word → Word} {sys : SysCall → Vm → Word × Memory} {env : Env} {d n m k j : Nat}
  {vm vm' : Vm} {st st' st'' : Store} {post post' : Word → Prop} {v x : Word} {type : Nat}

theorem Reaches.imp (h : Reaches ctx text sys env d vm m st post) (hm : k = m) (hpost : ∀ x, post x → post' x) :
    Reaches ctx text sys env d vm k st post' := by
  obtain ⟨vm', hsteps, hpc, hready, hmem, hax⟩ := h
  exact ⟨vm', hsteps, hm ▸ hpc, hready, hmem, hpost _ hax⟩

theorem Reaches.behind (h : Reaches ctx text sys env d vm' m st post) (hsteps : Steps text sys vm vm')
    (hmem : ∀ b, env.objects b = false → env.Apart d b → vm'.mem b = vm.mem b) :
    Reaches ctx text sys env d vm m st post := by
  obtain ⟨vm'', hsteps', hpc, hready, hmem', hax⟩ := h
  exact ⟨vm'', hsteps.trans hsteps', hpc, hready, fun b hb hapart => by rw [hmem' b hb hapart, hmem b hb hapart], hax⟩

theorem Reaches.trans (h : Reaches ctx text sys env d vm m st post)
    (h' : ∀ vm' : Vm, vm'.pc = ctx.addr m → env.Ready d vm' st → post vm'.ax →
      Reaches ctx text sys env d vm' k st' post') : Reaches ctx text sys env d vm k st' post' := by
  obtain ⟨vm₁, hsteps, hpc, hready, hmem, hax⟩ := h
  exact (h' vm₁ hpc hready hax).behind hsteps hmem

theorem reaches_refl (hpc : vm.pc = ctx.addr n) (hready : env.Ready d vm st) :
    Reaches ctx text sys env d vm n st (· = vm.ax) := ⟨vm, .refl, hpc, hready, fun _ _ _ => rfl, rfl⟩

/-- An instruction that leaves stack and memory alone. -/
theorem reaches_step (hstep : vm.step text sys = some vm') (hready : env.Ready d vm st) (hpc : vm'.pc = ctx.addr m)
    (hsp : vm'.sp = vm.sp) (hbp : vm'.bp = vm.bp) (hmem : vm'.mem = vm.mem) (hax : post vm'.ax) :
    Reaches ctx text sys env d vm m st post :=
  ⟨vm', .single hstep, hpc, ⟨hsp.trans hready.sp, hbp.trans hready.bp, hmem ▸ hready.holds⟩, fun _ _ _ => by rw [hmem],
    hax⟩

/-! ## Instructions -/

theorem reaches_imm (hseg : Seg (textAt ctx text) n [Op.imm.code, v]) (hpc : vm.pc = ctx.addr n)
    (hready : env.Ready d vm st) : Reaches ctx text sys env d vm (n + 2) st (· = v) := by
  have hstep : vm.step text sys = some { vm with pc := vm.pc + 8, ax := v } := by
    simp only [Vm.step, textAt_decode hseg.head hpc, textAt_arg hseg.tail.head hpc]
  exact reaches_step hstep hready (by rw [hpc, Context.addr_add_two]) rfl rfl rfl rfl

theorem reaches_lea (hseg : Seg (textAt ctx text) n [Op.lea.code, v]) (hpc : vm.pc = ctx.addr n)
    (hready : env.Ready d vm st) : Reaches ctx text sys env d vm (n + 2) st (· = env.bp + 4 * v) := by
  have hstep : vm.step text sys = some { vm with pc := vm.pc + 8, ax := vm.bp + 4 * v } := by
    simp only [Vm.step, textAt_decode hseg.head hpc, textAt_arg hseg.tail.head hpc]
  exact reaches_step hstep hready (by rw [hpc, Context.addr_add_two]) rfl rfl rfl (by rw [hready.bp])

theorem reaches_jmp (hseg : Seg (textAt ctx text) n [Op.jmp.code, ctx.addr k]) (hpc : vm.pc = ctx.addr n)
    (hready : env.Ready d vm st) : Reaches ctx text sys env d vm k st (· = vm.ax) := by
  have hstep : vm.step text sys = some { vm with pc := ctx.addr k } := by
    simp only [Vm.step, textAt_decode hseg.head hpc, textAt_arg hseg.tail.head hpc]
  exact reaches_step hstep hready rfl rfl rfl rfl rfl

theorem reaches_jz (hseg : Seg (textAt ctx text) n [Op.jz.code, ctx.addr k]) (hpc : vm.pc = ctx.addr n)
    (hready : env.Ready d vm st) :
    Reaches ctx text sys env d vm (if vm.ax = 0 then k else n + 2) st (· = vm.ax) := by
  have hstep : vm.step text sys = some { vm with pc := ctx.addr (if vm.ax = 0 then k else n + 2) } := by
    simp only [Vm.step, textAt_decode hseg.head hpc, textAt_arg hseg.tail.head hpc, ite_not]
    split
    · rfl
    · rw [hpc, Context.addr_add_two]
  exact reaches_step hstep hready rfl rfl rfl rfl rfl

theorem reaches_jnz (hseg : Seg (textAt ctx text) n [Op.jnz.code, ctx.addr k]) (hpc : vm.pc = ctx.addr n)
    (hready : env.Ready d vm st) :
    Reaches ctx text sys env d vm (if vm.ax = 0 then n + 2 else k) st (· = vm.ax) := by
  have hstep : vm.step text sys = some { vm with pc := ctx.addr (if vm.ax = 0 then n + 2 else k) } := by
    simp only [Vm.step, textAt_decode hseg.head hpc, textAt_arg hseg.tail.head hpc, ite_not]
    split
    · rw [hpc, Context.addr_add_two]
    · rfl
  exact reaches_step hstep hready rfl rfl rfl rfl rfl

theorem addr_succ (ctx : Context) (n : Nat) : ctx.addr n + 4 = ctx.addr (n + 1) := ctx.addr_add n 1

/-- `LC` or `LI` -/
theorem reaches_load (hop : textAt ctx text n = some (loadOp type).code) (hpc : vm.pc = ctx.addr n)
    (hready : env.Ready d vm st) (hv : st.load env.objects type vm.ax = some v) :
    Reaches ctx text sys env d vm (n + 1) st (· = v) := by
  have hread := hready.holds.load hv
  have hstep : vm.step text sys = some { vm with pc := vm.pc + 4, ax := v } := by
    unfold loadOp at hop
    unfold Memory.read at hread
    split at hop
    · next htype =>
      rw [if_pos htype] at hread
      simp only [Vm.step, textAt_decode hop hpc, hread]
    · next htype =>
      rw [if_neg htype] at hread
      simp only [Vm.step, textAt_decode hop hpc, hread]
  exact reaches_step hstep hready (by rw [hpc, addr_succ]) rfl rfl rfl rfl

/-- `SC` or `SI` -/
theorem reaches_store (hop : textAt ctx text n = some (storeOp type).code) (hpc : vm.pc = ctx.addr n)
    (hready : env.Ready (d + 1) vm st) (hs : st.store env.objects type vm.top vm.ax = some st') :
    Reaches ctx text sys env d vm (n + 1) st' (· = kept type vm.ax) := by
  have hstep : vm.step text sys =
      some ⟨vm.pc + 4, vm.bp, vm.sp + 4, kept type vm.ax, vm.mem.write type vm.top vm.ax⟩ := by
    unfold storeOp at hop
    unfold Memory.write kept
    split at hop
    · next htype => simp only [Vm.step, textAt_decode hop hpc, if_pos htype]
    · next htype => simp only [Vm.step, textAt_decode hop hpc, if_neg htype]
  refine ⟨_, .single hstep, by rw [hpc, addr_succ], ⟨?_, hready.bp, hready.holds.store hs⟩, fun b hb _ => ?_, rfl⟩
  · show vm.sp + 4 = _
    rw [hready.sp, Env.top_succ]
    bv_omega
  · exact write_other hs hb

/-- An operator, with its left operand on the stack. -/
theorem reaches_bin {op : BinOp} (hop : textAt ctx text n = some (Op.bin op).code) (hpc : vm.pc = ctx.addr n)
    (hready : env.Ready (d + 1) vm st) (hv : op.eval vm.top vm.ax = some v) :
    Reaches ctx text sys env d vm (n + 1) st (· = v) := by
  have hstep : vm.step text sys = some { vm with pc := vm.pc + 4, sp := vm.sp + 4, ax := v } := by
    simp only [Vm.step, textAt_decode hop hpc, hv, Option.map_some]
  refine ⟨_, .single hstep, by rw [hpc, addr_succ], ⟨?_, hready.bp, hready.holds⟩, fun _ _ _ => rfl, rfl⟩
  show vm.sp + 4 = _
  rw [hready.sp, Env.top_succ]
  bv_omega

variable (sys) in
/-- `PUSH` -/
theorem push_step (hop : textAt ctx text n = some Op.push.code) (hpc : vm.pc = ctx.addr n)
    (hclear : env.Clear) (hready : env.Ready d vm st) (hd : d + 1 ≤ env.room) :
    ∃ vm', vm.step text sys = some vm' ∧ vm'.pc = ctx.addr (n + 1) ∧ env.Ready (d + 1) vm' st ∧ vm'.top = vm.ax ∧
      vm'.ax = vm.ax ∧ ∀ b, env.Apart d b → vm'.mem b = vm.mem b := by
  have hmem (b : Word) (hb : env.Apart d b) : vm.mem.storeInt (vm.sp - 4) vm.ax b = vm.mem b := by
    refine storeInt_other ?_
    rw [hready.sp]
    exact hb.behind hd
  refine ⟨{ vm with pc := vm.pc + 4 }.push vm.ax, ?_, ?_, ⟨?_, hready.bp, ?_⟩, ?_, rfl, hmem⟩
  · simp only [Vm.step, textAt_decode hop hpc]
  · show vm.pc + 4 = _
    rw [hpc, addr_succ]
  · show vm.sp - 4 = _
    rw [hready.sp, Env.top_succ]
  · intro a b ha hb
    show vm.mem.storeInt (vm.sp - 4) vm.ax a = b
    rw [hmem a (hclear.apart_at ha (by omega))]
    exact hready.holds a b ha hb
  · exact Memory.loadInt_storeInt _ _ _

/-- A word on the stack is not changed while something else is computed above it. -/
theorem Env.Clear.word_eq (hclear : env.Clear) (hd : d + 1 + k ≤ env.room) {mem mem' : Memory}
    (h : ∀ b, env.objects b = false → env.Apart (d + 1 + k) b → mem' b = mem b) :
    mem'.loadInt (env.top (d + 1)) = mem.loadInt (env.top (d + 1)) :=
  loadInt_eq fun i hi => h _ (hclear.objects_top (by omega) hi) ((hclear.apart_top hi).add hd)

theorem Env.Clear.top_eq (hclear : env.Clear) (hd : d + 1 ≤ env.room) {mem mem' : Memory}
    (h : ∀ b, env.objects b = false → env.Apart (d + 1) b → mem' b = mem b) :
    mem'.loadInt (env.top (d + 1)) = mem.loadInt (env.top (d + 1)) := hclear.word_eq (k := 0) hd h

/-- A value is pushed, something else is computed above it, and what comes then takes the value from the stack. -/
theorem Reaches.over {Q R : Word → Prop} (hclear : env.Clear) (hd : d + 1 ≤ env.room)
    (ha : Reaches ctx text sys env d vm m st post) (hpush : textAt ctx text m = some Op.push.code)
    (hb : ∀ vm' : Vm, vm'.pc = ctx.addr (m + 1) → env.Ready (d + 1) vm' st → post vm'.top → vm'.ax = vm'.top →
      Reaches ctx text sys env (d + 1) vm' k st' Q)
    (hop : ∀ vm' : Vm, vm'.pc = ctx.addr k → env.Ready (d + 1) vm' st' → post vm'.top → Q vm'.ax →
      Reaches ctx text sys env d vm' j st'' R) : Reaches ctx text sys env d vm j st'' R := by
  obtain ⟨vm₁, hsteps₁, hpc₁, hready₁, hmem₁, hax₁⟩ := ha
  obtain ⟨vm₂, hstep₂, hpc₂, hready₂, htop₂, hax₂, hmem₂⟩ := push_step sys hpush hpc₁ hclear hready₁ hd
  obtain ⟨vm₃, hsteps₃, hpc₃, hready₃, hmem₃, hax₃⟩ := hb vm₂ hpc₂ hready₂ (htop₂ ▸ hax₁) (hax₂.trans htop₂.symm)
  have htop₃ : vm₃.top = vm₂.top := by
    rw [Vm.top, Vm.top, hready₃.sp, hready₂.sp]
    exact hclear.top_eq hd hmem₃
  obtain ⟨vm₄, hsteps₄, hpc₄, hready₄, hmem₄, hax₄⟩ := hop vm₃ hpc₃ hready₃ (by rwa [htop₃, htop₂]) hax₃
  refine ⟨vm₄, ((hsteps₁.tail hstep₂).trans hsteps₃).trans hsteps₄, hpc₄, hready₄, fun b hb hapart => ?_, hax₄⟩
  rw [hmem₄ b hb hapart, hmem₃ b hb (hapart.succ hd), hmem₂ b hapart, hmem₁ b hb hapart]

/-! ## Operators -/

theorem BinOp.eval_of_exact {op : BinOp} {x y v : Word} (h : op.exact x y = some v) : op.eval x y = some v := by
  unfold BinOp.exact at h
  split at h
  · exact absurd h (Option.some_ne_none _).symm
  · next hover => exact BinOp.eval_of_value h hover

/-- A value is combined with a number. -/
theorem reaches_with {op : BinOp} {w : Word} (hclear : env.Clear) (hd : d + 1 ≤ env.room)
    (hseg : Seg (textAt ctx text) n (withWords w op)) (hpc : vm.pc = ctx.addr n) (hready : env.Ready d vm st)
    (hv : op.eval vm.ax w = some v) : Reaches ctx text sys env d vm (n + 4) st (· = v) := by
  have himm : Seg (textAt ctx text) (n + 1) [Op.imm.code, w] :=
    (show Seg _ (n + 1) ([Op.imm.code, w] ++ [(Op.bin op).code]) from hseg.tail).left
  refine (reaches_refl hpc hready).over hclear hd hseg.head (fun vm' hpc' hready' _ _ => reaches_imm himm hpc' hready')
    fun vm' hpc' hready' htop hax => ?_
  exact reaches_bin hseg.tail.tail.tail.head hpc' hready' (by rw [htop, hax]; exact hv)

theorem mul_stride_of_le (h : ¬ type > PTR) (x : Word) : x * stride type = x := by
  rw [stride, if_neg h]
  exact BitVec.mul_one x

theorem stride_of_gt (h : type > PTR) : stride type = 4 := if_pos h

/-- An index is scaled into words. -/
theorem reaches_scale (hclear : env.Clear) (hd : d + 1 ≤ env.room)
    (hseg : Seg (textAt ctx text) n (scaleWords type)) (hpc : vm.pc = ctx.addr n) (hready : env.Ready d vm st) :
    Reaches ctx text sys env d vm (n + (scaleWords type).length) st (· = vm.ax * stride type) := by
  unfold scaleWords at hseg ⊢
  split at hseg
  · next h =>
    rw [if_pos h, stride_of_gt h]
    exact reaches_with hclear hd hseg hpc hready rfl
  · next h =>
    rw [if_neg h, mul_stride_of_le h]
    exact reaches_refl hpc hready

/-- A scaled operand, and the operator. -/
theorem reaches_scaled {op : BinOp} {x : Word} (hclear : env.Clear) (hd : d + 2 ≤ env.room)
    (hseg : Seg (textAt ctx text) n (scaleWords type ++ [(Op.bin op).code])) (hpc : vm.pc = ctx.addr n)
    (hready : env.Ready (d + 1) vm st) (htop : vm.top = x) (hv : op.eval x (vm.ax * stride type) = some v) :
    Reaches ctx text sys env d vm (n + (scaleWords type).length + 1) st (· = v) := by
  obtain ⟨vm', hsteps, hpc', hready', hmem, hax⟩ : Reaches ctx text sys env (d + 1) vm _ _ _ :=
    reaches_scale hclear (by omega) hseg.left hpc hready
  have htop' : vm'.top = x := by
    rw [← htop, Vm.top, Vm.top, hready'.sp, hready.sp]
    exact hclear.top_eq (by omega) hmem
  obtain ⟨vm'', hsteps', hrest, hready'', hmem', hax'⟩ : Reaches ctx text sys env d vm' _ _ _ :=
    reaches_bin hseg.right.head hpc' hready' (by rw [htop', hax]; exact hv)
  refine ⟨vm'', hsteps.trans hsteps', hrest, hready'', fun b hb hapart => ?_, hax'⟩
  rw [hmem' b hb hapart, hmem b hb (hapart.succ (by omega))]

theorem BinOp.meaning_ints {op : BinOp} {x y : Word} {tmp right : Nat} (h : tmp < PTR ∧ right < PTR) :
    op.meaning tmp right x y = op.exact x y := if_pos h

/-- The words behind the right operand compute the value. -/
theorem reaches_finish {op : BinOp} {tmp right : Nat} {x : Word} (hclear : env.Clear) (hd : d + 2 ≤ env.room)
    (hseg : Seg (textAt ctx text) n (op.finish tmp right).1) (hpc : vm.pc = ctx.addr n)
    (hready : env.Ready (d + 1) vm st) (htop : vm.top = x) (hv : op.meaning tmp right x vm.ax = some v) :
    Reaches ctx text sys env d vm (n + (op.finish tmp right).1.length) st (· = v) := by
  have hplain {o : BinOp} (hseg : Seg (textAt ctx text) n [(Op.bin o).code]) (hv : o.exact x vm.ax = some v) :
      Reaches ctx text sys env d vm (n + 1) st (· = v) :=
    reaches_bin hseg.head hpc hready (htop ▸ BinOp.eval_of_exact hv)
  have hscaled {o : BinOp} (ho : tmp > PTR)
      (hseg : Seg (textAt ctx text) n [Op.push.code, Op.imm.code, 4, (Op.bin .mul).code, (Op.bin o).code])
      (hv : o.exact x (vm.ax * stride tmp) = some v) : Reaches ctx text sys env d vm (n + 5) st (· = v) := by
    have hwords : scaleWords tmp = withWords 4 .mul := if_pos ho
    have hseg' : Seg (textAt ctx text) n (scaleWords tmp ++ [(Op.bin o).code]) := hwords ▸ hseg
    refine (reaches_scaled hclear hd hseg' hpc hready htop (BinOp.eval_of_exact hv)).imp ?_ fun _ => id
    rw [hwords]
    rfl
  have hints (h : tmp < PTR ∧ right < PTR) : ¬ tmp > PTR := by omega
  unfold BinOp.meaning at hv
  cases op with
  | add =>
    have hexact : BinOp.add.exact x (vm.ax * stride tmp) = some v := by
      split at hv
      · next h => rwa [mul_stride_of_le (hints h)]
      · exact (Option.ite_none_right_eq_some.mp hv).2
    simp only [BinOp.finish] at hseg ⊢
    split at hseg
    · next h => exact (hscaled h hseg hexact).imp (by rw [if_pos h]; rfl) fun _ => id
    · next h =>
      rw [mul_stride_of_le h] at hexact
      exact (hplain hseg hexact).imp (by rw [if_neg h]; rfl) fun _ => id
  | sub =>
    simp only [BinOp.finish] at hseg ⊢
    by_cases hright : right < PTR
    · have hexact : BinOp.sub.exact x (vm.ax * stride tmp) = some v := by
        split at hv
        · next h => rwa [mul_stride_of_le (hints h)]
        · simpa only [if_pos hright] using hv
      rw [if_neg (by omega)] at hseg ⊢
      split at hseg
      · next h => exact (hscaled h hseg hexact).imp (by rw [if_pos h]; rfl) fun _ => id
      · next h =>
        rw [mul_stride_of_le h] at hexact
        exact (hplain hseg hexact).imp (by rw [if_neg h]; rfl) fun _ => id
    · rw [if_neg (fun h => hright h.2)] at hv
      dsimp only at hv
      rw [if_neg hright] at hv
      obtain ⟨htypes, hv⟩ := Option.ite_none_left_eq_some.mp hv
      rw [ne_eq, not_not] at htypes
      split at hv
      · next h =>
        rw [if_pos ⟨h, htypes⟩] at hseg ⊢
        obtain ⟨z, hz, hv⟩ := Option.bind_eq_some_iff.mp hv
        have hsub : Reaches ctx text sys env d vm (n + 1) st (· = z) :=
          reaches_bin hseg.head hpc hready (htop ▸ BinOp.eval_of_exact hz)
        refine (hsub.trans fun vm' hpc' hready' hax => ?_).imp (k := n + 5) rfl fun _ => id
        exact reaches_with hclear (by omega) hseg.tail hpc' hready' (by rw [hax]; exact BinOp.eval_of_exact hv)
      · next h =>
        rw [if_neg (fun hp => h hp.1), if_neg h] at hseg ⊢
        exact hplain hseg hv
  | lt | gt | le | ge | or | xor | and | shl | shr | mul | div | mod =>
    refine hplain hseg ?_
    split at hv
    · exact hv
    · exact (Option.ite_none_right_eq_some.mp hv).2
  | eq | ne =>
    refine hplain hseg ?_
    split at hv <;> exact hv

end

end RetrOS.Interpreter
