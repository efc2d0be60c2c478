import RetrOS.Developer.Functions
import RetrOS.Developer.Commands

/-!
# Compiled programs

Programs that the compiler has read, run by `eval`.

* `functionStatements` : `function_body` behind its declarations;
* `Compiled` : the functions of a program are those that have been compiled into the text;
* `compiled_call` : a call of one of them does what the function means, and leaves the stack as it was;
* `main_exits` : from `vm_setup` on, `eval` comes to `EXIT` with what `main` returns.
-/

namespace RetrOS.Interpreter
open RetrOS.Lib RetrOS.Lex

/-! ## The compiler -/

/-- `function_body` behind the declarations of `locals` variables. -/
def functionStatements (ctx : Context) (fuel locals : Nat) (s : Lexer) : Option Lexer := do
  let s ← statements (statement ctx fuel) fuel (s.emit [Op.ent.code, BitVec.ofNat 32 locals])
  some (s.emit [Op.lev.code])

theorem functionStatements_emits {ctx : Context} {fuel locals : Nat} {s s' : Lexer}
    (h : functionStatements ctx fuel locals s = some s') :
    ∃ body, parseStatements (parseStatement fuel) fuel s.input = some (body, s'.input) ∧
      s'.text = s.text ++
        ([Op.ent.code, BitVec.ofNat 32 locals] ++ body.gen ctx (s.text.length + 2) ++ [Op.lev.code]) := by
  obtain ⟨s₁, hbody, h⟩ := Option.bind_eq_some_iff.mp h
  obtain rfl := Option.some.inj h
  obtain ⟨body, hparse, htext, -⟩ := statements_emits (fun _ _ hstmt => statement_emits hstmt) hbody
  refine ⟨body, hparse, ?_⟩
  show s₁.text ++ [Op.lev.code] = _
  rw [htext]
  simp only [Lexer.emit, List.length_append, List.length_cons, List.length_nil, List.append_assoc]

/-- At `value`, `function_body` has emitted the function for the tokens of its statements. -/
def CompiledAt (base : Word) (text : Word → Word) (value : Word) (f : Function) : Prop :=
  ∃ fuel s s', functionStatements ⟨base, BitVec.ofNat 32 (f.params + 1)⟩ fuel f.locals s = some s' ∧
    (parseStatements (parseStatement fuel) fuel s.input).map Prod.fst = some f.body ∧ s.here ⟨base, 0⟩ = value ∧
    Loaded ⟨base, 0⟩ s'.text text

def Compiled (base : Word) (text : Word → Word) (program : Program) : Prop :=
  ∀ value f, program value = some f → CompiledAt base text value f

section
variable {base : Word} {text : Word → Word} {program : Program}

theorem Compiled.placed (h : Compiled base text program) : program.Placed base text := by
  intro value f hf
  obtain ⟨fuel, s, s', hs, hparse, rfl, hloaded⟩ := h value f hf
  obtain ⟨body, hbody, htext⟩ := functionStatements_emits hs
  rw [hbody] at hparse
  obtain rfl := Option.some.inj hparse
  refine ⟨s.text.length, rfl, ?_⟩
  rw [htext] at hloaded
  exact hloaded.textAt

/-- **Compiled functions** do what they mean. -/
theorem compiled_call (h : Compiled base text program) (sys : SysCall → Vm → Word × Memory) (k : Nat)
    (indexOfBp : Word) : CallsRun ⟨base, indexOfBp⟩ text sys (program.call k) :=
  calls_run h.placed k indexOfBp

end

theorem onStack_nil (vm : Vm) : OnStack vm [] := fun i hi => absurd hi (Nat.not_lt_zero i)

theorem OnStack.suffix {vm : Vm} {args args' : List Word} (h : OnStack vm args) (hsuffix : args' <:+ args) :
    OnStack vm args' := by
  obtain ⟨front, rfl⟩ := hsuffix
  intro i hi
  have hword := h i (by rw [List.reverse_append, List.length_append]; omega)
  simp only [List.reverse_append] at hword
  rwa [List.getElem_append_left hi] at hword

theorem OnStack.push {vm : Vm} {args : List Word} (h : OnStack vm args) (hlen : args.length < 2 ^ 29) (v : Word) :
    OnStack (vm.push v) (args ++ [v]) := by
  intro i hi
  have hrev : (args ++ [v]).reverse = v :: args.reverse := List.reverse_concat
  rw [hrev, List.length_cons, List.length_reverse] at hi
  simp only [hrev]
  show Memory.loadInt _ (vm.sp - 4 + _) = _
  cases i with
  | zero =>
    rw [show vm.sp - 4 + 4 * BitVec.ofNat 32 0 = vm.sp - 4 by bv_omega]
    exact Memory.loadInt_storeInt _ _ _
  | succ i =>
    have hword := h i (by rw [List.length_reverse]; omega)
    have hnat : (BitVec.ofNat 32 i).toNat = i := BitVec.toNat_ofNat .. ▸ Nat.mod_eq_of_lt (by omega)
    rw [List.getElem_cons_succ, ← hword]
    rw [show vm.sp - 4 + 4 * BitVec.ofNat 32 (i + 1) = vm.sp + 4 * BitVec.ofNat 32 i by
      rw [BitVec.ofNat_add]
      bv_omega]
    exact loadInt_eq fun j hj => storeInt_other (by bv_omega)

/-- `if (n) return n + sum(n - 1); return 0; }` -/
def sumTokens : List Lexeme :=
  let n : Lexeme := .id ⟨.loc 0, INT⟩
  [.tok .if_, .tok .lparen, n, .tok .rparen, .tok .return_, n, .tok .add, .id ⟨.fun_ 0x1000, INT⟩, .tok .lparen, n,
    .tok .sub, .num 1, .tok .rparen, .tok .semicolon, .tok .return_, .num 0, .tok .semicolon, .tok .rbrace]

/-- `x = sum(argc); return x; }` -/
def mainTokens : List Lexeme :=
  let x : Lexeme := .id ⟨.loc 4, INT⟩
  [x, .tok .assign, .id ⟨.fun_ 0x1000, INT⟩, .tok .lparen, .id ⟨.loc 0, INT⟩, .tok .rparen, .tok .semicolon,
    .tok .return_, x, .tok .semicolon, .tok .rbrace]

def atStart (tokens : List Lexeme) (words : List Word) : Lexer := ⟨Input.enter ⟨tokens, 0, ⟨.undefined, 0⟩⟩, 0, words⟩

def wordsOf (params locals : Nat) (tokens : List Lexeme) (words : List Word) : List Word :=
  ((functionStatements ⟨0x1000, BitVec.ofNat 32 (params + 1)⟩ 12 locals (atStart tokens words)).map (·.text)).getD []

def bodyOf (tokens : List Lexeme) : Stmt :=
  ((parseStatements (parseStatement 12) 12 (atStart tokens []).input).map Prod.fst).getD .done

/-- The two functions, a call of the first one, and the words on the stack that `main` returns to. -/
def sumText (a : Word) : Word :=
  if a = 0x9000 + 1014 then Op.push.code
  else if a = 0x9000 + 1018 then (Op.sys .exit).code
  else (wordsOf 2 1 mainTokens (wordsOf 1 0 sumTokens []) ++ [Op.call.code, 0x1000]).getD ((a - 0x1000).toNat / 4) 0

def sumProgram : Program := fun value =>
  if value = 0x1000 then some ⟨1, 0, bodyOf sumTokens⟩
  else if value = 0x1074 then some ⟨2, 1, bodyOf mainTokens⟩
  else none

theorem compiledAt_of_words (params locals : Nat) (tokens : List Lexeme) (words : List Word)
    (hwords : (functionStatements ⟨0x1000, BitVec.ofNat 32 (params + 1)⟩ 12 locals (atStart tokens words)).map (·.text) =
      some (wordsOf params locals tokens words))
    (hbody : (parseStatements (parseStatement 12) 12 (atStart tokens []).input).map Prod.fst = some (bodyOf tokens))
    (htext : ∀ i : Fin (wordsOf params locals tokens words).length,
      sumText (Context.addr ⟨0x1000, 0⟩ i) = (wordsOf params locals tokens words).get i) :
    CompiledAt 0x1000 sumText (Context.addr ⟨0x1000, 0⟩ words.length) ⟨params, locals, bodyOf tokens⟩ := by
  obtain ⟨s', hs, hs'⟩ := Option.map_eq_some_iff.mp hwords
  exact ⟨12, _, s', hs, hbody, rfl, hs' ▸ fun i hi => htext ⟨i, hi⟩⟩

theorem sumProgram_compiled : Compiled 0x1000 sumText sumProgram := by
  intro value f hf
  unfold sumProgram at hf
  split_ifs at hf with hsum hmain
  · obtain rfl := Option.some.inj hf
    rw [hsum]
    exact compiledAt_of_words 1 0 sumTokens [] rfl rfl (by decide +kernel)
  · obtain rfl := Option.some.inj hf
    rw [hmain]
    exact compiledAt_of_words 2 1 mainTokens (wordsOf 1 0 sumTokens []) rfl rfl (by decide +kernel)

theorem compiled_call_sum : ∃ vm vm' : Vm, vm.pc = Context.addr ⟨0x1000, 0⟩ 48 ∧
    Steps sumText (fun _ vm => (0, vm.mem)) vm vm' ∧ vm'.pc = Context.addr ⟨0x1000, 0⟩ 50 ∧ vm'.sp = vm.sp ∧
      vm'.ax = 3 := by
  let vm : Vm := (⟨Context.addr ⟨0x1000, 0⟩ 48, 0x9000, 0x8004, 0, fun _ => 0⟩ : Vm).push 2
  have hrun : (sumProgram.call 12 0x1000 (0x8004 - 4) 100 [2] (fun _ => false) fun _ => none).map Prod.fst =
    some (some 3) := by rfl
  obtain ⟨⟨v, st'⟩, hcall, rfl⟩ := Option.map_eq_some_iff.mp hrun
  have hseg : Seg (textAt ⟨0x1000, 0⟩ sumText) 48 [Op.call.code, 0x1000] := fun i hi =>
    have hall : ∀ i : Fin 2, sumText (Context.addr ⟨0x1000, 0⟩ (48 + i)) = [Op.call.code, 0x1000].get i := by
      decide +kernel
    congrArg some (hall ⟨i, hi⟩)
  obtain ⟨vm', hsteps, hpc, hsp, -, -, -, hax⟩ := compiled_call sumProgram_compiled (fun _ vm => (0, vm.mem)) 12 0
    0x1000 100 [2] _ _ _ _ vm 48 hcall hseg rfl ((onStack_nil _).push (by decide) 2)
    (by decide) (fun a ha => absurd ha Bool.false_ne_true) (fun a b ha => absurd ha Bool.false_ne_true)
  exact ⟨vm, vm', rfl, hsteps, hpc, hsp, hax 3 rfl⟩

section
variable {base : Word} {text : Word → Word} {program : Program}

/-! ## Whole programs -/

/-- The machine of `vm_setup_stack` before the return address of `main` is pushed: that of the word `PUSH`. -/
def beforeMain (mem : Memory) (stack pc argc argv : Word) : Vm :=
  let top := stack + (1024 - 2)
  ((((⟨pc, top, top, 0, mem⟩ : Vm).push (Op.sys .exit).code).push Op.push.code).push argc).push argv

theorem onStack_beforeMain (mem : Memory) (stack pc argc argv : Word) :
    OnStack (beforeMain mem stack pc argc argv) [argc, argv] := by
  exact ((onStack_nil _).push (Nat.two_pow_pos 29) argc).push (show 1 < 2 ^ 29 by decide) argv

theorem vmSetup_eq (mem : Memory) (stack pc argc argv : Word) : vmSetup mem stack pc argc argv =
    { (beforeMain mem stack pc argc argv).push (stack + 1014) with pc } := by
  have htmp : stack + (1024 - 2) - 4 - 4 = stack + 1014 := by bv_omega
  simp only [vmSetup, beforeMain, Vm.push, htmp]

/-- **`eval`** comes to `EXIT` with what `main` returns, and with the memory that `main` leaves. -/
theorem main_exits (h : Compiled base text program) (sys : SysCall → Vm → Word × Memory) {k room : Nat}
    {mem : Memory} {stack value argc argv v : Word} {args : List Word} {objects : Word → Bool} {st st' : Store}
    (hcall : program.call k value (beforeMain mem stack value argc argv).sp room args objects st = some (some v, st'))
    (hargs : args <:+ [argc, argv])
    (hpush : text (stack + 1014) = Op.push.code) (hexit : text (stack + 1018) = (Op.sys .exit).code)
    (hroom : room ≤ 251)
    (hapart : ∀ a, objects a = true → (a - (beforeMain mem stack value argc argv).sp).toNat + 4 * room < 2 ^ 32)
    (hholds : Holds objects st (beforeMain mem stack value argc argv).mem) :
    ∃ vm', Steps text sys (vmSetup mem stack value argc argv) vm' ∧
      Op.decode (text vm'.pc) = some (.sys .exit) ∧ vm'.top = v ∧ Holds objects st' vm'.mem := by
  cases k with
  | zero => exact absurd hcall (Option.some_ne_none _).symm
  | succ k =>
  obtain ⟨f, r, hf, hparams, hlocals, hbody, hr⟩ := Program.call_succ hcall
  obtain ⟨m, rfl, hcode⟩ := h.placed value f hf
  have hlen : args.length ≤ 2 := hargs.length_le
  have hstack := (onStack_beforeMain mem stack (Context.addr ⟨base, 0⟩ m) argc argv).suffix hargs
  obtain ⟨vm₁, hsteps, hpc, hsp, -, hholds₁, -, hax⟩ := frame_run (stack + 1014)
    (calls_run h.placed k _) hcode hparams hlocals hbody hstack (by omega) hapart hholds
  rw [show (beforeMain mem stack _ argc argv).enters (stack + 1014) base m = vmSetup mem stack _ argc argv from
    (vmSetup_eq mem stack _ argc argv).symm] at hsteps
  let vm₂ : Vm := ({ vm₁ with pc := vm₁.pc + 4 } : Vm).push vm₁.ax
  have hstep : vm₁.step text sys = some vm₂ := by
    simp only [Vm.step, hpc, hpush, Op.decode_code, vm₂]
  refine ⟨vm₂, hsteps.tail hstep, ?_, ?_, fun a b ha hb => ?_⟩
  · show Op.decode (text (vm₁.pc + 4)) = _
    rw [hpc, show stack + 1014 + 4 = stack + 1018 by bv_omega, hexit, Op.decode_code]
  · exact (Memory.loadInt_storeInt _ _ _).trans (hax v hr)
  · have hfar := hapart a ha
    show vm₁.mem.storeInt (vm₁.sp - 4) vm₁.ax a = b
    rw [storeInt_other (by rw [hsp]; bv_omega)]
    exact hholds₁ a b ha hb

end

end RetrOS.Interpreter
