import RetrOS.Developer.Statement
import RetrOS.Lib.Seg
import RetrOS.Lib.Until

/-!
# Control flow of compiled statements

The code that `statement` emits, with the code of an expression as one step that sets `ax`. What an expression's value
is depends on the expressions evaluated before.

* `Exec` : the statements of C, and the order in which they evaluate their expressions;
* `Cell`, `Stmt.cells` : the words of a statement, those of an expression marked;
* `flowStep` : the machine on the cells;
* `statement_controlFlow` : the machine evaluates the expressions in the order of the statement, and leaves as it does.
-/

namespace RetrOS.Interpreter
open RetrOS.Lib

/-! ## The statements of C -/

/-- How far a statement has come. -/
inductive Outcome
  | running
  | finished
  | returned
  deriving DecidableEq

/-- `Exec value st h o h'` : after the expressions `h`, `st` comes to `o` when those in `h'` have been evaluated. -/
inductive Exec (value : List Leaf → Leaf → Word) : Stmt → List Leaf → Outcome → List Leaf → Prop
  | start (st : Stmt) (h : List Leaf) : Exec value st h .running h
  | sofar {st : Stmt} {h h' : List Leaf} {o : Outcome} : Exec value st h o h' → Exec value st h .running h'
  | ifThenTrue {c : Leaf} {a : Stmt} {h h' : List Leaf} {o : Outcome} : value h c ≠ 0 →
      Exec value a (h ++ [c]) o h' → Exec value (.ifThen c a) h o h'
  | ifThenFalse {c : Leaf} {a : Stmt} {h : List Leaf} : value h c = 0 →
      Exec value (.ifThen c a) h .finished (h ++ [c])
  | ifElseTrue {c : Leaf} {a b : Stmt} {h h' : List Leaf} {o : Outcome} : value h c ≠ 0 →
      Exec value a (h ++ [c]) o h' → Exec value (.ifElse c a b) h o h'
  | ifElseFalse {c : Leaf} {a b : Stmt} {h h' : List Leaf} {o : Outcome} : value h c = 0 →
      Exec value b (h ++ [c]) o h' → Exec value (.ifElse c a b) h o h'
  | whileTrue {c : Leaf} {a : Stmt} {h h' h'' : List Leaf} {o : Outcome} : value h c ≠ 0 →
      Exec value a (h ++ [c]) .finished h' → Exec value (.while_ c a) h' o h'' → Exec value (.while_ c a) h o h''
  | whileBody {c : Leaf} {a : Stmt} {h h' : List Leaf} {o : Outcome} : value h c ≠ 0 →
      Exec value a (h ++ [c]) o h' → o ≠ .finished → Exec value (.while_ c a) h o h'
  | whileFalse {c : Leaf} {a : Stmt} {h : List Leaf} : value h c = 0 →
      Exec value (.while_ c a) h .finished (h ++ [c])
  | block {body : Stmt} {h h' : List Leaf} {o : Outcome} : Exec value body h o h' → Exec value (.block body) h o h'
  | seq {a rest : Stmt} {h h' h'' : List Leaf} {o : Outcome} : Exec value a h .finished h' →
      Exec value rest h' o h'' → Exec value (.seq a rest) h o h''
  | seqFirst {a rest : Stmt} {h h' : List Leaf} {o : Outcome} : Exec value a h o h' → o ≠ .finished →
      Exec value (.seq a rest) h o h'
  | done {h : List Leaf} : Exec value .done h .finished h
  | return_ {h : List Leaf} : Exec value (.return_ none) h .returned h
  | returnValue {e : Leaf} {h : List Leaf} : Exec value (.return_ (some e)) h .returned (h ++ [e])
  | empty {h : List Leaf} : Exec value .empty h .finished h
  | expr {e : Leaf} {h : List Leaf} : Exec value (.expr e) h .finished (h ++ [e])

/-! ## The machine -/

/-- A word of the text. The first word of an expression is marked with it, and with where its words end. -/
structure Cell where
  word : Word
  mark : Option (Leaf × Nat)

def plain (words : List Word) : List Cell := words.map fun word => ⟨word, none⟩

def Leaf.cells (ctx : Context) (c : Leaf) (n : Nat) : List Cell :=
  match c.expr.gen ctx n with
  | [] => []
  | w :: words => ⟨w, some (c, n + words.length + 1)⟩ :: plain words

/-- The words of a statement, its expressions marked. -/
def Stmt.cells (ctx : Context) : Stmt → Nat → List Cell
  | .ifThen c a, n =>
    let cc := c.cells ctx n
    let ca := a.cells ctx (n + cc.length + 2)
    cc ++ plain [Op.jz.code, ctx.addr (n + cc.length + 2 + ca.length)] ++ ca
  | .ifElse c a b, n =>
    let cc := c.cells ctx n
    let ca := a.cells ctx (n + cc.length + 2)
    let els := n + cc.length + 2 + ca.length + 2
    let cb := b.cells ctx els
    cc ++ plain [Op.jz.code, ctx.addr els] ++ ca ++ plain [Op.jmp.code, ctx.addr (els + cb.length)] ++ cb
  | .while_ c a, n =>
    let cc := c.cells ctx n
    let ca := a.cells ctx (n + cc.length + 2)
    cc ++ plain [Op.jz.code, ctx.addr (n + cc.length + 2 + ca.length + 2)] ++ ca ++ plain [Op.jmp.code, ctx.addr n]
  | .block body, n => body.cells ctx n
  | .seq a rest, n => a.cells ctx n ++ rest.cells ctx (n + (a.cells ctx n).length)
  | .done, _ => []
  | .return_ none, _ => plain [Op.lev.code]
  | .return_ (some e), n => e.cells ctx n ++ plain [Op.lev.code]
  | .empty, _ => []
  | .expr e, n => e.cells ctx n

/-- The machine between two instructions, with the expressions evaluated so far. -/
structure Flow where
  pc : Nat
  ax : Word
  evaluated : List Leaf

/-- The word of the text at an address. -/
def Context.index (ctx : Context) (a : Word) : Nat := (a - ctx.base).toNat / 4

/-- The code of an expression, or an instruction of `eval`. At `LEV` the machine leaves. -/
def flowStep (ctx : Context) (value : List Leaf → Leaf → Word) (cells : List Cell) (f : Flow) : Option Flow :=
  match cells[f.pc]? with
  | none => none
  | some ⟨_, some (c, stop)⟩ => some ⟨stop, value f.evaluated c, f.evaluated ++ [c]⟩
  | some ⟨w, none⟩ =>
    match Op.decode w, cells[f.pc + 1]? with
    | some .jmp, some arg => some { f with pc := ctx.index arg.word }
    | some .jz, some arg => some { f with pc := if f.ax ≠ 0 then f.pc + 2 else ctx.index arg.word }
    | _, _ => none

def AtLev (cells : List Cell) (pc : Nat) : Prop := cells[pc]? = some ⟨Op.lev.code, none⟩

/-- `f` is as far as `o`, for a statement whose words end at `stop`. -/
def IsAt (cells : List Cell) (stop : Nat) (f : Flow) : Outcome → Prop
  | .running => True
  | .finished => f.pc = stop
  | .returned => AtLev cells f.pc

abbrev Flows (ctx : Context) (value : List Leaf → Leaf → Word) (cells : List Cell) : Flow → Flow → Prop :=
  Relation.ReflTransGen fun f g => flowStep ctx value cells f = some g

section
variable {ctx : Context} {value : List Leaf → Leaf → Word} {cells : List Cell} {n : Nat}

theorem Leaf.cells_eq {c : Leaf} (h : c.expr.Accepted ctx n) : ∃ w words, c.expr.gen ctx n = w :: words ∧
    c.cells ctx n = ⟨w, some (c, n + (c.expr.gen ctx n).length)⟩ :: plain words := by
  obtain ⟨w, words, hgen, -⟩ := Expr.starts h
  refine ⟨w, words, hgen, ?_⟩
  rw [Leaf.cells, hgen]
  rfl

theorem map_plain (words : List Word) : (plain words).map Cell.word = words := by
  simp [plain, Function.comp_def]

@[simp] theorem length_plain (words : List Word) : (plain words).length = words.length := List.length_map ..

variable (ctx) in
theorem Leaf.map_cells (c : Leaf) (n : Nat) : (c.cells ctx n).map Cell.word = c.expr.gen ctx n := by
  unfold Leaf.cells
  split
  · next h => rw [h, List.map_nil]
  · next h => rw [h, List.map_cons, map_plain]

variable (ctx) in
theorem Leaf.length_cells (c : Leaf) (n : Nat) : (c.cells ctx n).length = (c.expr.gen ctx n).length := by
  rw [← Leaf.map_cells, List.length_map]

/-- The cells are those of the words emitted. -/
theorem Stmt.map_cells (st : Stmt) (n : Nat) : (st.cells ctx n).map Cell.word = st.gen ctx n := by
  have hlen {cs : List Cell} {ws : List Word} (h : cs.map Cell.word = ws) : cs.length = ws.length := by
    rw [← h, List.length_map]
  induction st generalizing n with
  | ifThen c a ih =>
    simp only [Stmt.cells, Stmt.gen, List.map_append, map_plain, Leaf.map_cells, Leaf.length_cells, ih, hlen (ih _)]
  | ifElse c a b iha ihb =>
    simp only [Stmt.cells, Stmt.gen, List.map_append, map_plain, Leaf.map_cells, Leaf.length_cells, iha, ihb,
      hlen (iha _), hlen (ihb _)]
  | while_ c a ih =>
    simp only [Stmt.cells, Stmt.gen, List.map_append, map_plain, Leaf.map_cells, Leaf.length_cells, ih, hlen (ih _)]
  | block body ih => exact ih n
  | seq a rest iha ihb => simp only [Stmt.cells, Stmt.gen, List.map_append, iha, ihb, hlen (iha _)]
  | done => rfl
  | return_ e =>
    cases e with
    | none => rfl
    | some e => simp only [Stmt.cells, Stmt.gen, List.map_append, map_plain, Leaf.map_cells]
  | empty => rfl
  | expr e => exact Leaf.map_cells ctx e n

variable (ctx) in
theorem Stmt.length_cells (st : Stmt) (n : Nat) : (st.cells ctx n).length = (st.gen ctx n).length := by
  rw [← Stmt.map_cells, List.length_map]

theorem Context.index_addr (ctx : Context) {n : Nat} (h : n < 2 ^ 30) : ctx.index (ctx.addr n) = n := by
  have hmul : (4 * BitVec.ofNat 32 n : Word).toNat = 4 * n := by
    rw [BitVec.toNat_mul, BitVec.toNat_ofNat]
    show 4 * (n % 2 ^ 32) % 2 ^ 32 = 4 * n
    omega
  have hsub (a b : Word) : a + b - a = b := by bv_omega
  rw [Context.index, Context.addr, hsub, hmul]
  omega

/-! ## One step -/

abbrev Placed (cells : List Cell) (n : Nat) (words : List Cell) : Prop := Seg (fun i => cells[i]?) n words

/-- From `n`, `c` is evaluated, up to `m`. -/
def Evaluates (ctx : Context) (value : List Leaf → Leaf → Word) (cells : List Cell) (c : Leaf) (n m : Nat) : Prop :=
  ∀ ax h, flowStep ctx value cells ⟨n, ax, h⟩ = some ⟨m, value h c, h ++ [c]⟩

def Branches (ctx : Context) (value : List Leaf → Leaf → Word) (cells : List Cell) (n k : Nat) : Prop :=
  ∀ ax h, flowStep ctx value cells ⟨n, ax, h⟩ = some ⟨if ax ≠ 0 then n + 2 else k, ax, h⟩

def Jumps (ctx : Context) (value : List Leaf → Leaf → Word) (cells : List Cell) (n k : Nat) : Prop :=
  ∀ ax h, flowStep ctx value cells ⟨n, ax, h⟩ = some ⟨k, ax, h⟩

theorem evaluates {c : Leaf} (hacc : c.expr.Accepted ctx n) (hseg : Placed cells n (c.cells ctx n)) :
    Evaluates ctx value cells c n (n + (c.expr.gen ctx n).length) := by
  obtain ⟨w, words, -, hcells⟩ := Leaf.cells_eq hacc
  rw [hcells] at hseg
  have hcell : cells[n]? = _ := hseg.head
  intro ax h
  simp only [flowStep, hcell]

theorem branches {k : Nat} (hk : k < 2 ^ 30) (hseg : Placed cells n (plain [Op.jz.code, ctx.addr k])) :
    Branches ctx value cells n k := by
  have hop : cells[n]? = some ⟨Op.jz.code, none⟩ := hseg.head
  have harg : cells[n + 1]? = some ⟨ctx.addr k, none⟩ := hseg.tail.head
  intro ax h
  simp only [flowStep, hop, Op.decode_code, harg, Context.index_addr ctx hk]

theorem jumps {k : Nat} (hk : k < 2 ^ 30) (hseg : Placed cells n (plain [Op.jmp.code, ctx.addr k])) :
    Jumps ctx value cells n k := by
  have hop : cells[n]? = some ⟨Op.jmp.code, none⟩ := hseg.head
  have harg : cells[n + 1]? = some ⟨ctx.addr k, none⟩ := hseg.tail.head
  intro ax h
  simp only [flowStep, hop, Op.decode_code, harg, Context.index_addr ctx hk]

theorem AtLev.stays {f g : Flow} (hlev : AtLev cells f.pc) : flowStep ctx value cells f ≠ some g := by
  rw [AtLev] at hlev
  simp only [flowStep, hlev, Op.decode_code]
  exact Option.some_ne_none _ ∘ Eq.symm

theorem lt_of_step {f g : Flow} (hstep : flowStep ctx value cells f = some g) : f.pc < cells.length := by
  by_contra hge
  rw [flowStep, List.getElem?_eq_none (Nat.le_of_not_lt hge)] at hstep
  exact absurd hstep (Option.some_ne_none _).symm

/-! ## The places of a statement -/

/-- The code of a statement is from `n` to `stop`, with its jumps in their places. -/
inductive Located (ctx : Context) (value : List Leaf → Leaf → Word) (cells : List Cell) : Stmt → Nat → Nat → Prop
  | ifThen {c : Leaf} {a : Stmt} {n m stop : Nat} : Evaluates ctx value cells c n m →
      Branches ctx value cells m stop → Located ctx value cells a (m + 2) stop →
      Located ctx value cells (.ifThen c a) n stop
  | ifElse {c : Leaf} {a b : Stmt} {n m j stop : Nat} : Evaluates ctx value cells c n m →
      Branches ctx value cells m (j + 2) → Located ctx value cells a (m + 2) j → Jumps ctx value cells j stop →
      Located ctx value cells b (j + 2) stop → Located ctx value cells (.ifElse c a b) n stop
  | while_ {c : Leaf} {a : Stmt} {n m j : Nat} : Evaluates ctx value cells c n m →
      Branches ctx value cells m (j + 2) → Located ctx value cells a (m + 2) j → Jumps ctx value cells j n →
      Located ctx value cells (.while_ c a) n (j + 2)
  | block {body : Stmt} {n stop : Nat} : Located ctx value cells body n stop →
      Located ctx value cells (.block body) n stop
  | seq {a rest : Stmt} {n m stop : Nat} : Located ctx value cells a n m → Located ctx value cells rest m stop →
      Located ctx value cells (.seq a rest) n stop
  | done {n : Nat} : Located ctx value cells .done n n
  | return_ {n : Nat} : AtLev cells n → Located ctx value cells (.return_ none) n (n + 1)
  | returnValue {e : Leaf} {n m : Nat} : Evaluates ctx value cells e n m → AtLev cells m →
      Located ctx value cells (.return_ (some e)) n (m + 1)
  | empty {n : Nat} : Located ctx value cells .empty n n
  | expr {e : Leaf} {n m : Nat} : Evaluates ctx value cells e n m → Located ctx value cells (.expr e) n m

/-- Every jump leads to where `statement` has patched it to. -/
theorem located {st : Stmt} {stop : Nat} (hacc : st.Accepted ctx n) (hseg : Placed cells n (st.cells ctx n))
    (hstop : stop = n + (st.gen ctx n).length) (hsmall : stop < 2 ^ 30) : Located ctx value cells st n stop := by
  have htwo (w w' : Word) : (plain [w, w']).length = 2 := rfl
  induction st generalizing n stop with
  | ifThen c a ih =>
    obtain ⟨hc, ha⟩ := hacc
    have hcells := Leaf.length_cells ctx c n
    simp only [Stmt.cells, Leaf.length_cells, Stmt.length_cells] at hseg
    simp only [Stmt.gen, List.length_append, List.length_cons, List.length_nil] at hstop
    have heval : Evaluates ctx value cells c n _ := evaluates hc hseg.left.left
    generalize hm : n + (c.expr.gen ctx n).length = m at *
    obtain rfl : stop = m + 2 + (a.gen ctx (m + 2)).length := by omega
    exact .ifThen heval (branches hsmall (hseg.left.behind (by omega)))
      (ih ha (hseg.behind (by rw [List.length_append, htwo]; omega)) rfl hsmall)
  | ifElse c a b iha ihb =>
    obtain ⟨hc, ha, hb⟩ := hacc
    have hcells := Leaf.length_cells ctx c n
    simp only [Stmt.cells, Leaf.length_cells, Stmt.length_cells] at hseg
    simp only [Stmt.gen, List.length_append, List.length_cons, List.length_nil] at hstop
    have heval : Evaluates ctx value cells c n _ := evaluates hc hseg.left.left.left.left
    generalize hm : n + (c.expr.gen ctx n).length = m at *
    have hcells' := Stmt.length_cells ctx a (m + 2)
    generalize hj : m + 2 + (a.gen ctx (m + 2)).length = j at *
    obtain rfl : stop = j + 2 + (b.gen ctx (j + 2)).length := by omega
    refine .ifElse heval (branches (by omega) (hseg.left.left.left.behind (by omega)))
      (iha ha (hseg.left.left.behind ?_) hj.symm (by omega)) (jumps hsmall (hseg.left.behind ?_))
      (ihb hb (hseg.behind ?_) rfl hsmall)
    · rw [List.length_append, htwo]
      omega
    · rw [List.length_append, List.length_append, htwo]
      omega
    · rw [List.length_append, List.length_append, List.length_append, htwo, htwo]
      omega
  | while_ c a ih =>
    obtain ⟨hc, ha⟩ := hacc
    have hcells := Leaf.length_cells ctx c n
    simp only [Stmt.cells, Leaf.length_cells, Stmt.length_cells] at hseg
    simp only [Stmt.gen, List.length_append, List.length_cons, List.length_nil] at hstop
    have heval : Evaluates ctx value cells c n _ := evaluates hc hseg.left.left.left
    generalize hm : n + (c.expr.gen ctx n).length = m at *
    have hcells' := Stmt.length_cells ctx a (m + 2)
    generalize hj : m + 2 + (a.gen ctx (m + 2)).length = j at *
    obtain rfl : stop = j + 2 := by omega
    refine .while_ heval (branches hsmall (hseg.left.left.behind (by omega)))
      (ih ha (hseg.left.behind ?_) hj.symm (by omega)) (jumps (by omega) (hseg.behind ?_))
    · rw [List.length_append, htwo]
      omega
    · rw [List.length_append, List.length_append, htwo]
      omega
  | block body ih => exact .block (ih hacc hseg hstop hsmall)
  | seq a rest iha ihb =>
    have hcells := Stmt.length_cells ctx a n
    simp only [Stmt.cells, Stmt.length_cells] at hseg
    rw [Stmt.gen, List.length_append, ← Nat.add_assoc] at hstop
    exact .seq (iha hacc.1 hseg.left rfl (by omega)) (ihb hacc.2 (hseg.behind (by omega)) hstop hsmall)
  | done => exact hstop ▸ .done
  | return_ e =>
    cases e with
    | none => exact hstop ▸ .return_ hseg.head
    | some e =>
      have hcells := Leaf.length_cells ctx e n
      rw [Stmt.gen, List.length_append, ← Nat.add_assoc] at hstop
      exact hstop ▸ .returnValue (evaluates hacc hseg.left) (hseg.behind (by omega)).head
  | empty => exact hstop ▸ .empty
  | expr e => exact hstop ▸ .expr (evaluates hacc hseg)

/-! ## From the statement to the machine -/

theorem flows_evaluates {c : Leaf} {m : Nat} {ax : Word} {h : List Leaf} (heval : Evaluates ctx value cells c n m) :
    Flows ctx value cells ⟨n, ax, h⟩ ⟨m, value h c, h ++ [c]⟩ := .single (heval ax h)

theorem flows_true {c : Leaf} {m k : Nat} {ax : Word} {h : List Leaf} (heval : Evaluates ctx value cells c n m)
    (hbranch : Branches ctx value cells m k) (hv : value h c ≠ 0) :
    Flows ctx value cells ⟨n, ax, h⟩ ⟨m + 2, value h c, h ++ [c]⟩ :=
  (flows_evaluates heval).tail ((hbranch _ _).trans (by rw [if_pos hv]))

theorem flows_false {c : Leaf} {m k : Nat} {ax : Word} {h : List Leaf} (heval : Evaluates ctx value cells c n m)
    (hbranch : Branches ctx value cells m k) (hv : value h c = 0) :
    Flows ctx value cells ⟨n, ax, h⟩ ⟨k, value h c, h ++ [c]⟩ :=
  (flows_evaluates heval).tail ((hbranch _ _).trans (by rw [if_neg (not_not.mpr hv)]))

theorem IsAt.elsewhere {stop stop' : Nat} {f : Flow} {o : Outcome} (h : IsAt cells stop f o) (ho : o ≠ .finished) :
    IsAt cells stop' f o := by
  cases o with
  | running => trivial
  | finished => exact absurd rfl ho
  | returned => exact h

/-- The machine comes as far as the statement, with the same expressions evaluated. -/
theorem Exec.flows {st : Stmt} {h h' : List Leaf} {o : Outcome} (hexec : Exec value st h o h') :
    ∀ {n stop : Nat} {ax : Word}, Located ctx value cells st n stop → ∃ f, Flows ctx value cells ⟨n, ax, h⟩ f ∧
      IsAt cells stop f o ∧ f.evaluated = h' := by
  induction hexec with
  | start st h =>
    intro n stop ax _
    exact ⟨_, .refl, trivial, rfl⟩
  | sofar _ ih =>
    intro n stop ax hloc
    obtain ⟨f, hf, -, hev⟩ := ih hloc
    exact ⟨f, hf, trivial, hev⟩
  | ifThenTrue hv _ ih =>
    intro n stop ax hloc
    cases hloc with | ifThen heval hbranch ha
    obtain ⟨f, hf, hat⟩ := ih ha
    exact ⟨f, (flows_true heval hbranch hv).trans hf, hat⟩
  | ifThenFalse hv =>
    intro n stop ax hloc
    cases hloc with | ifThen heval hbranch ha
    exact ⟨_, flows_false heval hbranch hv, rfl, rfl⟩
  | @ifElseTrue c a b h h' o hv _ ih =>
    intro n stop ax hloc
    cases hloc with | ifElse heval hbranch ha hjump hb
    obtain ⟨f, hf, hat, hev⟩ := ih ha
    by_cases ho : o = .finished
    · subst ho
      obtain ⟨pc, ax', _⟩ := f
      obtain rfl := hat
      exact ⟨_, ((flows_true heval hbranch hv).trans hf).tail (hjump _ _), rfl, hev⟩
    · exact ⟨f, (flows_true heval hbranch hv).trans hf, hat.elsewhere ho, hev⟩
  | ifElseFalse hv _ ih =>
    intro n stop ax hloc
    cases hloc with | ifElse heval hbranch ha hjump hb
    obtain ⟨f, hf, hat⟩ := ih hb
    exact ⟨f, (flows_false heval hbranch hv).trans hf, hat⟩
  | whileTrue hv _ _ iha ihw =>
    intro n stop ax hloc
    have hloc' := hloc
    cases hloc with | while_ heval hbranch ha hjump
    obtain ⟨⟨pc, ax', _⟩, hf, hat, rfl⟩ := iha ha
    obtain rfl := hat
    obtain ⟨g, hg, hat⟩ := ihw hloc'
    exact ⟨g, (flows_true heval hbranch hv).trans (hf.trans (.head (hjump _ _) hg)), hat⟩
  | whileBody hv _ ho ih =>
    intro n stop ax hloc
    cases hloc with | while_ heval hbranch ha hjump
    obtain ⟨f, hf, hat, hev⟩ := ih ha
    exact ⟨f, (flows_true heval hbranch hv).trans hf, hat.elsewhere ho, hev⟩
  | whileFalse hv =>
    intro n stop ax hloc
    cases hloc with | while_ heval hbranch ha hjump
    exact ⟨_, flows_false heval hbranch hv, rfl, rfl⟩
  | block _ ih =>
    intro n stop ax hloc
    cases hloc with | block hbody
    exact ih hbody
  | seq _ _ iha ihr =>
    intro n stop ax hloc
    cases hloc with | seq ha hrest
    obtain ⟨⟨pc, ax', _⟩, hf, hat, rfl⟩ := iha ha
    obtain rfl := hat
    obtain ⟨g, hg, hat⟩ := ihr hrest
    exact ⟨g, hf.trans hg, hat⟩
  | seqFirst _ ho ih =>
    intro n stop ax hloc
    cases hloc with | seq ha hrest
    obtain ⟨f, hf, hat, hev⟩ := ih ha
    exact ⟨f, hf, hat.elsewhere ho, hev⟩
  | done =>
    intro n stop ax hloc
    cases hloc with | done
    exact ⟨_, .refl, rfl, rfl⟩
  | return_ =>
    intro n stop ax hloc
    cases hloc with | return_ hlev
    exact ⟨_, .refl, hlev, rfl⟩
  | returnValue =>
    intro n stop ax hloc
    cases hloc with | returnValue heval hlev
    exact ⟨_, flows_evaluates heval, hlev, rfl⟩
  | empty =>
    intro n stop ax hloc
    cases hloc with | empty
    exact ⟨_, .refl, rfl, rfl⟩
  | expr =>
    intro n stop ax hloc
    cases hloc with | expr heval
    exact ⟨_, flows_evaluates heval, rfl, rfl⟩

/-! ## From the machine to the statement -/

/-- The machine is in the code of `st`, which has evaluated the same expressions. -/
structure Within (value : List Leaf → Leaf → Word) (cells : List Cell) (st : Stmt) (h : List Leaf) (f : Flow) :
    Prop where
  inside : f.pc < cells.length
  running : Exec value st h .running f.evaluated
  returned : AtLev cells f.pc → Exec value st h .returned f.evaluated

/-- The machine is behind the code of `st`. -/
structure Behind (value : List Leaf → Leaf → Word) (st : Stmt) (h : List Leaf) (stop : Nat) (f : Flow) : Prop where
  pc : f.pc = stop
  finished : Exec value st h .finished f.evaluated

abbrev Follows (ctx : Context) (value : List Leaf → Leaf → Word) (cells : List Cell) (st : Stmt) (h : List Leaf)
    (stop : Nat) (f : Flow) : Prop :=
  Until (fun f g => flowStep ctx value cells f = some g) (Within value cells st h) (Behind value st h stop) f

theorem Within.of {st st' : Stmt} {h k : List Leaf} {f : Flow} (hf : Within value cells st h f)
    (himp : ∀ {o h'}, o ≠ .finished → Exec value st h o h' → Exec value st' k o h') : Within value cells st' k f :=
  ⟨hf.inside, himp (by decide) hf.running, fun hlev => himp (by decide) (hf.returned hlev)⟩

/-- A state that takes a step is in the code and not at `LEV`. -/
theorem within_step {st : Stmt} {h : List Leaf} {f g : Flow} (hstep : flowStep ctx value cells f = some g)
    (hrun : Exec value st h .running f.evaluated) : Within value cells st h f :=
  ⟨lt_of_step hstep, hrun, fun hlev => absurd hstep hlev.stays⟩

theorem Until.advance {ok goal : Flow → Prop} {f g : Flow} (hstep : flowStep ctx value cells f = some g) (hf : ok f)
    (hg : Until (fun f g => flowStep ctx value cells f = some g) ok goal g) :
    Until (fun f g => flowStep ctx value cells f = some g) ok goal f := by
  refine .step hf fun t ht => ?_
  obtain rfl := Option.some.inj (hstep.symm.trans ht)
  exact hg

/-- Either side of a jump, once the condition has been evaluated. -/
theorem Until.branch {goal : Flow → Prop} {st : Stmt} {m k : Nat} {v : Word} {h h' : List Leaf}
    (hbranch : Branches ctx value cells m k) (hrun : Exec value st h .running h')
    (htrue : v ≠ 0 → Until (fun f g => flowStep ctx value cells f = some g) (Within value cells st h) goal
      ⟨m + 2, v, h'⟩)
    (hfalse : v = 0 → Until (fun f g => flowStep ctx value cells f = some g) (Within value cells st h) goal
      ⟨k, v, h'⟩) :
    Until (fun f g => flowStep ctx value cells f = some g) (Within value cells st h) goal ⟨m, v, h'⟩ := by
  refine Until.advance (hbranch _ _) (within_step (hbranch _ _) hrun) ?_
  split
  · next hv => exact htrue hv
  · next hv => exact hfalse (not_not.mp hv)

theorem Until.lev {goal : Flow → Prop} {st : Stmt} {h : List Leaf} {f : Flow} (hlev : AtLev cells f.pc)
    (hret : Exec value st h .returned f.evaluated) :
    Until (fun f g => flowStep ctx value cells f = some g) (Within value cells st h) goal f :=
  .step ⟨(List.getElem?_eq_some_iff.mp hlev).1, .sofar hret, fun _ => hret⟩ fun _ ht => absurd ht hlev.stays

/-- The machine evaluates only what the statement evaluates, until it is behind it. -/
theorem Located.follows {st : Stmt} {stop : Nat} (hloc : Located ctx value cells st n stop) :
    ∀ ax h, Follows ctx value cells st h stop ⟨n, ax, h⟩ := by
  induction hloc with
  | @ifThen c a n m stop heval hbranch _ ih =>
    intro ax h
    have hrun : Exec value (.ifThen c a) h .running (h ++ [c]) := by
      by_cases hv : value h c = 0
      · exact .sofar (.ifThenFalse hv)
      · exact .ifThenTrue hv (.start _ _)
    refine Until.advance (heval ax h) (within_step (heval ax h) (.start _ _)) ?_
    refine Until.branch hbranch hrun (fun hv => ?_) fun hv => .here ⟨rfl, .ifThenFalse hv⟩
    exact (ih _ _).imp (fun t ht => ht.of fun _ => .ifThenTrue hv) fun t ht => ⟨ht.pc, .ifThenTrue hv ht.finished⟩
  | @ifElse c a b n m j stop heval hbranch _ hjump _ iha ihb =>
    intro ax h
    have hrun : Exec value (.ifElse c a b) h .running (h ++ [c]) := by
      by_cases hv : value h c = 0
      · exact .ifElseFalse hv (.start _ _)
      · exact .ifElseTrue hv (.start _ _)
    refine Until.advance (heval ax h) (within_step (heval ax h) (.start _ _)) ?_
    refine Until.branch hbranch hrun (fun hv => ?_) fun hv => ?_
    · have ha : Until (fun f g => flowStep ctx value cells f = some g) (Within value cells (.ifElse c a b) h)
          (Behind value a (h ++ [c]) j) ⟨m + 2, value h c, h ++ [c]⟩ :=
        (iha _ _).imp (fun t ht => ht.of fun _ => .ifElseTrue hv) fun _ => id
      refine ha.bind fun ⟨pc, ax', h'⟩ ht => ?_
      obtain rfl : pc = j := ht.pc
      have hend : Exec value (.ifElse c a b) h .finished h' := .ifElseTrue hv ht.finished
      exact Until.advance (hjump _ _) (within_step (hjump _ _) (.sofar hend)) (.here ⟨rfl, hend⟩)
    · exact (ihb _ _).imp (fun t ht => ht.of fun _ => .ifElseFalse hv) fun t ht => ⟨ht.pc, .ifElseFalse hv ht.finished⟩
  | @while_ c a n m j heval hbranch _ hjump ih =>
    intro ax h
    -- at the head, what the loop still does is what is left of the whole loop
    let head (f : Flow) : Prop :=
      f.pc = n ∧ ∀ {o h'}, Exec value (.while_ c a) f.evaluated o h' → Exec value (.while_ c a) h o h'
    have hhead : ∀ f, head f → Within value cells (.while_ c a) h f ∧ ∀ t, flowStep ctx value cells f = some t →
        Until (fun f g => flowStep ctx value cells f = some g) (Within value cells (.while_ c a) h)
          (fun u => Behind value (.while_ c a) h (j + 2) u ∨ head u) t := by
      rintro ⟨pc, ax', h'⟩ ⟨rfl, himp⟩
      refine ⟨within_step (heval _ _) (himp (.start _ _)), fun t ht => ?_⟩
      obtain rfl := Option.some.inj ((heval _ _).symm.trans ht)
      have hrun : Exec value (.while_ c a) h .running (h' ++ [c]) := by
        by_cases hv : value h' c = 0
        · exact himp (.sofar (.whileFalse hv))
        · exact himp (.whileBody hv (.start _ _) (by decide))
      refine Until.branch hbranch hrun (fun hv => ?_) fun hv => .here (.inl ⟨rfl, himp (.whileFalse hv)⟩)
      have hbody : Until (fun f g => flowStep ctx value cells f = some g) (Within value cells (.while_ c a) h)
          (Behind value a (h' ++ [c]) j) ⟨m + 2, value h' c, h' ++ [c]⟩ :=
        (ih _ _).imp (fun t ht => ht.of fun ho hexec => himp (.whileBody hv hexec ho)) fun _ => id
      refine hbody.bind fun ⟨pc, ax', h''⟩ ht => ?_
      obtain rfl : pc = j := ht.pc
      have hnext {o : Outcome} {k : List Leaf} (hexec : Exec value (.while_ c a) h'' o k) :
          Exec value (.while_ c a) h o k := himp (.whileTrue hv ht.finished hexec)
      exact Until.advance (hjump _ _) (within_step (hjump _ _) (hnext (.start _ _))) (.here (.inr ⟨rfl, hnext⟩))
    exact Until.loop hhead ⟨rfl, id⟩
  | block _ ih =>
    intro ax h
    exact (ih ax h).imp (fun t ht => ht.of fun _ => .block) fun t ht => ⟨ht.pc, .block ht.finished⟩
  | @seq a rest n m stop _ _ iha ihr =>
    intro ax h
    have ha : Until (fun f g => flowStep ctx value cells f = some g) (Within value cells (.seq a rest) h)
        (Behind value a h m) ⟨n, ax, h⟩ :=
      (iha ax h).imp (fun t ht => ht.of fun ho hexec => .seqFirst hexec ho) fun _ => id
    refine ha.bind fun ⟨pc, ax', h'⟩ ht => ?_
    obtain rfl : pc = m := ht.pc
    exact (ihr ax' h').imp (fun t hr => hr.of fun _ => .seq ht.finished) fun t hr =>
      ⟨hr.pc, .seq ht.finished hr.finished⟩
  | done => exact fun ax h => .here ⟨rfl, .done⟩
  | return_ hlev => exact fun ax h => Until.lev hlev .return_
  | returnValue heval hlev =>
    intro ax h
    exact Until.advance (heval ax h) (within_step (heval ax h) (.start _ _)) (Until.lev hlev .returnValue)
  | empty => exact fun ax h => .here ⟨rfl, .empty⟩
  | expr heval =>
    intro ax h
    exact Until.advance (heval ax h) (within_step (heval ax h) (.start _ _)) (.here ⟨rfl, .expr⟩)

end

/-- Behind the text there is no step. -/
theorem Flows.until_behind {ctx : Context} {value : List Leaf → Leaf → Word} {cells : List Cell} {st : Stmt}
    {h : List Leaf} {stop : Nat} {f g : Flow} (hflows : Flows ctx value cells f g) (hlen : cells.length = stop) :
    Relation.ReflTransGen (fun f g => ¬ Behind value st h stop f ∧ flowStep ctx value cells f = some g) f g := by
  induction hflows with
  | refl => exact .refl
  | tail _ hstep ih =>
    refine ih.tail ⟨fun hbehind => ?_, hstep⟩
    have hlt := lt_of_step hstep
    rw [hbehind.pc] at hlt
    omega

/-- The code of a statement, behind the code `t`. -/
def codeOf (ctx : Context) (t : List Word) (st : Stmt) : List Cell := plain t ++ st.cells ctx t.length

/-- The machine on the emitted words does what the statement does, and nothing else. A text in memory has less than
`2 ^ 30` words. -/
theorem statement_controlFlow {ctx : Context} {fuel : Nat} {s s' : Lexer} (hs : statement ctx fuel s = some s')
    (hsmall : s'.text.length < 2 ^ 30) : ∃ st, Spells s.input st s'.input ∧
      (codeOf ctx s.text st).map Cell.word = s'.text ∧
      ∀ value ax h o h', Exec value st h o h' ↔
        ∃ f, Flows ctx value (codeOf ctx s.text st) ⟨s.text.length, ax, h⟩ f ∧
          IsAt (codeOf ctx s.text st) s'.text.length f o ∧ f.evaluated = h' := by
  obtain ⟨st, hparse, htext, hacc⟩ := statement_emits hs
  have hwords : (codeOf ctx s.text st).map Cell.word = s'.text := by
    rw [codeOf, List.map_append, map_plain, Stmt.map_cells, htext]
  have hlen : (codeOf ctx s.text st).length = s'.text.length := by rw [← hwords, List.length_map]
  refine ⟨st, parseStatement_spells hparse, hwords, fun value ax h o h' => ?_⟩
  have hplaced : Placed (codeOf ctx s.text st) s.text.length (st.cells ctx s.text.length) := by
    simpa only [codeOf, length_plain] using Seg.append (plain s.text) (st.cells ctx s.text.length)
  have hloc : Located ctx value (codeOf ctx s.text st) st s.text.length s'.text.length :=
    located hacc hplaced (by rw [htext, List.length_append]) hsmall
  constructor
  · exact fun hexec => hexec.flows hloc
  · rintro ⟨f, hf, hat, rfl⟩
    rcases hloc.follows ax h f (hf.until_behind hlen) with ⟨hpc, hend⟩ | ⟨hin, hrun, hret⟩
    · cases o with
      | running => exact .sofar hend
      | finished => exact hend
      | returned => exact absurd (List.getElem?_eq_some_iff.mp hat).1 (by omega)
    · cases o with
      | running => exact hrun
      | finished => exact absurd (show f.pc = s'.text.length from hat) (by omega)
      | returned => exact hret hat

/-- `while (1) if (2) return; else ;` -/
def loopLexer : Lexer where
  input := Input.enter ⟨[.tok .while_, .tok .lparen, .num 1, .tok .rparen, .tok .if_, .tok .lparen, .num 2,
    .tok .rparen, .tok .return_, .tok .semicolon, .tok .else_, .tok .semicolon], 0, ⟨.undefined, 0⟩⟩
  exprType := INT
  text := []

theorem statement_controlFlow_loop : ∃ s', statement ⟨0x1000, 0⟩ 10 loopLexer = some s' ∧
    ∃ st, Spells loopLexer.input st s'.input ∧ (codeOf ⟨0x1000, 0⟩ [] st).map Cell.word = s'.text ∧
      ∀ value ax h o h', Exec value st h o h' ↔ ∃ f, Flows ⟨0x1000, 0⟩ value (codeOf ⟨0x1000, 0⟩ [] st) ⟨0, ax, h⟩ f ∧
        IsAt (codeOf ⟨0x1000, 0⟩ [] st) s'.text.length f o ∧ f.evaluated = h' := by
  have hrun : (statement ⟨0x1000, 0⟩ 10 loopLexer).map (fun s => s.text.length) = some 13 := by rfl
  obtain ⟨s', hs, hlen⟩ := Option.map_eq_some_iff.mp hrun
  exact ⟨s', hs, statement_controlFlow hs (by rw [hlen]; decide)⟩

end RetrOS.Interpreter
