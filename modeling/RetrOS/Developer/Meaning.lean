import RetrOS.Developer.ConstantValue
import RetrOS.Developer.Statement

/-!
# The meaning of programs

What the trees that the compiler reads mean in C, with variables, pointers, assignments and calls of functions. The
variables are bytes at addresses, as the machine has them; a byte has no value before something is stored there.

* `Store.load`, `Store.store` : objects of a type;
* `Expr.eval`, `Expr.place` : the value of an expression, and the address of an object;
* `Stmt.exec`, `Program.call` : statements and functions, with a bound on the turns and calls.

There is no meaning (`none`) where C has none, where the words left for the stack do not suffice, and where the
compiler leaves C: a cast or `++` that changes a `char`, `||` and `&&` used as numbers when they are not decided by a
0 or a 1, a pointer on the right of `+`, addresses compared across `2 ^ 31`. Built-in functions are left out.
-/

namespace RetrOS.Interpreter
open RetrOS.Lib

/-! ## Objects -/

/-- The values of the bytes of variables. -/
abbrev Store := Word → Option UInt8

/-- What is left of a value in an object of a type. -/
def kept (type : Nat) (v : Word) : Word := if type = CHAR then (v.setWidth 8).signExtend 32 else v

/-- The bytes of an object. -/
def Covers (objects : Word → Bool) (type : Nat) (a : Word) : Prop :=
  objects a = true ∧ (type ≠ CHAR → objects (a + 1) = true ∧ objects (a + 2) = true ∧ objects (a + 3) = true)

instance (objects : Word → Bool) (type : Nat) (a : Word) : Decidable (Covers objects type a) :=
  inferInstanceAs (Decidable (_ ∧ (_ → _)))

namespace Store

def load (st : Store) (objects : Word → Bool) (type : Nat) (a : Word) : Option Word :=
  if Covers objects type a then do
    let b ← st a
    if type = CHAR then some (b.toBitVec.signExtend 32)
    else do
      let b₁ ← st (a + 1)
      let b₂ ← st (a + 2)
      let b₃ ← st (a + 3)
      some (word32 b b₁ b₂ b₃)
  else none

def put (st : Store) (type : Nat) (a v : Word) : Store := fun b =>
  if b = a then some (byteOf v 0)
  else if type = CHAR then st b
  else if b = a + 1 then some (byteOf v 1)
  else if b = a + 2 then some (byteOf v 2)
  else if b = a + 3 then some (byteOf v 3)
  else st b

def store (st : Store) (objects : Word → Bool) (type : Nat) (a v : Word) : Option Store :=
  if Covers objects type a then some (st.put type a v) else none

end Store

/-! ## Operators -/

instance (op : BinOp) (x y : Word) : Decidable (op.Overflows x y) := inferInstanceAs (Decidable (_ ∧ _ ∧ _))

/-- The value, unless the division overflows. -/
def BinOp.exact (op : BinOp) (x y : Word) : Option Word := if op.Overflows x y then none else op.value x y

def BinOp.Compares : BinOp → Prop
  | .lt | .gt | .le | .ge => True
  | _ => False

instance : DecidablePred BinOp.Compares := fun op => by
  cases op <;> first | exact isTrue trivial | exact isFalse id

/-- The value of `x op y`, for operands of types `tmp` and `right`. -/
def BinOp.meaning (op : BinOp) (tmp right : Nat) (x y : Word) : Option Word :=
  if tmp < PTR ∧ right < PTR then op.exact x y
  else match op with
  | .add => if right < PTR then op.exact x (y * stride tmp) else none
  | .sub =>
    if right < PTR then op.exact x (y * stride tmp)
    else if tmp ≠ right then none
    else if tmp > PTR then (op.exact x y).bind fun z => BinOp.exact .div z 4
    else op.exact x y
  | .eq => op.exact x y
  | .ne => op.exact x y
  | op => if op.Compares ∧ x.msb = y.msb then op.exact x y else none

/-- What a value is used for: as a number, only to decide, or not at all. -/
inductive Purpose
  | operand
  | condition
  | effect

namespace Purpose

/-- The word is as good as the value. -/
def Agrees (p : Purpose) (x v : Word) : Prop :=
  match p with
  | operand => x = v
  | condition => x = 0 ↔ v = 0
  | effect => True

/-- The value of `||` or `&&` that an operand decides: as a number it is that of the operand. -/
def decided (p : Purpose) (y : Word) : Option Word :=
  match p with
  | operand => if y = 0 ∨ y = 1 then some y else none
  | _ => some (truth (y ≠ 0))

end Purpose

/-- What the left operand of `||` or `&&` is used for; `&&` only leaves it where it is 0. -/
def Junction.first (j : Junction) (p : Purpose) : Purpose :=
  match j, p with
  | .lor, .operand => .operand
  | _, _ => .condition

/-! ## Expressions -/

/-- Where the body of a function runs: its frame, the words left for the stack, and the bytes that are objects. -/
structure Env where
  indexOfBp : Word
  bp : Word
  sp : Word
  room : Nat
  objects : Word → Bool

namespace Env

def local_ (env : Env) (value : Word) : Word := env.bp + 4 * (env.indexOfBp - value)

/-- Behind `d` words there is room for two more. -/
def Fits (env : Env) (d : Nat) : Prop := d + 2 ≤ env.room

instance (env : Env) (d : Nat) : Decidable (env.Fits d) := inferInstanceAs (Decidable (_ ≤ _))

end Env

/-- What a function does that is called with `sp` and room for some words: its value, if it returns one. -/
abbrev Call := Word → Word → Nat → List Word → (Word → Bool) → Store → Option (Option Word × Store)

/-- `++` and `--` -/
def IncDec.value (tmp : IncDec) (type : Nat) (v : Word) : Word :=
  match tmp with
  | .inc => v + stride type
  | .dec => v - stride type

section
variable (call : Call) (env : Env)

mutual

/-- The address of an object, behind `d` words on the stack. -/
def Expr.place : Expr → Nat → Store → Option (Word × Store)
  | .loc value _, _, st => some (env.local_ value, st)
  | .glo value _, _, st => some (value, st)
  | .dereference e, d, st => e.eval .operand d st
  | .bracket a i, d, st =>
    if env.Fits d then do
      let (x, st) ← a.eval .operand d st
      let (y, st) ← i.eval .operand (d + 1) st
      some (x + y * stride a.type, st)
    else none
  | _, _, _ => none

/-- The value of an expression, behind `d` words on the stack. -/
def Expr.eval : Expr → Purpose → Nat → Store → Option (Word × Store)
  | .imm v _, _, _, st => some (v, st)
  | .loc value type, _, _, st => (st.load env.objects type (env.local_ value)).map (·, st)
  | .glo value type, _, _, st => (st.load env.objects type value).map (·, st)
  | .call (.sys _) _ _, _, _, _ => none
  | .call (.fun_ value) _ args, p, d, st => do
    let (vs, st) ← args.eval d st
    let (v, st) ← call value (env.sp - 4 * BitVec.ofNat 32 (d + args.length)) (env.room - (d + args.length)) vs
      env.objects st
    match v, p with
    | some v, _ => some (v, st)
    | none, .effect => some (0, st)
    | none, _ => none
  | .cast type e, _, d, st => do
    let (v, st) ← e.eval .operand d st
    if kept type v = v then some (v, st) else none
  | .plus e, _, d, st => e.eval .operand d st
  | .minus e, _, d, st =>
    if env.Fits d then do
      let (v, st) ← e.eval .operand (d + 1) st
      some (UnOp.neg.value v, st)
    else none
  | .not e, _, d, st =>
    if env.Fits d then do
      let (v, st) ← e.eval .condition d st
      some (UnOp.not.value v, st)
    else none
  | .complement e, _, d, st =>
    if env.Fits d then do
      let (v, st) ← e.eval .operand d st
      some (UnOp.complement.value v, st)
    else none
  | .dereference e, _, d, st => do
    let (a, st) ← e.eval .operand d st
    (st.load env.objects (e.type - PTR) a).map (·, st)
  | .addressOf e, _, d, st => e.place d st
  | .preIncrement tmp e, _, d, st =>
    if env.Fits d then do
      let (a, st) ← e.place d st
      let v ← st.load env.objects e.type a
      let st ← st.store env.objects e.type a (tmp.value e.type v)
      some (kept e.type (tmp.value e.type v), st)
    else none
  | .postIncrement tmp e, _, d, st =>
    if env.Fits d then do
      let (a, st) ← e.place d st
      let v ← st.load env.objects e.type a
      let st ← st.store env.objects e.type a (tmp.value e.type v)
      if kept e.type (tmp.value e.type v) = tmp.value e.type v then some (v, st) else none
    else none
  | .assign a b, _, d, st =>
    if env.Fits d then do
      let (x, st) ← a.place d st
      let (v, st) ← b.eval .operand (d + 1) st
      let st ← st.store env.objects a.type x v
      some (kept a.type v, st)
    else none
  | .cond c a b, p, d, st => do
    let (x, st) ← c.eval .condition d st
    if x ≠ 0 then a.eval p d st else b.eval p d st
  | .logical j a b, p, d, st => do
    let (x, st) ← a.eval (j.first p) d st
    if j.Decides x then (p.decided x).map (·, st)
    else do
      let (y, st) ← b.eval p d st
      (p.decided y).map (·, st)
  | .binary op a b, _, d, st =>
    if env.Fits d then do
      let (x, st) ← a.eval .operand d st
      let (y, st) ← b.eval .operand (d + 1) st
      (op.meaning a.type b.type x y).map (·, st)
    else none
  | .bracket a i, _, d, st =>
    if env.Fits d then do
      let (x, st) ← a.eval .operand d st
      let (y, st) ← i.eval .operand (d + 1) st
      (st.load env.objects (a.type - PTR) (x + y * stride a.type)).map (·, st)
    else none

/-- The values of arguments. -/
def Args.eval : Args → Nat → Store → Option (List Word × Store)
  | .nil, _, st => some ([], st)
  | .snoc args e, d, st => do
    let (vs, st) ← args.eval d st
    let (v, st) ← e.eval .operand (d + args.length) st
    if d + args.length < env.room then some (vs ++ [v], st) else none

end

end

/-! ## Statements -/

/-- How a statement ends; a `return` need not have a value. -/
inductive Exit
  | next
  | returned (v : Option Word)

/-- What comes next, unless the function returns. -/
def andThen (r : Exit × Store) (f : Store → Option (Exit × Store)) : Option (Exit × Store) :=
  match r.1 with
  | .next => f r.2
  | .returned v => some (.returned v, r.2)

/-- `n` bounds the depth of the statement and the turns of its loops. -/
def Stmt.exec (call : Call) (env : Env) : Nat → Stmt → Store → Option (Exit × Store)
  | 0, _, _ => none
  | n + 1, .ifThen c a, st => do
    let (x, st) ← c.expr.eval call env .condition 0 st
    if x ≠ 0 then a.exec call env n st else some (.next, st)
  | n + 1, .ifElse c a b, st => do
    let (x, st) ← c.expr.eval call env .condition 0 st
    if x ≠ 0 then a.exec call env n st else b.exec call env n st
  | n + 1, .while_ c a, st => do
    let (x, st) ← c.expr.eval call env .condition 0 st
    if x ≠ 0 then do
      let r ← a.exec call env n st
      andThen r ((Stmt.while_ c a).exec call env n)
    else some (.next, st)
  | n + 1, .block body, st => body.exec call env n st
  | n + 1, .seq a rest, st => do
    let r ← a.exec call env n st
    andThen r (rest.exec call env n)
  | _ + 1, .done, st => some (.next, st)
  | _ + 1, .return_ none, st => some (.returned none, st)
  | _ + 1, .return_ (some e), st => do
    let (v, st) ← e.expr.eval call env .operand 0 st
    some (.returned (some v), st)
  | _ + 1, .empty, st => some (.next, st)
  | _ + 1, .expr e, st => do
    let (_, st) ← e.expr.eval call env .effect 0 st
    some (.next, st)

/-! ## Functions -/

/-- A function: how many parameters and local variables it has, and the statements of its body. -/
structure Function where
  params : Nat
  locals : Nat
  body : Stmt

namespace Function

/-- The lowest address of the frame of a call, whose last argument is at `sp`. -/
def bottom (f : Function) (sp : Word) : Word := sp - 8 - 4 * BitVec.ofNat 32 f.locals

/-- The parameters and the local variables are objects, too. -/
def objects (f : Function) (sp : Word) (objects : Word → Bool) (a : Word) : Bool :=
  objects a || decide ((a - sp).toNat < 4 * f.params) || decide ((a - f.bottom sp).toNat < 4 * f.locals)

def env (f : Function) (sp : Word) (room : Nat) (objects : Word → Bool) : Env where
  indexOfBp := BitVec.ofNat 32 (f.params + 1)
  bp := sp - 8
  sp := f.bottom sp
  room := room - (f.locals + 2)
  objects := f.objects sp objects

/-- The parameters have their values; the local variables have none. -/
def enter (f : Function) (sp : Word) (args : List Word) (st : Store) : Store := fun a =>
  match args.reverse[(a - sp).toNat / 4]? with
  | some v => some (byteOf v ((a - sp).toNat % 4))
  | none => if (a - f.bottom sp).toNat < 4 * f.locals then none else st a

end Function

/-- The functions at their addresses. -/
abbrev Program := Word → Option Function

/-- `n` bounds the depth of the calls, and the turns in each of them. -/
def Program.call (program : Program) : Nat → Call
  | 0, _, _, _, _, _, _ => none
  | n + 1, value, sp, room, args, objects, st =>
    match program value with
    | none => none
    | some f =>
      if args.length = f.params ∧ f.locals + 2 ≤ room then do
        let (r, st) ← f.body.exec (program.call n) (f.env sp room objects) n (f.enter sp args st)
        match r with
        | .next => some (none, st)
        | .returned v => some (v, st)
      else none

end RetrOS.Interpreter
