import Exec09.Cpu.State
import Exec09.Foundation.CText

/-! # Expressions of the debugger

The evaluator splits its text at an operator by writing a zero over it, so an
evaluation returns the text it leaves behind beside the value. Every recursive
call is on a shorter text. The target is reached through the operations of
`Target` only.
-/
namespace Exec09.Debugger
open Foundation

/-- Why the debugger takes the emulator down. -/
inductive Crash
  | emulator (s : Stop)
  | divisionByZero
  | nullBreakpoint
  | nullArgument
  | tableIndex
  | conditionOverflow
  | outOfFuel
  deriving DecidableEq, Repr

/-- What the debugger uses of the rest of the emulator. -/
class Target (τ : Type) where
  absRead8 : BitVec 64 → EStateM Stop τ U8
  absRead16 : BitVec 64 → EStateM Stop τ U16
  absWrite8 : BitVec 64 → U8 → EStateM Stop τ Unit
  toAbsolute : BitVec 64 → τ → BitVec 64
  getPc : τ → U16
  /-- The length that `dasm` returns. -/
  dasm : BitVec 64 → EStateM Stop τ (BitVec 32)
  /-- The handlers in `auto_symtab`, called to read and to write. -/
  readVirtual : Text → Option (EStateM Stop τ (BitVec 64))
  writeVirtual : Text → Option (BitVec 64 → EStateM Stop τ Unit)
  /-- The value in `program_symtab`, or else in `internal_symtab`. -/
  symbol : Text → τ → Option (BitVec 64)

def MAX_HISTORY : ℕ := 10

/-- What an evaluation reads and writes. -/
structure Session (τ : Type) where
  target : τ
  historyCount : BitVec 32
  historytab : ℕ → BitVec 64
  threadCurrent : BitVec 64
  eflag : ℕ

abbrev EvalM (τ : Type) := EStateM Crash (Session τ)

/-- A value and the text that is left. -/
abbrev Evaluated := BitVec 64 × Text

inductive EvalMode
  | LVALUE
  | RVALUE
  deriving DecidableEq, Repr

variable {τ : Type}

/-- Run an operation of the target. -/
def onTarget {α : Type} (m : EStateM Stop τ α) : EvalM τ α := fun s =>
  match m s.target with
  | .ok a t => .ok a { s with target := t }
  | .error e t => .error (.emulator e) { s with target := t }

/-- `*eflag = *eflag | bit`. -/
def flagError (bit : ℕ) : EvalM τ Unit := modify fun s => { s with eflag := s.eflag ||| bit }

def evalHistorical (id : BitVec 32) : EvalM τ (BitVec 64) := do
  return (← get).historytab (id.toNat % MAX_HISTORY)

/-- `MAKE_ADDR`. -/
def makeAddr (devno phyaddr : BitVec 64) : BitVec 64 := devno * 0x10000000 + phyaddr

/-- `isalpha (*expr) || (*expr == '_')`. -/
def startsName : Text → Bool
  | [] => false
  | c :: _ => Text.isAlpha c || c == 95

section Eval
variable [Target τ]

def assignVirtual (name : Text) (val : BitVec 64) : EvalM τ Unit :=
  match Target.writeVirtual name with
  | some virtual => onTarget (virtual val)
  | none =>
    if name = Text.ofString "thread_current" then
      modify fun s => { s with threadCurrent := val }
    else flagError 0x40

def evalVirtual (name : Text) : EvalM τ (BitVec 64) :=
  match Target.readVirtual name with
  | some virtual => onTarget virtual
  | none => do
    flagError 0x10
    return 0

def targetRead (addr : BitVec 64) (size : ℕ) : EvalM τ (BitVec 64) :=
  if size = 1 then do
    return (← onTarget (Target.absRead8 addr)).zeroExtend 64
  else do
    return (← onTarget (Target.absRead16 addr)).zeroExtend 64

/-- The `$` forms: `$$n`, `$n`, `$` and `$name`. -/
def evalDollar (name : Text) : EvalM τ (BitVec 64) :=
  match name with
  | [] => do evalHistorical ((← get).historyCount - 1)
  | c :: rest =>
    if c = 36 then do
      let last := ((← get).historyCount - 1).zeroExtend 64
      evalHistorical ((last - (Text.strtoul 10 rest).getD 0).setWidth 32)
    else if Text.isDigit c then evalHistorical (((Text.strtoul 10 name).getD 0).setWidth 32)
    else evalVirtual name

/-! The functions below take the recursive calls of `eval` as `rec`. -/

variable (rec : Text → EvalM τ Evaluated)

/-- The start of `eval_mem`, which finds the address. -/
def evalAddress (expr : Text) : EvalM τ Evaluated :=
  match Text.splitChar 58 expr with
  | some (device, offset) => do
    let (devno, left) ← rec device
    let (phyaddr, _) ← rec offset
    return (makeAddr devno phyaddr, left)
  | none =>
    if startsName expr then do
      match Target.symbol expr (← get).target with
      | some val => return (val, expr)
      | none =>
        flagError 8
        return (0, expr)
    else do
      let (addr, left) ← rec expr
      return (Target.toAbsolute addr (← get).target, left)

/-- The address, and its dereference if `mode` is `RVALUE`. -/
def evalMem (expr : Text) (mode : EvalMode) : EvalM τ Evaluated := do
  let (val, left) ← evalAddress rec expr
  match mode with
  | .LVALUE => return (val, left)
  | .RVALUE => return (← targetRead val 1, left)

/-- The text that is left of the left-hand side. -/
def evalAssign (expr : Text) (val : BitVec 64) : EvalM τ Text :=
  match expr with
  | 36 :: name => do
    assignVirtual name val
    return expr
  | _ => do
    let (dst, left) ← evalMem rec expr .LVALUE
    if (← get).eflag = 0 then onTarget (Target.absWrite8 dst (val.setWidth 8))
    return left

/-- `op` applied to the values of the two sides. The left one is evaluated first, also where C
leaves the order open. -/
def foldSides (op : BitVec 64 → BitVec 64 → EvalM τ (BitVec 64)) (sides : Text × Text) :
    EvalM τ Evaluated := do
  let (val1, left) ← rec sides.1
  let (val2, _) ← rec sides.2
  return (← op val1 val2, left)

/-- The sides that `fold_binary` finds. An operator in front is unary. -/
def binarySides (op : BitVec 8) (expr : Text) : Option (Text × Text) :=
  (Text.splitChar op expr).filter fun sides => sides.1 ≠ []

omit [Target τ] in
theorem binarySides_lt {op : BitVec 8} {expr a b : Text} (h : binarySides op expr = some (a, b)) :
    a.length < expr.length ∧ b.length < expr.length :=
  Text.splitChar_lt (Option.filter_eq_some_iff.mp h).1

def divide (val1 val2 : BitVec 64) : EvalM τ (BitVec 64) :=
  if val2 = 0 then throw .divisionByZero else return val1 / val2

/-- An expression without a binary operator. -/
def evalPrimary (expr : Text) : EvalM τ Evaluated :=
  match expr with
  | 36 :: name => do return (← evalDollar name, expr)
  | 38 :: place => do
    let (val, left) ← evalMem rec place .LVALUE
    return (val, 38 :: left)
  | _ =>
    if startsName expr then evalMem rec expr .RVALUE
    else
      match Text.strtoul 0 expr with
      | some val => return (val, expr)
      | none => do
        flagError 0x20
        return (0, expr)

def evalBody (expr : Text) : EvalM τ Evaluated :=
  match Text.splitText (Text.ofString "==") expr with
  | some sides => foldSides rec (fun a b => pure (if a = b then 1 else 0)) sides
  | none =>
  match Text.splitText (Text.ofString "!=") expr with
  | some sides => foldSides rec (fun a b => pure (if a ≠ b then 1 else 0)) sides
  | none =>
  match Text.splitChar 61 expr with
  | some (lhs, rhs) => do
    let (val, _) ← rec rhs
    return (val, ← evalAssign rec lhs val)
  | none =>
  match binarySides 43 expr with
  | some sides => foldSides rec (fun a b => pure (a + b)) sides
  | none =>
  match binarySides 45 expr with
  | some sides => foldSides rec (fun a b => pure (a - b)) sides
  | none =>
  match binarySides 42 expr with
  | some sides => foldSides rec (fun a b => pure (a * b)) sides
  | none =>
  match binarySides 47 expr with
  | some sides => foldSides rec divide sides
  | none => evalPrimary rec expr

/-- `eval`, to a depth of recursion. -/
def evalDepth : ℕ → Text → EvalM τ Evaluated
  | 0 => fun _ => throw .outOfFuel
  | n + 1 => evalBody (evalDepth n)

/-- Each recursive call is on a shorter text, so this depth is never exceeded. -/
def eval (expr : Text) : EvalM τ Evaluated := evalDepth (expr.length + 1) expr

end Eval

/-- A processor in one flat memory, for concrete runs. Every instruction has one byte. -/
structure FlatTarget where
  pc : U16
  memory : BitVec 64 → U8

instance : Target FlatTarget where
  absRead8 addr := do return (← get).memory addr
  absRead16 addr := do
    let t ← get
    return (t.memory addr).zeroExtend 16 <<< 8 ||| (t.memory (addr + 1)).zeroExtend 16
  absWrite8 addr val := modify fun t => { t with memory := Function.update t.memory addr val }
  toAbsolute addr _ := addr
  getPc t := t.pc
  dasm _ := return 1
  readVirtual name :=
    if name = Text.ofString "pc" then some do return (← get).pc.zeroExtend 64 else none
  writeVirtual name :=
    if name = Text.ofString "pc" then
      some fun val => modify fun t => { t with pc := val.setWidth 16 }
    else none
  symbol _ _ := none

end Exec09.Debugger
