import Exec09.Debugger.Expression
import Exec09.Foundation.Program

/-! # Breakpoints and watchpoints

A table of 32 slots, the commands that fill and free them, and the hooks by
which the processor reports instructions, reads and writes. The arguments of a
command are its words after the first. What the debugger prints is left out.
-/
namespace Exec09.Debugger
open Foundation

def MAX_BREAKS : ℕ := 32
def MAX_TRACE : ℕ := 256

abbrev Slot := Fin MAX_BREAKS

structure Breakpoint where
  id : ℕ
  used : Bool
  enabled : Bool
  conditional : Bool
  threaded : Bool
  onRead : Bool
  onWrite : Bool
  onExecute : Bool
  keepRunning : Bool
  temp : Bool
  lastWrite : BitVec 16
  writeMask : BitVec 16
  addr : BitVec 64
  condition : Text
  tid : BitVec 32
  ignoreCount : BitVec 32
  deriving DecidableEq

/-- A slot of the table when the program starts. -/
def Breakpoint.blank : Breakpoint where
  id := 0
  used := false
  enabled := false
  conditional := false
  threaded := false
  onRead := false
  onWrite := false
  onExecute := false
  keepRunning := false
  temp := false
  lastWrite := 0
  writeMask := 0
  addr := 0
  condition := []
  tid := 0
  ignoreCount := 0

structure State (τ : Type) where
  session : Session τ
  breaktab : Slot → Breakpoint
  activeBreakCount : BitVec 32
  threadIdSize : BitVec 32
  threadId : BitVec 64
  traceBuffer : ℕ → U16
  traceOffset : ℕ
  monitorOn : Bool
  autoBreakInsnCount : ℤ
  exitCommandLoop : ℤ
  stopAfterMs : ℤ
  /-- The slots for which `breakpoint_hit` was called, latest first. -/
  hits : List Slot
  /-- Something has asked for the monitor since it was left. -/
  stopRequested : Bool

abbrev DebugM (τ : Type) := EStateM Crash (State τ)

/-- The debugger when the program starts, without `-d`. -/
def State.init {τ : Type} (target : τ) : State τ where
  session := ⟨target, 0, fun _ => 0, 0, 0⟩
  breaktab := fun _ => .blank
  activeBreakCount := 0
  threadIdSize := 2
  threadId := 0
  traceBuffer := fun _ => 0
  traceOffset := 0
  monitorOn := false
  autoBreakInsnCount := 0
  exitCommandLoop := 0
  stopAfterMs := 0
  hits := []
  stopRequested := false

section Table
variable {τ : Type}

/-- Evaluate with an error flag of its own, and return that flag. -/
def evaluating {α : Type} (m : EvalM τ α) : DebugM τ (α × ℕ) := fun s =>
  match m { s.session with eflag := 0 } with
  | .ok a t => .ok (a, t.eflag) { s with session := t }
  | .error e t => .error e { s with session := t }

def setSlot (n : Slot) (g : Breakpoint → Breakpoint) : DebugM τ Unit :=
  modify fun s => { s with breaktab := Function.update s.breaktab n (g (s.breaktab n)) }

def brkEnable (n : Slot) (flag : Bool) : DebugM τ Unit := do
  if ((← get).breaktab n).enabled ≠ flag then
    setSlot n fun br => { br with enabled := flag }
    if flag then modify fun s => { s with activeBreakCount := s.activeBreakCount + 1 }
    else modify fun s => { s with activeBreakCount := s.activeBreakCount - 1 }

/-- The first slot that is not in use. -/
def freeSlot (tab : Slot → Breakpoint) : Option Slot :=
  Fin.find? fun n => !(tab n).used

/-- The assignments of `brkalloc` to a slot. -/
def Breakpoint.claim (n : Slot) (br : Breakpoint) : Breakpoint :=
  { br with
    used := true
    id := n
    conditional := false
    threaded := false
    keepRunning := false
    ignoreCount := 0
    temp := false
    onExecute := false }

def brkalloc : DebugM τ (Option Slot) := do
  match freeSlot (← get).breaktab with
  | some n =>
    setSlot n (Breakpoint.claim n)
    brkEnable n true
    return some n
  | none => return none

/-- The use of a pointer that may be null. -/
def deref : Option Slot → DebugM τ Slot
  | some n => pure n
  | none => throw .nullBreakpoint

def brkfree (n : Slot) : DebugM τ Unit := do
  brkEnable n false
  setSlot n fun br => { br with used := false }

def freeEach (p : Breakpoint → Bool) : List Slot → DebugM τ Unit
  | [] => pure ()
  | n :: ns => do
    if p ((← get).breaktab n) then brkfree n
    freeEach p ns

def brkfreeTemps : DebugM τ Unit :=
  freeEach (fun br => br.used && br.temp) (List.finRange MAX_BREAKS)

def brkfindByAddr (tab : Slot → Breakpoint) (addr : BitVec 64) : Option Slot :=
  Fin.find? fun n => (tab n).addr = addr

def brkfindById (id : ℕ) : DebugM τ Slot :=
  if h : id < MAX_BREAKS then pure ⟨id, h⟩ else throw .tableIndex

end Table

/-! ## Commands -/

section Commands
variable {τ : Type} [Target τ]

/-- `strcpy (br->condition, arg)`. -/
def setCondition (n : Slot) : Option Text → DebugM τ Unit
  | some arg =>
    if arg.length < 128 then setSlot n fun br => { br with condition := arg }
    else throw .conditionOverflow
  | none => throw .nullArgument

def breakOptions (n : Slot) : List Text → DebugM τ Unit
  | [] => pure ()
  | arg :: args =>
    if arg = Text.ofString "if" then do
      setSlot n fun br => { br with conditional := true }
      setCondition n args.head?
    else if arg = Text.ofString "ignore" then
      match args with
      | [] => throw .nullArgument
      | count :: _ =>
        setSlot n fun br => { br with ignoreCount := BitVec.ofInt 32 (Text.atoi count) }
    else pure ()

def cmdBreak : List Text → DebugM τ Unit
  | [] => pure ()
  | arg :: args => do
    let ((val, _), eflag) ← evaluating (evalMem eval arg .LVALUE)
    if eflag = 0 then
      let n ← deref (← brkalloc)
      setSlot n fun br => { br with addr := val, onExecute := true }
      breakOptions n args

def watchOptions (n : Slot) : List Text → DebugM τ Unit
  | [] => pure ()
  | arg :: args =>
    if arg = Text.ofString "print" then do
      setSlot n fun br => { br with keepRunning := true }
      watchOptions n args
    else if arg = Text.ofString "mask" then
      match args with
      | [] => throw .nullArgument
      | mask :: args => do
        setSlot n fun br => { br with writeMask := ((Text.strtoul 0 mask).getD 0).setWidth 16 }
        watchOptions n args
    else if arg = Text.ofString "if" then
      match args with
      | [] => throw .nullArgument
      | cond :: args => do
        setSlot n fun br => { br with conditional := true }
        setCondition n (some cond)
        watchOptions n args
    else watchOptions n args

def cmdWatch1 (onRead onWrite : Bool) : List Text → DebugM τ Unit
  | [] => pure ()
  | arg :: args => do
    let ((addr, _), eflag) ← evaluating (evalMem eval arg .LVALUE)
    if eflag = 0 then
      let n ← deref (← brkalloc)
      setSlot n fun br => { br with addr := addr, onRead := onRead, onWrite := onWrite }
      watchOptions n args

def cmdWatch : List Text → DebugM τ Unit := cmdWatch1 false true
def cmdRwatch : List Text → DebugM τ Unit := cmdWatch1 true false
def cmdAwatch : List Text → DebugM τ Unit := cmdWatch1 true true

def setExitCommandLoop (v : ℤ) : DebugM τ Unit := modify fun s => { s with exitCommandLoop := v }

def cmdStep (args : List Text) : DebugM τ Unit := do
  let count := (args.head?.map Text.atoi).getD 0
  modify fun s => { s with autoBreakInsnCount := if count ≠ 0 then count else 1 }
  setExitCommandLoop 0

/-- The absolute address of the instruction to be executed. -/
def absPc (s : State τ) : BitVec 64 :=
  Target.toAbsolute ((Target.getPc s.session.target).zeroExtend 64) s.session.target

def cmdNext : DebugM τ Unit := do
  let addr := absPc (← get)
  let (size, _) ← evaluating (onTarget (Target.dasm addr))
  let n ← deref (← brkalloc)
  setSlot n fun br => { br with addr := addr + size.signExtend 64, onExecute := true, temp := true }
  setExitCommandLoop 0

def cmdContinue : DebugM τ Unit := setExitCommandLoop 0

def cmdQuit : DebugM τ Unit := setExitCommandLoop 1

/-- The time until the stop is kept as an `int`. -/
def setStopAfterMs (v : ℤ) : DebugM τ Unit :=
  modify fun s => { s with stopAfterMs := v.bmod (2 ^ 32) }

def cmdRunfor : List Text → DebugM τ Unit
  | [] => pure ()
  | arg :: args => do
    let val := Text.atoi arg
    let units := args.head?.getD (Text.ofString "ms")
    if units = Text.ofString "ms" then
      setStopAfterMs val
      if val ≠ 0 then setExitCommandLoop 0
    else if units = Text.ofString "s" then
      setStopAfterMs (val * 1000)
      if val ≠ 0 then setExitCommandLoop 0

def cmdDelete : List Text → DebugM τ Unit
  | [] => freeEach (fun _ => true) (List.finRange MAX_BREAKS)
  | arg :: _ => do
    let n ← brkfindById (Text.atoi arg % 2 ^ 32).toNat
    if ((← get).breaktab n).used then brkfree n

end Commands

/-! ## Hooks -/

section Hooks
variable {τ : Type} [Target τ]

/-- The condition of an entry, evaluated in place. -/
def conditionHolds (n : Slot) : DebugM τ Bool := do
  let ((val, left), _) ← evaluating (eval ((← get).breaktab n).condition)
  setSlot n fun br => { br with condition := left }
  return val ≠ 0

/-- The ignore count, counted down until it is zero. -/
def countedDown (n : Slot) : DebugM τ Bool := do
  if ((← get).breaktab n).ignoreCount ≠ 0 then
    setSlot n fun br => { br with ignoreCount := br.ignoreCount - 1 }
    return false
  else return true

/-- The tests of `breakpoint_hit` before it sets `monitor_on`. -/
def hitAllowed (n : Slot) : DebugM τ Bool := do
  let s ← get
  if (s.breaktab n).threaded ∧ s.threadId ≠ (s.breaktab n).tid.zeroExtend 64 then return false
  else if (s.breaktab n).conditional then
    let holds ← conditionHolds n
    if holds then countedDown n else return false
  else countedDown n

def breakpointHit (n : Slot) : DebugM τ Unit := do
  modify fun s => { s with hits := n :: s.hits }
  let allowed ← hitAllowed n
  if allowed then
    modify fun s => { s with
      monitorOn := !(s.breaktab n).keepRunning
      stopRequested := s.stopRequested || !(s.breaktab n).keepRunning }

/-- The entry that a hook finds, if there is an active one: `br && br->enabled && br->on_read`. -/
def triggered (kind : Breakpoint → Bool) (addr : BitVec 64) (s : State τ) : Option Slot :=
  if s.activeBreakCount = 0 then none
  else (brkfindByAddr s.breaktab addr).filter fun n => (s.breaktab n).enabled && kind (s.breaktab n)

def commandTraceInsn (addr : U16) : DebugM τ Unit :=
  modify fun s => { s with
    traceBuffer := Function.update s.traceBuffer s.traceOffset addr
    traceOffset := (s.traceOffset + 1) % MAX_TRACE }

/-- The end of `command_insn_hook`. -/
def freeReached (n : Slot) : DebugM τ Unit := do
  let s ← get
  if s.monitorOn ∧ (s.breaktab n).temp then brkfree n

def commandInsnHook : DebugM τ Unit := do
  commandTraceInsn (Target.getPc (← get).session.target)
  let s ← get
  match triggered Breakpoint.onExecute (absPc s) s with
  | some n =>
    breakpointHit n
    freeReached n
  | none => pure ()

def commandReadHook (addr : BitVec 64) : DebugM τ Unit := do
  match triggered Breakpoint.onRead addr (← get) with
  | some n => breakpointHit n
  | none => pure ()

def commandChangeThread : DebugM τ Unit := do
  let s ← get
  let (word, _) ← evaluating (targetRead s.session.threadCurrent s.threadIdSize.toNat)
  modify fun s => { s with
    threadId := Target.toAbsolute ((word.setWidth 16).zeroExtend 64) s.session.target }

/-- The new value differs from the last one in a bit of the mask, or there is no mask. -/
def maskOk (br : Breakpoint) (val : U8) : Bool :=
  br.writeMask = 0 ∨ br.lastWrite &&& br.writeMask ≠ val.zeroExtend 16 &&& br.writeMask

/-- `br->last_write = val`, which an entry without a mask leaves out. -/
def rememberWrite (n : Slot) (val : U8) : DebugM τ Unit :=
  setSlot n fun br => if br.writeMask ≠ 0 then { br with lastWrite := val.zeroExtend 16 } else br

/-- The end of `command_write_hook`. -/
def threadHook (addr : BitVec 64) : DebugM τ Unit := do
  let s ← get
  if s.threadIdSize ≠ 0 ∧ addr = s.session.threadCurrent + s.threadIdSize.zeroExtend 64 - 1 then
    commandChangeThread

def commandWriteHook (addr : BitVec 64) (val : U8) : DebugM τ Unit := do
  let s ← get
  match triggered Breakpoint.onWrite addr s with
  | some n =>
    rememberWrite n val
    -- A masked write that changes nothing returns before the thread is looked at.
    if maskOk (s.breaktab n) val then
      breakpointHit n
      threadHook addr
  | none => threadHook addr

/-- `monitor_on = 1`. -/
def requestStop : DebugM τ Unit :=
  modify fun s => { s with monitorOn := true, stopRequested := true }

def commandPeriodic : DebugM τ Unit := do
  if (← get).stopAfterMs ≠ 0 then
    modify fun s => { s with stopAfterMs := s.stopAfterMs - 100 }
    if (← get).stopAfterMs ≤ 0 then
      requestStop
      modify fun s => { s with stopAfterMs := 0 }

end Hooks

/-! ## Runs -/

inductive Command
  | brk (args : List Text)
  | watch (args : List Text)
  | rwatch (args : List Text)
  | awatch (args : List Text)
  | delete (args : List Text)
  | next
  | step (args : List Text)
  | cont
  | runfor (args : List Text)
  | quit
  deriving DecidableEq

/-- What happens to the debugger: a command, a call of a hook, or something outside it. -/
inductive Event (τ : Type)
  | command (c : Command)
  | insn
  | read (addr : BitVec 64)
  | write (addr : BitVec 64) (val : U8)
  | periodic
  /-- SIGINT, and `sim_error` with `-d`. -/
  | interrupt
  /-- The start of `command_loop`. -/
  | freeTemps
  /-- The target goes on. -/
  | guest (m : EStateM Stop τ Unit)

section Run
variable {τ : Type} [Target τ]

def Command.perform : Command → DebugM τ Unit
  | brk args => cmdBreak args
  | watch args => cmdWatch args
  | rwatch args => cmdRwatch args
  | awatch args => cmdAwatch args
  | delete args => cmdDelete args
  | next => cmdNext
  | step args => cmdStep args
  | cont => cmdContinue
  | runfor args => cmdRunfor args
  | quit => cmdQuit

def Event.perform : Event τ → DebugM τ Unit
  | command c => c.perform
  | insn => commandInsnHook
  | read addr => commandReadHook addr
  | write addr val => commandWriteHook addr val
  | periodic => commandPeriodic
  | interrupt => requestStop
  | freeTemps => brkfreeTemps
  | guest m => do let _ ← evaluating (onTarget m)

end Run

end Exec09.Debugger
