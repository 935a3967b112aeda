import Exec09.Debugger.Stepping

/-! # The command line of the debugger

`command_exec` reads a line into a buffer, takes its words as `strtok` does and
looks the first one up in `cmdtab`. The handlers fetch the other words one by
one, and `getarg` returns a null pointer after the last of them. What a handler
does outside the table, the expressions and the registers is left to `Host.rest`.
-/
namespace Exec09.Debugger
open Foundation

inductive Handler
  | print | set | examine | break | breakList | delete | step | next | continue | quit | reset
  | help | watch | rwatch | awatch | list | symbolFile | display | source | regs | vars | runfor
  | measure | dumpInsns | traceDump | dump | restore | info | pc | serialRx | serialStat
  | serialTxTrace
  deriving DecidableEq, Repr

/-- The prefixes, names and handlers of `cmdtab`. -/
def cmdtab : List (String × String × Handler) := [
  ("p", "print", .print),
  ("set", "set", .set),
  ("x", "examine", .examine),
  ("b", "break", .break),
  ("bl", "blist", .breakList),
  ("d", "delete", .delete),
  ("s", "step", .step),
  ("n", "next", .next),
  ("c", "continue", .continue),
  ("fg", "foreground", .continue),
  ("q", "quit", .quit),
  ("re", "reset", .reset),
  ("h", "help", .help),
  ("wa", "watch", .watch),
  ("rwa", "rwatch", .rwatch),
  ("awa", "awatch", .awatch),
  ("?", "?", .help),
  ("l", "list", .list),
  ("sym", "symbol-file", .symbolFile),
  ("di", "display", .display),
  ("so", "source", .source),
  ("regs", "regs", .regs),
  ("vars", "vars", .vars),
  ("runfor", "runfor", .runfor),
  ("me", "measure", .measure),
  ("dumpi", "dumpi", .dumpInsns),
  ("td", "tracedump", .traceDump),
  ("dump", "du", .dump),
  ("restore", "res", .restore),
  ("i", "info", .info),
  ("pc", "pc", .pc),
  ("serrx", "serrx", .serialRx),
  ("serstat", "serstat", .serialStat),
  ("sertx", "sertx", .serialTxTrace)]

/-- The entry for a command, whose flags after a slash are cut off. -/
def commandLookup (cmd : Text) : Option Handler :=
  let cmd := ((Text.splitChar 47 cmd).map Prod.fst).getD cmd
  (cmdtab.find? fun cn => cmd = Text.ofString cn.1 || cmd = Text.ofString cn.2.1).map (·.2.2)

/-- The words of a line, as repeated calls of `strtok (s, " \t\n")` find them. -/
def words (buffer : Text) : List Text :=
  (buffer.splitOnP fun c => c == 32 || c == 9 || c == 10).filter (· ≠ [])

/-- What `fgets` puts into the buffer of 256 bytes, the newline included. -/
def Line : Type := { t : Text // t.length < 255 }

def MAX_DISPLAYS : ℕ := 32

structure Shell (τ : Type) where
  debugger : State τ
  prevBuffer : Text
  /-- The expressions in `displaytab`. -/
  displays : List Text

abbrev ShellM (τ : Type) := EStateM Crash (Shell τ)

def Shell.start {τ : Type} (target : τ) : Shell τ := ⟨State.init target, [], []⟩

/-- What the handlers use of the emulator besides. An `unsigned int` has 32 bits. -/
class Host (τ : Type) extends Target τ where
  getS : τ → BitVec 32
  setS : BitVec 32 → EStateM Stop τ Unit
  getCc : τ → BitVec 32
  setCc : BitVec 32 → EStateM Stop τ Unit
  setPc : BitVec 32 → EStateM Stop τ Unit
  write8 : BitVec 32 → U8 → EStateM Stop τ Unit
  /-- `sym_set` on `internal_symtab`. -/
  symSet : Text → BitVec 64 → EStateM Stop τ Unit
  /-- What is left of a handler once it has its value and its words. -/
  rest : Handler → Option (BitVec 64) → List Text → EStateM Stop τ Unit

section Handlers
variable {τ : Type}

def onDebugger {α : Type} (m : DebugM τ α) : ShellM τ α := fun s =>
  match m s.debugger with
  | .ok a t => .ok a { s with debugger := t }
  | .error e t => .error e { s with debugger := t }

/-- Run an operation of the emulator. -/
def onHost {α : Type} (m : EStateM Stop τ α) : DebugM τ Unit := do let _ ← evaluating (onTarget m)

def saveValue (val : BitVec 64) : DebugM τ Unit :=
  modify fun s => { s with session := { s.session with
    historytab :=
      Function.update s.session.historytab (s.session.historyCount.toNat % MAX_HISTORY) val
    historyCount := s.session.historyCount + 1 } }

variable [Host τ]

/-- Go on with an address if it is evaluated without an error. -/
def atAddress (arg : Text) (k : BitVec 64 → DebugM τ Unit) : DebugM τ Unit := do
  let ((val, _), eflag) ← evaluating (evalMem eval arg .LVALUE)
  if eflag = 0 then k val

def doPrint (expr : Text) : DebugM τ Unit := do
  let ((val, _), eflag) ← evaluating (eval expr)
  if eflag = 0 then
    onHost (Host.rest .print (some val) [])
    saveValue val

def cmdPrint (args : List Text) : DebugM τ Unit := doPrint (args.head?.getD (Text.ofString "$"))

/-- The first word goes to `strcmp`, and after `var` the second one to `strchr`. -/
def cmdSet : List Text → DebugM τ Unit
  | [] => throw .nullArgument
  | arg :: args =>
    if arg = Text.ofString "var" then
      match args with
      | [] => throw .nullArgument
      | arg :: _ =>
        match Text.splitChar 61 arg with
        | some (name, expr) => do
          let ((val, _), eflag) ← evaluating (eval expr)
          if eflag = 0 then onHost (Host.symSet name val)
        | none => pure ()
    else do
      let _ ← evaluating (eval arg)

/-- `examine` and `list`, which start where they left off if no address is given. -/
def cmdInspect (handler : Handler) : List Text → DebugM τ Unit
  | [] => onHost (Host.rest handler none [])
  | arg :: _ => atAddress arg fun addr => onHost (Host.rest handler (some addr) [])

def cmdExamine : List Text → DebugM τ Unit := cmdInspect .examine
def cmdList : List Text → DebugM τ Unit := cmdInspect .list

def cmdPc : List Text → DebugM τ Unit
  | [] => pure ()
  | arg :: args => atAddress arg fun val => do
    onHost (Host.setPc (val.setWidth 32))
    cmdList args

/-- `symbol-file` and `source`, which name a file. -/
def cmdFile (handler : Handler) : List Text → DebugM τ Unit
  | [] => pure ()
  | arg :: _ => onHost (Host.rest handler none [arg])

/-- `write16 (get_s (), retaddr)`, after room was made on the stack. -/
def pushReturn (retaddr : U16) : DebugM τ Unit := do
  onHost (Host.setS (Host.getS (← get).session.target - 2))
  onHost (Host.write8 (Host.getS (← get).session.target + 1) (retaddr.setWidth 8))
  onHost (Host.write8 (Host.getS (← get).session.target) ((retaddr >>> 8).setWidth 8))

/-- The rest of `cmd_measure` after the push: a temporary breakpoint at the return address. -/
def startMeasure (retaddr : U16) (addr : BitVec 64) : DebugM τ Unit := do
  let n ← deref (← brkalloc)
  let back := Target.toAbsolute (retaddr.zeroExtend 64) (← get).session.target
  setSlot n fun br => { br with addr := back, onExecute := true, temp := true }
  onHost (Host.setCc (Host.getCc (← get).session.target ||| 0x50))
  onHost (Host.setPc (addr.setWidth 32))
  setExitCommandLoop 0

def cmdMeasure : List Text → DebugM τ Unit
  | [] => pure ()
  | arg :: _ => do
    let retaddr := Target.getPc (← get).session.target
    atAddress arg fun addr => do
      pushReturn retaddr
      startMeasure retaddr addr

/-- Each word takes a slot of `displaytab`, until there is none left. -/
def cmdDisplay : List Text → ShellM τ Unit
  | [] => pure ()
  | arg :: args => do
    if (← get).displays.length < MAX_DISPLAYS then
      modify fun s => { s with displays := s.displays ++ [arg.take 127] }
      cmdDisplay args

/-- All displays share one error flag. -/
def displayPrint : List Text → EvalM τ Unit
  | [] => pure ()
  | expr :: exprs => do
    let (val, _) ← eval expr
    onTarget (Host.rest .display (some val) [])
    displayPrint exprs

def Handler.perform : Handler → List Text → ShellM τ Unit
  | print, args => onDebugger (cmdPrint args)
  | set, args => onDebugger (cmdSet args)
  | examine, args => onDebugger (cmdExamine args)
  | .break, args => onDebugger (cmdBreak args)
  | delete, args => onDebugger (cmdDelete args)
  | step, args => onDebugger (cmdStep args)
  | next, _ => onDebugger cmdNext
  | .continue, _ => onDebugger cmdContinue
  | quit, _ => onDebugger cmdQuit
  | watch, args => onDebugger (cmdWatch args)
  | rwatch, args => onDebugger (cmdRwatch args)
  | awatch, args => onDebugger (cmdAwatch args)
  | list, args => onDebugger (cmdList args)
  | display, args => cmdDisplay args
  | runfor, args => onDebugger (cmdRunfor args)
  | measure, args => onDebugger (cmdMeasure args)
  | pc, args => onDebugger (cmdPc args)
  | symbolFile, args => onDebugger (cmdFile .symbolFile args)
  | source, args => onDebugger (cmdFile .source args)
  -- These use no word, or test each for null before they use it.
  | handler, args => onDebugger (onHost (Host.rest handler none args))

/-- The buffer that is executed. A blank line stands for the command of the last one. -/
def effective (buffer prevBuffer : Text) : Text :=
  match buffer with
  | 10 :: _ => prevBuffer
  | _ => buffer

/-- The command and its arguments, unless the line is a comment or has no words. -/
def parse (buffer : Text) : Option (Text × List Text) :=
  match buffer with
  | 35 :: _ => none
  | _ =>
    match words buffer with
    | [] => none
    | cmd :: args => some (cmd, args)

def commandExec (line : Line) : ShellM τ Unit := do
  match parse (effective line.1 (← get).prevBuffer) with
  | none => pure ()
  | some (cmd, args) =>
    modify fun s => { s with prevBuffer := cmd }
    match commandLookup cmd with
    | none => pure ()
    | some handler => handler.perform args

end Handlers

/-! ## Runs -/

/-- What happens to the debugger: a line is typed, the processor goes on, the monitor is entered. -/
inductive Moment (τ : Type)
  | line (line : Line)
  | insn
  | happening (h : Happening τ)
  | freeTemps
  | displays

def Moment.perform {τ : Type} [Host τ] : Moment τ → ShellM τ Unit
  | line l => commandExec l
  | insn => onDebugger commandInsnHook
  | happening h => onDebugger h.event.perform
  | freeTemps => onDebugger brkfreeTemps
  | displays => do
    let exprs := (← get).displays
    onDebugger do let _ ← evaluating (displayPrint exprs)

/-! ## A machine for concrete runs -/

/-- A flat memory with a stack pointer and condition codes. -/
structure FlatHost where
  flat : FlatTarget
  s : U16
  cc : U8

def onFlat {α : Type} (m : EStateM Stop FlatTarget α) : EStateM Stop FlatHost α := fun t =>
  match m t.flat with
  | .ok a u => .ok a { t with flat := u }
  | .error e u => .error e { t with flat := u }

instance : Host FlatHost where
  absRead8 addr := onFlat (Target.absRead8 addr)
  absRead16 addr := onFlat (Target.absRead16 addr)
  absWrite8 addr val := onFlat (Target.absWrite8 addr val)
  toAbsolute addr _ := addr
  getPc t := t.flat.pc
  dasm addr := onFlat (Target.dasm addr)
  readVirtual name := (Target.readVirtual name).map onFlat
  writeVirtual name := (Target.writeVirtual name).map fun assign val => onFlat (assign val)
  symbol _ _ := none
  getS t := t.s.zeroExtend 32
  setS val := modify fun t => { t with s := val.setWidth 16 }
  getCc t := t.cc.zeroExtend 32
  setCc val := modify fun t => { t with cc := val.setWidth 8 }
  setPc val := modify fun t => { t with flat := { t.flat with pc := val.setWidth 16 } }
  write8 addr val := onFlat (Target.absWrite8 (addr.zeroExtend 64) val)
  symSet _ _ := pure ()
  rest _ _ _ := pure ()

end Exec09.Debugger
