import Exec09.Cpu.Addressing

/-! # Stacks, interrupts and subroutine linkage

`pshs` and `pshu` are one function over the stack pointer in use, and so are
`puls` and `pulu`. The interrupt entries share `stackMachineState`; `rti` and
the CWAI state decide afterwards how much of a frame is on the stack.
-/
namespace Exec09
open Foundation
variable {β : Type}

/-- The stack pointer of a push or pull instruction. -/
inductive StackReg
  | S | U
  deriving DecidableEq, Repr

def StackReg.get : StackReg → Cpu β → ℕ
  | .S, s => s.S
  | .U, s => s.U

def StackReg.set (v : ℕ) (s : Cpu β) : StackReg → Cpu β
  | .S => { s with S := v }
  | .U => { s with U := v }

/-- The stack pointer that travels on the other stack, under bit 6 of the postbyte. -/
def StackReg.other : StackReg → StackReg
  | .S => .U
  | .U => .S

def setStackReg (sp : StackReg) (v : ℕ) : CpuM β Unit := modify fun s => sp.set v s

def monitorCall : CpuM β Unit := pure ()
def monitorReturn : CpuM β Unit := pure ()

def commandExitIrqHook (cycles : Cpu β → ℕ) : CpuM β Unit :=
  modify fun s => { s with irqLoad := cycles s :: s.irqLoad }

/-- `S = (S - n) & 0xffff`, for either stack. -/
def lowerStack (sp : StackReg) (n : ℕ) : CpuM β Unit := do
  setStackReg sp (usub (← look sp.get) n &&& 0xffff)

def raiseStack (sp : StackReg) (n : ℕ) : CpuM β Unit := do
  setStackReg sp (((← look sp.get) + n) &&& 0xffff)

variable [Bus β]

def push8 (sp : StackReg) (val : ℕ) : CpuM β Unit := do
  lowerStack sp 1
  write8 (← look sp.get) val

def push16 (sp : StackReg) (val : ℕ) : CpuM β Unit := do
  lowerStack sp 2
  writeStack16 (← look sp.get) val

def pull8 (sp : StackReg) : CpuM β ℕ := do
  let val ← read8 (← look sp.get)
  raiseStack sp 1
  return val

def pull16 (sp : StackReg) : CpuM β ℕ := do
  let val ← readStack16 (← look sp.get)
  raiseStack sp 2
  return val

/-- An `if` without `else`. -/
def onlyIf (c : Prop) [Decidable c] (m : CpuM β Unit) : CpuM β Unit := if c then m else pure ()

/-- `if (post & mask)`. -/
def onBit (post mask : ℕ) (m : CpuM β Unit) : CpuM β Unit := onlyIf (post &&& mask ≠ 0) m

def psh (sp : StackReg) : CpuM β Unit := do
  let post ← immByte
  charge 5
  onBit post 0x80 do charge 2; push16 sp ((← look Cpu.PC) &&& 0xffff)
  onBit post 0x40 do charge 2; push16 sp (← look sp.other.get)
  onBit post 0x20 do charge 2; push16 sp (← look Cpu.Y)
  onBit post 0x10 do charge 2; push16 sp (← look Cpu.X)
  onBit post 0x08 do charge 1; push8 sp ((← look Cpu.DP) >>> 8)
  onBit post 0x04 do charge 1; push8 sp (← look Cpu.B)
  onBit post 0x02 do charge 1; push8 sp (← look Cpu.A)
  onBit post 0x01 do charge 1; push8 sp (← look getCc)

def pshs : CpuM β Unit := psh .S
def pshu : CpuM β Unit := psh .U

def setA (v : ℕ) : CpuM β Unit := modify fun s => { s with A := v }
def setB (v : ℕ) : CpuM β Unit := modify fun s => { s with B := v }
def setDp (v : ℕ) : CpuM β Unit := modify fun s => { s with DP := v }
def setX (v : ℕ) : CpuM β Unit := modify fun s => { s with X := v }
def setY (v : ℕ) : CpuM β Unit := modify fun s => { s with Y := v }
def setPc (v : ℕ) : CpuM β Unit := modify fun s => { s with PC := v }

def pul (sp : StackReg) : CpuM β Unit := do
  let post ← immByte
  charge 5
  onBit post 0x01 do charge 1; setCc (← pull8 sp)
  onBit post 0x02 do charge 1; setA (← pull8 sp)
  onBit post 0x04 do charge 1; setB (← pull8 sp)
  onBit post 0x08 do charge 1; setDp ((← pull8 sp) <<< 8)
  onBit post 0x10 do charge 2; setX (← pull16 sp)
  onBit post 0x20 do charge 2; setY (← pull16 sp)
  onBit post 0x40 do charge 2; setStackReg sp.other (← pull16 sp)
  onBit post 0x80 do monitorReturn; charge 2; setPc (← pull16 sp)

def puls : CpuM β Unit := pul .S
def pulu : CpuM β Unit := pul .U

def setEfi (v : ℕ) : CpuM β Unit := modify fun s => { s with EFI := v }

/-- The cycles and the E flag of a full or a short frame. -/
def beginFrame (full : Bool) : CpuM β Unit :=
  if full then do
    charge 19
    setEfi ((← look Cpu.EFI) ||| E_FLAG)
  else do
    charge 6
    setEfi ((← look Cpu.EFI) &&& unot E_FLAG)

theorem setE_and {m : ℕ} (hm : E_FLAG &&& m = 0) (e : ℕ) : (e ||| E_FLAG) &&& m = e &&& m := by
  rw [Nat.and_or_distrib_right, hm, Nat.or_zero]

theorem clearE_and {m : ℕ} (hm : unot E_FLAG &&& m = m) (e : ℕ) :
    (e &&& unot E_FLAG) &&& m = e &&& m := by
  rw [Nat.and_assoc, hm]

/-- The part of a full frame between `PC` and `CC`. -/
def pushRegisters : CpuM β Unit := do
  push16 .S (← look Cpu.U)
  push16 .S (← look Cpu.Y)
  push16 .S (← look Cpu.X)
  push8 .S ((← look Cpu.DP) >>> 8)
  push8 .S (← look Cpu.B)
  push8 .S (← look Cpu.A)

def pullRegisters : CpuM β Unit := do
  setA (← pull8 .S)
  setB (← pull8 .S)
  setDp ((← pull8 .S) <<< 8)
  setX (← pull16 .S)
  setY (← pull16 .S)
  setStackReg .U (← pull16 .S)

def stackMachineState (full : Bool) : CpuM β Unit := do
  beginFrame full
  push16 .S ((← look Cpu.PC) &&& 0xffff)
  onlyIf full pushRegisters
  push8 .S (← look getCc)

def jsr : CpuM β Unit := do
  push16 .S ((← look Cpu.PC) &&& 0xffff)
  changePc (← look Cpu.ea)
  monitorCall

def rti : CpuM β Unit := do
  monitorReturn
  charge 6
  commandExitIrqHook fun s => Word.sub 64 (getCycles s) s.irqStartTime
  setCc (← pull8 .S)
  onlyIf ((← look Cpu.EFI) &&& E_FLAG ≠ 0) do
    charge 9
    pullRegisters
  setPc (← pull16 .S)

def rts : CpuM β Unit := do
  monitorReturn
  charge 5
  setPc (← pull16 .S)

/-- `EFI |= m`. -/
def mask (m : ℕ) : CpuM β Unit := do setEfi ((← look Cpu.EFI) ||| m)

def setCwaiState (c : CwaiState) : CpuM β Unit := modify fun s => { s with cwaiState := c }

/-- Stack the state unless CWAI has done so already. -/
def enterInterrupt (full : Bool) : CpuM β Unit := do
  match (← look Cpu.cwaiState) with
  | .wait => setCwaiState .idle
  | .idle => stackMachineState full

def setIrqStartTime (v : Cpu β → ℕ) : CpuM β Unit :=
  modify fun s => { s with irqStartTime := v s }

def irq : CpuM β Unit := do
  enterInterrupt true
  mask I_FLAG
  setIrqStartTime getCycles
  changePc (← read16 0xfff8)

def firq : CpuM β Unit := do
  enterInterrupt false
  mask (I_FLAG ||| F_FLAG)
  changePc (← read16 0xfff6)

def swi : CpuM β Unit := do
  stackMachineState true
  mask (I_FLAG ||| F_FLAG)
  changePc (← read16 0xfffa)

def swi2 : CpuM β Unit := do
  charge 1
  stackMachineState true
  changePc (← read16 0xfff4)

def swi3 : CpuM β Unit := do
  charge 1
  stackMachineState true
  changePc (← read16 0xfff2)

def cwai : CpuM β Unit := do
  match (← look Cpu.cwaiState) with
  | .idle =>
    let n ← immByte
    setEfi ((← look Cpu.EFI) &&& int8 n)
    charge 1
    stackMachineState true
    setCwaiState .wait
    changePc (usub (← look Cpu.PC) 2)
  | .wait =>
    charge 1
    changePc (usub (← look Cpu.PC) 1)

def sync : CpuM β Unit := do
  charge 4
  simError

def orcc : CpuM β Unit := do
  let tmp ← immByte
  setCc ((← look getCc) ||| tmp)
  charge 3

def andcc : CpuM β Unit := do
  let tmp ← immByte
  setCc ((← look getCc) &&& tmp)
  charge 3

/-- `1 << source`, for the interrupt sources a machine assigns. -/
def requestIrq (source : ℕ) : CpuM β Unit := do
  modify fun s => { s with irqsPending := s.irqsPending ||| (1 <<< source) }
  if (← look Cpu.EFI) &&& I_FLAG = 0 then irq

def releaseIrq (source : ℕ) : CpuM β Unit :=
  modify fun s => { s with irqsPending := s.irqsPending &&& unot (1 <<< source) }

def requestFirq (source : ℕ) : CpuM β Unit := do
  modify fun s => { s with firqsPending := s.firqsPending ||| (1 <<< source) }
  if (← look Cpu.EFI) &&& F_FLAG = 0 then firq

def releaseFirq (source : ℕ) : CpuM β Unit :=
  modify fun s => { s with firqsPending := s.firqsPending &&& unot (1 <<< source) }

def firqDeliverable (s : Cpu β) : Bool := s.firqsPending ≠ 0 ∧ s.EFI &&& F_FLAG = 0

def irqDeliverable (s : Cpu β) : Bool := s.irqsPending ≠ 0 ∧ s.EFI &&& I_FLAG = 0

/-- The test of `cc_modified`. -/
def checkPending : CpuM β Unit := do
  if ← look firqDeliverable then firq
  else if ← look irqDeliverable then irq

/-- `cc_changed = 0`. -/
def clearCcChanged : CpuM β Unit := modify fun s => { s with ccChanged := false }

def ccModified : CpuM β Unit := do
  checkPending
  clearCcChanged

/-! ## Branches -/

def bra : CpuM β Unit := do
  let tmp ← immByte
  changePc (uint ((← look Cpu.PC) + int8 tmp))

/-- The `if` of a short branch. -/
def takeBranch (cond : Bool) : CpuM β Unit := do
  if cond then bra else changePc (uint ((← look Cpu.PC) + 1))

def branch (cond : Bool) : CpuM β Unit := do
  takeBranch cond
  charge 3

def longBra : CpuM β Unit := do
  let tmp ← immWord
  changePc (uint ((← look Cpu.PC) + int16 tmp))

def longBranch (cond : Bool) : CpuM β Unit :=
  if cond then do
    longBra
    charge 6
  else do
    changePc (uint ((← look Cpu.PC) + 2))
    charge 5

def longBsr : CpuM β Unit := do
  let tmp ← immWord
  setEa (uint ((← look Cpu.PC) + int16 tmp))
  push16 .S ((← look Cpu.PC) &&& 0xffff)
  charge 9
  changePc (← look Cpu.ea)
  monitorCall

def bsr : CpuM β Unit := do
  let tmp ← immByte
  setEa (uint ((← look Cpu.PC) + int8 tmp))
  push16 .S ((← look Cpu.PC) &&& 0xffff)
  charge 7
  changePc (← look Cpu.ea)
  monitorCall

end Exec09
