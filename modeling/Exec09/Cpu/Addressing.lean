import Exec09.Cpu.Arithmetic

/-! # Registers by number and effective addresses -/
namespace Exec09
variable {β : Type}

/-- The registers of `index_regs`, in the order of that table. -/
inductive IndexReg
  | X | Y | U | S
  deriving DecidableEq, Repr

def IndexReg.get : IndexReg → Cpu β → ℕ
  | .X, s => s.X
  | .Y, s => s.Y
  | .U, s => s.U
  | .S, s => s.S

def IndexReg.set (v : ℕ) (s : Cpu β) : IndexReg → Cpu β
  | .X => { s with X := v }
  | .Y => { s with Y := v }
  | .U => { s with U := v }
  | .S => { s with S := v }

/-- `index_regs[(post >> 5) & 0x3]`. -/
def indexReg (post : ℕ) : IndexReg :=
  match (post >>> 5) &&& 0x3 with
  | 0 => .X
  | 1 => .Y
  | 2 => .U
  | _ => .S

def setIndexReg (R : IndexReg) (v : ℕ) : CpuM β Unit := modify fun s => R.set v s

def getReg (s : Cpu β) : ℕ → ℕ
  | 0 => (s.A <<< 8) ||| s.B
  | 1 => s.X
  | 2 => s.Y
  | 3 => s.U
  | 4 => s.S
  | 5 => s.PC &&& 0xffff
  | 8 => s.A
  | 9 => s.B
  | 10 => getCc s
  | 11 => s.DP >>> 8
  | _ => 0xff

def setReg (nro val : ℕ) : CpuM β Unit :=
  match nro with
  | 0 => modify fun s => { s with A := val >>> 8, B := val &&& 0xff }
  | 1 => modify fun s => { s with X := val }
  | 2 => modify fun s => { s with Y := val }
  | 3 => modify fun s => { s with U := val }
  | 4 => modify fun s => { s with S := val }
  | 5 => modify fun s => { s with PC := val }
  | 8 => modify fun s => { s with A := val }
  | 9 => modify fun s => { s with B := val }
  | 10 => setCc val
  | 11 => modify fun s => { s with DP := uint (val <<< 8) }
  | _ => pure ()

variable [Bus β]

def direct : CpuM β Unit := do
  let val ← read8 (← look Cpu.PC)
  advancePc 1
  setEa (val ||| (← look Cpu.DP))

def extended : CpuM β Unit := do
  let val ← read16 (← look Cpu.PC)
  advancePc 2
  setEa val

/-- `ea = RDMEM16 (ea)`, which ends every indirect postbyte, with its cycles. -/
def indirect : CpuM β Unit := do
  setEa (← rdmem16 (← look Cpu.ea))
  charge 2

/-- The effective address of a postbyte with bit 7 set, before indirection.
The value is `false` for a postbyte that `indexed` rejects. -/
def indexedEa (post : ℕ) (R : IndexReg) : CpuM β Bool :=
  match post &&& 0x1f with
  | 0x00 => do
    setEa (← look R.get)
    setIndexReg R (((← look R.get) + 1) &&& 0xffff)
    charge 6
    return true
  | 0x01 | 0x11 => do
    setEa (← look R.get)
    setIndexReg R (((← look R.get) + 2) &&& 0xffff)
    charge 7
    return true
  | 0x02 => do
    setIndexReg R (usub (← look R.get) 1 &&& 0xffff)
    setEa (← look R.get)
    charge 6
    return true
  | 0x03 | 0x13 => do
    setIndexReg R (usub (← look R.get) 2 &&& 0xffff)
    setEa (← look R.get)
    charge 7
    return true
  | 0x04 | 0x14 => do
    setEa (← look R.get)
    charge 4
    return true
  | 0x05 | 0x15 => do
    setEa (uint ((← look R.get) + int8 (← look Cpu.B)) &&& 0xffff)
    charge 5
    return true
  | 0x06 | 0x16 => do
    setEa (uint ((← look R.get) + int8 (← look Cpu.A)) &&& 0xffff)
    charge 5
    return true
  | 0x08 | 0x18 => do
    let n ← immByte
    setEa (uint ((← look R.get) + int8 n) &&& 0xffff)
    charge 5
    return true
  | 0x09 | 0x19 => do
    let n ← immWord
    setEa (uint ((← look R.get) + n) &&& 0xffff)
    charge 8
    return true
  | 0x0b | 0x1b => do
    setEa (uint ((← look R.get) + (← look getD)) &&& 0xffff)
    charge 8
    return true
  | 0x0c | 0x1c => do
    let n ← immByte
    setEa (uint (int8 n + (← look Cpu.PC)) &&& 0xffff)
    charge 5
    return true
  | 0x0d | 0x1d => do
    let n ← immWord
    setEa (uint (n + (← look Cpu.PC)) &&& 0xffff)
    charge 9
    return true
  | 0x1f => do
    setEa (← immWord)
    charge 6
    return true
  | _ => do
    setEa 0
    simError
    return false

def indexed : CpuM β Unit := do
  let post ← immByte
  let R := indexReg post
  if post &&& 0x80 ≠ 0 then
    -- The indirect postbytes are 0x11 and above; each repeats the direct one below it.
    if (← indexedEa post R) && post &&& 0x10 ≠ 0 then indirect
  else
    let post := if post &&& 0x10 ≠ 0 then post ||| 0xfff0 else post &&& 0x000f
    setEa (uint ((← look R.get) + post) &&& 0xffff)
    charge 5

/-- An addressing mode that leaves an address in `ea`, with the cycles the
opcode charges around it. -/
inductive Mode
  | direct (clk : ℤ)
  | indexed (pre post : ℤ)
  | extended (clk : ℤ)
  deriving DecidableEq, Repr

def Mode.address : Mode → CpuM β Unit
  | .direct clk => do Exec09.direct; charge clk
  | .indexed pre post => do charge pre; Exec09.indexed; charge post
  | .extended clk => do Exec09.extended; charge clk

/-- The operand of an opcode: immediate, or in memory at `ea`. -/
inductive Operand
  | imm (clk : ℤ)
  | mem (m : Mode)
  deriving DecidableEq, Repr

def Operand.load8 : Operand → CpuM β ℕ
  | .imm clk => do charge clk; immByte
  | .mem m => do m.address; read8 (← look Cpu.ea)

def Operand.load16 : Operand → CpuM β ℕ
  | .imm clk => do charge clk; immWord
  | .mem m => do m.address; rdmem16 (← look Cpu.ea)

/-- The cycle that 16-bit arithmetic charges after a memory operand. -/
def Operand.tail : Operand → ℤ
  | .imm _ => 0
  | .mem _ => 1

/-- The register `nro`, or all ones where the postbyte mixes register widths. -/
def transferred (s : Cpu β) (post nro : ℕ) : ℕ :=
  if (post ^^^ (post <<< 4)) &&& 0x80 = 0 then getReg s nro else 0xff

def exg : CpuM β Unit := do
  let post ← immByte
  let tmp1 ← look fun s => transferred s post (post >>> 4)
  let tmp2 ← look fun s => transferred s post (post &&& 15)
  setReg (post &&& 15) tmp1
  setReg (post >>> 4) tmp2
  charge 8

def tfr : CpuM β Unit := do
  let post ← immByte
  let tmp1 ← look fun s => transferred s post (post >>> 4)
  setReg (post &&& 15) tmp1
  charge 6

end Exec09
