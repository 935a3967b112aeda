import Exec09.Cpu.Interrupt

/-! # Instructions, their opcodes and the body of `cpu_execute`

The `switch` of `cpu_execute` is a table from opcodes to instructions followed
by the effect of each instruction. An opcode without an entry takes the
`default` branch of its `switch`.
-/
namespace Exec09
variable {β : Type}

inductive Acc
  | A | B
  deriving DecidableEq, Repr

def Acc.get : Acc → Cpu β → ℕ
  | .A, s => s.A
  | .B, s => s.B

def setAcc (r : Acc) (v : ℕ) : CpuM β Unit :=
  match r with
  | .A => setA v
  | .B => setB v

/-- The left operand of `cmp16`. -/
inductive Reg16
  | D | index (R : IndexReg)
  deriving DecidableEq, Repr

def Reg16.get : Reg16 → Cpu β → ℕ
  | .D, s => getD s
  | .index R, s => R.get s

inductive Insn
  | rmw (op : Unary) (m : Mode)
  | tstMem (m : Mode)
  | jmp (m : Mode)
  | unary (op : Unary) (r : Acc)
  | tstAcc (r : Acc)
  | alu (op : Alu8) (r : Acc) (src : Operand)
  | st (r : Acc) (m : Mode)
  | addd (src : Operand)
  | subd (src : Operand)
  | cmp16 (r : Reg16) (src : Operand)
  | ldd (src : Operand)
  | std (m : Mode)
  | ld16 (r : IndexReg) (src : Operand)
  | st16 (r : IndexReg) (m : Mode)
  | jsr (m : Mode)
  | lea (r : IndexReg)
  | psh (sp : StackReg)
  | pul (sp : StackReg)
  | bra | brn | branch (c : Cond) | bsr
  | longBra | longBrn | longBranch (c : Cond) | longBsr
  | nop | sync | daa | orcc | andcc | sex | exg | tfr
  | rts | abx | rti | cwai | mul | swi | swi2 | swi3
  deriving DecidableEq, Repr

/-- The opcodes of the default build without a prefix byte. -/
def decode : ℕ → Option Insn
  | 0x00 => some (.rmw .neg (.direct 4))
  | 0x03 => some (.rmw .com (.direct 4))
  | 0x04 => some (.rmw .lsr (.direct 4))
  | 0x06 => some (.rmw .ror (.direct 4))
  | 0x07 => some (.rmw .asr (.direct 4))
  | 0x08 => some (.rmw .asl (.direct 4))
  | 0x09 => some (.rmw .rol (.direct 4))
  | 0x0a => some (.rmw .dec (.direct 4))
  | 0x0c => some (.rmw .inc (.direct 4))
  | 0x0d => some (.tstMem (.direct 4))
  | 0x0e => some (.jmp (.direct 3))
  | 0x0f => some (.rmw .clr (.direct 4))
  | 0x12 => some .nop
  | 0x13 => some .sync
  | 0x16 => some .longBra
  | 0x17 => some .longBsr
  | 0x19 => some .daa
  | 0x1a => some .orcc
  | 0x1c => some .andcc
  | 0x1d => some .sex
  | 0x1e => some .exg
  | 0x1f => some .tfr
  | 0x20 => some .bra
  | 0x21 => some .brn
  | 0x22 => some (.branch .HI)
  | 0x23 => some (.branch .LS)
  | 0x24 => some (.branch .HS)
  | 0x25 => some (.branch .LO)
  | 0x26 => some (.branch .NE)
  | 0x27 => some (.branch .EQ)
  | 0x28 => some (.branch .VC)
  | 0x29 => some (.branch .VS)
  | 0x2a => some (.branch .PL)
  | 0x2b => some (.branch .MI)
  | 0x2c => some (.branch .GE)
  | 0x2d => some (.branch .LT)
  | 0x2e => some (.branch .GT)
  | 0x2f => some (.branch .LE)
  | 0x30 => some (.lea .X)
  | 0x31 => some (.lea .Y)
  | 0x32 => some (.lea .S)
  | 0x33 => some (.lea .U)
  | 0x34 => some (.psh .S)
  | 0x35 => some (.pul .S)
  | 0x36 => some (.psh .U)
  | 0x37 => some (.pul .U)
  | 0x39 => some .rts
  | 0x3a => some .abx
  | 0x3b => some .rti
  | 0x3c => some .cwai
  | 0x3d => some .mul
  | 0x3f => some .swi
  | 0x40 => some (.unary .neg .A)
  | 0x43 => some (.unary .com .A)
  | 0x44 => some (.unary .lsr .A)
  | 0x46 => some (.unary .ror .A)
  | 0x47 => some (.unary .asr .A)
  | 0x48 => some (.unary .asl .A)
  | 0x49 => some (.unary .rol .A)
  | 0x4a => some (.unary .dec .A)
  | 0x4c => some (.unary .inc .A)
  | 0x4d => some (.tstAcc .A)
  | 0x4f => some (.unary .clr .A)
  | 0x50 => some (.unary .neg .B)
  | 0x53 => some (.unary .com .B)
  | 0x54 => some (.unary .lsr .B)
  | 0x56 => some (.unary .ror .B)
  | 0x57 => some (.unary .asr .B)
  | 0x58 => some (.unary .asl .B)
  | 0x59 => some (.unary .rol .B)
  | 0x5a => some (.unary .dec .B)
  | 0x5c => some (.unary .inc .B)
  | 0x5d => some (.tstAcc .B)
  | 0x5f => some (.unary .clr .B)
  | 0x60 => some (.rmw .neg (.indexed 0 0))
  | 0x63 => some (.rmw .com (.indexed 0 0))
  | 0x64 => some (.rmw .lsr (.indexed 0 0))
  | 0x66 => some (.rmw .ror (.indexed 0 0))
  | 0x67 => some (.rmw .asr (.indexed 0 0))
  | 0x68 => some (.rmw .asl (.indexed 0 0))
  | 0x69 => some (.rmw .rol (.indexed 0 0))
  | 0x6a => some (.rmw .dec (.indexed 0 0))
  | 0x6c => some (.rmw .inc (.indexed 0 0))
  | 0x6d => some (.tstMem (.indexed 0 0))
  | 0x6e => some (.jmp (.indexed 0 (-1)))
  | 0x6f => some (.rmw .clr (.indexed 0 0))
  | 0x70 => some (.rmw .neg (.extended 5))
  | 0x73 => some (.rmw .com (.extended 5))
  | 0x74 => some (.rmw .lsr (.extended 5))
  | 0x76 => some (.rmw .ror (.extended 5))
  | 0x77 => some (.rmw .asr (.extended 5))
  | 0x78 => some (.rmw .asl (.extended 5))
  | 0x79 => some (.rmw .rol (.extended 5))
  | 0x7a => some (.rmw .dec (.extended 5))
  | 0x7c => some (.rmw .inc (.extended 5))
  | 0x7d => some (.tstMem (.extended 5))
  | 0x7e => some (.jmp (.extended 4))
  | 0x7f => some (.rmw .clr (.extended 5))
  | 0x80 => some (.alu .sub .A (.imm 2))
  | 0x81 => some (.alu .cmp .A (.imm 2))
  | 0x82 => some (.alu .sbc .A (.imm 2))
  | 0x83 => some (.subd (.imm 4))
  | 0x84 => some (.alu .and .A (.imm 2))
  | 0x85 => some (.alu .bit .A (.imm 2))
  | 0x86 => some (.alu .ld .A (.imm 2))
  | 0x88 => some (.alu .eor .A (.imm 2))
  | 0x89 => some (.alu .adc .A (.imm 2))
  | 0x8a => some (.alu .or .A (.imm 2))
  | 0x8b => some (.alu .add .A (.imm 2))
  | 0x8c => some (.cmp16 (.index .X) (.imm 4))
  | 0x8d => some .bsr
  | 0x8e => some (.ld16 .X (.imm 3))
  | 0x90 => some (.alu .sub .A (.mem (.direct 4)))
  | 0x91 => some (.alu .cmp .A (.mem (.direct 4)))
  | 0x92 => some (.alu .sbc .A (.mem (.direct 4)))
  | 0x93 => some (.subd (.mem (.direct 4)))
  | 0x94 => some (.alu .and .A (.mem (.direct 4)))
  | 0x95 => some (.alu .bit .A (.mem (.direct 4)))
  | 0x96 => some (.alu .ld .A (.mem (.direct 4)))
  | 0x97 => some (.st .A (.direct 4))
  | 0x98 => some (.alu .eor .A (.mem (.direct 4)))
  | 0x99 => some (.alu .adc .A (.mem (.direct 4)))
  | 0x9a => some (.alu .or .A (.mem (.direct 4)))
  | 0x9b => some (.alu .add .A (.mem (.direct 4)))
  | 0x9c => some (.cmp16 (.index .X) (.mem (.direct 4)))
  | 0x9d => some (.jsr (.direct 7))
  | 0x9e => some (.ld16 .X (.mem (.direct 4)))
  | 0x9f => some (.st16 .X (.direct 4))
  | 0xa0 => some (.alu .sub .A (.mem (.indexed 0 0)))
  | 0xa1 => some (.alu .cmp .A (.mem (.indexed 0 0)))
  | 0xa2 => some (.alu .sbc .A (.mem (.indexed 0 0)))
  | 0xa3 => some (.subd (.mem (.indexed 0 0)))
  | 0xa4 => some (.alu .and .A (.mem (.indexed 0 0)))
  | 0xa5 => some (.alu .bit .A (.mem (.indexed 0 0)))
  | 0xa6 => some (.alu .ld .A (.mem (.indexed 0 0)))
  | 0xa7 => some (.st .A (.indexed 0 0))
  | 0xa8 => some (.alu .eor .A (.mem (.indexed 0 0)))
  | 0xa9 => some (.alu .adc .A (.mem (.indexed 0 0)))
  | 0xaa => some (.alu .or .A (.mem (.indexed 0 0)))
  | 0xab => some (.alu .add .A (.mem (.indexed 0 0)))
  | 0xac => some (.cmp16 (.index .X) (.mem (.indexed 0 0)))
  | 0xad => some (.jsr (.indexed 0 3))
  | 0xae => some (.ld16 .X (.mem (.indexed 0 0)))
  | 0xaf => some (.st16 .X (.indexed 0 0))
  | 0xb0 => some (.alu .sub .A (.mem (.extended 5)))
  | 0xb1 => some (.alu .cmp .A (.mem (.extended 5)))
  | 0xb2 => some (.alu .sbc .A (.mem (.extended 5)))
  | 0xb3 => some (.subd (.mem (.extended 5)))
  | 0xb4 => some (.alu .and .A (.mem (.extended 5)))
  | 0xb5 => some (.alu .bit .A (.mem (.extended 5)))
  | 0xb6 => some (.alu .ld .A (.mem (.extended 5)))
  | 0xb7 => some (.st .A (.extended 5))
  | 0xb8 => some (.alu .eor .A (.mem (.extended 5)))
  | 0xb9 => some (.alu .adc .A (.mem (.extended 5)))
  | 0xba => some (.alu .or .A (.mem (.extended 5)))
  | 0xbb => some (.alu .add .A (.mem (.extended 5)))
  | 0xbc => some (.cmp16 (.index .X) (.mem (.extended 5)))
  | 0xbd => some (.jsr (.extended 8))
  | 0xbe => some (.ld16 .X (.mem (.extended 5)))
  | 0xbf => some (.st16 .X (.extended 5))
  | 0xc0 => some (.alu .sub .B (.imm 2))
  | 0xc1 => some (.alu .cmp .B (.imm 2))
  | 0xc2 => some (.alu .sbc .B (.imm 2))
  | 0xc3 => some (.addd (.imm 4))
  | 0xc4 => some (.alu .and .B (.imm 2))
  | 0xc5 => some (.alu .bit .B (.imm 2))
  | 0xc6 => some (.alu .ld .B (.imm 2))
  | 0xc8 => some (.alu .eor .B (.imm 2))
  | 0xc9 => some (.alu .adc .B (.imm 2))
  | 0xca => some (.alu .or .B (.imm 2))
  | 0xcb => some (.alu .add .B (.imm 2))
  | 0xcc => some (.ldd (.imm 3))
  | 0xce => some (.ld16 .U (.imm 3))
  | 0xd0 => some (.alu .sub .B (.mem (.direct 4)))
  | 0xd1 => some (.alu .cmp .B (.mem (.direct 4)))
  | 0xd2 => some (.alu .sbc .B (.mem (.direct 4)))
  | 0xd3 => some (.addd (.mem (.direct 4)))
  | 0xd4 => some (.alu .and .B (.mem (.direct 4)))
  | 0xd5 => some (.alu .bit .B (.mem (.direct 4)))
  | 0xd6 => some (.alu .ld .B (.mem (.direct 4)))
  | 0xd7 => some (.st .B (.direct 4))
  | 0xd8 => some (.alu .eor .B (.mem (.direct 4)))
  | 0xd9 => some (.alu .adc .B (.mem (.direct 4)))
  | 0xda => some (.alu .or .B (.mem (.direct 4)))
  | 0xdb => some (.alu .add .B (.mem (.direct 4)))
  | 0xdc => some (.ldd (.mem (.direct 4)))
  | 0xdd => some (.std (.direct 4))
  | 0xde => some (.ld16 .U (.mem (.direct 4)))
  | 0xdf => some (.st16 .U (.direct 4))
  | 0xe0 => some (.alu .sub .B (.mem (.indexed 0 0)))
  | 0xe1 => some (.alu .cmp .B (.mem (.indexed 0 0)))
  | 0xe2 => some (.alu .sbc .B (.mem (.indexed 0 0)))
  | 0xe3 => some (.addd (.mem (.indexed 0 0)))
  | 0xe4 => some (.alu .and .B (.mem (.indexed 0 0)))
  | 0xe5 => some (.alu .bit .B (.mem (.indexed 0 0)))
  | 0xe6 => some (.alu .ld .B (.mem (.indexed 0 0)))
  | 0xe7 => some (.st .B (.indexed 0 0))
  | 0xe8 => some (.alu .eor .B (.mem (.indexed 0 0)))
  | 0xe9 => some (.alu .adc .B (.mem (.indexed 0 0)))
  | 0xea => some (.alu .or .B (.mem (.indexed 0 0)))
  | 0xeb => some (.alu .add .B (.mem (.indexed 0 0)))
  | 0xec => some (.ldd (.mem (.indexed 0 0)))
  | 0xed => some (.std (.indexed 0 0))
  | 0xee => some (.ld16 .U (.mem (.indexed 0 0)))
  | 0xef => some (.st16 .U (.indexed 0 0))
  | 0xf0 => some (.alu .sub .B (.mem (.extended 5)))
  | 0xf1 => some (.alu .cmp .B (.mem (.extended 5)))
  | 0xf2 => some (.alu .sbc .B (.mem (.extended 5)))
  | 0xf3 => some (.addd (.mem (.extended 5)))
  | 0xf4 => some (.alu .and .B (.mem (.extended 5)))
  | 0xf5 => some (.alu .bit .B (.mem (.extended 5)))
  | 0xf6 => some (.alu .ld .B (.mem (.extended 5)))
  | 0xf7 => some (.st .B (.extended 5))
  | 0xf8 => some (.alu .eor .B (.mem (.extended 5)))
  | 0xf9 => some (.alu .adc .B (.mem (.extended 5)))
  | 0xfa => some (.alu .or .B (.mem (.extended 5)))
  | 0xfb => some (.alu .add .B (.mem (.extended 5)))
  | 0xfc => some (.ldd (.mem (.extended 5)))
  | 0xfd => some (.std (.extended 5))
  | 0xfe => some (.ld16 .U (.mem (.extended 5)))
  | 0xff => some (.st16 .U (.extended 5))
  | _ => none

/-- The opcodes after the prefix byte 0x10. -/
def decode10 : ℕ → Option Insn
  | 0x21 => some .longBrn
  | 0x22 => some (.longBranch .HI)
  | 0x23 => some (.longBranch .LS)
  | 0x24 => some (.longBranch .HS)
  | 0x25 => some (.longBranch .LO)
  | 0x26 => some (.longBranch .NE)
  | 0x27 => some (.longBranch .EQ)
  | 0x28 => some (.longBranch .VC)
  | 0x29 => some (.longBranch .VS)
  | 0x2a => some (.longBranch .PL)
  | 0x2b => some (.longBranch .MI)
  | 0x2c => some (.longBranch .GE)
  | 0x2d => some (.longBranch .LT)
  | 0x2e => some (.longBranch .GT)
  | 0x2f => some (.longBranch .LE)
  | 0x3f => some .swi2
  | 0x83 => some (.cmp16 .D (.imm 5))
  | 0x8c => some (.cmp16 (.index .Y) (.imm 5))
  | 0x8e => some (.ld16 .Y (.imm 4))
  | 0x93 => some (.cmp16 .D (.mem (.direct 5)))
  | 0x9c => some (.cmp16 (.index .Y) (.mem (.direct 5)))
  | 0x9e => some (.ld16 .Y (.mem (.direct 5)))
  | 0x9f => some (.st16 .Y (.direct 5))
  | 0xa3 => some (.cmp16 .D (.mem (.indexed 1 0)))
  | 0xac => some (.cmp16 (.index .Y) (.mem (.indexed 1 0)))
  | 0xae => some (.ld16 .Y (.mem (.indexed 1 0)))
  | 0xaf => some (.st16 .Y (.indexed 1 0))
  | 0xb3 => some (.cmp16 .D (.mem (.extended 6)))
  | 0xbc => some (.cmp16 (.index .Y) (.mem (.extended 6)))
  | 0xbe => some (.ld16 .Y (.mem (.extended 6)))
  | 0xbf => some (.st16 .Y (.extended 6))
  | 0xce => some (.ld16 .S (.imm 4))
  | 0xde => some (.ld16 .S (.mem (.direct 5)))
  | 0xdf => some (.st16 .S (.direct 5))
  | 0xee => some (.ld16 .S (.mem (.indexed 1 0)))
  | 0xef => some (.st16 .S (.indexed 1 0))
  | 0xfe => some (.ld16 .S (.mem (.extended 6)))
  | 0xff => some (.st16 .S (.extended 6))
  | _ => none

/-- The opcodes after the prefix byte 0x11. -/
def decode11 : ℕ → Option Insn
  | 0x3f => some .swi3
  | 0x83 => some (.cmp16 (.index .U) (.imm 5))
  | 0x8c => some (.cmp16 (.index .S) (.imm 5))
  | 0x93 => some (.cmp16 (.index .U) (.mem (.direct 5)))
  | 0x9c => some (.cmp16 (.index .S) (.mem (.direct 5)))
  | 0xa3 => some (.cmp16 (.index .U) (.mem (.indexed 1 0)))
  | 0xac => some (.cmp16 (.index .S) (.mem (.indexed 1 0)))
  | 0xb3 => some (.cmp16 (.index .U) (.mem (.extended 6)))
  | 0xbc => some (.cmp16 (.index .S) (.mem (.extended 6)))
  | _ => none

variable [Bus β]

/-- A one-operand operation with its result and its two cycles. -/
def unaryOp (op : Unary) (arg : ℕ) : CpuM β ℕ := do
  let res ← withFlags (op.eval · arg)
  charge 2
  return res

def tstOp (arg : ℕ) : CpuM β Unit := do
  updateFlags (tst · arg)
  charge 2

/-- Store the word of `addd`, `subd` and `ldd` in `A` and `B`. -/
def setD (res : ℕ) : CpuM β Unit := do
  setA (res >>> 8)
  setB (res &&& 0xff)

def Insn.exec : Insn → CpuM β Unit
  | .rmw op m => do
    m.address
    let arg ← read8 (← look Cpu.ea)
    let res ← unaryOp op arg
    write8 (← look Cpu.ea) res
  | .tstMem m => do
    m.address
    tstOp (← read8 (← look Cpu.ea))
  | .jmp m => do
    m.address
    setPc (← look Cpu.ea)
    monitorCall
  | .unary op r => do
    setAcc r (← unaryOp op (← look r.get))
  | .tstAcc r => do
    tstOp (← look r.get)
  | .alu op r src => do
    let val ← src.load8
    let arg ← look r.get
    setAcc r (← withFlags (op.eval · arg val))
  | .st r m => do
    m.address
    let arg ← look r.get
    updateFlags (stFlags · arg)
    write8 (← look Cpu.ea) arg
  | .addd src => do
    let val ← src.load16
    let arg ← look getD
    setD (← withFlags (Exec09.addd · arg val))
    charge src.tail
  | .subd src => do
    let val ← src.load16
    let arg ← look getD
    setD (← withFlags (Exec09.subd · arg val))
    charge src.tail
  | .cmp16 r src => do
    let val ← src.load16
    let arg ← look r.get
    updateFlags (Exec09.cmp16 · arg val)
    charge src.tail
  | .ldd src => do
    let val ← src.load16
    setD (← withFlags (Exec09.ld16 · val))
  | .std m => do
    m.address
    let A ← look Cpu.A
    let D ← look getD
    updateFlags fun f => { f with N := A, Z := D, OV := 0 }
    wrmem16 (← look Cpu.ea) D
  | .ld16 r src => do
    let val ← src.load16
    setIndexReg r (← withFlags (Exec09.ld16 · val))
  | .st16 r m => do
    m.address
    let arg ← look r.get
    updateFlags (st16Flags · arg)
    wrmem16 (← look Cpu.ea) arg
  | .jsr m => do
    m.address
    Exec09.jsr
  | .lea r => do
    indexed
    let ea ← look Cpu.ea
    setIndexReg r ea
    -- Only LEAX and LEAY set the zero flag.
    onlyIf (r = .X ∨ r = .Y) do updateFlags fun f => { f with Z := ea }
  | .psh sp => Exec09.psh sp
  | .pul sp => Exec09.pul sp
  | .bra => do
    Exec09.bra
    charge 3
  | .brn => do
    advancePc 1
    charge 3
  | .branch c => do
    Exec09.branch (← look fun s => c.holds s.flags)
  | .bsr => Exec09.bsr
  | .longBra => do
    Exec09.longBra
    charge 5
  | .longBrn => do
    charge 5
    advancePc 2
  | .longBranch c => do
    Exec09.longBranch (← look fun s => c.holds s.flags)
  | .longBsr => Exec09.longBsr
  | .nop => charge 2
  | .sync => Exec09.sync
  | .daa => do
    let A ← look Cpu.A
    setA (← withFlags (Exec09.daa · A))
    charge 2
  | .orcc => Exec09.orcc
  | .andcc => Exec09.andcc
  | .sex => do
    let B ← look Cpu.B
    setA (← withFlags (Exec09.sex · B))
    charge 2
  | .exg => Exec09.exg
  | .tfr => Exec09.tfr
  | .rts => Exec09.rts
  | .abx => do
    setX (((← look Cpu.X) + (← look Cpu.B)) &&& 0xffff)
    charge 3
  | .rti => Exec09.rti
  | .cwai => Exec09.cwai
  | .mul => do
    let A ← look Cpu.A
    let B ← look Cpu.B
    setD (← withFlags (Exec09.mul · A B))
    charge 11
  | .swi => Exec09.swi
  | .swi2 => Exec09.swi2
  | .swi3 => Exec09.swi3

/-- What the opcode bytes select: an instruction, or the `default` branch of the
outer `switch` or of the inner one of a prefix byte. -/
inductive Selected
  | insn (i : Insn)
  | invalid
  | invalidPrefixed
  deriving DecidableEq, Repr

def fetchOpcode : CpuM β Selected := do
  let opcode ← immByte
  if opcode = 0x10 then
    let opcode ← immByte
    return (decode10 opcode).elim .invalidPrefixed .insn
  else if opcode = 0x11 then
    let opcode ← immByte
    return (decode11 opcode).elim .invalidPrefixed .insn
  else
    return (decode opcode).elim .invalid .insn

def Selected.exec : Selected → CpuM β Unit
  | .insn i => i.exec
  | .invalid => do
    charge 2
    simError
    setPc (← look Cpu.iPC)
  | .invalidPrefixed => simError

/-- `iPC = PC`. -/
def latchPc (s : Cpu β) : Cpu β := { s with iPC := s.PC }

/-- The fetch of an opcode and its branch of the `switch`. -/
def fetchExecute : CpuM β Unit := do
  modify latchPc
  let sel ← fetchOpcode
  sel.exec

/-- One iteration of the loop of `cpu_execute`, from the fetch on. -/
def cpuStep : CpuM β Unit := do
  fetchExecute
  if ← look Cpu.ccChanged then ccModified

/-- The assignments of `cpu_execute` before its loop. -/
def beginSlice (cycles : ℤ) : CpuM β Unit :=
  modify fun s => { s with cpuPeriod := cycles, cpuClk := cycles }

/-- The assignments of `cpu_execute` after its loop, and the addition to `total` in `main`. -/
def endSlice : CpuM β Unit :=
  modify fun s =>
    let period := s.cpuPeriod - s.cpuClk
    { s with
      cpuPeriod := period
      cpuClk := period
      total := ((s.total + period) % 2 ^ 64).toNat }

end Exec09
