import Exec09.Isa.Alu

/-! # Instructions in the programming model

What an instruction of the 6809 does. Left open are the opcodes and postbytes
that are not assigned, transfers between a byte and a word, DAA on bytes that are
no decimal sum, SYNC and CWAI, accesses outside of the memory, and instructions
that reach its last address.
-/
namespace Exec09.Isa

/-! ## Addresses and operands -/

def onlyIf (c : Bool) (m : MpuM Unit) : MpuM Unit := if c then m else pure ()

/-- A part of an instruction for a bit of its postbyte. -/
def onBit (post : U8) (i : ℕ) (m : MpuM Unit) : MpuM Unit := onlyIf (post.getLsbD i) m

def updateMasks (op : Masks → Masks) : MpuM Unit := modify fun g => { g with masks := op g.masks }

/-- How an index register `R` leads to an address. -/
inductive IndexMode
  /-- `,R+` and `,R++` -/
  | inc (n : U16) (clk : ℤ)
  /-- `,-R` and `,--R` -/
  | dec (n : U16) (clk : ℤ)
  /-- `,R` -/
  | zero
  /-- `A,R` and `B,R` -/
  | acc (r : Acc)
  /-- `D,R` -/
  | d
  /-- An offset in the code, from `R` or from the PC. -/
  | off8 | off16 | pc8 | pc16
  /-- An address in the code. -/
  | absolute

/-- The mode in the lower bits of a postbyte. -/
def indexMode : ℕ → Option IndexMode
  | 0x00 => some (.inc 1 6)
  | 0x01 | 0x11 => some (.inc 2 7)
  | 0x02 => some (.dec 1 6)
  | 0x03 | 0x13 => some (.dec 2 7)
  | 0x04 | 0x14 => some .zero
  | 0x05 | 0x15 => some (.acc .B)
  | 0x06 | 0x16 => some (.acc .A)
  | 0x08 | 0x18 => some .off8
  | 0x09 | 0x19 => some .off16
  | 0x0b | 0x1b => some .d
  | 0x0c | 0x1c => some .pc8
  | 0x0d | 0x1d => some .pc16
  | 0x1f => some .absolute
  | _ => none

/-- The five bits of a short offset. -/
def shortOffset (post : U8) : U16 := (post.extractLsb' 0 5).signExtend 16

namespace Storage
variable (L : Storage)

def form (R : IndexReg) : IndexMode → MpuM Unit
  | .inc n clk => do
    setEa (← look (index R))
    setIndex R ((← look (index R)) + n)
    charge clk
  | .dec n clk => do
    setIndex R ((← look (index R)) - n)
    setEa (← look (index R))
    charge clk
  | .zero => do
    setEa (← look (index R))
    charge 4
  | .acc r => do
    setEa ((← look (index R)) + (← look (Isa.acc r)).signExtend 16)
    charge 5
  | .d => do
    setEa ((← look (index R)) + (← look Mpu.D))
    charge 8
  | .off8 => do
    let n ← L.immByte
    setEa ((← look (index R)) + n.signExtend 16)
    charge 5
  | .off16 => do
    let n ← L.immWord
    setEa ((← look (index R)) + n)
    charge 8
  | .pc8 => do
    let n ← L.immByte
    setEa (n.signExtend 16 + (← look Mpu.PC))
    charge 5
  | .pc16 => do
    let n ← L.immWord
    setEa (n + (← look Mpu.PC))
    charge 9
  | .absolute => do
    setEa (← L.immWord)
    charge 6

def indirect : MpuM Unit := do
  setEa (← L.load16 (← effective))
  charge 2

def indexedMode (R : IndexReg) (m : IndexMode) (ind : Bool) : MpuM Unit := do
  L.form R m
  onlyIf ind L.indirect

def indexed : MpuM Unit := do
  let post ← L.immByte
  if post.msb then
    match indexMode (post.toNat &&& 0x1f) with
    | some m => L.indexedMode (indexReg post.toNat) m (post.getLsbD 4)
    | none => unspecified
  else
    setEa ((← look (index (indexReg post.toNat))) + shortOffset post)
    charge 5

def direct : MpuM Unit := do
  let n ← L.immByte
  setEa ((← look Mpu.DP) ++ n)

def extended : MpuM Unit := do
  setEa (← L.immWord)

def address : Mode → MpuM Unit
  | .direct clk => do L.direct; charge clk
  | .indexed pre post => do charge pre; L.indexed; charge post
  | .extended clk => do L.extended; charge clk

def operand8 : Operand → MpuM U8
  | .imm clk => do charge clk; L.immByte
  | .mem m => do L.address m; L.readByte (← effective)

def operand16 : Operand → MpuM U16
  | .imm clk => do charge clk; L.immWord
  | .mem m => do L.address m; L.load16 (← effective)

/-! ## Stacks -/

def psh (sp : StackReg) : MpuM Unit := do
  let post ← L.immByte
  charge 5
  onBit post 7 do charge 2; L.push16 sp (← look Mpu.PC)
  onBit post 6 do charge 2; L.push16 sp (← look (stack sp.other))
  onBit post 5 do charge 2; L.push16 sp (← look Mpu.Y)
  onBit post 4 do charge 2; L.push16 sp (← look Mpu.X)
  onBit post 3 do charge 1; L.push8 sp (← look Mpu.DP)
  onBit post 2 do charge 1; L.push8 sp (← look Mpu.B)
  onBit post 1 do charge 1; L.push8 sp (← look Mpu.A)
  onBit post 0 do charge 1; L.push8 sp (← look Mpu.CC)

def pul (sp : StackReg) : MpuM Unit := do
  let post ← L.immByte
  charge 5
  onBit post 0 do charge 1; setCC (← L.pull8 sp)
  onBit post 1 do charge 1; setAcc .A (← L.pull8 sp)
  onBit post 2 do charge 1; setAcc .B (← L.pull8 sp)
  onBit post 3 do charge 1; setDp (← L.pull8 sp)
  onBit post 4 do charge 2; setIndex .X (← L.pull16 sp)
  onBit post 5 do charge 2; setIndex .Y (← L.pull16 sp)
  onBit post 6 do charge 2; setStack sp.other (← L.pull16 sp)
  onBit post 7 do charge 2; setPc (← L.pull16 sp)

def pushRegisters : MpuM Unit := do
  L.push16 .S (← look Mpu.U)
  L.push16 .S (← look Mpu.Y)
  L.push16 .S (← look Mpu.X)
  L.push8 .S (← look Mpu.DP)
  L.push8 .S (← look Mpu.B)
  L.push8 .S (← look Mpu.A)

/-- The frame of an interrupt with all registers. -/
def stackMachineState : MpuM Unit := do
  charge 19
  updateMasks fun m => { m with E := true }
  L.push16 .S (← look Mpu.PC)
  L.pushRegisters
  L.push8 .S (← look Mpu.CC)

def pullRegisters : MpuM Unit := do
  setAcc .A (← L.pull8 .S)
  setAcc .B (← L.pull8 .S)
  setDp (← L.pull8 .S)
  setIndex .X (← L.pull16 .S)
  setIndex .Y (← L.pull16 .S)
  setStack .U (← L.pull16 .S)

def rti : MpuM Unit := do
  charge 6
  setCC (← L.pull8 .S)
  onlyIf (← look Mpu.masks).E do
    charge 9
    L.pullRegisters
  setPc (← L.pull16 .S)

def jsr : MpuM Unit := do
  L.push16 .S (← look Mpu.PC)
  setPc (← effective)

/-- The call of a subroutine at `a`. -/
def call (clk : ℤ) (a : U16) : MpuM Unit := do
  clearEa
  L.push16 .S (← look Mpu.PC)
  charge clk
  setPc a

end Storage

/-! ## Transfers -/

inductive Wide
  | D | index (R : IndexReg) | PC

inductive Narrow
  | acc (r : Acc) | CC | DP

/-- The words among the registers of a transfer. -/
def wide : ℕ → Option Wide
  | 0 => some .D
  | 1 => some (.index .X)
  | 2 => some (.index .Y)
  | 3 => some (.index .U)
  | 4 => some (.index .S)
  | 5 => some .PC
  | _ => none

def narrow : ℕ → Option Narrow
  | 8 => some (.acc .A)
  | 9 => some (.acc .B)
  | 10 => some .CC
  | 11 => some .DP
  | _ => none

def Wide.get : Wide → Mpu → U16
  | .D, g => g.D
  | .index R, g => Isa.index R g
  | .PC, g => g.PC

def Wide.set (w : U16) : Wide → MpuM Unit
  | .D => setD w
  | .index R => setIndex R w
  | .PC => setPc w

def Narrow.get : Narrow → Mpu → U8
  | .acc r, g => Isa.acc r g
  | .CC, g => g.CC
  | .DP, g => g.DP

def Narrow.set (v : U8) : Narrow → MpuM Unit
  | .acc r => setAcc r v
  | .CC => setCC v
  | .DP => setDp v

/-- The registers of a postbyte, of one size. -/
inductive Pair
  | wide (a b : Wide)
  | narrow (a b : Narrow)

def Pair.ofPost (post : U8) : Option Pair :=
  match Isa.wide (post.toNat >>> 4), Isa.wide (post.toNat &&& 15) with
  | some a, some b => some (.wide a b)
  | _, _ =>
    match Isa.narrow (post.toNat >>> 4), Isa.narrow (post.toNat &&& 15) with
    | some a, some b => some (.narrow a b)
    | _, _ => none

def Pair.exchange : Pair → MpuM Unit
  | .wide a b => do
    let v ← look a.get
    let w ← look b.get
    b.set v
    a.set w
  | .narrow a b => do
    let v ← look a.get
    let w ← look b.get
    b.set v
    a.set w

def Pair.transfer : Pair → MpuM Unit
  | .wide a b => do b.set (← look a.get)
  | .narrow a b => do b.set (← look a.get)

/-! ## Instructions -/

def unaryOp (op : Unary) (v : U8) : MpuM U8 := do
  let res ← withCc (unary · v op)
  charge 2
  return res

def tstOp (v : U8) : MpuM Unit := do
  updateCc fun c => (logical c v).2
  charge 2

/-- What DAA makes of a decimal sum. -/
def decimal (v : U8) : MpuM U8 := do
  if Adjustable (← look Mpu.cc) v then withCc (adjusted · v) else unspecified

def daa : MpuM Unit := do
  let v ← look Mpu.A
  setAcc .A (← decimal v)
  charge 2

/-- The instruction of an opcode that is assigned. -/
def assigned : Option Insn → MpuM Insn
  | some i => pure i
  | none => unspecified

namespace Storage
variable (L : Storage)

def bra : MpuM Unit := do
  let n ← L.immByte
  setPc ((← look Mpu.PC) + n.signExtend 16)

def takeBranch (c : Bool) : MpuM Unit := do
  if c then L.bra else setPc ((← look Mpu.PC) + 1)

def longBra : MpuM Unit := do
  let n ← L.immWord
  setPc ((← look Mpu.PC) + n)

def exec : Insn → MpuM Unit
  | .rmw op m => do
    L.address m
    let v ← L.readByte (← effective)
    let res ← unaryOp op v
    L.writeByte (← effective) res
  | .tstMem m => do
    L.address m
    tstOp (← L.readByte (← effective))
  | .jmp m => do
    L.address m
    setPc (← effective)
  | .unary op r => do
    setAcc r (← unaryOp op (← look (acc r)))
  | .tstAcc r => do
    tstOp (← look (acc r))
  | .alu op r src => do
    let val ← L.operand8 src
    let arg ← look (acc r)
    setAcc r (← withCc (alu · arg val op))
  | .st r m => do
    L.address m
    let arg ← look (acc r)
    updateCc fun c => (logical c arg).2
    L.writeByte (← effective) arg
  | .addd src => do
    let val ← L.operand16 src
    let arg ← look Mpu.D
    setD (← withCc (sum · arg val false))
    charge src.tail
  | .subd src => do
    let val ← L.operand16 src
    let arg ← look Mpu.D
    setD (← withCc (difference · arg val false))
    charge src.tail
  | .cmp16 r src => do
    let val ← L.operand16 src
    let arg ← look (word r)
    updateCc fun c => (difference c arg val false).2
    charge src.tail
  | .ldd src => do
    let val ← L.operand16 src
    setD (← withCc (logical · val))
  | .std m => do
    L.address m
    let arg ← look Mpu.D
    updateCc fun c => (logical c arg).2
    L.store16 (← effective) arg
  | .ld16 r src => do
    let val ← L.operand16 src
    setIndex r (← withCc (logical · val))
  | .st16 r m => do
    L.address m
    let arg ← look (index r)
    updateCc fun c => (logical c arg).2
    L.store16 (← effective) arg
  | .jsr m => do
    L.address m
    L.jsr
  | .lea r => do
    L.indexed
    let ea ← effective
    setIndex r ea
    onlyIf (r = .X ∨ r = .Y) do updateCc fun c => { c with Z := ea = 0 }
  | .psh sp => L.psh sp
  | .pul sp => L.pul sp
  | .bra => do
    L.bra
    charge 3
  | .brn => do
    advancePc 1
    charge 3
  | .branch c => do
    L.takeBranch (taken (← look Mpu.cc) c)
    charge 3
  | .bsr => do
    let n ← L.immByte
    L.call 7 ((← look Mpu.PC) + n.signExtend 16)
  | .longBra => do
    L.longBra
    charge 5
  | .longBrn => do
    charge 5
    advancePc 2
  | .longBranch c => do
    if taken (← look Mpu.cc) c then
      L.longBra
      charge 6
    else
      setPc ((← look Mpu.PC) + 2)
      charge 5
  | .longBsr => do
    let n ← L.immWord
    L.call 9 ((← look Mpu.PC) + n)
  | .nop => charge 2
  | .sync => unspecified
  | .daa => daa
  | .orcc => do
    let v ← L.immByte
    setCC ((← look Mpu.CC) ||| v)
    charge 3
  | .andcc => do
    let v ← L.immByte
    setCC ((← look Mpu.CC) &&& v)
    charge 3
  | .sex => do
    let v ← look Mpu.B
    setAcc .A (← withCc (signs · v))
    charge 2
  | .exg => do
    match Pair.ofPost (← L.immByte) with
    | some p => do
      p.exchange
      charge 8
    | none => unspecified
  | .tfr => do
    match Pair.ofPost (← L.immByte) with
    | some p => do
      p.transfer
      charge 6
    | none => unspecified
  | .rts => do
    charge 5
    setPc (← L.pull16 .S)
  | .abx => do
    setIndex .X ((← look Mpu.X) + (← look Mpu.B).setWidth 16)
    charge 3
  | .rti => L.rti
  | .cwai => unspecified
  | .mul => do
    let a ← look Mpu.A
    let b ← look Mpu.B
    setD (← withCc (product · a b))
    charge 11
  | .swi => do
    L.stackMachineState
    updateMasks fun m => { m with F := true, I := true }
    setPc (← L.readWord 0xFFFA)
  | .swi2 => do
    charge 1
    L.stackMachineState
    setPc (← L.readWord 0xFFF4)
  | .swi3 => do
    charge 1
    L.stackMachineState
    setPc (← L.readWord 0xFFF2)

def fetch : MpuM Insn := do
  let opcode ← L.immByte
  if opcode = 0x10 then assigned (decode10 (← L.immByte).toNat)
  else if opcode = 0x11 then assigned (decode11 (← L.immByte).toNat)
  else assigned (decode opcode.toNat)

def step : MpuM Unit := do
  L.exec (← L.fetch)
  clearEa

/-- The next `n` instructions. -/
def run : ℕ → MpuM Unit
  | 0 => pure ()
  | n + 1 => do
    L.step
    run n

end Storage

end Exec09.Isa
