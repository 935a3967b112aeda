import Exec09.Cpu.ConditionCodes

/-! # The microprocessor of the programming model

Here is the 6809 as its programmers know it: registers of 8 and 16 bits, eight
condition codes and a memory of bytes. The registers wrap around by their type
and every condition code is a bit of its own. A program of `MpuM` stops where
the programming model leaves open what happens, so what is said of its return
is said of what is laid down only.
-/
namespace Exec09.Isa
open Foundation

/-- The part of CC that concerns interrupts. -/
structure Masks where
  E : Bool
  F : Bool
  I : Bool
  deriving DecidableEq, Repr

def Masks.byte (m : Masks) : ℕ :=
  (if m.E then E_FLAG else 0) ||| (if m.F then F_FLAG else 0) ||| (if m.I then I_FLAG else 0)

def Masks.ofByte (b : ℕ) : Masks where
  E := b &&& E_FLAG ≠ 0
  F := b &&& F_FLAG ≠ 0
  I := b &&& I_FLAG ≠ 0

structure Mpu where
  A : U8
  B : U8
  X : U16
  Y : U16
  U : U16
  S : U16
  DP : U8
  PC : U16
  masks : Masks
  cc : Cc
  /-- The address that an addressing mode has formed, within an instruction. -/
  ea : Option U16
  cycles : ℤ
  mem : U16 → U8

/-- The processor after a reset. -/
def Mpu.reset (mem : U16 → U8) : Mpu where
  A := 0
  B := 0
  X := 0
  Y := 0
  U := 0
  S := 0
  DP := 0
  PC := mem 0xFFFE ++ mem 0xFFFF
  masks := ⟨false, true, true⟩
  cc := ⟨false, false, false, false, false⟩
  ea := none
  cycles := 0
  mem := mem

abbrev MpuM := EStateM Unit Mpu

/-- What is left open. -/
def unspecified {α : Type} : MpuM α := throw ()

/-- The addresses where the processor may read and write. -/
structure Storage where
  readable : U16 → Bool
  writable : U16 → Bool

/-! ## Registers -/

def look {α : Type} (p : Mpu → α) : MpuM α := fun g => .ok (p g) g

/-- Run an operation on the condition codes. -/
def withCc {α : Type} (op : Cc → α × Cc) : MpuM α := fun g =>
  .ok (op g.cc).1 { g with cc := (op g.cc).2 }

def updateCc (op : Cc → Cc) : MpuM Unit := withCc fun c => ((), op c)

def charge (n : ℤ) : MpuM Unit := modify fun g => { g with cycles := g.cycles + n }

def setEa (a : U16) : MpuM Unit := modify fun g => { g with ea := some a }

def clearEa : MpuM Unit := modify fun g => { g with ea := none }

/-- The address that has been formed. -/
def effective : MpuM U16 := fun g =>
  match g.ea with
  | some a => .ok a g
  | none => .error () g

def setPc (a : U16) : MpuM Unit := modify fun g => { g with PC := a }

def setDp (v : U8) : MpuM Unit := modify fun g => { g with DP := v }

/-- `PC += n`, for the bytes of an instruction, which ends below the top of the memory. -/
def advancePc (n : ℕ) : MpuM Unit := do
  if (← look Mpu.PC).toNat + n < 0x10000 then
    modify fun g => { g with PC := g.PC + BitVec.ofNat 16 n }
  else unspecified

def acc : Acc → Mpu → U8
  | .A, g => g.A
  | .B, g => g.B

def setAcc (r : Acc) (v : U8) : MpuM Unit :=
  match r with
  | .A => modify fun g => { g with A := v }
  | .B => modify fun g => { g with B := v }

def Mpu.D (g : Mpu) : U16 := g.A ++ g.B

def setD (w : U16) : MpuM Unit := do
  setAcc .A (w.extractLsb' 8 8)
  setAcc .B (w.extractLsb' 0 8)

def index : IndexReg → Mpu → U16
  | .X, g => g.X
  | .Y, g => g.Y
  | .U, g => g.U
  | .S, g => g.S

def setIndex (r : IndexReg) (w : U16) : MpuM Unit :=
  match r with
  | .X => modify fun g => { g with X := w }
  | .Y => modify fun g => { g with Y := w }
  | .U => modify fun g => { g with U := w }
  | .S => modify fun g => { g with S := w }

def stack : StackReg → Mpu → U16
  | .S, g => g.S
  | .U, g => g.U

def setStack (sp : StackReg) (w : U16) : MpuM Unit :=
  match sp with
  | .S => modify fun g => { g with S := w }
  | .U => modify fun g => { g with U := w }

def lowerStack (sp : StackReg) (n : U16) : MpuM Unit := do setStack sp ((← look (stack sp)) - n)

def raiseStack (sp : StackReg) (n : U16) : MpuM Unit := do setStack sp ((← look (stack sp)) + n)

def word : Reg16 → Mpu → U16
  | .D, g => g.D
  | .index r, g => index r g

/-- The byte of CC. -/
def Mpu.CC (g : Mpu) : U8 := BitVec.ofNat 8 (g.masks.byte ||| g.cc.byte)

def setCC (v : U8) : MpuM Unit :=
  modify fun g => { g with masks := Masks.ofByte v.toNat, cc := Cc.ofByte v.toNat }

/-! ## Memory -/

namespace Storage
variable (L : Storage)

def readByte (a : U16) : MpuM U8 := do
  if L.readable a then look fun g => g.mem a else unspecified

/-- The two bytes of an operand that are fetched at once. -/
def readWord (a : U16) : MpuM U16 := do
  if a.toNat + 1 < 0x10000 ∧ L.readable a ∧ L.readable (a + 1) then
    look fun g => g.mem a ++ g.mem (a + 1)
  else unspecified

def writeByte (a : U16) (v : U8) : MpuM Unit := do
  if L.writable a then modify fun g => { g with mem := Function.update g.mem a v }
  else unspecified

def immByte : MpuM U8 := do
  let v ← L.readByte (← look Mpu.PC)
  advancePc 1
  return v

def immWord : MpuM U16 := do
  let w ← L.readWord (← look Mpu.PC)
  advancePc 2
  return w

def load16 (a : U16) : MpuM U16 := do
  let high ← L.readByte a
  charge 1
  let low ← L.readByte (a + 1)
  return high ++ low

def store16 (a : U16) (w : U16) : MpuM Unit := do
  L.writeByte a (w.extractLsb' 8 8)
  charge 1
  L.writeByte (a + 1) (w.extractLsb' 0 8)

def readStack16 (a : U16) : MpuM U16 := do
  let high ← L.readByte a
  let low ← L.readByte (a + 1)
  return high ++ low

def writeStack16 (a : U16) (w : U16) : MpuM Unit := do
  L.writeByte (a + 1) (w.extractLsb' 0 8)
  L.writeByte a (w.extractLsb' 8 8)

def push8 (sp : StackReg) (v : U8) : MpuM Unit := do
  lowerStack sp 1
  L.writeByte (← look (stack sp)) v

def push16 (sp : StackReg) (w : U16) : MpuM Unit := do
  lowerStack sp 2
  L.writeStack16 (← look (stack sp)) w

def pull8 (sp : StackReg) : MpuM U8 := do
  let v ← L.readByte (← look (stack sp))
  raiseStack sp 1
  return v

def pull16 (sp : StackReg) : MpuM U16 := do
  let w ← L.readStack16 (← look (stack sp))
  raiseStack sp 2
  return w

end Storage

end Exec09.Isa
