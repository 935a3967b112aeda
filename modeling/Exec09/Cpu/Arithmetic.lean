import Exec09.Cpu.State

/-! # Accumulator and memory arithmetic

Each function of the source takes its operands, returns a result and leaves the
condition-code words behind. The cycles charged by the one-operand functions
are charged where the functions are called.
-/
namespace Exec09

/-- The value of `(C != 0)`. -/
def Flags.carry (f : Flags) : ℕ := if f.C ≠ 0 then 1 else 0

def adc (f : Flags) (arg val : ℕ) : ℕ × Flags :=
  let res := uint (arg + val + f.carry)
  let C := (res >>> 1) &&& 0x80
  let res := res &&& 0xff
  let OV := arg ^^^ val ^^^ res ^^^ C
  (res, { H := OV, N := res, Z := res, OV := OV, C := C })

def add (_f : Flags) (arg val : ℕ) : ℕ × Flags :=
  let res := uint (arg + val)
  let C := (res >>> 1) &&& 0x80
  let res := res &&& 0xff
  let OV := arg ^^^ val ^^^ res ^^^ C
  (res, { H := OV, N := res, Z := res, OV := OV, C := C })

def and (f : Flags) (arg val : ℕ) : ℕ × Flags :=
  let res := arg &&& val
  (res, { f with N := res, Z := res, OV := 0 })

def asl (f : Flags) (arg : ℕ) : ℕ × Flags :=
  let res := uint (arg <<< 1)
  let C := res &&& 0x100
  let res := res &&& 0xff
  (res, { f with N := res, Z := res, OV := arg ^^^ res, C := C })

def asr (f : Flags) (arg : ℕ) : ℕ × Flags :=
  let res := int8 arg
  let C := res &&& 1
  let res := (res >>> 1) &&& 0xff
  (res, { f with N := res, Z := res, C := C })

def bit (f : Flags) (arg val : ℕ) : Flags :=
  let res := arg &&& val
  { f with N := res, Z := res, OV := 0 }

def clr (f : Flags) (_arg : ℕ) : ℕ × Flags :=
  (0, { f with N := 0, Z := 0, OV := 0, C := 0 })

def cmp (f : Flags) (arg val : ℕ) : Flags :=
  let res := usub arg val
  let C := res &&& 0x100
  let res := res &&& 0xff
  { f with N := res, Z := res, OV := (arg ^^^ val) &&& (arg ^^^ res), C := C }

def com (f : Flags) (arg : ℕ) : ℕ × Flags :=
  let res := arg ^^^ 0xff
  (res, { f with N := res, Z := res, OV := 0, C := 1 })

/-- `daa` without its cycles: the new value of `A`. -/
def daa (f : Flags) (A : ℕ) : ℕ × Flags :=
  let res := A
  let msn := res &&& 0xf0
  let lsn := res &&& 0x0f
  let res := if lsn > 0x09 ∨ f.H &&& 0x10 ≠ 0 then res + 0x06 else res
  let res := if msn > 0x80 ∧ lsn > 0x09 then res + 0x60 else res
  let res := if msn > 0x90 ∨ f.C ≠ 0 then res + 0x60 else res
  let C := f.C ||| (res &&& 0x100)
  let res := res &&& 0xff
  (res, { f with N := res, Z := res, OV := 0, C := C })

def dec (f : Flags) (arg : ℕ) : ℕ × Flags :=
  let res := usub arg 1 &&& 0xff
  (res, { f with N := res, Z := res, OV := arg &&& unot res })

def eor (f : Flags) (arg val : ℕ) : ℕ × Flags :=
  let res := arg ^^^ val
  (res, { f with N := res, Z := res, OV := 0 })

def inc (f : Flags) (arg : ℕ) : ℕ × Flags :=
  let res := uint (arg + 1) &&& 0xff
  (res, { f with N := res, Z := res, OV := unot arg &&& res })

def ld (f : Flags) (arg : ℕ) : ℕ × Flags :=
  let res := arg
  (res, { f with N := res, Z := res, OV := 0 })

def lsr (f : Flags) (arg : ℕ) : ℕ × Flags :=
  let res := arg >>> 1
  (res, { f with N := 0, Z := res, C := arg &&& 1 })

def neg (f : Flags) (arg : ℕ) : ℕ × Flags :=
  let res := usub 0 arg &&& 0xff
  (res, { f with N := res, Z := res, OV := res &&& arg, C := res })

def or (f : Flags) (arg val : ℕ) : ℕ × Flags :=
  let res := arg ||| val
  (res, { f with N := res, Z := res, OV := 0 })

def rol (f : Flags) (arg : ℕ) : ℕ × Flags :=
  let res := uint ((arg <<< 1) + f.carry)
  let C := res &&& 0x100
  let res := res &&& 0xff
  (res, { f with N := res, Z := res, OV := arg ^^^ res, C := C })

def ror (f : Flags) (arg : ℕ) : ℕ × Flags :=
  let res := if f.C ≠ 0 then arg ||| 0x100 else arg
  let C := res &&& 1
  let res := res >>> 1
  (res, { f with N := res, Z := res, C := C })

def sbc (f : Flags) (arg val : ℕ) : ℕ × Flags :=
  let res := usub (usub arg val) f.carry
  let C := res &&& 0x100
  let res := res &&& 0xff
  (res, { f with N := res, Z := res, OV := (arg ^^^ val) &&& (arg ^^^ res), C := C })

/-- The flags left by `st`, which stores its argument unchanged. -/
def stFlags (f : Flags) (arg : ℕ) : Flags := { f with N := arg, Z := arg, OV := 0 }

def sub (f : Flags) (arg val : ℕ) : ℕ × Flags :=
  let res := usub arg val
  let C := res &&& 0x100
  let res := res &&& 0xff
  (res, { f with N := res, Z := res, OV := (arg ^^^ val) &&& (arg ^^^ res), C := C })

def tst (f : Flags) (arg : ℕ) : Flags :=
  { f with N := arg, Z := arg, OV := 0 }

/-! ## Sixteen-bit arithmetic

The functions on `D` return the word that is then split into `A` and `B`.
-/

def addd (f : Flags) (arg val : ℕ) : ℕ × Flags :=
  let res := uint (arg + val)
  let C := res &&& 0x10000
  let res := res &&& 0xffff
  (res, { f with N := res >>> 8, Z := res, OV := ((arg ^^^ res) &&& (val ^^^ res)) >>> 8, C := C })

def cmp16 (f : Flags) (arg val : ℕ) : Flags :=
  let res := usub arg val
  let C := res &&& 0x10000
  let res := res &&& 0xffff
  { f with N := res >>> 8, Z := res, OV := ((arg ^^^ val) &&& (arg ^^^ res)) >>> 8, C := C }

def subd (f : Flags) (arg val : ℕ) : ℕ × Flags :=
  let res := usub arg val
  let C := res &&& 0x10000
  let res := res &&& 0xffff
  (res, { f with N := res >>> 8, Z := res, OV := ((arg ^^^ val) &&& (arg ^^^ res)) >>> 8, C := C })

def ld16 (f : Flags) (arg : ℕ) : ℕ × Flags :=
  (arg, { f with N := arg >>> 8, Z := arg, OV := 0 })

/-- The flags left by `st16`. -/
def st16Flags (f : Flags) (arg : ℕ) : Flags := { f with N := arg >>> 8, Z := arg, OV := 0 }

/-- `mul`: the product left in `A` and `B`, without its cycles. -/
def mul (f : Flags) (A B : ℕ) : ℕ × Flags :=
  let res := uint (A * B) &&& 0xffff
  (res, { f with Z := res, C := res &&& 0x80 })

/-- `sex`: the new value of `A`, without its cycles. -/
def sex (f : Flags) (B : ℕ) : ℕ × Flags :=
  let N := B &&& 0x80
  (if N ≠ 0 then 0xff else N, { f with N := N, Z := B })

/-! ## The operations an opcode selects -/

/-- Operations of an accumulator with an operand. -/
inductive Alu8
  | sub | cmp | sbc | and | bit | ld | eor | adc | or | add
  deriving DecidableEq, Repr

/-- The result and the flags; `cmp` and `bit` leave the accumulator alone. -/
def Alu8.eval (f : Flags) (arg val : ℕ) : Alu8 → ℕ × Flags
  | .sub => Exec09.sub f arg val
  | .cmp => (arg, Exec09.cmp f arg val)
  | .sbc => Exec09.sbc f arg val
  | .and => Exec09.and f arg val
  | .bit => (arg, Exec09.bit f arg val)
  | .ld => Exec09.ld f val
  | .eor => Exec09.eor f arg val
  | .adc => Exec09.adc f arg val
  | .or => Exec09.or f arg val
  | .add => Exec09.add f arg val

/-- Operations on one operand. -/
inductive Unary
  | neg | com | lsr | ror | asr | asl | rol | dec | inc | clr
  deriving DecidableEq, Repr

def Unary.eval (f : Flags) (arg : ℕ) : Unary → ℕ × Flags
  | .neg => Exec09.neg f arg
  | .com => Exec09.com f arg
  | .lsr => Exec09.lsr f arg
  | .ror => Exec09.ror f arg
  | .asr => Exec09.asr f arg
  | .asl => Exec09.asl f arg
  | .rol => Exec09.rol f arg
  | .dec => Exec09.dec f arg
  | .inc => Exec09.inc f arg
  | .clr => Exec09.clr f arg

/-- The tests of the branch instructions. -/
inductive Cond
  | HI | LS | HS | LO | NE | EQ | VC | VS | PL | MI | GE | LT | GT | LE
  deriving DecidableEq, Repr

def Cond.holds (f : Flags) : Cond → Bool
  | .HI => f.Z ≠ 0 ∧ f.C = 0
  | .LS => f.Z = 0 ∨ f.C ≠ 0
  | .HS => f.C = 0
  | .LO => f.C ≠ 0
  | .NE => f.Z ≠ 0
  | .EQ => f.Z = 0
  | .VC => f.OV &&& 0x80 = 0
  | .VS => f.OV &&& 0x80 ≠ 0
  | .PL => f.N &&& 0x80 = 0
  | .MI => f.N &&& 0x80 ≠ 0
  | .GE => (f.N ^^^ f.OV) &&& 0x80 = 0
  | .LT => (f.N ^^^ f.OV) &&& 0x80 ≠ 0
  | .GT => (f.N ^^^ f.OV) &&& 0x80 = 0 ∧ f.Z ≠ 0
  | .LE => (f.N ^^^ f.OV) &&& 0x80 ≠ 0 ∨ f.Z = 0

end Exec09
