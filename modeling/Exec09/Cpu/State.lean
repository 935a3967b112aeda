import Exec09.Foundation.Word
import Exec09.Foundation.Program

/-! # The 6809 register file and its view of the bus

The globals of `6809.c` are the fields of `Cpu`. The registers are `unsigned`
in the source and are natural numbers here; every mask the source applies is
written out. The five lazily evaluated condition-code words are kept together
in `Flags`. The CPU reaches memory through the four operations of `Bus` only,
so all of its theory holds for every memory content and every machine.
-/
namespace Exec09
open Foundation

/-- The byte and word types of `machine.h`. -/
abbrev U8 := BitVec 8
abbrev U16 := BitVec 16

theorem append_toNat (a b : U8) : (a ++ b).toNat = a.toNat * 256 + b.toNat := by
  have hb : b.toNat < 2 ^ 8 := b.isLt
  rw [BitVec.toNat_append, Nat.shiftLeft_eq, Nat.mul_comm, ← Nat.two_pow_add_eq_or_of_lt hb,
    Nat.mul_comm]

/-- Accesses of the C program outside an object it owns. -/
inductive Fatal
  | mapIndex
  | nullDevice
  | arrayIndex
  | bufferRead
  | bufferWrite
  | recursion
  deriving DecidableEq, Repr

/-- Why the emulator stops in the middle of a step. It hangs in a loop that has no end. -/
inductive Stop
  | exit (code : ℕ)
  | fatal (f : Fatal)
  | hang
  deriving DecidableEq, Repr

/-- What the CPU uses of the rest of the emulator. The argument `pc` is the
value `get_pc` has during the access, which device code can read back. -/
class Bus (β : Type) where
  cpuRead8 : (pc addr : ℕ) → EStateM Stop β U8
  cpuRead16 : (pc addr : ℕ) → EStateM Stop β U16
  cpuWrite8 : (pc addr : ℕ) → U8 → EStateM Stop β Unit
  simError : EStateM Stop β Unit
  cpuIsRunning : β → β

/-- The condition-code words, in the encoding the last operation left them in. -/
structure Flags where
  H : ℕ
  N : ℕ
  Z : ℕ
  OV : ℕ
  C : ℕ
  deriving DecidableEq, Repr

inductive CwaiState
  | idle
  | wait
  deriving DecidableEq, Repr

/-- One call of `cpu_read8`, `cpu_read16` or `cpu_write8`. -/
inductive Access
  | read8 (addr : ℕ)
  | read16 (addr : ℕ)
  | write8 (addr data : ℕ)
  deriving DecidableEq, Repr

structure Cpu (β : Type) where
  X : ℕ
  Y : ℕ
  S : ℕ
  U : ℕ
  PC : ℕ
  A : ℕ
  B : ℕ
  DP : ℕ
  flags : Flags
  EFI : ℕ
  iPC : ℕ
  irqStartTime : ℕ
  ea : ℕ
  cpuClk : ℤ
  cpuPeriod : ℤ
  total : ℕ
  irqsPending : ℕ
  firqsPending : ℕ
  ccChanged : Bool
  cwaiState : CwaiState
  /-- The arguments of `command_exit_irq_hook`, latest first. -/
  irqLoad : List ℕ
  /-- The bus accesses of the CPU, latest first. -/
  trace : List Access
  bus : β

abbrev CpuM (β : Type) := EStateM Stop (Cpu β)

def E_FLAG : ℕ := 0x80
def F_FLAG : ℕ := 0x40
def H_FLAG : ℕ := 0x20
def I_FLAG : ℕ := 0x10
def N_FLAG : ℕ := 0x08
def Z_FLAG : ℕ := 0x04
def V_FLAG : ℕ := 0x02
def C_FLAG : ℕ := 0x01

/-- Unsigned 32-bit arithmetic of the source. -/
abbrev uint (n : ℕ) : ℕ := Word.trunc 32 n
abbrev usub (a b : ℕ) : ℕ := Word.sub 32 a b
abbrev unot (a : ℕ) : ℕ := Word.compl 32 a
abbrev int8 (a : ℕ) : ℕ := Word.signExtend 8 32 a
abbrev int16 (a : ℕ) : ℕ := Word.signExtend 16 32 a

/-- The value that a variable of type `int` keeps of `n`. -/
def toInt (n : ℤ) : ℤ := n.bmod (2 ^ 32)

variable {β : Type}

/-- The registers as the loader leaves them, before `cpu_reset`. -/
def Cpu.powerOn (bus : β) : Cpu β where
  X := 0
  Y := 0
  S := 0
  U := 0
  PC := 0
  A := 0
  B := 0
  DP := 0
  flags := ⟨0, 0, 0, 0, 0⟩
  EFI := 0
  iPC := 0
  irqStartTime := 0
  ea := 0
  cpuClk := 0
  cpuPeriod := 0
  total := 0
  irqsPending := 0
  firqsPending := 0
  ccChanged := false
  cwaiState := .idle
  irqLoad := []
  trace := []
  bus := bus

def getPc (s : Cpu β) : ℕ := s.PC &&& 0xffff

def getD (s : Cpu β) : ℕ := (s.A <<< 8) ||| s.B

def getCycles (s : Cpu β) : ℕ := (((s.total : ℤ) + s.cpuPeriod - s.cpuClk) % 2 ^ 64).toNat

def getCc (s : Cpu β) : ℕ :=
  (s.EFI &&& (E_FLAG ||| F_FLAG ||| I_FLAG)) |||
    (if s.flags.H &&& 0x10 ≠ 0 then H_FLAG else 0) |||
    (if s.flags.N &&& 0x80 ≠ 0 then N_FLAG else 0) |||
    (if s.flags.Z = 0 then Z_FLAG else 0) |||
    (if s.flags.OV &&& 0x80 ≠ 0 then V_FLAG else 0) |||
    (if s.flags.C ≠ 0 then C_FLAG else 0)

def setCc (arg : ℕ) : CpuM β Unit :=
  modify fun s => { s with
    EFI := arg &&& (E_FLAG ||| F_FLAG ||| I_FLAG)
    flags :=
      { H := if arg &&& H_FLAG ≠ 0 then 0x10 else 0
        N := if arg &&& N_FLAG ≠ 0 then 0x80 else 0
        Z := unot arg &&& Z_FLAG
        OV := if arg &&& V_FLAG ≠ 0 then 0x80 else 0
        C := arg &&& C_FLAG }
    ccChanged := true }

/-- Read a register or another part of the state. -/
def look {α : Type} (p : Cpu β → α) : CpuM β α := fun s => .ok (p s) s

/-- Run an operation on the condition-code words. -/
def withFlags {α : Type} (op : Flags → α × Flags) : CpuM β α := fun s =>
  .ok (op s.flags).1 { s with flags := (op s.flags).2 }

def updateFlags (op : Flags → Flags) : CpuM β Unit := withFlags fun f => ((), op f)

def setEa (a : ℕ) : CpuM β Unit := modify fun s => { s with ea := a }

/-- `cpu_clk -= n`. -/
def charge (n : ℤ) : CpuM β Unit := modify fun s => { s with cpuClk := s.cpuClk - n }

def changePc (newPC : ℕ) : CpuM β Unit := modify fun s => { s with PC := newPC &&& 0xffff }

/-- `PC += n`. -/
def advancePc (n : ℕ) : CpuM β Unit := modify fun s => { s with PC := uint (s.PC + n) }

instance look_keeps {α : Type} {I : Cpu β → Prop} (p : Cpu β → α) : Keeps I (look p) :=
  ⟨fun _ hs => hs⟩

theorem look_triple {α : Type} {p : Cpu β → α} {P E : Cpu β → Prop} {Q : α → Cpu β → Prop}
    (h : ∀ s, P s → Q (p s) s) : Triple P (look p) Q E := fun s hs => h s hs

@[simp] theorem run_look {α : Type} (p : Cpu β → α) (s : Cpu β) : look p s = .ok (p s) s := rfl

def note (e : Access) : CpuM β Unit := modify fun s => { s with trace := e :: s.trace }

/-- Run a bus operation on the bus component of the state. -/
def onBus {α : Type} (m : EStateM Stop β α) : CpuM β α := fun s =>
  match m s.bus with
  | .ok a b => .ok a { s with bus := b }
  | .error e b => .error e { s with bus := b }

section Memory
variable [Bus β]

def simError : CpuM β Unit := onBus Bus.simError

def read8 (addr : ℕ) : CpuM β ℕ := do
  note (.read8 addr)
  let v ← onBus (Bus.cpuRead8 (← look getPc) addr)
  return v.toNat

def read16 (addr : ℕ) : CpuM β ℕ := do
  note (.read16 addr)
  let v ← onBus (Bus.cpuRead16 (← look getPc) addr)
  return v.toNat

/-- The data argument is an `unsigned`; the call narrows it to a byte. -/
def write8 (addr data : ℕ) : CpuM β Unit := do
  note (.write8 addr data)
  onBus (Bus.cpuWrite8 (← look getPc) addr (BitVec.ofNat 8 data))

theorem read8_run (addr : ℕ) (s : Cpu β) : read8 addr s =
    match Bus.cpuRead8 (getPc s) addr s.bus with
    | .ok v b => .ok v.toNat { s with trace := .read8 addr :: s.trace, bus := b }
    | .error e b => .error e { s with trace := .read8 addr :: s.trace, bus := b } := by
  change EStateM.bind (onBus (Bus.cpuRead8 (getPc s) addr)) (fun v => pure v.toNat)
    { s with trace := .read8 addr :: s.trace } = _
  unfold EStateM.bind onBus
  cases Bus.cpuRead8 (getPc s) addr s.bus <;> rfl

theorem read16_run (addr : ℕ) (s : Cpu β) : read16 addr s =
    match Bus.cpuRead16 (getPc s) addr s.bus with
    | .ok v b => .ok v.toNat { s with trace := .read16 addr :: s.trace, bus := b }
    | .error e b => .error e { s with trace := .read16 addr :: s.trace, bus := b } := by
  change EStateM.bind (onBus (Bus.cpuRead16 (getPc s) addr)) (fun v => pure v.toNat)
    { s with trace := .read16 addr :: s.trace } = _
  unfold EStateM.bind onBus
  cases Bus.cpuRead16 (getPc s) addr s.bus <;> rfl

theorem write8_run (addr data : ℕ) (s : Cpu β) : write8 addr data s =
    match Bus.cpuWrite8 (getPc s) addr (BitVec.ofNat 8 data) s.bus with
    | .ok _ b => .ok () { s with trace := .write8 addr data :: s.trace, bus := b }
    | .error e b => .error e { s with trace := .write8 addr data :: s.trace, bus := b } := by
  change onBus (Bus.cpuWrite8 (getPc s) addr (BitVec.ofNat 8 data))
    { s with trace := .write8 addr data :: s.trace } = _
  unfold onBus
  cases Bus.cpuWrite8 (getPc s) addr (BitVec.ofNat 8 data) s.bus <;> rfl

def wrmem16 (addr data : ℕ) : CpuM β Unit := do
  write8 addr (data >>> 8)
  charge 1
  write8 ((addr + 1) &&& 0xffff) (data &&& 0xff)

def rdmem16 (addr : ℕ) : CpuM β ℕ := do
  let hi ← read8 addr
  charge 1
  let lo ← read8 ((addr + 1) &&& 0xffff)
  return (hi <<< 8) ||| lo

def writeStack16 (addr data : ℕ) : CpuM β Unit := do
  write8 ((addr + 1) &&& 0xffff) (data &&& 0xff)
  write8 addr (data >>> 8)

def readStack16 (addr : ℕ) : CpuM β ℕ := do
  let hi ← read8 addr
  let lo ← read8 ((addr + 1) &&& 0xffff)
  return (hi <<< 8) ||| lo

def immByte : CpuM β ℕ := do
  let val ← read8 (← look Cpu.PC)
  advancePc 1
  return val

theorem immByte_run (s : Cpu β) : immByte s =
    match Bus.cpuRead8 (getPc s) s.PC s.bus with
    | .ok v b => .ok v.toNat
        { s with trace := .read8 s.PC :: s.trace, bus := b, PC := uint (s.PC + 1) }
    | .error e b => .error e { s with trace := .read8 s.PC :: s.trace, bus := b } := by
  change EStateM.bind (read8 s.PC) (fun v => (do advancePc 1; return v)) s = _
  unfold EStateM.bind
  rw [read8_run]
  cases Bus.cpuRead8 (getPc s) s.PC s.bus <;> rfl

/-- A fetch that returned has read the byte at the PC. -/
theorem of_immByte_ok {s s' : Cpu β} {v : ℕ} (h : immByte s = .ok v s') :
    ∃ w b, Bus.cpuRead8 (getPc s) s.PC s.bus = .ok w b ∧ w.toNat = v ∧
      s' = { s with trace := .read8 s.PC :: s.trace, bus := b, PC := uint (s.PC + 1) } := by
  rw [immByte_run] at h
  cases hr : Bus.cpuRead8 (getPc s) s.PC s.bus with
  | ok w b =>
    rw [hr] at h
    cases h
    exact ⟨w, b, rfl, rfl, rfl⟩
  | error e b =>
    rw [hr] at h
    cases h

def immWord : CpuM β ℕ := do
  let val ← read16 (← look Cpu.PC)
  advancePc 2
  return val

/-- The CPU part of `cpu_reset`, the vector fetch and `cpu_is_running`. -/
def cpuReset : CpuM β Unit := do
  modify fun s => { s with
    X := 0, Y := 0, S := 0, U := 0, A := 0, B := 0, DP := 0
    flags := ⟨0, 0, 1, 0, 0⟩
    EFI := F_FLAG ||| I_FLAG }
  changePc (← read16 0xfffe)
  modify fun s => { s with bus := Bus.cpuIsRunning s.bus }

end Memory

end Exec09
