import Exec09.Cpu.State

/-! # The serial port

A byte-wide port on two descriptors of the host, with a queue for bytes that
the debugger injects. Each read asks the host first which of the descriptors
are ready.
-/
namespace Exec09
open Foundation

def SER_STAT_READOK : ℕ := 0x1
def SER_STAT_WRITEOK : ℕ := 0x2

/-- The host's side, by descriptor. -/
structure Host where
  /-- What can be read at once. -/
  input : ℕ → List U8
  /-- At the end of its file a descriptor counts as readable, and gives nothing. -/
  ended : ℕ → Bool
  writable : ℕ → Bool
  /-- What has been written, latest first. -/
  output : ℕ → List U8
  /-- What the variable for the byte holds where `read` gives nothing. -/
  stale : U8

def Host.readable (h : Host) (fd : ℕ) : Bool := !(h.input fd).isEmpty || h.ended fd

/-- `struct serial_port`; `rx_buf` has 4096 places. -/
structure SerialPort where
  ctrl : ℕ
  status : ℕ
  fin : ℕ
  fout : ℕ
  rxRd : ℕ
  rxWr : ℕ
  rxCount : ℕ
  rxBuf : ℕ → U8

namespace SerialPort

/-- `serial_reset`. -/
def reset (p : SerialPort) : SerialPort :=
  { p with ctrl := 0, status := 0, rxRd := 0, rxWr := 0, rxCount := 0 }

def setStatus (bit : ℕ) (on : Bool) (p : SerialPort) : SerialPort :=
  { p with status := if on then p.status ||| bit else p.status &&& unot bit }

/-- `serial_update`; the first argument of `select` is 2, so no other descriptor comes back set. -/
def update (h : Host) (p : SerialPort) : SerialPort :=
  let p := p.setStatus SER_STAT_READOK (p.rxCount > 0 || p.fin < 2 && h.readable p.fin)
  p.setStatus SER_STAT_WRITEOK (p.fout < 2 && h.writable p.fout)

/-- A read of `SER_DATA` after the update. -/
def readData (p : SerialPort) (h : Host) : U8 × SerialPort × Host :=
  if p.rxCount ≠ 0 then
    (p.rxBuf p.rxRd, { p with rxRd := (p.rxRd + 1) % 4096, rxCount := p.rxCount - 1 }, h)
  else if p.status &&& SER_STAT_READOK = 0 then (0xff, p, h)
  else
    match h.input p.fin with
    | val :: rest => (val, p, { h with input := Function.update h.input p.fin rest })
    | [] => (h.stale, p, h)

/-- `serial_read`. -/
def read (addr : ℕ) (p : SerialPort) (h : Host) : U8 × SerialPort × Host :=
  let p := p.update h
  match addr with
  | 0 => p.readData h
  | 1 => (BitVec.ofNat 8 p.status, p, h)
  | _ => (0x42, p, h)

/-- `serial_write`. -/
def write (addr : ℕ) (val : U8) (p : SerialPort) (h : Host) : SerialPort × Host :=
  match addr with
  | 0 => (p, { h with output := Function.update h.output p.fout (val :: h.output p.fout) })
  | 1 => ({ p with ctrl := val.toNat }, h)
  | _ => (p, h)

end SerialPort

end Exec09
