import Exec09.Cpu.State

/-! # The interrupt multiplexer

Up to 32 edges are collected in `pending`, and while an enabled one is pending
the multiplexer asserts its line to the CPU. Of the CPU only the pending words
are kept here: an interrupt that it takes at once stacks its registers over
the bus, and what those accesses do to a device is what the same accesses do
later.
-/
namespace Exec09
open Foundation

/-- The words of `6809.c` in which the devices keep their requests. -/
structure IrqLines where
  irqsPending : ℕ
  firqsPending : ℕ

namespace IrqLines

def requestIrq (source : ℕ) (l : IrqLines) : IrqLines :=
  { l with irqsPending := l.irqsPending ||| (1 <<< source) }

def releaseIrq (source : ℕ) (l : IrqLines) : IrqLines :=
  { l with irqsPending := l.irqsPending &&& unot (1 <<< source) }

def requestFirq (source : ℕ) (l : IrqLines) : IrqLines :=
  { l with firqsPending := l.firqsPending ||| (1 <<< source) }

def releaseFirq (source : ℕ) (l : IrqLines) : IrqLines :=
  { l with firqsPending := l.firqsPending &&& unot (1 <<< source) }

end IrqLines

structure Imux where
  enabled : ℕ
  pending : ℕ
  /-- The line to the CPU. -/
  src : ℕ

namespace Imux

/-- `imux_refresh`. -/
def refresh (m : Imux) (l : IrqLines) : IrqLines :=
  if m.pending &&& m.enabled ≠ 0 then
    if m.src = 1 then l.requestIrq m.src else l.requestFirq m.src
  else
    if m.src = 1 then l.releaseIrq m.src else l.releaseFirq m.src

/-- `imux_reset`. -/
def reset (m : Imux) : Imux := { m with enabled := 0, pending := 0 }

/-- `imux_read`. -/
def read (addr : ℕ) (m : Imux) : U8 :=
  match addr with
  | 0 => BitVec.ofNat 8 (m.enabled &&& 0xFF)
  | 1 => BitVec.ofNat 8 (m.pending &&& 0xFF)
  | _ => 0xff

/-- `imux_write`. -/
def write (addr : ℕ) (val : U8) (m : Imux) (l : IrqLines) : Imux × IrqLines :=
  let m := match addr with
    | 0 => { m with enabled := val.toNat }
    | 1 => { m with pending := m.pending &&& unot val.toNat }
    | _ => m
  (m, m.refresh l)

end Imux

end Exec09
