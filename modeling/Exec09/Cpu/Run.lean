import Exec09.Cpu.Instruction

/-! # Runs of the processor

A run is `cpu_reset` followed by a list of events: iterations of the loop of
`cpu_execute`, the calls by which devices raise and drop interrupt lines, and
the two ends of a time slice. `FlatRam` is the smallest machine that executes
programs, 64K of RAM and nothing else.
-/
namespace Exec09
open Foundation
variable {β : Type}

inductive Event
  | insn
  | requestIrq (source : ℕ)
  | releaseIrq (source : ℕ)
  | requestFirq (source : ℕ)
  | releaseFirq (source : ℕ)
  | beginSlice (cycles : ℤ)
  | endSlice
  deriving DecidableEq, Repr

def Event.perform [Bus β] : Event → CpuM β Unit
  | .insn => cpuStep
  | .requestIrq n => Exec09.requestIrq n
  | .releaseIrq n => Exec09.releaseIrq n
  | .requestFirq n => Exec09.requestFirq n
  | .releaseFirq n => Exec09.releaseFirq n
  | .beginSlice c => Exec09.beginSlice c
  | .endSlice => Exec09.endSlice

/-! ## A machine with memory only -/

abbrev FlatRam := ℕ → U8

def FlatRam.image : List (ℕ × List U8) → FlatRam
  | [], _ => 0
  | (org, bytes) :: rest, a =>
    if org ≤ a ∧ a < org + bytes.length then bytes.getD (a - org) 0 else FlatRam.image rest a

instance : Bus FlatRam where
  cpuRead8 _ a := fun m => if a < 0x10000 then .ok (m a) m else .error (.fatal .mapIndex) m
  cpuRead16 _ a := fun m =>
    if a < 0x10000 then .ok (m a ++ m (a + 1)) m else .error (.fatal .mapIndex) m
  cpuWrite8 _ a v := fun m =>
    if a < 0x10000 then .ok () (fun b => if b = a then v else m b)
    else .error (.fatal .mapIndex) m
  simError := throw (.exit 2)
  cpuIsRunning := id

end Exec09
