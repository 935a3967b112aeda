import Exec09.Bus.Setup
import Exec09.Devices.IoExpand

/-! # Accesses through the I/O expander

An access goes on to the device of its slot. An empty slot is reported, and the
report returns if the debugger is enabled; the null pointer is used then.
-/
namespace Exec09.IoExpand
open Foundation
variable {σ : Type} {α : Type}

/-- `ioexpand_read`, for the read functions of the devices. -/
def read (deviceRead : (dev offset : ℕ) → BoardM σ U8) (addr : ℕ) (io : IoExpand) :
    BoardM σ U8 := do
  let (dev, offset) ← io.target addr
  deviceRead dev offset

/-- `ioexpand_write`. -/
def write (deviceWrite : (dev offset : ℕ) → U8 → BoardM σ Unit) (addr : ℕ) (val : U8)
    (io : IoExpand) : BoardM σ Unit := do
  let (dev, offset) ← io.target addr
  deviceWrite dev offset val

/-- The access to an empty slot ends the emulator, or asks for the monitor and goes on. -/
def Reported (m : BoardM σ α) (s : Board σ) : Prop :=
  m s = .error (.exit 2) s ∨ ∃ a, m s = .ok a { s with monitorOn := true }

/-- Whatever the devices do, an access calls the device of its slot, or it is reported. -/
def Dispatches (addr : ℕ) (s : Board σ) (io : IoExpand) : Prop :=
  match io.ios (addr / 8) with
  | some dev =>
    (∀ f, io.read f addr s = f dev (Word.trunc 64 (addr % 8 + io.offset (addr / 8))) s) ∧
      ∀ f val, io.write f addr val s =
        f dev (Word.trunc 64 (addr % 8 + io.offset (addr / 8))) val s
  | none => (∀ f, Reported (io.read f addr) s) ∧ ∀ f val, Reported (io.write f addr val) s

section Empty
variable {io : IoExpand} {addr : ℕ}

/-- What is left of an access to an empty slot. -/
theorem target_empty (ha : addr < 128) (hempty : io.ios (addr / 8) = none) (s : Board σ) :
    io.target addr s = if s.debugEnabled then
      .error (.fatal .nullDevice) { s with monitorOn := true } else .error (.exit 2) s := by
  have hslot : addr / 8 < 16 := by omega
  simp only [target, if_pos hslot, hempty, Access.simError]
  rw [bind_assoc, run_bind_ok run_get]
  by_cases hdebug : s.debugEnabled = true
  · rw [if_pos hdebug, if_pos hdebug]
    rfl
  · rw [if_neg hdebug, if_neg hdebug]
    rfl

theorem after_empty (ha : addr < 128) (hempty : io.ios (addr / 8) = none)
    (k : ℕ × ℕ → BoardM σ α) (s : Board σ) :
    Reported (io.target addr >>= k) s ↔ s.debugEnabled = false := by
  have htarget := target_empty ha hempty s
  rw [Reported]
  cases hdebug : s.debugEnabled with
  | false =>
    rw [hdebug, if_neg Bool.false_ne_true] at htarget
    rw [run_bind_error htarget]
    simp
  | true =>
    rw [hdebug, if_pos rfl] at htarget
    rw [run_bind_error htarget]
    simp

end Empty

/-- The expander dispatches an access exactly if the slot is attached or the debugger disabled. -/
theorem dispatches_iff (io : IoExpand) {addr : ℕ} (ha : addr < 128) (s : Board σ) :
    io.Dispatches addr s ↔ (io.ios (addr / 8)).isSome ∨ s.debugEnabled = false := by
  rw [Dispatches]
  cases hslot : io.ios (addr / 8) with
  | some dev =>
    have hrun := target_run ha hslot rfl s
    simp only [Option.isSome_some, true_or, iff_true]
    exact ⟨fun f => run_bind_ok hrun, fun f val => run_bind_ok hrun⟩
  | none =>
    simp only [Option.isSome_none, Bool.false_eq_true, false_or]
    constructor
    · rintro ⟨hread, -⟩
      exact (after_empty ha hslot _ s).mp (hread fun _ _ => pure 0)
    · intro hdebug
      exact ⟨fun f => (after_empty ha hslot _ s).mpr hdebug,
        fun f val => (after_empty ha hslot _ s).mpr hdebug⟩

/-- Slot 0 attached, with the debugger. -/
theorem dispatches_attached :
    (empty.attach 0 0x1F80 2).Dispatches 5 (Board.start .fault true ()) ↔
      ((empty.attach 0 0x1F80 2).ios (5 / 8)).isSome ∨
        (Board.start .fault true ()).debugEnabled = false :=
  dispatches_iff _ (by decide) _

/-- With the debugger an access to an empty slot uses a null pointer. -/
theorem empty_slot_dereferenced : ¬∀ (io : IoExpand) (addr : ℕ) (s : Board Unit), addr < 128 →
    io.Dispatches addr s := by
  intro h
  have hempty := h empty 0x20 (Board.start .fault true ()) (by decide)
  rcases hempty.1 fun _ _ => pure 0 with hexit | ⟨v, hreturn⟩
  · cases hexit
  · cases hreturn

end Exec09.IoExpand
