import Exec09.Bus.Access

/-! # The I/O expander

One block of 128 bytes is cut into 16 slots of 8. Each slot passes its
accesses on to a device, at an offset of its own.
-/
namespace Exec09
open Foundation

structure IoExpand where
  /-- The number of the device behind a slot. -/
  ios : ℕ → Option ℕ
  offset : ℕ → ℕ

namespace IoExpand

/-- `ioexpand_create`. -/
def empty : IoExpand := ⟨fun _ => none, fun _ => 0⟩

/-- `ioexpand_attach`. -/
def attach (slot offset dev : ℕ) (io : IoExpand) : IoExpand where
  ios := Function.update io.ios slot (some dev)
  offset := Function.update io.offset slot offset

variable {σ : Type}

/-- Where `ioexpand_read` and `ioexpand_write` pass an access on to. If a slot is empty, they
report the error and go on with the null pointer. -/
def target (addr : ℕ) (io : IoExpand) : BoardM σ (ℕ × ℕ) :=
  let slot := addr / 8
  if slot < 16 then
    match io.ios slot with
    | some dev => return (dev, Word.trunc 64 (addr % 8 + io.offset slot))
    | none => do
      Access.simError
      throw (.fatal .nullDevice)
  else throw (.fatal .arrayIndex)

/-- Slots are attached in order, from slot 0 on. -/
def attachAll (slots : ℕ → ℕ × ℕ) : ℕ → IoExpand → IoExpand
  | 0, io => io
  | n + 1, io => (attachAll slots n io).attach n (slots n).2 (slots n).1

theorem attachAll_slot (slots : ℕ → ℕ × ℕ) {n i : ℕ} (hi : i < n) (io : IoExpand) :
    (attachAll slots n io).ios i = some (slots i).1 ∧
      (attachAll slots n io).offset i = (slots i).2 := by
  induction n with
  | zero => exact absurd hi (Nat.not_lt_zero i)
  | succ n ih =>
    by_cases hlast : i = n
    · subst hlast
      simp [attachAll, attach]
    · have hlt : i < n := by omega
      obtain ⟨hdev, hoff⟩ := ih hlt
      exact ⟨by simp [attachAll, attach, hlast, hdev], by simp [attachAll, attach, hlast, hoff]⟩

theorem target_run {io : IoExpand} {addr dev offset : ℕ} (ha : addr < 128)
    (hdev : io.ios (addr / 8) = some dev) (hoff : io.offset (addr / 8) = offset) (s : Board σ) :
    io.target addr s = .ok (dev, Word.trunc 64 (addr % 8 + offset)) s := by
  have hslot : addr / 8 < 16 := by omega
  simp only [target, if_pos hslot, hdev, hoff]
  rfl

end IoExpand

end Exec09
