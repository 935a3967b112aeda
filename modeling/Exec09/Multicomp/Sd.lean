import Exec09.Devices.Disk

/-! # The SD card controller of multicomp09

The registers 0 to 4 of the `sdmapper` device: data, control and status, and
the three bytes of the block address. A status poll counts towards the moment
at which the next byte of a block can be moved.
-/
namespace Exec09.Multicomp
open Foundation

/-- `mc_state`. -/
inductive SdState where
  | noCard
  | initialising
  | idle
  | reading
  | writing
deriving DecidableEq

structure Sd where
  sdlba2 : U8
  sdlba1 : U8
  sdlba0 : U8
  data : ℕ → U8
  addr : ℤ
  state : SdState
  poll : ℕ
  dindex : ℕ
  sdFile : Option File

namespace Sd

/-- The controller as `multicomp09_init` leaves it. -/
def init (sdFile : Option File) : Sd where
  sdlba2 := 0
  sdlba1 := 0
  sdlba0 := 0
  data := fun _ => 0
  addr := 0
  state := if sdFile.isSome then .initialising else .noCard
  poll := 0
  dindex := 0
  sdFile := sdFile

/-- `sdmapper_read` at the data register. -/
def readData (s : Sd) : U8 × Sd :=
  match s.state with
  | .reading =>
    if s.poll = 3 then
      let s := { s with poll := 0, state := if s.dindex = 511 then .idle else .reading }
      if s.dindex < 512 then (s.data s.dindex, { s with dindex := s.dindex + 1 }) else (0xff, s)
    else (0xff, s)
  | _ => (0xff, s)

/-- `sdmapper_read` at the status register. -/
def readStatus (s : Sd) : U8 × Sd :=
  match s.state with
  | .noCard => (0x90, s)
  | .initialising =>
    let poll := s.poll + 1
    (0x90, { s with poll := poll, state := if poll = 16 then .idle else .initialising })
  | .idle => (0x80, s)
  | .reading =>
    let poll := if s.poll < 3 then s.poll + 1 else s.poll
    (if poll = 3 then 0xe0 else 0xa0, { s with poll := poll })
  | .writing =>
    let poll := if s.poll < 3 then s.poll + 1 else s.poll
    (if poll = 3 then 0xa0 else 0x20, { s with poll := poll })

/-- The block address is assembled in an `int`. -/
def formAddr (s : Sd) : ℤ :=
  toInt ↑(((0x7f &&& s.sdlba2.toNat) <<< 25) ||| (s.sdlba1.toNat <<< 17) ||| (s.sdlba0.toNat <<< 9))

/-- A block is read from the file. Where `fseek` fails, the loop that is to fill the buffer sets
its own index back. -/
def readBlock (s : Sd) : Except Stop Sd :=
  match s.sdFile with
  | none => .error (.fatal .nullDevice)
  | some file =>
    match file.fseek s.addr with
    | none => .error .hang
    | some file =>
      .ok { s with
        data := fun i =>
          if i < file.available 512 then file.bytes (file.pos + i) else s.data i
        sdFile := some (file.advance (file.available 512)) }

/-- The block that is complete is written to the file. -/
def commit (s : Sd) : Except Stop Sd :=
  match s.sdFile with
  | none => .error (.fatal .nullDevice)
  | some file =>
    match file.fseek s.addr with
    | none => .ok { s with state := .idle }
    | some file => .ok { s with sdFile := some (file.write 512 s.data), state := .idle }

/-- `sdmapper_write` at the data register. -/
def writeData (val : U8) (s : Sd) : Except Stop Sd :=
  if s.state = .writing ∧ s.poll = 3 then
    let s := { s with poll := 0 }
    if s.dindex < 512 then
      let s := { s with data := Function.update s.data s.dindex val, dindex := s.dindex + 1 }
      if s.dindex = 512 then s.commit else .ok s
    else .ok s
  else .ok s

/-- A command in the idle state. -/
def command (val : U8) (s : Sd) : Except Stop Sd :=
  let s := { s with addr := s.formAddr, poll := 0 }
  if val = 0 then { s with dindex := 0, state := .reading }.readBlock
  else if val = 1 then .ok { s with dindex := 0, state := .writing }
  else .ok s

/-- `sdmapper_read`, registers 0 and 1. -/
def read (addr : ℕ) (s : Sd) : U8 × Sd :=
  match addr with
  | 0 => s.readData
  | 1 => s.readStatus
  | _ => (0x42, s)

/-- `sdmapper_write`, registers 0 to 4. -/
def write (addr : ℕ) (val : U8) (s : Sd) : Except Stop Sd :=
  match addr with
  | 0 => s.writeData val
  | 1 => do
    let s ← if s.state = .idle then s.command val else pure s
    -- no `break` separates this register from the next one
    return { s with sdlba0 := val }
  | 2 => .ok { s with sdlba0 := val }
  | 3 => .ok { s with sdlba1 := val }
  | 4 => .ok { s with sdlba2 := val }
  | _ => .ok s

/-! ## What the operations can do -/

section Outcomes
variable {s s' : Sd} {x : Stop}

theorem commit_ok (h : s.commit = .ok s') : s'.state = .idle ∧ s'.sdFile.isSome := by
  rw [commit] at h
  split at h
  · cases h
  · rename_i file hfile
    split at h
    · cases h
      exact ⟨rfl, by simp [hfile]⟩
    · cases h
      exact ⟨rfl, rfl⟩

theorem commit_error (h : s.commit = .error x) : x = .fatal .nullDevice := by
  rw [commit] at h
  split at h
  · cases h
    rfl
  · split at h <;> cases h

theorem readBlock_ok (h : s.readBlock = .ok s') : s'.state = s.state ∧ s'.sdFile.isSome := by
  rw [readBlock] at h
  split at h
  · cases h
  · split at h
    · cases h
    · cases h
      exact ⟨rfl, rfl⟩

/-- A byte that is written changes the buffer at most, or completes a block. -/
theorem writeData_cases (val : U8) (s : Sd) :
    (∃ data dindex poll, s.writeData val = .ok { s with data, dindex, poll }) ∨
    s.state = .writing ∧ ∃ data dindex, s.writeData val = commit { s with data, dindex, poll := 0 } := by
  rw [writeData]
  by_cases hready : s.state = .writing ∧ s.poll = 3
  · rw [if_pos hready]
    dsimp only
    by_cases hroom : s.dindex < 512
    · rw [if_pos hroom]
      by_cases hlast : s.dindex + 1 = 512
      · rw [if_pos hlast]
        exact .inr ⟨hready.1, _, _, rfl⟩
      · rw [if_neg hlast]
        exact .inl ⟨_, _, _, rfl⟩
    · rw [if_neg hroom]
      exact .inl ⟨s.data, s.dindex, 0, rfl⟩
  · rw [if_neg hready]
    exact .inl ⟨s.data, s.dindex, s.poll, rfl⟩

end Outcomes

end Sd

end Exec09.Multicomp
