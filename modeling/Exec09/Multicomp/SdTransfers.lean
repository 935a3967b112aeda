import Exec09.Foundation.Blocks
import Exec09.Multicomp.Sd

/-! # Which blocks of the image the SD card controller moves

A command is meant for the block whose number the guest wrote last. The
controller keeps its own copy of that number: a control write also overwrites
the lowest byte of it, and a number with the top bit set makes the offset in
the file negative.
-/
namespace Exec09
open Foundation Blocks

namespace File
variable {f : File} {a : ℕ} {d : List U8} {buf : ℕ → U8}

def image (f : File) : Image U8 := ⟨f.bytes, f.length⟩

@[simp] theorem seek_bytes : (f.seek a).bytes = f.bytes := rfl

@[simp] theorem seek_pos : (f.seek a).pos = a := rfl

@[simp] theorem seek_image : (f.seek a).image = f.image := rfl

@[simp] theorem advance_image : (f.advance a).image = f.image := rfl

theorem available_seek {n : ℕ} : (f.seek a).available n = min n (f.length - a) := rfl

@[simp] theorem fseek_natCast : f.fseek ↑a = some (f.seek a) := if_neg (by omega)

theorem write_image (hd : ∀ i (hi : i < d.length), d[i] = buf i) :
    ((f.seek a).write d.length buf).image = f.image.store a d := by
  have hbytes : ((f.seek a).write d.length buf).bytes = (f.image.store a d).bytes := by
    ext1 x
    by_cases hle : a ≤ x
    · by_cases hlt : x < a + d.length
      · have hx : x - a < d.length := by omega
        simp [write, seek, Image.store, hle, hlt, hx, hd]
      · have hx : d.length ≤ x - a := by omega
        simp [write, seek, Image.store, hle, hlt, hx, image]
    · simp [write, seek, Image.store, hle, image]
  rw [image, hbytes]
  rfl

end File

namespace Multicomp

/-- The block number in the values of SDLBA2, of which seven bits count, SDLBA1 and SDLBA0. -/
def lba (b2 b1 b0 : U8) : ℕ := b2.toNat % 128 * 2 ^ 16 + b1.toNat * 2 ^ 8 + b0.toNat

theorem shifts_eq (b2 b1 b0 : U8) :
    ((0x7f &&& b2.toNat) <<< 25) ||| (b1.toNat <<< 17) ||| (b0.toNat <<< 9) =
      512 * lba b2 b1 b0 := by
  have h1 := b1.isLt
  have h0 := b0.isLt
  have hmask : 0x7f &&& b2.toNat = b2.toNat % 128 := by
    rw [Nat.and_comm]
    exact Nat.and_two_pow_sub_one_eq_mod _ 7
  have hhigh : b1.toNat <<< 17 < 2 ^ 25 := by
    rw [Nat.shiftLeft_eq]
    omega
  have hlow : b0.toNat <<< 9 < 2 ^ 17 := by
    rw [Nat.shiftLeft_eq]
    omega
  have hsum : (b2.toNat % 128) <<< 25 ||| b1.toNat <<< 17 =
      (b2.toNat % 128 * 2 ^ 8 + b1.toNat) <<< 17 := by
    rw [← Nat.shiftLeft_add_eq_or_of_lt hhigh]
    simp only [Nat.shiftLeft_eq]
    ring
  rw [hmask, hsum, ← Nat.shiftLeft_add_eq_or_of_lt hlow, lba]
  simp only [Nat.shiftLeft_eq]
  ring

theorem Sd.formAddr_eq {sd : Sd} (h : sd.sdlba2.getLsbD 6 = false) :
    sd.formAddr = 512 * lba sd.sdlba2 sd.sdlba1 sd.sdlba0 := by
  have hsix : ∀ x : U8, x.getLsbD 6 = false → x.toNat % 128 < 64 := by decide
  have h2 := hsix _ h
  have h1 := sd.sdlba1.isLt
  have h0 := sd.sdlba0.isLt
  rw [formAddr, shifts_eq, toInt, lba]
  push_cast
  apply Int.bmod_eq_of_le <;> omega

theorem Sd.formAddr_neg {sd : Sd} (h : sd.sdlba2.getLsbD 6 = true) : sd.formAddr < 0 := by
  have hsix : ∀ x : U8, x.getLsbD 6 = true → 64 ≤ x.toNat % 128 := by decide
  have h2 := hsix _ h
  have hmod : sd.sdlba2.toNat % 128 < 128 := Nat.mod_lt _ (by decide)
  have h1 := sd.sdlba1.isLt
  have h0 := sd.sdlba0.isLt
  rw [formAddr, shifts_eq, toInt, lba, Int.bmod_def]
  push_cast
  split <;> omega

theorem Sd.readBlock_hang {sd : Sd} {f : File} (hf : sd.sdFile = some f) (hneg : sd.addr < 0) :
    sd.readBlock = .error .hang := by
  have hseek : f.fseek sd.addr = none := if_pos hneg
  simp only [readBlock, hf, hseek]

theorem Sd.command_zero (sd : Sd) : sd.command 0 =
    { sd with addr := sd.formAddr, poll := 0, dindex := 0, state := .reading }.readBlock := by
  rw [command, if_pos rfl]

/-- From the middle of the card on a read command never comes back. -/
theorem Sd.write_hang {sd : Sd} {f : File} (hf : sd.sdFile = some f) (hidle : sd.state = .idle)
    (h6 : sd.sdlba2.getLsbD 6 = true) : sd.write 1 0 = .error .hang := by
  have hneg := Sd.formAddr_neg h6
  have hcommand : sd.command 0 = .error .hang := by
    rw [Sd.command_zero]
    generalize sd.formAddr = a at hneg ⊢
    exact Sd.readBlock_hang hf hneg
  rw [Sd.write, if_pos hidle, hcommand]
  rfl

/-! ## Sessions -/

/-- The controller beside what the guest wrote to it and the blocks that were moved. -/
structure Session where
  sd : Sd
  lba2 : U8
  lba1 : U8
  lba0 : U8
  /-- The last control value since the last write of SDLBA0. -/
  control : Option U8
  /-- The block that the current command is meant for. -/
  block : ℕ
  /-- The bytes moved since the current command. -/
  moved : List U8
  log : List (Transfer U8)

namespace Session

def number (s : Session) : ℕ := lba s.lba2 s.lba1 s.lba0

def start (f : File) : Session := ⟨Sd.init (some f), 0, 0, 0, none, 0, [], []⟩

inductive Event where
  | read (addr : ℕ)
  | write (addr : ℕ) (val : U8)
deriving DecidableEq

/-- A byte is moved; with the last one of a block the transfer is complete. -/
def move (b : U8) (transfer : List U8 → Transfer U8) (s : Session) : Session :=
  if s.moved.length = 511 then { s with moved := [], log := s.log ++ [transfer (s.moved ++ [b])] }
  else { s with moved := s.moved ++ [b] }

def afterRead (addr : ℕ) (s : Session) : Session :=
  let s' := { s with sd := (s.sd.read addr).2 }
  if addr = 0 ∧ s.sd.state = .reading ∧ s.sd.poll = 3 then
    s'.move (s.sd.read 0).1 (.read s.block)
  else s'

/-- What the guest's write means, `sd` being the controller after it. -/
def afterWrite (addr : ℕ) (val : U8) (s : Session) (sd : Sd) : Session :=
  let s' := { s with sd := sd }
  match addr with
  | 0 => if s.sd.state = .writing ∧ s.sd.poll = 3 then s'.move val (.write s.block) else s'
  | 1 =>
    if s.sd.state = .idle ∧ (val = 0 ∨ val = 1) then
      { s' with control := some val, block := s.number, moved := [] }
    else { s' with control := some val }
  | 2 => { s' with lba0 := val, control := none }
  | 3 => { s' with lba1 := val }
  | 4 => { s' with lba2 := val }
  | _ => s'

def Event.step : Event → EStateM Stop Session Unit
  | .read addr => modify (afterRead addr)
  | .write addr val => do
    let s ← get
    match s.sd.write addr val with
    | .ok sd => set (s.afterWrite addr val sd)
    | .error e => throw e

/-- No other value has been written to the control register since SDLBA0 was, and the top bit of
the block number is clear. -/
def Current (s : Session) : Prop := s.control.getD s.lba0 = s.lba0 ∧ s.lba2.getLsbD 6 = false

instance (s : Session) : Decidable s.Current := inferInstanceAs (Decidable (_ ∧ _))

/-- A command is given only while the address is current. -/
def Addressable : Event → Session → Prop
  | .write 1 val, s => s.sd.state = .idle → val = 0 ∨ val = 1 → s.Current
  | _, _ => True

instance Addressable.decidable : ∀ e s, Decidable (Addressable e s)
  | .write 1 _, _ => inferInstanceAs (Decidable (_ → _ → _))
  | .write 0 _, _ => isTrue trivial
  | .write (_ + 2) _, _ => isTrue trivial
  | .read _, _ => isTrue trivial

/-! ## The invariant -/

/-- The buffer has the bytes moved for the current command. -/
structure Moving (s : Session) : Prop where
  addr : s.sd.addr = ↑(512 * s.block)
  dindex : s.sd.dindex = s.moved.length
  lt : s.moved.length < 512
  moved : ∀ i (h : i < s.moved.length), s.moved[i] = s.sd.data i

/-- The bytes that a read command has buffered are those of its block. -/
def Buffered (s : Session) (f : File) : Prop :=
  ∀ i, i < 512 → 512 * s.block + i < f.length → s.sd.data i = f.bytes (512 * s.block + i)

structure Sound (f₀ : File) (s : Session) : Prop where
  sdlba2 : s.sd.sdlba2 = s.lba2
  sdlba1 : s.sd.sdlba1 = s.lba1
  sdlba0 : s.sd.sdlba0 = s.control.getD s.lba0
  busy : s.sd.state = .reading ∨ s.sd.state = .writing → s.Moving
  file : ∃ f, s.sd.sdFile = some f ∧ Transfers 512 f₀.image s.log f.image ∧
    (s.sd.state = .reading → s.Buffered f)

variable {s : Session} {f f₀ : File} {val : U8}

theorem sound_start (f : File) : Sound f (start f) where
  sdlba2 := rfl
  sdlba1 := rfl
  sdlba0 := rfl
  busy := by
    rintro (h | h)
    · cases h
    · cases h
  file := ⟨f, rfl, rfl, fun h => by cases h⟩

/-! ## Reads -/

/-- A poll changes no more than the counter and the end of the initialisation. -/
theorem Sound.polled (h : Sound f₀ s) (poll : ℕ) {state : SdState}
    (hread : state = .reading → s.sd.state = .reading)
    (hwrite : state = .writing → s.sd.state = .writing) :
    Sound f₀ { s with sd := { s.sd with poll := poll, state := state } } := by
  obtain ⟨f, hf, hlog, hbuf⟩ := h.file
  refine ⟨h.sdlba2, h.sdlba1, h.sdlba0, fun hbusy => ?_, f, hf, hlog, fun hr => hbuf (hread hr)⟩
  have hm := h.busy (hbusy.imp hread hwrite)
  exact ⟨hm.addr, hm.dindex, hm.lt, hm.moved⟩

theorem Sound.readStatus (h : Sound f₀ s) : Sound f₀ (s.afterRead 1) := by
  have hsame : s.afterRead 1 = { s with sd := s.sd.readStatus.2 } := rfl
  rw [hsame, Sd.readStatus]
  cases hstate : s.sd.state with
  | noCard => exact h
  | initialising =>
    by_cases h16 : s.sd.poll + 1 = 16
    · simp only [if_pos h16]
      exact h.polled _ (by simp) (by simp)
    · simp only [if_neg h16]
      exact h.polled _ (by simp) (by simp)
  | idle => exact h
  | reading => exact h.polled _ (fun _ => hstate) (by simp)
  | writing => exact h.polled _ (by simp) (fun _ => hstate)

/-- One more byte of the buffer is moved. -/
theorem moved_append {moved : List U8} {data : ℕ → U8} {b : U8}
    (h : ∀ i (hi : i < moved.length), moved[i] = data i) (hb : b = data moved.length) :
    ∀ i (hi : i < (moved ++ [b]).length), (moved ++ [b])[i] = data i := by
  intro i hi
  by_cases hlt : i < moved.length
  · rw [List.getElem_append_left hlt, h i hlt]
  · have hi' : i = moved.length := by
      rw [List.length_append, List.length_singleton] at hi
      omega
    subst hi'
    rw [List.getElem_concat_length, hb]
    rfl

theorem Sound.readData_eq (h : Sound f₀ s) (hstate : s.sd.state = .reading)
    (hpoll : s.sd.poll = 3) : s.sd.readData = (s.sd.data s.moved.length,
      { s.sd with
        poll := 0
        state := if s.moved.length = 511 then .idle else .reading
        dindex := s.moved.length + 1 }) := by
  have hm := h.busy (.inl hstate)
  simp [Sd.readData, hstate, hpoll, hm.dindex, hm.lt]

theorem Sound.readData (h : Sound f₀ s) : Sound f₀ (s.afterRead 0) := by
  by_cases hready : s.sd.state = .reading ∧ s.sd.poll = 3
  · obtain ⟨hstate, hpoll⟩ := hready
    have hm := h.busy (.inl hstate)
    obtain ⟨f, hf, hlog, hbuf⟩ := h.file
    have hmoved := moved_append hm.moved rfl
    rw [afterRead, if_pos ⟨rfl, hstate, hpoll⟩, Sd.read, h.readData_eq hstate hpoll, move]
    by_cases hlast : s.moved.length = 511
    · simp only [if_pos hlast]
      refine ⟨h.sdlba2, h.sdlba1, h.sdlba0, by simp, f, hf, ?_, by simp⟩
      refine hlog.append ⟨⟨by simp [hlast], fun i hi hin => ?_⟩, rfl⟩
      rw [hmoved i hi]
      exact hbuf hstate i (by simpa [hlast] using hi) hin
    · simp only [if_neg hlast]
      refine ⟨h.sdlba2, h.sdlba1, h.sdlba0, fun _ => ?_, f, hf, hlog, fun _ => hbuf hstate⟩
      have hlt := hm.lt
      exact ⟨hm.addr, by simp, by simp; omega, hmoved⟩
  · have hidle : s.afterRead 0 = s := by
      rw [afterRead, if_neg fun hr => hready hr.2, Sd.read, Sd.readData]
      cases hstate : s.sd.state with
      | reading => simp only [if_neg fun hp => hready ⟨hstate, hp⟩]
      | noCard => rfl
      | initialising => rfl
      | idle => rfl
      | writing => rfl
    rwa [hidle]

/-! ## Writes -/

/-- A register write that returns keeps the session sound. -/
def WritesSound (f₀ : File) (s : Session) (addr : ℕ) (val : U8) : Prop :=
  ∃ sd, s.sd.write addr val = .ok sd ∧ Sound f₀ (s.afterWrite addr val sd)

/-- The controller after a byte of the block. -/
def stored (s : Session) (val : U8) (f : File) : Sd :=
  let data := Function.update s.sd.data s.moved.length val
  { s.sd with
    poll := 0
    data := data
    dindex := s.moved.length + 1
    state := if s.moved.length = 511 then .idle else .writing
    sdFile := some (if s.moved.length = 511 then (f.seek (512 * s.block)).write 512 data else f) }

theorem Sound.writeData_eq (h : Sound f₀ s) (hstate : s.sd.state = .writing)
    (hpoll : s.sd.poll = 3) (hf : s.sd.sdFile = some f) (val : U8) :
    s.sd.writeData val = .ok (s.stored val f) := by
  have hm := h.busy (.inr hstate)
  rw [Sd.writeData, if_pos ⟨hstate, hpoll⟩, stored]
  simp only [hm.dindex, if_pos hm.lt]
  by_cases hlast : s.moved.length = 511
  · simp only [hlast, if_true, Sd.commit, hf, hm.addr, File.fseek_natCast]
  · have hmore : ¬s.moved.length + 1 = 512 := by omega
    simp only [if_neg hlast, if_neg hmore, hstate, hf]

theorem Sound.writeData (h : Sound f₀ s) (val : U8) : WritesSound f₀ s 0 val := by
  by_cases hready : s.sd.state = .writing ∧ s.sd.poll = 3
  · have hm := h.busy (.inr hready.1)
    obtain ⟨f, hf, hlog, _⟩ := h.file
    have hmoved : ∀ i (hi : i < (s.moved ++ [val]).length),
        (s.moved ++ [val])[i] = Function.update s.sd.data s.moved.length val i := by
      refine moved_append (fun i hi => ?_) (by simp)
      rw [Function.update_of_ne hi.ne, hm.moved i hi]
    refine ⟨_, h.writeData_eq hready.1 hready.2 hf val, ?_⟩
    rw [afterWrite, if_pos hready, move, stored]
    by_cases hlast : s.moved.length = 511
    · have hlength : (s.moved ++ [val]).length = 512 := by simp [hlast]
      simp only [if_pos hlast]
      refine ⟨h.sdlba2, h.sdlba1, h.sdlba0, by simp, _, rfl, ?_, by simp⟩
      refine hlog.append ⟨hlength, ?_⟩
      have himage := File.write_image (f := f) (a := 512 * s.block) hmoved
      rw [hlength] at himage
      exact himage
    · simp only [if_neg hlast]
      refine ⟨h.sdlba2, h.sdlba1, h.sdlba0, fun _ => ?_, f, rfl, hlog, by simp⟩
      have hlt := hm.lt
      exact ⟨hm.addr, by simp, by simp; omega, hmoved⟩
  · refine ⟨s.sd, if_neg hready, ?_⟩
    rw [afterWrite, if_neg hready]
    exact h

/-- A transfer does not depend on the registers of the next address. -/
theorem Moving.addressed (h : s.Moving) (a2 a1 a0 b2 b1 b0 : U8) (c : Option U8) :
    Moving { s with
      sd := { s.sd with sdlba2 := a2, sdlba1 := a1, sdlba0 := a0 }
      lba2 := b2
      lba1 := b1
      lba0 := b0
      control := c } :=
  ⟨h.addr, h.dindex, h.lt, h.moved⟩

/-- The controller after an accepted command, with `data` in its buffer. -/
def commanded (s : Session) (state : SdState) (data : ℕ → U8) (file : File) : Sd :=
  { s.sd with
    addr := ↑(512 * s.number)
    poll := 0
    dindex := 0
    state := state
    data := data
    sdFile := some file }

theorem Sound.formAddr (h : Sound f₀ s) (hcur : s.Current) :
    s.sd.formAddr = ↑(512 * s.number) := by
  have h6 : s.sd.sdlba2.getLsbD 6 = false := by
    rw [h.sdlba2]
    exact hcur.2
  rw [Sd.formAddr_eq h6, h.sdlba2, h.sdlba1, h.sdlba0, hcur.1, number]
  push_cast
  rfl

theorem Sound.readCommand (h : Sound f₀ s) (hcur : s.Current) (hf : s.sd.sdFile = some f) :
    ∃ data file, s.sd.command 0 = .ok (s.commanded .reading data file) ∧ file.image = f.image ∧
      ∀ i, i < 512 → 512 * s.number + i < f.length → data i = f.bytes (512 * s.number + i) := by
  refine ⟨fun i => if i < (f.seek (512 * s.number)).available 512 then
      f.bytes (512 * s.number + i) else s.sd.data i,
    (f.seek (512 * s.number)).advance ((f.seek (512 * s.number)).available 512),
    ?_, ?_, fun i hi hin => ?_⟩
  · rw [Sd.command_zero, h.formAddr hcur, Sd.readBlock]
    simp only [hf, commanded, File.fseek_natCast, File.seek_bytes, File.seek_pos]
  · simp only [File.advance_image, File.seek_image]
  · refine if_pos ?_
    rw [File.available_seek]
    omega

theorem Sound.writeCommand (h : Sound f₀ s) (hcur : s.Current) (hf : s.sd.sdFile = some f) :
    s.sd.command 1 = .ok (s.commanded .writing s.sd.data f) := by
  simp [Sd.command, commanded, h.formAddr hcur, hf]

theorem Sound.control (h : Sound f₀ s) (hok : Addressable (.write 1 val) s) :
    WritesSound f₀ s 1 val := by
  obtain ⟨f, hf, hlog, hbuf⟩ := h.file
  rw [WritesSound, Sd.write]
  by_cases hidle : s.sd.state = .idle
  · rw [if_pos hidle]
    by_cases hread : val = 0
    · obtain ⟨data, file, hcommand, himage, hdata⟩ := h.readCommand (hok hidle (.inl hread)) hf
      subst hread
      rw [hcommand]
      refine ⟨_, rfl, ?_⟩
      rw [afterWrite, if_pos ⟨hidle, .inl rfl⟩]
      refine ⟨h.sdlba2, h.sdlba1, rfl, fun _ => ⟨rfl, rfl, by simp, by simp⟩, file, rfl, ?_, ?_⟩
      · rwa [himage]
      · intro _ i hi hin
        have hlength : file.length = f.length := congrArg Image.length himage
        have hbytes : file.bytes = f.bytes := congrArg Image.bytes himage
        rw [hbytes]
        exact hdata i hi (hlength ▸ hin)
    · by_cases hwrite : val = 1
      · have hcur : s.Current := hok hidle (.inr hwrite)
        subst hwrite
        rw [h.writeCommand hcur hf]
        refine ⟨_, rfl, ?_⟩
        rw [afterWrite, if_pos ⟨hidle, .inr rfl⟩]
        refine ⟨h.sdlba2, h.sdlba1, rfl, fun _ => ⟨rfl, rfl, by simp, by simp⟩, f, rfl, hlog, ?_⟩
        simp [commanded]
      · have hcommand : s.sd.command val = .ok { s.sd with addr := s.sd.formAddr, poll := 0 } := by
          rw [Sd.command, if_neg hread, if_neg hwrite]
        rw [hcommand]
        refine ⟨_, rfl, ?_⟩
        rw [afterWrite, if_neg fun hc => hc.2.elim hread hwrite]
        refine ⟨h.sdlba2, h.sdlba1, rfl, fun hb => ?_, f, hf, hlog, hbuf⟩
        simp [hidle] at hb
  · rw [if_neg hidle]
    refine ⟨_, rfl, ?_⟩
    rw [afterWrite, if_neg fun hc => hidle hc.1]
    exact ⟨h.sdlba2, h.sdlba1, rfl, fun hb => (h.busy hb).addressed _ _ _ _ _ _ _, f, hf, hlog, hbuf⟩

theorem Sound.write (h : Sound f₀ s) {addr : ℕ} (hok : Addressable (.write addr val) s) :
    WritesSound f₀ s addr val := by
  match addr with
  | 0 => exact h.writeData val
  | 1 => exact h.control hok
  | 2 =>
    exact ⟨_, rfl, h.sdlba2, h.sdlba1, rfl, fun hb => (h.busy hb).addressed _ _ _ _ _ _ _, h.file⟩
  | 3 =>
    exact ⟨_, rfl, h.sdlba2, rfl, h.sdlba0, fun hb => (h.busy hb).addressed _ _ _ _ _ _ _, h.file⟩
  | 4 =>
    exact ⟨_, rfl, rfl, h.sdlba1, h.sdlba0, fun hb => (h.busy hb).addressed _ _ _ _ _ _ _, h.file⟩
  | _ + 5 => exact ⟨_, rfl, h⟩

/-! ## Runs -/

theorem step_sound (e : Event) :
    Triple (fun s => Sound f₀ s ∧ Addressable e s) e.step (fun _ => Sound f₀) fun _ => False := by
  cases e with
  | read addr =>
    refine Triple.modify fun s h => ?_
    match addr with
    | 0 => exact h.1.readData
    | 1 => exact h.1.readStatus
    | _ + 2 => exact h.1
  | write addr val =>
    intro s h
    obtain ⟨sd, hwrite, hsound⟩ := h.1.write h.2
    rw [Event.step, run_bind_ok run_get, hwrite]
    exact hsound

/-- From `s` a byte `b` of the current block has been moved to reach `t`. -/
structure Moved (transfer : List U8 → Transfer U8) (s : Session) (b : U8) (t : Session) : Prop where
  last : s.moved.length = 511 →
    t.sd.state = .idle ∧ t.log = s.log ++ [transfer (s.moved ++ [b])]
  more : s.moved.length ≠ 511 → t.sd.state = s.sd.state ∧ t.sd.poll = 0 ∧
    t.moved = s.moved ++ [b] ∧ t.block = s.block ∧ t.log = s.log

def withPoll (poll : ℕ) (s : Session) : Session := { s with sd := { s.sd with poll := poll } }

theorem status_run (hbusy : s.sd.state = .reading ∨ s.sd.state = .writing) {p : ℕ} (hp : p < 3) :
    Event.step (.read 1) (s.withPoll p) = .ok () (s.withPoll (p + 1)) := by
  rcases hbusy with hr | hw
  · simp [Event.step, afterRead, Sd.read, Sd.readStatus, withPoll, hr, hp]
  · simp [Event.step, afterRead, Sd.read, Sd.readStatus, withPoll, hw, hp]

/-- Three polls, and then the step that moves a byte. -/
def polled (e : Event) (es : List Event) : List Event := .read 1 :: .read 1 :: .read 1 :: e :: es

theorem polled_run (hbusy : s.sd.state = .reading ∨ s.sd.state = .writing) (hpoll : s.sd.poll = 0)
    {e : Event} {es : List Event} {t : Session} (he : e.step (s.withPoll 3) = .ok () t) :
    runAll Event.step (polled e es) s = runAll Event.step es t := by
  have hzero : s.withPoll 0 = s := by
    rw [withPoll, ← hpoll]
  have hfirst := status_run (s := s) hbusy (p := 0) (by decide)
  rw [hzero] at hfirst
  rw [polled, runAll, run_bind_ok hfirst, runAll, run_bind_ok (status_run hbusy (by decide)),
    runAll, run_bind_ok (status_run hbusy (by decide)), runAll, run_bind_ok he]

theorem Sound.withPoll (h : Sound f₀ s) (p : ℕ) : Sound f₀ (s.withPoll p) := h.polled p id id

theorem Sound.read_moved (h : Sound f₀ s) (hstate : s.sd.state = .reading)
    (hpoll : s.sd.poll = 3) :
    Moved (.read s.block) s (s.sd.data s.moved.length) (s.afterRead 0) := by
  rw [afterRead, if_pos ⟨rfl, hstate, hpoll⟩, Sd.read, h.readData_eq hstate hpoll, move]
  constructor
  · intro hlast
    simp [hlast]
  · intro hmore
    simp [hmore, hstate]

theorem Sound.write_moved (h : Sound f₀ s) (hstate : s.sd.state = .writing)
    (hpoll : s.sd.poll = 3) (val : U8) :
    ∃ t, Event.step (.write 0 val) s = .ok () t ∧ Sound f₀ t ∧ Moved (.write s.block) s val t := by
  obtain ⟨sd, hwrite, hsound⟩ := h.writeData val
  obtain ⟨f, hf, -⟩ := h.file
  have hsd : s.stored val f = sd := by
    have heq := h.writeData_eq hstate hpoll hf val
    rw [Sd.write, heq] at hwrite
    exact Except.ok.inj hwrite
  refine ⟨s.afterWrite 0 val sd, ?_, hsound, ?_⟩
  · rw [Event.step, run_bind_ok run_get, hwrite]
    rfl
  · rw [afterWrite, if_pos ⟨hstate, hpoll⟩, move, ← hsd, stored]
    constructor
    · intro hlast
      simp [hlast]
    · intro hmore
      simp [hmore, hstate]

/-- A properly polled read of the next `n` bytes. -/
def readPolled : ℕ → List Event
  | 0 => []
  | n + 1 => polled (.read 0) (readPolled n)

/-- A properly polled write of bytes. -/
def writePolled : List U8 → List Event
  | [] => []
  | b :: bs => polled (.write 0 b) (writePolled bs)

theorem Sound.readPolled (h : Sound f₀ s) (hstate : s.sd.state = .reading) (hpoll : s.sd.poll = 0)
    {n : ℕ} (hn : s.moved.length + n + 1 = 512) :
    ∃ t d, runAll Event.step (Session.readPolled (n + 1)) s = .ok () t ∧ t.sd.state = .idle ∧
      t.log = s.log ++ [.read s.block d] := by
  induction n generalizing s with
  | zero =>
    have hmoved := (h.withPoll 3).read_moved hstate rfl
    obtain ⟨hidle, hlog⟩ := hmoved.last (by simp only [Session.withPoll]; omega)
    refine ⟨_, _, ?_, hidle, hlog⟩
    rw [Session.readPolled, polled_run (.inl hstate) hpoll rfl]
    rfl
  | succ n ih =>
    have hmoved := (h.withPoll 3).read_moved hstate rfl
    have hsound := (h.withPoll 3).readData
    obtain ⟨hreading, hzero, hnext, hblock, hlog⟩ :=
      hmoved.more (by simp only [Session.withPoll]; omega)
    have hcount : ((s.withPoll 3).afterRead 0).moved.length + n + 1 = 512 := by
      rw [hnext, List.length_append, List.length_singleton]
      simp only [Session.withPoll]
      omega
    obtain ⟨t, d, hrun, hidle, ht⟩ := ih hsound (hreading.trans hstate) hzero hcount
    refine ⟨t, d, ?_, hidle, ?_⟩
    · rw [Session.readPolled, polled_run (.inl hstate) hpoll rfl]
      exact hrun
    · rw [ht, hlog, hblock]
      rfl

theorem Sound.writePolled (b : U8) (bs : List U8) (h : Sound f₀ s)
    (hstate : s.sd.state = .writing) (hpoll : s.sd.poll = 0)
    (hbs : s.moved.length + bs.length + 1 = 512) :
    ∃ t, runAll Event.step (Session.writePolled (b :: bs)) s = .ok () t ∧ t.sd.state = .idle ∧
      t.log = s.log ++ [.write s.block (s.moved ++ b :: bs)] := by
  induction bs generalizing s b with
  | nil =>
    obtain ⟨t, hstep, -, hmoved⟩ := (h.withPoll 3).write_moved hstate rfl b
    obtain ⟨hidle, hlog⟩ := hmoved.last (by
      simp only [Session.withPoll, List.length_nil] at hbs ⊢
      omega)
    refine ⟨t, ?_, hidle, hlog⟩
    rw [Session.writePolled, polled_run (.inr hstate) hpoll hstep]
    rfl
  | cons c bs ih =>
    obtain ⟨u, hstep, hsound, hmoved⟩ := (h.withPoll 3).write_moved hstate rfl b
    rw [List.length_cons] at hbs
    obtain ⟨hwriting, hzero, hnext, hblock, hlog⟩ :=
      hmoved.more (by simp only [Session.withPoll]; omega)
    have hcount : u.moved.length + bs.length + 1 = 512 := by
      rw [hnext, List.length_append, List.length_singleton]
      simp only [Session.withPoll]
      omega
    obtain ⟨t, hrun, hidle, ht⟩ := ih (b := c) hsound (hwriting.trans hstate) hzero hcount
    refine ⟨t, ?_, hidle, ?_⟩
    · rw [Session.writePolled, polled_run (.inr hstate) hpoll hstep]
      exact hrun
    · rw [ht, hlog, hblock, hnext, List.append_assoc]
      rfl

/-- What a session from the image `f` owes to the guest. -/
structure Faithful (f : File) (s : Session) : Prop where
  /-- Every complete transfer moved the block that its command was meant for, and a read that is
  not complete has returned the first bytes of its block. -/
  transfers : ∃ f', s.sd.sdFile = some f' ∧ Transfers 512 f.image s.log f'.image ∧
    (s.sd.state = .reading → ∀ i (h : i < s.moved.length), 512 * s.block + i < f'.length →
      s.moved[i] = f'.bytes (512 * s.block + i))
  lastWritten : ∀ before L d mid e after,
    s.log = before ++ .write L d :: mid ++ .read L e :: after → (∀ d', .write L d' ∉ mid) → e = d
  /-- A read command in the idle state is carried out. -/
  read : s.sd.state = .idle → s.Current →
    ∃ t d, runAll Event.step (.write 1 0 :: readPolled 512) s = .ok () t ∧ t.sd.state = .idle ∧
      t.log = s.log ++ [.read s.number d]
  /-- So is a write command. -/
  write : s.sd.state = .idle → s.Current → ∀ d, d.length = 512 →
    ∃ t, runAll Event.step (.write 1 1 :: writePolled d) s = .ok () t ∧ t.sd.state = .idle ∧
      t.log = s.log ++ [.write s.number d]

theorem Sound.command_run (h : Sound f₀ s) (val : U8) (hok : Addressable (.write 1 val) s) :
    ∃ t, Event.step (.write 1 val) s = .ok () t ∧ Sound f₀ t ∧
      ∀ sd, s.sd.command val = .ok sd → s.sd.state = .idle → val = 0 ∨ val = 1 →
        t.sd.state = sd.state ∧ t.sd.poll = sd.poll ∧ t.moved = [] ∧ t.block = s.number ∧
          t.log = s.log := by
  obtain ⟨sd, hwrite, hsound⟩ := h.control hok
  refine ⟨s.afterWrite 1 val sd, ?_, hsound, fun sd' hcommand hidle hval => ?_⟩
  · rw [Event.step, run_bind_ok run_get, hwrite]
    rfl
  · rw [Sd.write, if_pos hidle, hcommand] at hwrite
    have hsd : { sd' with sdlba0 := val } = sd := Except.ok.inj hwrite
    rw [afterWrite, if_pos ⟨hidle, hval⟩, ← hsd]
    exact ⟨rfl, rfl, rfl, rfl, rfl⟩

theorem Sound.faithful (h : Sound f₀ s) : s.Faithful f₀ := by
  obtain ⟨f, hf, hlog, hbuf⟩ := h.file
  refine ⟨⟨f, hf, hlog, fun hr i hi hin => ?_⟩, ?_, ?_, ?_⟩
  · have hm := h.busy (.inl hr)
    rw [hm.moved i hi]
    exact hbuf hr i (lt_trans hi hm.lt) hin
  · intro before L d mid e after heq hmid
    rw [heq] at hlog
    exact hlog.read_after_write hmid
  · intro hidle hcur
    obtain ⟨u, hstep, hsound, hu⟩ := h.command_run 0 fun _ _ => hcur
    obtain ⟨data, file, hcommand, -⟩ := h.readCommand hcur hf
    obtain ⟨hstate, hpoll, hmoved, hblock, hulog⟩ := hu _ hcommand hidle (.inl rfl)
    obtain ⟨t, d, hrun, ht, htlog⟩ :=
      hsound.readPolled hstate hpoll (n := 511) (by rw [hmoved]; rfl)
    refine ⟨t, d, ?_, ht, ?_⟩
    · rw [runAll, run_bind_ok hstep, hrun]
    · rw [htlog, hulog, hblock]
  · intro hidle hcur d hd
    obtain ⟨u, hstep, hsound, hu⟩ := h.command_run 1 fun _ _ => hcur
    obtain ⟨hstate, hpoll, hmoved, hblock, hulog⟩ :=
      hu _ (h.writeCommand hcur hf) hidle (.inr rfl)
    rcases d with _ | ⟨b, bs⟩
    · simp at hd
    · rw [List.length_cons] at hd
      obtain ⟨t, hrun, ht, htlog⟩ := hsound.writePolled b bs hstate hpoll
        (by rw [hmoved, List.length_nil]; omega)
      refine ⟨t, ?_, ht, ?_⟩
      · rw [runAll, run_bind_ok hstep, hrun]
      · rw [htlog, hulog, hblock, hmoved, List.nil_append]

/-- Over every run that gives commands only while the address is current, each command moves the
block whose number the guest wrote last, and a read returns what was last written there. -/
theorem faithful_along_run {es : List Event} {f : File}
    (hok : Along Event.step Addressable es (start f)) :
    ∃ s, runAll Event.step es (start f) = .ok () s ∧ s.Faithful f := by
  obtain ⟨_, s, hrun, hs⟩ := (runAll_invariant step_sound es).total ⟨sound_start f, hok⟩
  exact ⟨s, hrun, hs.faithful⟩

/-- Sixteen blocks, each filled with its number. -/
def numbered : File := ⟨fun a => BitVec.ofNat 8 (a / 512), 8192, 0⟩

/-- The polls until the card is initialised. -/
def initialise : List Event := List.replicate 16 (.read 1)

theorem faithful_along_run_block :
    ∃ s, runAll Event.step (initialise ++ [.write 2 5, .write 1 0, .read 1, .read 1, .read 1, .read 0])
      (start numbered) = .ok () s ∧ s.Faithful numbered :=
  faithful_along_run (by decide +kernel)

theorem Faithful.first_byte {b : U8} (h : s.Faithful f) (hlog : s.log = [])
    (hstate : s.sd.state = .reading) (hmoved : s.moved = [b]) (hin : 512 * s.block < f.length) :
    b = f.bytes (512 * s.block) := by
  obtain ⟨f', -, htransfers, hread⟩ := h.transfers
  rw [hlog] at htransfers
  have himage : f'.image = f.image := htransfers
  have hlength : f'.length = f.length := congrArg Image.length himage
  have hbytes : f'.bytes = f.bytes := congrArg Image.bytes himage
  have hfirst := hread hstate 0 (by simp [hmoved]) (by rw [hlength]; exact hin)
  rw [hbytes] at hfirst
  simpa [hmoved] using hfirst

/-- A command for block 5 is refused during the initialisation and given again after it. -/
def retry : List Event :=
  .write 2 5 :: .write 1 0 :: initialise ++ [.write 1 0, .read 1, .read 1, .read 1, .read 0]

/-- Where it ends. -/
def retried : Session := finalState (runAll Event.step retry (start numbered))

theorem retry_run : returned (runAll Event.step retry (start numbered)) = true ∧
    retried.sd.state = .reading ∧ retried.block = 5 ∧ retried.moved = [0] ∧ retried.log = [] := by
  decide +kernel

/-- The first byte read is that of block 0. -/
theorem not_faithful_retry :
    ∃ s, runAll Event.step retry (start numbered) = .ok () s ∧ ¬s.Faithful numbered := by
  obtain ⟨hreturned, hstate, hblock, hmoved, hlog⟩ := retry_run
  refine ⟨retried, eq_ok_finalState hreturned, fun h => ?_⟩
  have hfirst := h.first_byte hlog hstate hmoved (by rw [hblock]; decide)
  rw [hblock] at hfirst
  revert hfirst
  decide

end Session

end Multicomp

end Exec09
