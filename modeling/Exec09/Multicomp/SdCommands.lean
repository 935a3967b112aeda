import Exec09.Multicomp.SdTransfers

/-! # What each command of the SD card controller moves

A journal keeps beside the controller what the guest has moved for every
command, and what was handed to `fwrite` for it. A command ends when the
controller is idle again.
-/
namespace Exec09.Multicomp
open Foundation Blocks

structure SdCommand where
  writes : Bool
  /-- `mc_addr` -/
  offset : ℤ
  /-- The bytes of the accepted data accesses, in order. -/
  bytes : List U8
  /-- The calls of `fwrite`, with their positions. -/
  commits : List (ℤ × List U8)
deriving DecidableEq

namespace SdCommand

def moved (b : U8) (c : SdCommand) : SdCommand := { c with bytes := c.bytes ++ [b] }

def committed (sd : Sd) (c : SdCommand) : SdCommand :=
  { c with commits := c.commits ++ [(sd.addr, (List.range 512).map sd.data)] }

/-- A read has moved the block at its offset, and a write has committed its bytes once. -/
def Complete (img : Image U8) (c : SdCommand) : Prop :=
  0 ≤ c.offset ∧ c.bytes.length = 512 ∧
    if c.writes then c.commits = [(c.offset, c.bytes)]
    else c.bytes = img.cut c.offset.toNat 512 ∧ c.commits = []

/-- A read has moved the beginning of its block, and a write has committed nothing. -/
def Partial (img : Image U8) (c : SdCommand) : Prop :=
  c.bytes.length < 512 ∧ c.commits = [] ∧
    (c.writes = false → 0 ≤ c.offset ∧ c.bytes <+: img.cut c.offset.toNat 512)

def effect (c : SdCommand) (img : Image U8) : Image U8 :=
  if c.writes then img.store c.offset.toNat c.bytes else img

/-- The commands, first one first, were completed one after the other. -/
def Executed : Image U8 → List SdCommand → Image U8 → Prop
  | img, [], img' => img' = img
  | img, c :: cs, img' => c.Complete img ∧ Executed (c.effect img) cs img'

theorem Executed.snoc {img img' : Image U8} {cs : List SdCommand} {c : SdCommand}
    (h : Executed img cs img') (hc : c.Complete img') : Executed img (cs ++ [c]) (c.effect img') := by
  induction cs generalizing img with
  | nil =>
    obtain rfl : img' = img := h
    exact ⟨hc, rfl⟩
  | cons d cs ih => exact ⟨h.1, ih h.2⟩

end SdCommand

structure Journal where
  sd : Sd
  current : Option SdCommand
  done : List SdCommand

namespace Sd

def Busy (s : Sd) : Prop := s.state = .reading ∨ s.state = .writing

/-- A data access is accepted. -/
def Accepts (state : SdState) (s : Sd) : Prop := s.state = state ∧ s.poll = 3

/-- `fseek` succeeds for a commit. -/
def Seeks (s : Sd) : Prop := ∃ f ∈ s.sdFile, (f.fseek s.addr).isSome

/-- `fseek` succeeds for a read command, and `fread` returns a full block. -/
def ReadsFully (s : Sd) : Prop := ∃ f ∈ s.sdFile, ∃ g ∈ f.fseek s.formAddr, g.available 512 = 512

instance (state : SdState) (s : Sd) : Decidable (s.Accepts state) :=
  inferInstanceAs (Decidable (_ ∧ _))

instance (s : Sd) : Decidable s.Seeks := inferInstanceAs (Decidable (∃ f ∈ s.sdFile, _))

instance (s : Sd) : Decidable s.ReadsFully := inferInstanceAs (Decidable (∃ f ∈ s.sdFile, _))

/-- The transitions of `mc_state`. -/
inductive Moves : SdState → SdState → Prop
  | initialised : Moves .initialising .idle
  | read : Moves .idle .reading
  | write : Moves .idle .writing
  | readDone : Moves .reading .idle
  | written : Moves .writing .idle

end Sd

namespace Journal

def start (f : File) : Journal := ⟨Sd.init (some f), none, []⟩

def settle (j : Journal) : Journal :=
  if j.sd.state = .idle then { j with current := none, done := j.done ++ j.current.toList } else j

def afterRead (addr : ℕ) (j : Journal) : Journal :=
  let j' := { j with sd := (j.sd.read addr).2 }
  if addr = 0 ∧ j.sd.Accepts .reading then
    settle { j' with current := j.current.map (SdCommand.moved (j.sd.read 0).1) }
  else settle j'

/-- After a write of a register, which has left the controller as `sd`. -/
def afterWrite (addr : ℕ) (val : U8) (j : Journal) (sd : Sd) : Journal :=
  let j' := { j with sd := sd }
  match addr with
  | 0 =>
    if j.sd.Accepts .writing then
      let c := j.current.map (SdCommand.moved val)
      settle { j' with current := if j.sd.dindex = 511 then c.map (SdCommand.committed sd) else c }
    else settle j'
  | 1 =>
    if j.sd.state = .idle ∧ (val = 0 ∨ val = 1) then
      settle { j' with current := some ⟨val == 1, sd.addr, [], []⟩ }
    else settle j'
  | _ => settle j'

def step : Session.Event → EStateM Stop Journal Unit
  | .read addr => modify (afterRead addr)
  | .write addr val => do
    let j ← get
    match j.sd.write addr val with
    | .ok sd => set (j.afterWrite addr val sd)
    | .error e => throw e

/-- The calls of `fseek` and `fread` that an access makes succeed. -/
def Served : Session.Event → Journal → Prop
  | .write 0 _, j => j.sd.Accepts .writing → j.sd.dindex = 511 → j.sd.Seeks
  | .write 1 val, j => j.sd.state = .idle → val = 0 → j.sd.ReadsFully
  | _, _ => True

instance Served.decidable : ∀ e j, Decidable (Served e j)
  | .write 0 _, _ => inferInstanceAs (Decidable (_ → _ → _))
  | .write 1 _, _ => inferInstanceAs (Decidable (_ → _ → _))
  | .write (_ + 2) _, _ => isTrue trivial
  | .read _, _ => isTrue trivial

/-! ## The invariant -/

/-- The command that the controller works on. -/
structure Serving (c : SdCommand) (j : Journal) : Prop where
  writes : c.writes = true ↔ j.sd.state = .writing
  offset : c.offset = j.sd.addr
  dindex : j.sd.dindex = c.bytes.length
  lt : c.bytes.length < 512
  bytes : ∀ i (h : i < c.bytes.length), c.bytes[i] = j.sd.data i
  commits : c.commits = []

/-- The buffer holds the block. -/
def Loaded (sd : Sd) (f : File) : Prop :=
  0 ≤ sd.addr ∧ ∀ i, i < 512 → sd.data i = f.bytes (sd.addr.toNat + i)

structure Sound (f₀ : File) (j : Journal) : Prop where
  dindex : j.sd.dindex ≤ 512
  file : ∃ f, j.sd.sdFile = some f ∧ SdCommand.Executed f₀.image j.done f.image ∧
    (j.sd.state = .reading → Loaded j.sd f)
  free : ¬j.sd.Busy → j.current = none
  busy : j.sd.Busy → ∃ c, j.current = some c ∧ j.Serving c

variable {f f₀ : File} {j : Journal} {val : U8} {c : SdCommand}

theorem settle_free (h : j.current = none) : j.settle = j := by
  cases j
  cases h
  simp [settle]

theorem settle_busy (h : j.sd.state ≠ .idle) : j.settle = j := if_neg h

theorem sound_start (f : File) : Sound f (start f) where
  dindex := Nat.zero_le _
  file := ⟨f, rfl, rfl, fun h => by cases h⟩
  free _ := rfl
  busy h := by
    rcases h with h | h
    · cases h
    · cases h

theorem Sound.settled (h : Sound f₀ j) : j.settle = j := by
  by_cases hidle : j.sd.state = .idle
  · exact settle_free (h.free (by simp [Sd.Busy, hidle]))
  · exact settle_busy hidle

/-- A command has come to its end. -/
theorem sound_settle {i : Image U8} (hidle : j.sd.state = .idle) (hcurrent : j.current = some c)
    (hdindex : j.sd.dindex ≤ 512) (hc : c.Complete i) (hdone : SdCommand.Executed f₀.image j.done i)
    (hfile : j.sd.sdFile = some f) (himage : f.image = c.effect i) : Sound f₀ j.settle := by
  rw [settle, if_pos hidle, hcurrent]
  refine ⟨hdindex, ⟨f, hfile, ?_, ?_⟩, fun _ => rfl, ?_⟩
  · rw [himage]
    exact hdone.snoc hc
  · simp [hidle]
  · simp [Sd.Busy, hidle]

/-! ## Reads -/

/-- The poll counter has no part in a transfer. -/
theorem Sound.polled (h : Sound f₀ j) (n : ℕ) {state : SdState} (hstate : j.sd.state = state) :
    Sound f₀ { j with sd := { j.sd with poll := n, state := state } } := by
  subst hstate
  refine ⟨h.dindex, h.file, h.free, fun hbusy => ?_⟩
  obtain ⟨c, hc, hserving⟩ := h.busy hbusy
  exact ⟨c, hc, hserving.writes, hserving.offset, hserving.dindex, hserving.lt, hserving.bytes,
    hserving.commits⟩

theorem Sound.initialised (h : Sound f₀ j) (hstate : j.sd.state = .initialising) (n : ℕ) :
    Sound f₀ { j with sd := { j.sd with poll := n, state := .idle } } := by
  obtain ⟨f, hf, hdone, -⟩ := h.file
  refine ⟨h.dindex, ⟨f, hf, hdone, by simp⟩, fun _ => h.free (by simp [Sd.Busy, hstate]), ?_⟩
  simp [Sd.Busy]

theorem Sound.readStatus (h : Sound f₀ j) : Sound f₀ (j.afterRead 1) := by
  have hstatus : Sound f₀ { j with sd := j.sd.readStatus.2 } := by
    rw [Sd.readStatus]
    cases hstate : j.sd.state with
    | noCard => exact h
    | initialising =>
      by_cases h16 : j.sd.poll + 1 = 16
      · simp only [if_pos h16]
        exact h.initialised hstate _
      · simp only [if_neg h16]
        exact h.polled _ hstate
    | idle => exact h
    | reading => exact h.polled _ hstate
    | writing => exact h.polled _ hstate
  have hsame : j.afterRead 1 = settle { j with sd := j.sd.readStatus.2 } := rfl
  rw [hsame, hstatus.settled]
  exact hstatus

theorem Serving.readData_eq (h : j.Serving c) (hready : j.sd.Accepts .reading) :
    j.sd.readData = (j.sd.data c.bytes.length,
      { j.sd with
        poll := 0
        state := if c.bytes.length = 511 then .idle else .reading
        dindex := c.bytes.length + 1 }) := by
  simp [Sd.readData, hready.1, hready.2, h.dindex, h.lt]

theorem Sound.readData (h : Sound f₀ j) : Sound f₀ (j.afterRead 0) := by
  by_cases hready : j.sd.Accepts .reading
  · obtain ⟨c, hcurrent, hserving⟩ := h.busy (.inl hready.1)
    obtain ⟨f, hf, hdone, hload⟩ := h.file
    obtain ⟨haddr, hdata⟩ := hload hready.1
    have hlt := hserving.lt
    have hreads : c.writes = false := by
      rw [Bool.eq_false_iff, Ne, hserving.writes, hready.1]
      decide
    have hbytes := Session.moved_append hserving.bytes rfl
    rw [afterRead, if_pos ⟨rfl, hready⟩, Sd.read, hserving.readData_eq hready, hcurrent]
    by_cases hlast : c.bytes.length = 511
    · have hlength : (c.bytes ++ [j.sd.data c.bytes.length]).length = 512 := by simp [hlast]
      refine sound_settle (c := c.moved (j.sd.data c.bytes.length)) (i := f.image)
        (by simp [hlast]) rfl (by simp only [hlast]; decide) ⟨?_, hlength, ?_⟩ hdone hf ?_
      · rw [SdCommand.moved, hserving.offset]
        exact haddr
      · rw [if_neg (by simp [SdCommand.moved, hreads])]
        refine ⟨?_, hserving.commits⟩
        rw [SdCommand.moved, hserving.offset]
        refine Image.eq_buffer hlength fun i hi => ?_
        rw [hbytes i hi]
        exact hdata i (lt_of_lt_of_eq hi hlength)
      · rw [SdCommand.effect, if_neg (by simp [SdCommand.moved, hreads])]
    · have hnext : Sound f₀ { j with
          sd := { j.sd with poll := 0, dindex := c.bytes.length + 1 }
          current := some (c.moved (j.sd.data c.bytes.length)) } := by
        refine ⟨by simp only; omega, ⟨f, hf, hdone, hload⟩, ?_, fun _ => ⟨_, rfl, ?_⟩⟩
        · intro hfree
          exact absurd (.inl hready.1) hfree
        · exact ⟨hserving.writes, hserving.offset, by simp [SdCommand.moved],
            by simp [SdCommand.moved]; omega, hbytes, hserving.commits⟩
      simp only [if_neg hlast, ← hready.1]
      rw [← hnext.settled] at hnext
      exact hnext
  · have hsame : j.afterRead 0 = j.settle := by
      have hrefused : ¬(j.sd.state = .reading ∧ j.sd.poll = 3) := hready
      rw [afterRead, if_neg fun hr => hready hr.2, Sd.read, Sd.readData]
      cases hstate : j.sd.state with
      | reading => simp only [if_neg fun hp => hrefused ⟨hstate, hp⟩]
      | noCard => rfl
      | initialising => rfl
      | idle => rfl
      | writing => rfl
    rw [hsame, h.settled]
    exact h

/-! ## Writes -/

/-- A register write that returns keeps the journal sound. -/
def WritesSound (f₀ : File) (j : Journal) (addr : ℕ) (val : U8) : Prop :=
  ∃ sd, j.sd.write addr val = .ok sd ∧ Sound f₀ (j.afterWrite addr val sd)

theorem sound_write {addr : ℕ} (sd : Sd) (hwrite : j.sd.write addr val = .ok sd)
    (hafter : j.afterWrite addr val sd = settle { j with sd := sd })
    (h : Sound f₀ { j with sd := sd }) : WritesSound f₀ j addr val := by
  refine ⟨sd, hwrite, ?_⟩
  rw [hafter, h.settled]
  exact h

/-- The buffer, the file and the state are those of before. -/
theorem Sound.addressed (h : Sound f₀ j) (b2 b1 b0 : U8) :
    Sound f₀ { j with sd := { j.sd with sdlba2 := b2, sdlba1 := b1, sdlba0 := b0 } } := by
  refine ⟨h.dindex, h.file, h.free, fun hbusy => ?_⟩
  obtain ⟨c, hc, hserving⟩ := h.busy hbusy
  exact ⟨c, hc, hserving.writes, hserving.offset, hserving.dindex, hserving.lt, hserving.bytes,
    hserving.commits⟩

/-- The controller after an accepted byte that does not fill the buffer. -/
def stored (val : U8) (sd : Sd) : Sd :=
  { sd with poll := 0, data := Function.update sd.data sd.dindex val, dindex := sd.dindex + 1 }

theorem stored_data (val : U8) (sd : Sd) :
    (stored val sd).data = Function.update sd.data sd.dindex val := rfl

theorem writeData_eq (hready : j.sd.Accepts .writing) (hlt : j.sd.dindex < 512) :
    j.sd.writeData val =
      if j.sd.dindex = 511 then (stored val j.sd).commit else .ok (stored val j.sd) := by
  have hwriting : j.sd.state = .writing ∧ j.sd.poll = 3 := hready
  simp only [Sd.writeData, if_pos hwriting, if_pos hlt]
  by_cases hlast : j.sd.dindex = 511
  · have hfull : j.sd.dindex + 1 = 512 := by omega
    simp only [if_pos hlast, if_pos hfull]
    rfl
  · have hmore : ¬j.sd.dindex + 1 = 512 := by omega
    simp only [if_neg hlast, if_neg hmore]
    rfl

theorem fseek_of_nonneg {a : ℤ} (h : 0 ≤ a) : f.fseek a = some (f.seek a.toNat) :=
  if_neg (not_lt.mpr h)

theorem nonneg_of_fseek {a : ℤ} {g : File} (h : f.fseek a = some g) : 0 ≤ a := by
  by_contra hneg
  rw [File.fseek, if_pos (not_le.mp hneg)] at h
  cases h

theorem commit_eq (sd : Sd) (hf : sd.sdFile = some f) (haddr : 0 ≤ sd.addr) : sd.commit =
    .ok { sd with sdFile := some ((f.seek sd.addr.toNat).write 512 sd.data), state := .idle } := by
  rw [Sd.commit]
  simp only [hf, fseek_of_nonneg haddr]

theorem Sound.writeData (h : Sound f₀ j) (hok : Served (.write 0 val) j) :
    WritesSound f₀ j 0 val := by
  by_cases hready : j.sd.Accepts .writing
  · obtain ⟨c, hcurrent, hserving⟩ := h.busy (.inr hready.1)
    obtain ⟨f, hf, hdone, -⟩ := h.file
    have hlt := hserving.lt
    have hdindex := hserving.dindex
    have hwrites : c.writes = true := hserving.writes.mpr hready.1
    have hbytes : ∀ i (hi : i < (c.bytes ++ [val]).length),
        (c.bytes ++ [val])[i] = (stored val j.sd).data i := by
      refine Session.moved_append (fun i hi => ?_) (by simp [stored_data, hdindex])
      rw [stored_data, hdindex, Function.update_of_ne hi.ne, hserving.bytes i hi]
    by_cases hlast : j.sd.dindex = 511
    · have hlength : (c.bytes ++ [val]).length = 512 := by
        rw [List.length_append, ← hdindex, hlast]
        rfl
      have haddr : 0 ≤ j.sd.addr := by
        obtain ⟨f', -, hseek⟩ := hok hready hlast
        obtain ⟨g, hg⟩ := Option.isSome_iff_exists.mp hseek
        exact nonneg_of_fseek hg
      have hcommit := commit_eq (stored val j.sd) hf haddr
      refine ⟨_, by rw [Sd.write, writeData_eq hready (by omega), if_pos hlast, hcommit], ?_⟩
      simp only [afterWrite, if_pos hready, if_pos hlast, hcurrent]
      refine sound_settle (i := f.image)
        (c := (c.moved val).committed { stored val j.sd with
          sdFile := some ((f.seek j.sd.addr.toNat).write 512 (stored val j.sd).data), state := .idle })
        rfl rfl ?_ ⟨?_, hlength, ?_⟩ hdone rfl ?_
      · simp only [stored, hlast]
        decide
      · simp only [SdCommand.moved, SdCommand.committed, hserving.offset]
        exact haddr
      · rw [if_pos (by simp [SdCommand.moved, SdCommand.committed, hwrites])]
        simp only [SdCommand.moved, SdCommand.committed, hserving.commits, hserving.offset]
        rw [← Image.eq_buffer hlength hbytes]
        rfl
      · have himage := File.write_image (f := f) (a := j.sd.addr.toNat) hbytes
        rw [hlength] at himage
        rw [SdCommand.effect, if_pos (by simp [SdCommand.moved, SdCommand.committed, hwrites])]
        simp only [SdCommand.moved, SdCommand.committed, hserving.offset]
        exact himage
    · have hnext : Sound f₀ { j with sd := stored val j.sd, current := some (c.moved val) } := by
        refine ⟨?_, ⟨f, hf, hdone, ?_⟩, fun hfree => absurd (.inr hready.1) hfree,
          fun _ => ⟨_, rfl, ?_⟩⟩
        · simp only [stored]
          omega
        · intro hreading
          rw [stored, hready.1] at hreading
          cases hreading
        · refine ⟨hserving.writes, hserving.offset, ?_, ?_, hbytes, hserving.commits⟩
          · simp [stored, SdCommand.moved, hdindex]
          · simp only [SdCommand.moved, List.length_append, List.length_singleton]
            omega
      refine ⟨_, by rw [Sd.write, writeData_eq hready (by omega), if_neg hlast], ?_⟩
      simp only [afterWrite, if_pos hready, if_neg hlast, hcurrent]
      rw [← hnext.settled] at hnext
      exact hnext
  · refine sound_write j.sd (if_neg hready) ?_ h
    simp only [afterWrite, if_neg hready]

/-- The controller after an accepted command, with `data` in its buffer. -/
def begun (sd : Sd) (a : ℤ) (state : SdState) (data : ℕ → U8) (file : File) : Sd :=
  { sd with
    addr := a
    poll := 0
    dindex := 0
    state := state
    data := data
    sdFile := some file }

theorem readBlock_eq (sd : Sd) (hf : sd.sdFile = some f) (haddr : 0 ≤ sd.addr)
    (hfull : (f.seek sd.addr.toNat).available 512 = 512) : sd.readBlock = .ok { sd with
      data := fun i => if i < 512 then f.bytes (sd.addr.toNat + i) else sd.data i
      sdFile := some ((f.seek sd.addr.toNat).advance 512) } := by
  simp only [Sd.readBlock, hf, fseek_of_nonneg haddr]
  rw [hfull]
  rfl

theorem readsFully_full {sd : Sd} (h : sd.ReadsFully) (hf : sd.sdFile = some f) :
    0 ≤ sd.formAddr ∧ (f.seek sd.formAddr.toNat).available 512 = 512 := by
  obtain ⟨f', hf', g, hg, hfull⟩ := h
  obtain rfl : f = f' := Option.some.inj (hf.symm.trans hf')
  have haddr := nonneg_of_fseek hg
  have hseek := fseek_of_nonneg (f := f) haddr
  obtain rfl : f.seek sd.formAddr.toNat = g := Option.some.inj (hseek.symm.trans hg)
  exact ⟨haddr, hfull⟩

theorem readBlock_begun {sd : Sd} {a : ℤ} (hf : sd.sdFile = some f) (haddr : 0 ≤ a)
    (hfull : (f.seek a.toNat).available 512 = 512) :
    ∃ data file, { sd with addr := a, poll := 0, dindex := 0, state := .reading }.readBlock =
        .ok (begun sd a .reading data file) ∧
      file.image = f.image ∧ ∀ i, i < 512 → data i = f.bytes (a.toNat + i) :=
  ⟨_, _, readBlock_eq { sd with addr := a, poll := 0, dindex := 0, state := .reading }
    hf haddr hfull, rfl, fun _ hi => if_pos hi⟩

theorem readCommand_eq {sd : Sd} (hf : sd.sdFile = some f) (hok : sd.ReadsFully) :
    ∃ a data file, 0 ≤ a ∧ sd.command 0 = .ok (begun sd a .reading data file) ∧
      file.image = f.image ∧ ∀ i, i < 512 → data i = f.bytes (a.toNat + i) := by
  have hcommand := Sd.command_zero sd
  have hseek := readsFully_full hok hf
  generalize sd.formAddr = a at hcommand hseek
  obtain ⟨haddr, hfull⟩ := hseek
  obtain ⟨data, file, hread, hload⟩ := readBlock_begun hf haddr hfull
  exact ⟨a, data, file, haddr, hcommand.trans hread, hload⟩

theorem writeCommand_eq {sd : Sd} (hf : sd.sdFile = some f) :
    ∃ a, sd.command 1 = .ok (begun sd a .writing sd.data f) := by
  use sd.formAddr
  simp [Sd.command, begun, hf]

theorem unknownCommand_eq (sd : Sd) (hread : val ≠ 0) (hwrite : val ≠ 1) :
    ∃ a, sd.command val = .ok { sd with addr := a, poll := 0 } := by
  use sd.formAddr
  simp only [Sd.command, if_neg hread, if_neg hwrite]

theorem write_command {sd sd' : Sd} (hidle : sd.state = .idle) (h : sd.command val = .ok sd') :
    sd.write 1 val = .ok { sd' with sdlba0 := val } := by
  rw [Sd.write, if_pos hidle, h]
  rfl

/-- A command starts with nothing moved. -/
theorem sound_begun {a : ℤ} {img : Image U8} (state : SdState) (data : ℕ → U8) (writes : Bool)
    (b0 : U8) (hwrites : writes = true ∧ state = .writing ∨ writes = false ∧ state = .reading)
    (hdone : SdCommand.Executed f₀.image j.done img) (himage : f.image = img)
    (hload : state = .reading → 0 ≤ a ∧ ∀ i, i < 512 → data i = f.bytes (a.toNat + i)) :
    Sound f₀ { j with
      sd := { begun j.sd a state data f with sdlba0 := b0 }
      current := some ⟨writes, a, [], []⟩ } := by
  have hbusy : state = .reading ∨ state = .writing := hwrites.symm.imp And.right And.right
  refine ⟨Nat.zero_le _, ⟨f, rfl, by rwa [himage], hload⟩, fun hfree => absurd hbusy hfree,
    fun _ => ⟨_, rfl, ?_, rfl, rfl, by simp, by simp, rfl⟩⟩
  rcases hwrites with ⟨rfl, rfl⟩ | ⟨rfl, rfl⟩
  · exact iff_of_true rfl rfl
  · exact iff_of_false Bool.false_ne_true (by simp [begun])

theorem Sound.control (h : Sound f₀ j) (hok : Served (.write 1 val) j) :
    WritesSound f₀ j 1 val := by
  obtain ⟨f, hf, hdone, hload⟩ := h.file
  by_cases hidle : j.sd.state = .idle
  · by_cases hread : val = 0
    · subst hread
      obtain ⟨a, data, file, haddr, hcommand, himage, hdata⟩ := readCommand_eq hf (hok hidle rfl)
      have hbytes : file.bytes = f.bytes := congrArg Image.bytes himage
      have hnext := sound_begun (f := file) .reading data false 0
        (.inr ⟨rfl, rfl⟩) hdone himage fun _ => ⟨haddr, by rw [hbytes]; exact hdata⟩
      refine ⟨_, write_command hidle hcommand, ?_⟩
      rw [afterWrite, if_pos ⟨hidle, .inl rfl⟩]
      rw [← hnext.settled] at hnext
      exact hnext
    · by_cases hwrite : val = 1
      · subst hwrite
        obtain ⟨a, hcommand⟩ := writeCommand_eq hf
        have hnext := sound_begun (a := a) (f := f) .writing j.sd.data true 1
          (.inl ⟨rfl, rfl⟩) hdone rfl (by simp)
        refine ⟨_, write_command hidle hcommand, ?_⟩
        rw [afterWrite, if_pos ⟨hidle, .inr rfl⟩]
        rw [← hnext.settled] at hnext
        exact hnext
      · obtain ⟨a, hcommand⟩ := unknownCommand_eq j.sd hread hwrite
        refine sound_write _ (write_command hidle hcommand) ?_ ?_
        · rw [afterWrite, if_neg fun hc => hc.2.elim hread hwrite]
        · refine ⟨h.dindex, ⟨f, hf, hdone, by simp [hidle]⟩, h.free, ?_⟩
          simp [Sd.Busy, hidle]
  · refine sound_write { j.sd with sdlba0 := val } ?_ ?_ (h.addressed _ _ _)
    · rw [Sd.write, if_neg hidle]
      rfl
    · rw [afterWrite, if_neg fun hc => hidle hc.1]

theorem Sound.write (h : Sound f₀ j) {addr : ℕ} (hok : Served (.write addr val) j) :
    WritesSound f₀ j addr val := by
  match addr with
  | 0 => exact h.writeData hok
  | 1 => exact h.control hok
  | 2 => exact sound_write _ rfl rfl (h.addressed _ _ _)
  | 3 => exact sound_write _ rfl rfl (h.addressed _ _ _)
  | 4 => exact sound_write _ rfl rfl (h.addressed _ _ _)
  | _ + 5 => exact sound_write _ rfl rfl h

theorem step_sound (e : Session.Event) :
    Triple (fun j => Sound f₀ j ∧ Served e j) (step e) (fun _ => Sound f₀) fun _ => False := by
  cases e with
  | read addr =>
    refine Triple.modify fun j h => ?_
    match addr with
    | 0 => exact h.1.readData
    | 1 => exact h.1.readStatus
    | addr + 2 =>
      have hsame : j.afterRead (addr + 2) = j.settle := rfl
      rw [hsame, h.1.settled]
      exact h.1
  | write addr val =>
    intro j h
    obtain ⟨sd, hwrite, hsound⟩ := h.1.write h.2
    rw [step, run_bind_ok run_get, hwrite]
    exact hsound

/-! ## The transitions of `mc_state` -/

/-- One register access moves the state along at most one edge. -/
def Edge (a b : SdState) : Prop := b = a ∨ Sd.Moves a b

theorem readData_edge (sd : Sd) : Edge sd.state sd.readData.2.state := by
  rw [Sd.readData]
  cases hstate : sd.state with
  | reading =>
    by_cases hpoll : sd.poll = 3
    · have hnext : Edge .reading (if sd.dindex = 511 then SdState.idle else .reading) := by
        by_cases hlast : sd.dindex = 511
        · rw [if_pos hlast]
          exact .inr .readDone
        · rw [if_neg hlast]
          exact .inl rfl
      simp only [if_pos hpoll]
      split
      · exact hnext
      · exact hnext
    · simp only [if_neg hpoll]
      exact .inl hstate
  | noCard => exact .inl hstate
  | initialising => exact .inl hstate
  | idle => exact .inl hstate
  | writing => exact .inl hstate

theorem readStatus_edge (sd : Sd) : Edge sd.state sd.readStatus.2.state := by
  rw [Sd.readStatus]
  cases hstate : sd.state with
  | initialising =>
    by_cases h16 : sd.poll + 1 = 16
    · simp only [if_pos h16]
      exact .inr .initialised
    · simp only [if_neg h16]
      exact .inl rfl
  | noCard => exact .inl hstate
  | idle => exact .inl hstate
  | reading => exact .inl rfl
  | writing => exact .inl rfl

theorem writeData_edge {sd sd' : Sd} (h : sd.writeData val = .ok sd') : Edge sd.state sd'.state := by
  rcases sd.writeData_cases val with ⟨data, dindex, poll, hwrite⟩ | ⟨hwriting, data, dindex, hwrite⟩
  · rw [hwrite] at h
    cases h
    exact .inl rfl
  · rw [hwrite] at h
    rw [hwriting, (Sd.commit_ok h).1]
    exact .inr .written

theorem command_edge {sd sd' : Sd} (hidle : sd.state = .idle) (h : sd.command val = .ok sd') :
    Edge sd.state sd'.state := by
  by_cases hread : val = 0
  · subst hread
    rw [Sd.command_zero] at h
    rw [hidle, (Sd.readBlock_ok h).1]
    exact .inr .read
  · by_cases hwrite : val = 1
    · simp only [Sd.command, if_neg hread, if_pos hwrite] at h
      cases h
      exact .inr (hidle ▸ .write)
    · simp only [Sd.command, if_neg hread, if_neg hwrite] at h
      cases h
      exact .inl rfl

theorem control_edge {sd sd' : Sd} (h : sd.write 1 val = .ok sd') : Edge sd.state sd'.state := by
  by_cases hidle : sd.state = .idle
  · cases hcommand : sd.command val with
    | error x =>
      rw [Sd.write, if_pos hidle, hcommand] at h
      cases h
    | ok sd₁ =>
      rw [write_command hidle hcommand] at h
      cases h
      have hedge := command_edge hidle hcommand
      exact hedge
  · rw [Sd.write, if_neg hidle] at h
    cases h
    exact .inl rfl

theorem read_edge (addr : ℕ) (sd : Sd) : Edge sd.state (sd.read addr).2.state := by
  match addr with
  | 0 => exact readData_edge sd
  | 1 => exact readStatus_edge sd
  | _ + 2 => exact .inl rfl

theorem write_edge {addr : ℕ} {sd sd' : Sd} (h : sd.write addr val = .ok sd') :
    Edge sd.state sd'.state := by
  match addr with
  | 0 => exact writeData_edge h
  | 1 => exact control_edge h
  | 2 | 3 | 4 | _ + 5 =>
    cases h
    exact .inl rfl

theorem settle_sd (j : Journal) : j.settle.sd = j.sd := by
  rw [settle]
  split
  · rfl
  · rfl

theorem afterRead_sd (addr : ℕ) (j : Journal) : (j.afterRead addr).sd = (j.sd.read addr).2 := by
  rw [afterRead]
  split
  · rw [settle_sd]
  · rw [settle_sd]

theorem afterWrite_sd (addr : ℕ) (j : Journal) (sd : Sd) : (j.afterWrite addr val sd).sd = sd := by
  match addr with
  | 0 =>
    by_cases hready : j.sd.Accepts .writing
    · simp only [afterWrite, if_pos hready, settle_sd]
    · simp only [afterWrite, if_neg hready, settle_sd]
  | 1 =>
    by_cases hcommand : j.sd.state = .idle ∧ (val = 0 ∨ val = 1)
    · simp only [afterWrite, if_pos hcommand, settle_sd]
    · simp only [afterWrite, if_neg hcommand, settle_sd]
  | _ + 2 => exact settle_sd _

theorem step_edge {e : Session.Event} {t : Journal} (h : step e j = .ok () t) :
    Edge j.sd.state t.sd.state := by
  cases e with
  | read addr =>
    obtain rfl : j.afterRead addr = t := by
      rw [step, run_modify] at h
      cases h
      rfl
    rw [afterRead_sd]
    exact read_edge addr j.sd
  | write addr val =>
    rw [step, run_bind_ok run_get] at h
    cases hwrite : j.sd.write addr val with
    | error x =>
      rw [hwrite] at h
      cases h
    | ok sd =>
      rw [hwrite] at h
      obtain rfl : j.afterWrite addr val sd = t := by
        cases h
        rfl
      rw [afterWrite_sd]
      exact write_edge hwrite

/-! ## Runs -/

/-- What the controller owes to the guest at any moment of a run from the image `f`. -/
structure Exact (f : File) (j : Journal) : Prop where
  dindex : j.sd.dindex ≤ 512
  /-- An accepted data access finds its place in the buffer: the branches about too much data are
  not taken. -/
  accepted : j.sd.Accepts .reading ∨ j.sd.Accepts .writing → j.sd.dindex < 512
  edge : ∀ e t, step e j = .ok () t → t.sd.state = j.sd.state ∨ Sd.Moves j.sd.state t.sd.state
  free : ¬j.sd.Busy → j.current = none
  /-- Every command but the current one is complete. -/
  executed : ∃ file, j.sd.sdFile = some file ∧ SdCommand.Executed f.image j.done file.image ∧
    (j.sd.Busy → ∃ c, j.current = some c ∧ (c.writes = true ↔ j.sd.state = .writing) ∧
      c.Partial file.image)

theorem Sound.exact (h : Sound f₀ j) : j.Exact f₀ := by
  obtain ⟨f, hf, hdone, hload⟩ := h.file
  refine ⟨h.dindex, fun hready => ?_, fun _ _ => step_edge, h.free, f, hf, hdone, fun hbusy => ?_⟩
  · obtain ⟨c, -, hserving⟩ := h.busy (hready.imp And.left And.left)
    rw [hserving.dindex]
    exact hserving.lt
  · obtain ⟨c, hcurrent, hserving⟩ := h.busy hbusy
    refine ⟨c, hcurrent, hserving.writes, hserving.lt, hserving.commits, fun hreads => ?_⟩
    have hreading : j.sd.state = .reading := by
      refine hbusy.resolve_right fun hwriting => ?_
      rw [← hserving.writes, hreads] at hwriting
      cases hwriting
    obtain ⟨haddr, hdata⟩ := hload hreading
    rw [hserving.offset]
    refine ⟨haddr, Image.prefix_buffer hserving.lt.le fun i hi => ?_⟩
    rw [hserving.bytes i hi]
    exact hdata i (lt_trans hi hserving.lt)

theorem exact_along_run {es : List Session.Event} {f : File} (h : Along step Served es (start f)) :
    ∃ j, runAll step es (start f) = .ok () j ∧ j.Exact f := by
  obtain ⟨_, j, hrun, hj⟩ := (runAll_invariant step_sound es).total ⟨sound_start f, h⟩
  exact ⟨j, hrun, hj.exact⟩

/-- Block 5 is read; a control write and an early read come in between. -/
theorem exact_along_run_block : ∃ j, runAll step
    (Session.initialise ++ [.write 2 5, .read 0, .write 1 0, .read 1, .write 1 1, .read 0, .read 1,
      .read 1, .read 0]) (start Session.numbered) = .ok () j ∧ j.Exact Session.numbered :=
  exact_along_run (by decide +kernel)

end Journal

end Exec09.Multicomp
