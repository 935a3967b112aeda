import Exec09.Cpu.MachineView
import Exec09.Machines.AddressSpace

/-! # What a program leaves in the memory and on the console

After any session the memory, the characters printed, the characters still to
be read and the transmitter of the console are determined by the accesses of
the processor.
-/
namespace Exec09.Machines
open Foundation

/-- The byte that the latest store to the address has put there. -/
def lastStore (a : ℕ) : List Access → Option U8
  | [] => none
  | .write8 a' data :: l => if a' = a then some (BitVec.ofNat 8 data) else lastStore a l
  | _ :: l => lastStore a l

namespace SingleBoard

def consoleBase : SingleBoard → ℕ
  | simple => 0xFF00
  | smii => 0x7C00
  | kipper1 => 0xA000

/-- The register that prints what is stored in it. -/
def outPort : SingleBoard → ℕ
  | simple => 0
  | smii => 3
  | kipper1 => 1

/-- The register that reads the next character. -/
def inPort : SingleBoard → ℕ
  | simple => 2
  | smii => 3
  | kipper1 => 1

/-- The bytes stored in the output register, latest first. -/
def written (m : SingleBoard) : List Access → List U8 := List.filterMap fun
  | .write8 a data => if a = m.consoleBase + m.outPort then some (BitVec.ofNat 8 data) else none
  | _ => none

/-- How often an access reads a register of the console. -/
def touches (m : SingleBoard) (port : ℕ) : Access → ℕ
  | .read8 a => if a = m.consoleBase + port then 1 else 0
  | .read16 a => if a = m.consoleBase + port ∨ a + 1 = m.consoleBase + port then 1 else 0
  | .write8 _ _ => 0

def readings (m : SingleBoard) (port : ℕ) (l : List Access) : ℕ := (l.map (m.touches port)).sum

end SingleBoard

/-- How often the status register of smii has been read since the last store to its transmitter. -/
def polls : List Access → Option ℕ
  | [] => none
  | e :: l =>
    match e with
    | .write8 a _ => if a = 0x7C03 then some 0 else polls l
    | e => (polls l).map (· + SingleBoard.smii.touches 2 e)

/-- The transmitter takes the next character. -/
def ready (l : List Access) : Bool := (polls l).all (3 ≤ ·)

/-- The stores to a transmitter that was not ready. -/
def overruns : List Access → ℕ
  | [] => 0
  | .write8 a _ :: l => overruns l + if a = 0x7C03 ∧ ready l = false then 1 else 0
  | _ :: l => overruns l

/-- A character that a console printed. -/
def Printed.char? : Printed → Option U8
  | .char c => some c
  | _ => none

/-- The characters that the console has not read. -/
def Terminal.pending (t : Terminal) : SingleBoard → List U8
  | .simple => t.input
  | _ => t.batchFile ++ t.input

variable {m : SingleBoard} {c c₀ : Computer m} {a : ℕ} {l : List Access}

/-! ## The registers of the console -/

namespace Terminal

/-- What an operation of a console does to the terminal. -/
structure Step (m : SingleBoard) (taken : ℕ) (shown : List U8) (t t' : Terminal) : Prop where
  pending : t'.pending m = (t.pending m).drop taken
  chars : t'.output.filterMap Printed.char? = shown ++ t.output.filterMap Printed.char?

theorem Step.trans {taken taken' : ℕ} {shown shown' : List U8} {t t' t'' : Terminal}
    (h : Step m taken shown t t') (h' : Step m taken' shown' t' t'') :
    Step m (taken' + taken) (shown' ++ shown) t t'' where
  pending := by rw [h'.pending, h.pending, List.drop_drop, Nat.add_comm]
  chars := by rw [h'.chars, h.chars, List.append_assoc]

theorem getchar_final (t : Terminal) :
    finalState (getchar t) = { t with input := t.input.drop 1 } := by
  obtain ⟨batchFile, input, output, oBusy⟩ := t
  rw [getchar, run_bind_ok run_get]
  cases input <;> rfl

theorem nextChar_final (t : Terminal) : finalState (nextChar t) =
    { t with
      batchFile := t.batchFile.drop 1
      input := if t.batchFile = [] then t.input.drop 1 else t.input } := by
  obtain ⟨batchFile, input, output, oBusy⟩ := t
  rw [nextChar, run_bind_ok run_get]
  cases batchFile with
  | nil => cases input <;> rfl
  | cons c rest => rfl

theorem converted_final (t : Terminal) :
    finalState ((do return convert (← nextChar) : TerminalM U8) t) = finalState (nextChar t) := by
  cases h : nextChar t with
  | ok c t' => rw [run_bind_ok h]; rfl
  | error e t' => rw [run_bind_error h]

/-- The next character comes from the batch file, and from the keyboard after its end. -/
theorem converted_pending (t : Terminal)
    (hm : ∀ t : Terminal, t.pending m = t.batchFile ++ t.input) :
    Step m 1 [] t (finalState ((do return convert (← nextChar) : TerminalM U8) t)) := by
  rw [converted_final, nextChar_final]
  refine ⟨?_, rfl⟩
  rw [hm, hm]
  obtain ⟨batchFile, input, output, oBusy⟩ := t
  cases batchFile <;> rfl

/-- Reading a register of the console does not end the emulator. -/
theorem consoleRead_ok (m : SingleBoard) (port : ℕ) (t : Terminal) :
    ∃ v t', m.consoleRead port t = .ok v t' := by
  have hgetchar (t : Terminal) : ∃ v t', getchar t = .ok v t' := by
    obtain ⟨batchFile, input, output, oBusy⟩ := t
    cases input <;> exact ⟨_, _, rfl⟩
  have hconverted : ∃ v t', (do return convert (← nextChar) : TerminalM U8) t = .ok v t' := by
    obtain ⟨batchFile, input, output, oBusy⟩ := t
    cases batchFile with
    | nil => cases input <;> exact ⟨_, _, rfl⟩
    | cons c rest => exact ⟨_, _, rfl⟩
  cases m with
  | simple =>
    rcases port with _ | _ | _ | port
    case succ.succ.zero => exact hgetchar t
    all_goals exact ⟨_, _, rfl⟩
  | smii =>
    rcases port with _ | _ | _ | _ | port
    case succ.succ.succ.zero => exact hconverted
    all_goals exact ⟨_, _, rfl⟩
  | kipper1 =>
    rcases port with _ | _ | port
    case succ.zero => exact hconverted
    all_goals exact ⟨_, _, rfl⟩

/-- Only a store to one register of the console of `simple` does. -/
theorem consoleWrite_ok {port : ℕ} (hport : m = .simple → port ≠ 1) (v : U8) (t : Terminal) :
    ∃ t', m.consoleWrite port v t = .ok () t' := by
  cases m with
  | simple =>
    rcases port with _ | _ | port
    case succ.zero => exact absurd rfl (hport rfl)
    all_goals exact ⟨_, rfl⟩
  | smii =>
    rcases port with _ | _ | _ | _ | port
    case succ.succ.succ.zero =>
      obtain ⟨batchFile, input, output, oBusy⟩ := t
      cases oBusy <;> exact ⟨_, rfl⟩
    all_goals exact ⟨_, rfl⟩
  | kipper1 => rcases port with _ | _ | port <;> exact ⟨_, rfl⟩

theorem consoleRead_step (m : SingleBoard) (port : ℕ) (t : Terminal) :
    Step m (if port = m.inPort then 1 else 0) [] t (finalState (m.consoleRead port t)) := by
  cases m with
  | simple =>
    rcases port with _ | _ | _ | port
    · exact ⟨rfl, rfl⟩
    · exact ⟨rfl, rfl⟩
    · change Step .simple 1 [] t (finalState (getchar t))
      rw [getchar_final]
      exact ⟨rfl, rfl⟩
    · exact ⟨rfl, rfl⟩
  | smii =>
    rcases port with _ | _ | _ | _ | port
    · exact ⟨rfl, rfl⟩
    · exact ⟨rfl, rfl⟩
    · exact ⟨rfl, rfl⟩
    · exact converted_pending t fun _ => rfl
    · exact ⟨rfl, rfl⟩
  | kipper1 =>
    rcases port with _ | _ | port
    · exact ⟨rfl, rfl⟩
    · exact converted_pending t fun _ => rfl
    · exact ⟨rfl, rfl⟩

theorem consoleWrite_step (m : SingleBoard) (port : ℕ) (v : U8) (t : Terminal) :
    Step m 0 (if port = m.outPort then [v] else []) t (finalState (m.consoleWrite port v t)) := by
  cases m with
  | simple => rcases port with _ | _ | port <;> exact ⟨rfl, rfl⟩
  | smii =>
    rcases port with _ | _ | _ | _ | port
    · exact ⟨rfl, rfl⟩
    · exact ⟨rfl, rfl⟩
    · exact ⟨rfl, rfl⟩
    · obtain ⟨batchFile, input, output, oBusy⟩ := t
      cases oBusy <;> exact ⟨rfl, rfl⟩
    · exact ⟨rfl, rfl⟩
  | kipper1 => rcases port with _ | _ | port <;> exact ⟨rfl, rfl⟩

end Terminal

/-! ## The operations of the bus -/

namespace SingleBoard

theorem console_block (ha : a < 0x10000) :
    m.block (a / 128) = .console ↔ m.consoleBase ≤ a ∧ a < m.consoleBase + 128 := by
  have hdecide : ∀ b < 512, (m.block b = .console ↔ b = m.consoleBase / 128) := by
    cases m <;> decide +kernel
  rw [hdecide _ (by omega)]
  cases m <;> simp only [consoleBase] <;> omega

theorem port_of_console (ha : a < 0x10000) (hb : m.block (a / 128) = .console) :
    a % 128 = a - m.consoleBase := by
  have hrange := (console_block ha).mp hb
  cases m <;> simp only [consoleBase] at hrange ⊢ <;> omega

theorem not_console (ha : ¬a < 0x10000) : ¬(m.consoleBase ≤ a ∧ a < m.consoleBase + 128) := by
  cases m <;> simp only [consoleBase] <;> omega

end SingleBoard

namespace Computer

theorem onConsole_final {α : Type} (op : TerminalM α) (c : Computer m) :
    finalState (onConsole op c) = { c with console := finalState (op c.console) } := by
  rw [onConsole]
  cases op c.console <;> rfl

theorem fault_final (c : Computer m) : finalState (fault c) = c := by
  rw [fault_run]
  split <;> rfl

theorem simError_final (c : Computer m) : finalState (simError c) = c := by
  rw [simError_run]
  split <;> rfl

theorem read8_final (a : ℕ) (c : Computer m) : finalState (read8 a c) =
    if m.consoleBase ≤ a ∧ a < m.consoleBase + 128 then
      { c with console := finalState (m.consoleRead (a - m.consoleBase) c.console) }
    else c := by
  rw [read8]
  by_cases ha : a < 0x10000
  · simp only [if_pos ha, ← SingleBoard.console_block ha]
    cases hb : m.block (a / 128) with
    | ram | rom quiet => rfl
    | console =>
      rw [if_pos rfl, ← SingleBoard.port_of_console ha hb]
      exact onConsole_final _ c
    | sink | vacant => exact (finalState_bind (f := id) (fun _ _ => Keeps.pure _) c).trans (fault_final c)
  · rw [if_neg ha, if_neg (SingleBoard.not_console ha)]
    rfl

theorem read16_final (a : ℕ) (c : Computer m) : finalState (read16 a c) =
    if m.consoleBase ≤ a ∧ a < m.consoleBase + 128 then
      { c with console := finalState (m.consoleRead (a - m.consoleBase + 1)
          (finalState (m.consoleRead (a - m.consoleBase) c.console))) }
    else c := by
  rw [read16]
  by_cases ha : a < 0x10000
  · simp only [if_pos ha, ← SingleBoard.console_block ha]
    cases hb : m.block (a / 128) with
    | ram | rom quiet =>
      dsimp only
      split
      · rfl
      · split <;> rfl
    | console =>
      rw [if_pos rfl, ← SingleBoard.port_of_console ha hb]
      obtain ⟨high, t, hrun⟩ := Terminal.consoleRead_ok m (a % 128) c.console
      have hfirst : onConsole (m.consoleRead (a % 128)) c = .ok high { c with console := t } := by
        rw [onConsole, hrun]
      rw [hrun]
      dsimp only
      rw [run_bind_ok hfirst]
      exact (finalState_bind (f := id) (fun _ _ => Keeps.pure _) _).trans (onConsole_final _ _)
    | sink | vacant => exact (finalState_bind (f := id) (fun _ _ => Keeps.pure _) c).trans (fault_final c)
  · rw [if_neg ha, if_neg (SingleBoard.not_console ha)]
    rfl

/-- Reads leave the memory alone. -/
theorem read8_kept (a : ℕ) (c : Computer m) :
    (finalState (read8 a c)).mem = c.mem ∧ (finalState (read8 a c)).running = c.running := by
  rw [read8_final]
  split <;> exact ⟨rfl, rfl⟩

theorem read16_kept (a : ℕ) (c : Computer m) :
    (finalState (read16 a c)).mem = c.mem ∧ (finalState (read16 a c)).running = c.running := by
  rw [read16_final]
  split <;> exact ⟨rfl, rfl⟩

/-- A store changes the byte. -/
def takes (m : SingleBoard) (running : Bool) (a : ℕ) : Bool :=
  a < 0x10000 && match m.block (a / 128) with
    | .ram => true
    | .rom _ => !running
    | _ => false

theorem write8_final (a : ℕ) (v : U8) (c : Computer m) : finalState (write8 a v c) =
    if m.consoleBase ≤ a ∧ a < m.consoleBase + 128 then
      { c with console := finalState (m.consoleWrite (a - m.consoleBase) v c.console) }
    else if takes m c.running a then poke a v c
    else c := by
  rw [write8]
  by_cases ha : a < 0x10000
  · simp only [← SingleBoard.console_block ha, takes, ha, decide_true, Bool.true_and, if_true]
    cases hb : m.block (a / 128) with
    | ram => rfl
    | rom quiet =>
      dsimp only
      rw [run_bind_ok run_get, if_neg (c := Block.rom quiet = .console) Block.noConfusion]
      cases c.running with
      | false => rfl
      | true =>
        cases quiet
        · exact simError_final c
        · rfl
    | console =>
      rw [if_pos rfl, ← SingleBoard.port_of_console ha hb]
      exact onConsole_final _ c
    | sink => rfl
    | vacant => exact fault_final c
  · rw [if_neg ha, if_neg (SingleBoard.not_console ha), takes, decide_eq_false ha]
    rfl

end Computer

/-! ## Invariants of all accesses -/

theorem lastStore_write (l : List Access) (a a' data : ℕ) : lastStore a (.write8 a' data :: l) =
    if a' = a then some (BitVec.ofNat 8 data) else lastStore a l := rfl

/-- A byte of the RAM is what was last stored there. -/
theorem ram_reaches (ha : a < 0x10000) (hb : m.block (a / 128) = .ram) (h : Reaches c₀ l c) :
    c.mem a = (lastStore a l).getD (c₀.mem a) := by
  have hoff : ¬(m.consoleBase ≤ a ∧ a < m.consoleBase + 128) := by
    rw [← SingleBoard.console_block ha, hb]
    exact Block.noConfusion
  induction h with
  | start => rfl
  | read8 pc a' _ ih => exact (congrFun (Computer.read8_kept a' _).1 a).trans ih
  | read16 pc a' _ ih => exact (congrFun (Computer.read16_kept a' _).1 a).trans ih
  | @write8 l c pc a' data _ ih =>
    change (finalState (Computer.write8 a' (BitVec.ofNat 8 data) c)).mem a = _
    rw [Computer.write8_final, lastStore_write]
    by_cases hsame : a' = a
    · subst hsame
      rw [if_neg hoff, if_pos (by simp [Computer.takes, ha, hb]), if_pos rfl]
      exact Function.update_self ..
    · rw [if_neg hsame, ← ih]
      split
      · rfl
      · split
        · exact Function.update_of_ne (Ne.symm hsame) ..
        · rfl
  | @simError l c _ ih => exact (congrArg (·.mem a) (Computer.simError_final c)).trans ih
  | running _ ih => exact ih

/-- The CPU, once it runs, does not change a ROM. -/
theorem rom_reaches {quiet : Bool} (hb : m.block (a / 128) = .rom quiet)
    (hrunning : c₀.running = true) (h : Reaches c₀ l c) :
    c.running = true ∧ c.mem a = c₀.mem a := by
  induction h with
  | start => exact ⟨hrunning, rfl⟩
  | @read8 l c pc a' _ ih =>
    obtain ⟨hmem, hrun⟩ := Computer.read8_kept a' c
    exact ⟨hrun.trans ih.1, (congrFun hmem a).trans ih.2⟩
  | @read16 l c pc a' _ ih =>
    obtain ⟨hmem, hrun⟩ := Computer.read16_kept a' c
    exact ⟨hrun.trans ih.1, (congrFun hmem a).trans ih.2⟩
  | @write8 l c pc a' data _ ih =>
    change (finalState (Computer.write8 a' (BitVec.ofNat 8 data) c)).running = true ∧
      (finalState (Computer.write8 a' (BitVec.ofNat 8 data) c)).mem a = _
    rw [Computer.write8_final]
    split
    · exact ih
    · split
      case isTrue htakes =>
        have hother : a ≠ a' := by
          rintro rfl
          simp [Computer.takes, hb, ih.1] at htakes
        exact ⟨ih.1, (Function.update_of_ne hother ..).trans ih.2⟩
      case isFalse => exact ih
  | @simError l c _ ih =>
    rw [show finalState (Bus.simError c) = c from Computer.simError_final c]
    exact ih
  | running _ ih => exact ⟨rfl, ih.2⟩

namespace SingleBoard

theorem touches_read8 {port : ℕ} (hport : port < 128) : m.touches port (.read8 a) =
    if m.consoleBase ≤ a ∧ a < m.consoleBase + 128 then if a - m.consoleBase = port then 1 else 0
    else 0 := by
  rw [touches]
  split
  · rw [if_pos (by omega), if_pos (by omega)]
  · split
    · rw [if_neg (by omega)]
    · rfl

theorem touches_read16 {port : ℕ} (hpos : 0 < port) (hport : port < 128) :
    m.touches port (.read16 a) =
      if m.consoleBase ≤ a ∧ a < m.consoleBase + 128 then
        (if a - m.consoleBase + 1 = port then 1 else 0) + if a - m.consoleBase = port then 1 else 0
      else 0 := by
  rw [touches]
  split
  · rw [if_pos (by omega)]
    split <;> split <;> omega
  · split
    · rw [if_neg (by omega), if_neg (by omega)]
    · rfl

theorem inPort_range (m : SingleBoard) : 0 < m.inPort ∧ m.inPort < 128 := by
  cases m <;> decide

theorem outPort_lt (m : SingleBoard) : m.outPort < 128 := by
  cases m <;> decide

end SingleBoard

/-- What the console has printed and read. -/
theorem console_reaches (h : Reaches c₀ l c) :
    Terminal.Step m (m.readings m.inPort l) (m.written l) c₀.console c.console := by
  obtain ⟨hpos, hport⟩ := m.inPort_range
  induction h with
  | start => exact ⟨rfl, rfl⟩
  | @read8 l c pc a' _ ih =>
    have hstep := Terminal.consoleRead_step m (a' - m.consoleBase) c.console
    change Terminal.Step m (m.touches m.inPort (.read8 a') + m.readings m.inPort l) (m.written l)
      c₀.console (finalState (Computer.read8 a' c)).console
    rw [Computer.read8_final, SingleBoard.touches_read8 hport]
    split
    · exact ih.trans hstep
    · rwa [Nat.zero_add]
  | @read16 l c pc a' _ ih =>
    have hhigh := Terminal.consoleRead_step m (a' - m.consoleBase) c.console
    have hlow := Terminal.consoleRead_step m (a' - m.consoleBase + 1)
      (finalState (m.consoleRead (a' - m.consoleBase) c.console))
    change Terminal.Step m (m.touches m.inPort (.read16 a') + m.readings m.inPort l) (m.written l)
      c₀.console (finalState (Computer.read16 a' c)).console
    rw [Computer.read16_final, SingleBoard.touches_read16 hpos hport]
    split
    · exact ih.trans (hhigh.trans hlow)
    · rwa [Nat.zero_add]
  | @write8 l c pc a' data _ ih =>
    have hstep := Terminal.consoleWrite_step m (a' - m.consoleBase) (BitVec.ofNat 8 data) c.console
    have hport := m.outPort_lt
    have hwritten : m.written (.write8 a' data :: l) =
        (if a' = m.consoleBase + m.outPort then [BitVec.ofNat 8 data] else []) ++ m.written l := by
      by_cases hsame : a' = m.consoleBase + m.outPort
      · rw [if_pos hsame]
        exact List.filterMap_cons_some (if_pos hsame)
      · rw [if_neg hsame]
        exact List.filterMap_cons_none (if_neg hsame)
    change Terminal.Step m (0 + m.readings m.inPort l) (m.written (.write8 a' data :: l))
      c₀.console (finalState (Computer.write8 a' (BitVec.ofNat 8 data) c)).console
    rw [Computer.write8_final, hwritten]
    by_cases hin : m.consoleBase ≤ a' ∧ a' < m.consoleBase + 128
    · rw [if_pos hin]
      have hsame : a' - m.consoleBase = m.outPort ↔ a' = m.consoleBase + m.outPort := by omega
      rw [← if_congr hsame rfl rfl]
      exact ih.trans hstep
    · rw [if_neg hin, if_neg (show a' ≠ m.consoleBase + m.outPort by omega), Nat.zero_add,
        List.nil_append]
      split <;> exact ih
  | @simError l c _ ih =>
    rw [show finalState (Bus.simError c) = c from Computer.simError_final c]
    exact ih
  | running _ ih => exact ih

/-! ## The transmitter of smii -/

/-- `smii_o_busy` after so many polls. -/
def busyAfter : Option ℕ → ℕ
  | none => 0
  | some k => if k < 3 then k + 1 else 0

/-- What an operation does to the transmitter. -/
structure Transmits (busy : ℕ) (warned : ℕ) (t t' : Terminal) : Prop where
  oBusy : t'.oBusy = busy
  warnings : t'.output.count .busyWrite = warned + t.output.count .busyWrite

theorem Transmits.trans {busy busy' warned warned' : ℕ} {t t' t'' : Terminal}
    (h : Transmits busy warned t t') (h' : Transmits busy' warned' t' t'') :
    Transmits busy' (warned' + warned) t t'' :=
  ⟨h'.oBusy, by rw [h'.warnings, h.warnings, Nat.add_assoc]⟩

/-- Of the messages only one is about the transmitter. -/
theorem other_count {p : Printed} (hp : p ≠ .busyWrite) (l : List Printed) :
    (p :: l).count .busyWrite = 0 + l.count .busyWrite :=
  (List.count_cons_of_ne hp).trans (Nat.zero_add _).symm

/-- Three polls make the transmitter ready. -/
theorem busyAfter_poll (q : Option ℕ) : busyAfter (q.map (· + 1)) =
    if busyAfter q = 0 then 0 else (busyAfter q + 1) % 4 := by
  cases q with
  | none => rfl
  | some k =>
    simp only [Option.map_some, busyAfter]
    split_ifs <;> omega

theorem smiiRead_transmits (port : ℕ) {t : Terminal} {q : Option ℕ} (h : t.oBusy = busyAfter q) :
    Transmits (busyAfter (q.map (· + if port = 2 then 1 else 0))) 0 t
      (finalState (SingleBoard.smii.consoleRead port t)) := by
  have hsame : t.oBusy = busyAfter (q.map (· + 0)) := by simpa using h
  rcases port with _ | _ | _ | _ | port
  · exact ⟨hsame, other_count (by simp) _⟩
  · exact ⟨hsame, other_count (by simp) _⟩
  · refine ⟨?_, (Nat.zero_add _).symm⟩
    rw [if_pos rfl, busyAfter_poll, ← h]
    rfl
  · change Transmits _ 0 t (finalState ((do return Terminal.convert (← Terminal.nextChar)) t))
    rw [Terminal.converted_final, Terminal.nextChar_final]
    exact ⟨hsame, (Nat.zero_add _).symm⟩
  · exact ⟨hsame, other_count (by simp) _⟩

theorem smiiWrite_transmits (port : ℕ) (v : U8) (t : Terminal) :
    Transmits (if port = 3 then 1 else t.oBusy) (if port = 3 ∧ t.oBusy ≠ 0 then 1 else 0) t
      (finalState (SingleBoard.smii.consoleWrite port v t)) := by
  rcases port with _ | _ | _ | _ | port
  · exact ⟨rfl, (Nat.zero_add _).symm⟩
  · exact ⟨rfl, other_count (by simp) _⟩
  · exact ⟨rfl, (Nat.zero_add _).symm⟩
  · obtain ⟨batchFile, input, output, oBusy⟩ := t
    cases oBusy with
    | zero => exact ⟨rfl, other_count (by simp) _⟩
    | succ n =>
      refine ⟨rfl, (other_count (by simp) _).trans ?_⟩
      change 0 + (Printed.busyWrite :: output).count .busyWrite = 1 + output.count .busyWrite
      rw [List.count_cons_self]
      omega
  · exact ⟨rfl, other_count (by simp) _⟩

theorem ready_iff (l : List Access) : ready l = true ↔ busyAfter (polls l) = 0 := by
  rw [ready]
  cases polls l with
  | none => exact iff_of_true rfl rfl
  | some k =>
    simp only [Option.all_some, decide_eq_true_eq, busyAfter]
    split <;> omega

section Accesses
variable {c : Computer .smii} {q : Option ℕ}

theorem read8_transmits (a : ℕ) (h : c.console.oBusy = busyAfter q) :
    Transmits (busyAfter (q.map (· + SingleBoard.smii.touches 2 (.read8 a)))) 0 c.console
      (finalState (Computer.read8 a c)).console := by
  rw [SingleBoard.touches_read8 (show 2 < 128 by decide), Computer.read8_final]
  generalize a - SingleBoard.smii.consoleBase = port
  split
  · exact smiiRead_transmits port h
  · exact ⟨by simpa using h, (Nat.zero_add _).symm⟩

theorem read16_transmits (a : ℕ) (h : c.console.oBusy = busyAfter q) :
    Transmits (busyAfter (q.map (· + SingleBoard.smii.touches 2 (.read16 a)))) 0 c.console
      (finalState (Computer.read16 a c)).console := by
  rw [SingleBoard.touches_read16 (show 0 < 2 by decide) (by decide), Computer.read16_final]
  generalize a - SingleBoard.smii.consoleBase = port
  split
  · have hhigh := smiiRead_transmits port h
    have hboth := hhigh.trans (smiiRead_transmits (port + 1) hhigh.oBusy)
    have hsum (x y : ℕ) : (q.map (· + x)).map (· + y) = q.map (· + (y + x)) := by
      rw [Option.map_map]
      congr 1
      funext k
      exact (Nat.add_assoc k x y).trans (congrArg (k + ·) (Nat.add_comm x y))
    rw [hsum] at hboth
    exact hboth
  · exact ⟨by simpa using h, (Nat.zero_add _).symm⟩

/-- The data register of smii. -/
theorem data_port (a : ℕ) : a = 0x7C03 ↔
    (SingleBoard.smii.consoleBase ≤ a ∧ a < SingleBoard.smii.consoleBase + 128) ∧
      a - SingleBoard.smii.consoleBase = 3 := by
  rw [SingleBoard.consoleBase]
  omega

theorem write8_transmits (a : ℕ) (v : U8) (c : Computer .smii) :
    Transmits (if a = 0x7C03 then 1 else c.console.oBusy)
      (if a = 0x7C03 ∧ c.console.oBusy ≠ 0 then 1 else 0) c.console
      (finalState (Computer.write8 a v c)).console := by
  have hwrite := smiiWrite_transmits (a - SingleBoard.smii.consoleBase) v c.console
  rw [Computer.write8_final]
  by_cases hin : SingleBoard.smii.consoleBase ≤ a ∧ a < SingleBoard.smii.consoleBase + 128
  · have hport : a = 0x7C03 ↔ a - SingleBoard.smii.consoleBase = 3 :=
      (data_port a).trans (and_iff_right hin)
    simp only [if_pos hin, hport]
    generalize a - SingleBoard.smii.consoleBase = port at hwrite
    exact hwrite
  · have hother : a ≠ 0x7C03 := fun h => hin ((data_port a).mp h).1
    rw [if_neg hin, if_neg hother, if_neg fun h => hother h.1]
    split <;> exact ⟨rfl, (Nat.zero_add _).symm⟩

end Accesses

/-- The state of the transmitter, and the messages about it. -/
theorem transmitter_reaches {c₀ c : Computer .smii} (h₀ : c₀.console.oBusy = 0) (h : Reaches c₀ l c) :
    Transmits (busyAfter (polls l)) (overruns l) c₀.console c.console := by
  induction h with
  | start => exact ⟨h₀, (Nat.zero_add _).symm⟩
  | @read8 l c pc a' _ ih =>
    have hboth := ih.trans (read8_transmits a' ih.oBusy)
    rw [Nat.zero_add] at hboth
    exact hboth
  | @read16 l c pc a' _ ih =>
    have hboth := ih.trans (read16_transmits a' ih.oBusy)
    rw [Nat.zero_add] at hboth
    exact hboth
  | @write8 l c pc a' data _ ih =>
    have hboth := ih.trans (write8_transmits a' (BitVec.ofNat 8 data) c)
    have hbusy : (if a' = 0x7C03 then 1 else c.console.oBusy) =
        busyAfter (polls (.write8 a' data :: l)) := by
      rw [ih.oBusy, polls]
      split <;> rfl
    have hready : (a' = 0x7C03 ∧ c.console.oBusy ≠ 0) ↔ a' = 0x7C03 ∧ ready l = false := by
      rw [ih.oBusy, ← Bool.not_eq_true, ready_iff]
    rw [hbusy, if_congr hready rfl rfl, Nat.add_comm] at hboth
    exact hboth
  | @simError l c _ ih =>
    rw [show finalState (Bus.simError c) = c from Computer.simError_final c]
    exact ih
  | running _ ih => exact ih

/-! ## Sessions -/

section Sessions
variable {image : List Loader.Store} {es : List Event} {bootRom : ℕ → U8} {debug : Bool} {t : Terminal}

theorem session_reaches {β : Type} [Bus β] (image : List Loader.Store) (es : List Event) (b : β) :
    Reaches b (finalState (session image es (Cpu.powerOn b))).trace
      (finalState (session image es (Cpu.powerOn b))).bus := by
  have hkeeps : Keeps (Driven b []) (session image es) :=
    Keeps.iff_triple.mpr ((runAll_keeps (fun x => Keeps.iff_triple.mp (write8_driven x.addr _)) image).bind
      fun _ => (Keeps.iff_triple.mp cpuReset_driven).bind fun _ =>
        runAll_keeps (fun e => Keeps.iff_triple.mp (event_driven e)) es)
  obtain ⟨l, hl, hreaches⟩ := hkeeps.keeps (Cpu.powerOn b) ⟨[], rfl, .start⟩
  rw [hl, List.append_nil]
  exact hreaches

/-- The accesses of a session and the machine at its end. -/
theorem emulate_reaches (m : SingleBoard) (bootRom : ℕ → U8) (debug : Bool) (t : Terminal)
    (image : List Loader.Store) (es : List Event) :
    let s := finalState (m.emulate bootRom image es (Cpu.powerOn (Board.start .fault debug t)))
    ∃ c, Reaches (Computer.start m bootRom debug t) s.trace c ∧ Realizes m s.bus c := by
  obtain ⟨c, hc, hcpu⟩ := (emulate_corresponds m bootRom debug t image es).final
  have hreaches := session_reaches image es (Computer.start m bootRom debug t)
  rw [hcpu] at hreaches
  exact ⟨c, hreaches, hc⟩

/-- The stores of the loader, latest first. -/
def loaded (image : List Loader.Store) : List Access :=
  (image.map fun x => .write8 x.addr x.value.toNat).reverse

theorem lastStore_append (a : ℕ) (l l' : List Access) :
    lastStore a (l ++ l') = (lastStore a l).or (lastStore a l') := by
  induction l with
  | nil => rfl
  | cons e l ih =>
    cases e with
    | write8 a' data =>
      rw [List.cons_append, lastStore_write, lastStore_write, ih]
      split <;> rfl
    | read8 a' | read16 a' => exact ih

/-- The loader writes the ROM too. -/
theorem store_run {c : Computer m} (hexit : m = .simple → a ≠ 0xFF01) (hoff : c.running = false)
    (ha : a < 0x10000) (v : U8) : ∃ c', Computer.write8 a v c = .ok () c' ∧ c'.running = false ∧
      ∀ a', (m.block (a' / 128)).isMemory = true → c'.mem a' = if a = a' then v else c.mem a' := by
  have hpoke (a' : ℕ) : (Computer.poke a v c).mem a' = if a = a' then v else c.mem a' := by
    rw [Computer.poke]
    dsimp only
    rw [Function.update_apply]
    exact if_congr eq_comm rfl rfl
  have hother (hb : (m.block (a / 128)).isMemory = false) (a' : ℕ)
      (hmem : (m.block (a' / 128)).isMemory = true) : c.mem a' = if a = a' then v else c.mem a' := by
    rw [if_neg]
    rintro rfl
    exact absurd (hmem.symm.trans hb) (by decide)
  rw [Computer.write8, if_pos ha]
  cases hb : m.block (a / 128) with
  | ram => exact ⟨_, rfl, hoff, fun a' _ => hpoke a'⟩
  | rom quiet =>
    dsimp only
    rw [run_bind_ok run_get, hoff]
    exact ⟨_, rfl, hoff, fun a' _ => hpoke a'⟩
  | console =>
    have hport : m = .simple → a % 128 ≠ 1 := by
      rintro rfl
      have hrange := (SingleBoard.console_block ha).mp hb
      have hother := hexit rfl
      rw [SingleBoard.consoleBase] at hrange
      omega
    obtain ⟨t, ht⟩ := Terminal.consoleWrite_ok hport v c.console
    refine ⟨{ c with console := t }, ?_, hoff, hother (by rw [hb]; rfl)⟩
    dsimp only
    rw [Computer.onConsole, ht]
  | sink => exact ⟨c, rfl, hoff, hother (by rw [hb]; rfl)⟩
  | vacant =>
    refine ⟨c, ?_, hoff, hother (by rw [hb]; rfl)⟩
    dsimp only
    rw [Computer.fault_run, hoff]
    rfl

theorem stores_run (hexit : m = .simple → ∀ x ∈ image, x.addr ≠ 0xFF01)
    (haddr : ∀ x ∈ image, x.addr < 0x10000) {s : Cpu (Computer m)} (hoff : s.bus.running = false) :
    ∃ s', runAll (fun x : Loader.Store => Exec09.write8 x.addr x.value.toNat) image s = .ok () s' ∧
      s'.bus.running = false ∧ ∀ a, (m.block (a / 128)).isMemory = true →
        s'.bus.mem a = (lastStore a (loaded image)).getD (s.bus.mem a) := by
  induction image generalizing s with
  | nil => exact ⟨s, rfl, hoff, fun _ _ => rfl⟩
  | cons x image ih =>
    obtain ⟨c, hwrite, hstill, hmem⟩ := store_run (fun h => hexit h x (by simp)) hoff
      (haddr x (by simp)) (BitVec.ofNat 8 x.value.toNat)
    have hstep : Exec09.write8 x.addr x.value.toNat s = .ok () { s with
        trace := .write8 x.addr x.value.toNat :: s.trace
        bus := c } := by
      rw [write8_run, show Bus.cpuWrite8 (getPc s) x.addr (BitVec.ofNat 8 x.value.toNat) s.bus =
        .ok () c from hwrite]
    obtain ⟨s', hrun, hoff', hmem'⟩ := ih (fun h y hy => hexit h y (by simp [hy]))
      (fun y hy => haddr y (by simp [hy])) (s := { s with
        trace := .write8 x.addr x.value.toNat :: s.trace
        bus := c }) hstill
    refine ⟨s', (run_bind_ok hstep).trans hrun, hoff', fun a ha => ?_⟩
    have hloaded : loaded (x :: image) = loaded image ++ [.write8 x.addr x.value.toNat] := by
      simp [loaded]
    rw [hmem' a ha, hloaded, lastStore_append, hmem a ha, lastStore_write]
    cases lastStore a (loaded image) with
    | none => split <;> rfl
    | some v => rfl

/-- From the reset on a ROM stays what it is. -/
theorem rom_session {quiet : Bool} (hb : m.block (a / 128) = .rom quiet) (v : U8) :
    ∀ s : Cpu (Computer m), s.bus.mem a = v →
      (finalState ((do cpuReset; runAll Event.perform es : CpuM (Computer m) Unit) s)).bus.mem a = v := by
  have hread : Keeps (fun s : Cpu (Computer m) => s.bus.mem a = v) (read16 0xfffe) := by
    refine ⟨fun s hs => ?_⟩
    have hmem := (congrFun (Computer.read16_kept 0xfffe s.bus).1 a).trans hs
    rw [read16_run]
    change (finalState (Bus.cpuRead16 (getPc s) 0xfffe s.bus)).mem a = v at hmem
    cases hrun : Bus.cpuRead16 (getPc s) 0xfffe s.bus <;> rw [hrun] at hmem <;> exact hmem
  have hreset : Triple (fun s : Cpu (Computer m) => s.bus.mem a = v) cpuReset
      (fun _ s => s.bus.running = true ∧ s.bus.mem a = v) fun s => s.bus.mem a = v := by
    refine Triple.bind (Q := fun _ s => s.bus.mem a = v) (Triple.modify fun _ h => h) fun _ => ?_
    refine (Keeps.iff_triple.mp hread).bind fun pc => ?_
    exact Triple.bind (Q := fun _ s => s.bus.mem a = v) (Triple.modify fun _ h => h) fun _ =>
      Triple.modify fun _ h => ⟨rfl, h⟩
  have hevents : Triple (fun s : Cpu (Computer m) => s.bus.running = true ∧ s.bus.mem a = v)
      (runAll Event.perform es) (fun _ s => s.bus.mem a = v) fun s => s.bus.mem a = v := by
    apply Triple.iff_final.mpr
    rintro s ⟨hrunning, hmem⟩
    have hkeeps : Keeps (Driven s.bus s.trace) (runAll Event.perform es) :=
      Keeps.iff_triple.mpr (runAll_keeps (fun e => Keeps.iff_triple.mp (event_driven e)) es)
    obtain ⟨l, -, hreaches⟩ := hkeeps.keeps s ⟨[], rfl, .start⟩
    exact (rom_reaches hb hrunning hreaches).2.trans hmem
  exact Triple.iff_final.mp (hreset.bind fun _ => hevents)

/-- A byte of the RAM is what the loader or the program stored there last, and a byte of the ROM is
what the loader left there. -/
theorem emulate_memory (m : SingleBoard) (bootRom : ℕ → U8) (debug : Bool) (t : Terminal)
    (image : List Loader.Store) (haddr : ∀ x ∈ image, x.addr < 0x10000) (es : List Event) :
    let s := finalState (m.emulate bootRom image es (Cpu.powerOn (Board.start .fault debug t)))
    ∀ a < 0x10000,
      (m.block (a / 128) = .ram →
        Board.mem s.bus (m.place a).1 (m.place a).2 = (lastStore a s.trace).getD 0) ∧
      ∀ quiet, m.block (a / 128) = .rom quiet →
        Board.mem s.bus (m.place a).1 (m.place a).2 =
          (lastStore a (loaded image)).getD (bootRom (m.place a).2) := by
  intro s a ha
  constructor
  · intro hb
    obtain ⟨c, hreaches, hc⟩ := emulate_reaches m bootRom debug t image es
    rw [hc.memory a ha (by rw [hb]; rfl), ram_reaches ha hb hreaches, Computer.start]
    dsimp only
    rw [hb]
  · intro quiet hb
    obtain ⟨c, hc, hcpu⟩ := (emulate_corresponds m bootRom debug t image es).final
    have hm : m ≠ .simple := by
      rintro rfl
      rw [SingleBoard.block] at hb
      split at hb <;> cases hb
    have hmem : (m.block (a / 128)).isMemory = true := by rw [hb]; rfl
    obtain ⟨s', hrun, -, hloaded⟩ := stores_run (fun h => absurd h hm) haddr
      (s := Cpu.powerOn (Computer.start m bootRom debug t)) rfl
    have hsession : session image es (Cpu.powerOn (Computer.start m bootRom debug t)) =
        (do cpuReset; runAll Event.perform es : CpuM (Computer m) Unit) s' := run_bind_ok hrun
    have hrom : (finalState ((do cpuReset; runAll Event.perform es : CpuM (Computer m) Unit)
        s')).bus.mem a = s'.bus.mem a := rom_session hb _ s' rfl
    rw [← hsession, hcpu, hloaded a hmem] at hrom
    refine (hc.memory a ha hmem).trans (hrom.trans ?_)
    rw [Cpu.powerOn, Computer.start]
    dsimp only
    rw [hb]

theorem emulate_memory_rom :
    Board.mem (finalState (SingleBoard.kipper1.emulate (fun _ => 0xFF) [⟨0xC001, 0x12, []⟩] [.insn]
      (Cpu.powerOn (Board.start .fault false ⟨[], [], [], 0⟩)))).bus 2 1 = 0x12 :=
  (emulate_memory .kipper1 (fun _ => 0xFF) false ⟨[], [], [], 0⟩ [⟨0xC001, 0x12, []⟩] (by simp) [.insn]
    0xC001 (by decide)).2 false rfl

/-- The console prints the bytes that are stored in its output register, in their order, and takes
a character of its input for every time its input register is read. -/
theorem emulate_console (m : SingleBoard) (bootRom : ℕ → U8) (debug : Bool) (t : Terminal)
    (image : List Loader.Store) (es : List Event) :
    let s := finalState (m.emulate bootRom image es (Cpu.powerOn (Board.start .fault debug t)))
    (Board.priv s.bus).output.filterMap Printed.char? =
        m.written s.trace ++ t.output.filterMap Printed.char? ∧
      (Board.priv s.bus).pending m = (t.pending m).drop (m.readings m.inPort s.trace) := by
  obtain ⟨c, hreaches, hc⟩ := emulate_reaches m bootRom debug t image es
  have hstep := console_reaches hreaches
  rw [← hc.console] at hstep
  exact ⟨hstep.chars, hstep.pending⟩

/-- The transmitter of smii is ready again after three polls, and there is a message for each store
that does not wait for it. -/
theorem emulate_transmitter (bootRom : ℕ → U8) (debug : Bool) (batch input : List U8)
    (image : List Loader.Store) (es : List Event) :
    let t : Terminal := ⟨batch, input, [], 0⟩
    let s := finalState (SingleBoard.smii.emulate bootRom image es
      (Cpu.powerOn (Board.start .fault debug t)))
    ((Board.priv s.bus).oBusy = 0 ↔ ready s.trace = true) ∧
      (Board.priv s.bus).output.count .busyWrite = overruns s.trace := by
  intro t s
  obtain ⟨c, hreaches, hc⟩ := emulate_reaches .smii bootRom debug t image es
  have htransmits := transmitter_reaches rfl hreaches
  rw [← hc.console] at htransmits
  exact ⟨by rw [htransmits.oBusy, ready_iff], htransmits.warnings⟩

end Sessions

end Exec09.Machines
