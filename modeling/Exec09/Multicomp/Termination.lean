import Exec09.Multicomp.Bounds
import Exec09.Multicomp.SdCommands

/-! # Accesses to the SD card controller that do not return

For a register that cannot be read, `sdmapper_read` reads the byte three places
before the program counter, which may be such a register again. A read command
whose seek fails never leaves its loop.
-/
namespace Exec09

/-- A loop or a recursion that has no end. -/
def Stop.Endless (x : Stop) : Prop := x = .hang ∨ x = .fatal .recursion

namespace Multicomp
open Foundation Access

variable {s t : Board Priv}

/-! ## The states of the machine -/

section Reached
variable (debug : Bool) (bootRom : ℕ → U8) (batchFile : Option (List U8)) (sdFile : Option File)

/-- The states that accesses of the guest lead to, whatever happens at the console. -/
inductive Reached : Board Priv → Prop
  | start {s : Board Priv} :
      init bootRom batchFile sdFile (Board.start .fault debug Priv.start) = .ok () s →
      Reached { s with cpuRunning := true }
  | access {s t : Board Priv} (e : CpuAccess) :
      Reached s → e.perform hardware s = .ok () t → Reached t
  | console {s : Board Priv} (f : Console → Console) : Reached s → Reached (setConsole f s)

end Reached

/-- Only a controller without a card is without an image file. -/
def Sd.Provided (sd : Sd) : Prop := sd.state = .noCard ∨ sd.sdFile.isSome

namespace Sd
variable {sd sd' : Sd} {addr : ℕ} {val : U8}

theorem read_sdFile (addr : ℕ) (sd : Sd) : (sd.read addr).2.sdFile = sd.sdFile := by
  match addr with
  | 0 =>
    rw [Sd.read, Sd.readData]
    cases sd.state with
    | reading =>
      dsimp only
      split
      · split
        · rfl
        · rfl
      · rfl
    | noCard => rfl
    | initialising => rfl
    | idle => rfl
    | writing => rfl
  | 1 =>
    rw [Sd.read, Sd.readStatus]
    cases sd.state <;> rfl
  | _ + 2 => rfl

/-- An image file stays one. -/
theorem writeData_sdFile (h : sd.writeData val = .ok sd') (hfile : sd.sdFile.isSome) :
    sd'.sdFile.isSome := by
  rcases sd.writeData_cases val with ⟨data, dindex, poll, hwrite⟩ | ⟨-, data, dindex, hwrite⟩
  · rw [hwrite] at h
    cases h
    exact hfile
  · rw [hwrite] at h
    exact (Sd.commit_ok h).2

theorem command_sdFile (h : sd.command val = .ok sd') (hfile : sd.sdFile.isSome) :
    sd'.sdFile.isSome := by
  by_cases hread : val = 0
  · subst hread
    rw [Sd.command_zero] at h
    exact (Sd.readBlock_ok h).2
  · by_cases hwrite : val = 1
    · simp only [Sd.command, if_neg hread, if_pos hwrite] at h
      cases h
      exact hfile
    · simp only [Sd.command, if_neg hread, if_neg hwrite] at h
      cases h
      exact hfile

theorem write_sdFile (h : sd.write addr val = .ok sd') (hfile : sd.sdFile.isSome) :
    sd'.sdFile.isSome := by
  match addr with
  | 0 => exact writeData_sdFile h hfile
  | 1 =>
    by_cases hidle : sd.state = .idle
    · cases hcommand : sd.command val with
      | error x =>
        rw [Sd.write, if_pos hidle, hcommand] at h
        cases h
      | ok sd₁ =>
        rw [Journal.write_command hidle hcommand] at h
        cases h
        have hkept := command_sdFile hcommand hfile
        exact hkept
    · rw [Sd.write, if_neg hidle] at h
      cases h
      exact hfile
  | 2 | 3 | 4 | _ + 5 =>
    cases h
    exact hfile

/-- No edge leads away from the state without a card. -/
theorem Provided.edge (h : sd.Provided) (hedge : Journal.Edge sd.state sd'.state)
    (hfile : sd.sdFile.isSome → sd'.sdFile.isSome) : sd'.Provided := by
  rcases h with hstate | hsome
  · rw [hstate] at hedge
    rcases hedge with hsame | hmoves
    · exact .inl hsame
    · cases hmoves
  · exact .inr (hfile hsome)

end Sd

/-- What the accesses of the guest keep. -/
structure Equipped (s : Board Priv) : Prop where
  mapped : Mapped s
  running : s.cpuRunning = true
  provided : s.priv.sd.Provided

instance : Enduring Equipped where
  traced log m _ h := ⟨h.mapped.traced log m, h.running, h.provided⟩
  console _ _ h := ⟨h.mapped.frame rfl rfl rfl rfl, h.running, h.provided⟩
  sdRead addr s h := by
    refine ⟨h.mapped.frame rfl rfl rfl rfl, h.running, ?_⟩
    refine h.provided.edge (Journal.read_edge addr s.priv.sd) fun hfile => ?_
    have hsame := Sd.read_sdFile addr s.priv.sd
    rw [← hsame] at hfile
    exact hfile
  sdWrite _ _ _ _ h hwrite :=
    ⟨h.mapped.frame rfl rfl rfl rfl, h.running,
      h.provided.edge (Journal.write_edge hwrite) (Sd.write_sdFile hwrite)⟩
  remap op val _ h :=
    ⟨remapped_mapped op val h.mapped.devices h.mapped.free, h.running, h.provided⟩

theorem ramWrite_equipped (dev offset : ℕ) (val : U8) : Keeps Equipped (ramWrite dev offset val) := by
  have hstore : Keeps Equipped (modify (Board.setMem dev offset val) : M Unit) :=
    ⟨fun s h => ⟨h.mapped.frame rfl rfl rfl rfl, h.running, h.provided⟩⟩
  rw [ramWrite]
  infer_instance

theorem access_equipped (e : CpuAccess) (h : Equipped s) : Equipped (finalState (e.perform hardware s)) := by
  have hwrite (pc dev offset : ℕ) (val : U8) : Keeps Equipped (hardware.write pc dev offset val) := by
    have hclass (p : ℕ × ℕ) := classWrite_keeps (ramWrite_equipped p.1 p.2 val)
    exact (throughExpander_keeps dev offset).seq hclass
  have hrun (ok : CpuAccess → Board Priv → Prop) :
      Triple (fun s => Equipped s ∧ ok e s) (e.perform hardware) (fun _ => Equipped) Equipped :=
    CpuAccess.perform_keeps read_keeps (fun pc addr val s hs _ _ log m =>
      (hwrite pc _ _ val).keeps _ (Untraced.traced log m s hs)) e
  exact Triple.iff_final.mp (hrun fun _ _ => True) s ⟨h, trivial⟩

/-! ## The controller after the initialisation -/

theorem init_sd (bootRom : ℕ → U8) (batchFile : Option (List U8)) (sdFile : Option File) :
    Triple (fun s => s.devices = [] ∧ s.priv.sd = Sd.init none) (init bootRom batchFile sdFile)
      (fun _ s => s.priv.sd = Sd.init sdFile) (fun _ => True) := by
  have hinit : Triple (Board.Has [⟨.null, 0⟩] initialBusmaps fun p : Priv => p.sd = Sd.init none)
      (multicomp09Init bootRom batchFile sdFile) (fun _ s => s.priv.sd = Sd.init sdFile)
      fun _ => True := by
    apply Triple.value (ramCreate_has (by decide))
    apply Triple.value (romCreate_has (by decide))
    apply Triple.value (deviceAttach_has (by decide) (nullReset_has _))
    apply Triple.value (deviceAttach_has (by decide) (nullReset_has _))
    apply Triple.value (deviceAttach_has (by decide) (nullReset_has _))
    apply Triple.bind (Q := fun _ s => s.priv.sd = Sd.init none)
    · intro s h
      rw [sdmapperRemap_run]
      exact h.priv
    · intro _
      apply Triple.modify
      intro s h
      rw [openFiles]
      simp only [h]
      rfl
  exact machineInit_has hinit fun _ h => h

theorem init_run (debug : Bool) (bootRom : ℕ → U8) (batchFile : Option (List U8))
    (sdFile : Option File) :
    ∃ s, init bootRom batchFile sdFile (Board.start .fault debug Priv.start) = .ok () s ∧
      Equipped { s with cpuRunning := true } ∧ s.priv.sd = Sd.init sdFile := by
  have hboth := (init_mapped bootRom batchFile sdFile).and (init_sd bootRom batchFile sdFile)
  obtain ⟨_, s, hrun, ⟨hmapped, -⟩, hsd⟩ :=
    (hboth.mono (fun _ h => h) (fun _ _ h => h) fun _ h => h.1.elim).total
      (s := Board.start .fault debug Priv.start) ⟨⟨rfl, rfl⟩, rfl, rfl⟩
  refine ⟨s, hrun, ⟨⟨hmapped.devices, hmapped.free, hmapped.maps, hmapped.slots⟩, rfl, ?_⟩, hsd⟩
  have hprovided : (Sd.init sdFile).Provided := by
    cases sdFile with
    | none => exact .inl rfl
    | some f => exact .inr rfl
  rw [← hsd] at hprovided
  exact hprovided

section Reached
variable {debug : Bool} {bootRom : ℕ → U8} {batchFile : Option (List U8)} {sdFile : Option File}

theorem Reached.equipped (h : Reached debug bootRom batchFile sdFile s) : Equipped s := by
  induction h with
  | start hrun =>
    obtain ⟨s, hinit, hs, -⟩ := init_run debug bootRom batchFile sdFile
    rw [hrun] at hinit
    cases hinit
    exact hs
  | access e _ hrun ih =>
    have hend := access_equipped e ih
    rw [hrun] at hend
    exact hend
  | console f _ ih => exact Enduring.console f _ ih

end Reached

/-! ## The two functions -/

/-- A call of `sdmapper_read`, with the value of `get_pc`, or of `sdmapper_write`. -/
inductive RegisterAccess
  | read (pc reg : ℕ)
  | write (reg : ℕ) (val : U8)

/-- A read command is accepted for an offset at which `fseek` fails. -/
def Sd.SeekFails (sd : Sd) : Prop := sd.state = .idle ∧ ∃ f ∈ sd.sdFile, f.fseek sd.formAddr = none

/-- 512 bytes `0xFF` are to be read. -/
structure Sd.Blank (sd : Sd) : Prop where
  state : sd.state = .reading
  dindex : sd.dindex = 0
  data : ∀ i, i < 512 → sd.data i = 0xff

namespace RegisterAccess

def perform : RegisterAccess → M Unit
  | read pc reg => do let _ ← sdmapperRead (cpuRead8 nestedHardware pc) pc reg
  | write reg val => sdmapperWrite reg val

def Terminates (e : RegisterAccess) (s : Board Priv) : Prop :=
  ∀ x t, e.perform s = .error x t → ¬x.Endless

/-- A read command whose seek fails delivers a blank block. -/
def Delivers (e : RegisterAccess) (s : Board Priv) : Prop :=
  e = .write 1 0 → s.priv.sd.SeekFails → ∃ t, e.perform s = .ok () t ∧ t.priv.sd.Blank

/-- For the message about an unreadable register an unreadable one is read, or a read command comes
in the idle state with bit 6 of SDLBA2 set. -/
def Stuck : RegisterAccess → Board Priv → Prop
  | read pc reg, _ => (reg ≠ 0 ∧ reg ≠ 1 ∧ reg ≠ 5) ∧ Reports (usub pc 3)
  | write reg val, s => reg = 1 ∧ val = 0 ∧ s.priv.sd.state = .idle ∧
      s.priv.sd.sdlba2.getLsbD 6 = true

end RegisterAccess

theorem Stop.Overrun.not_endless {x : Stop} (h : x.Overrun) : ¬x.Endless := by
  rcases h with rfl | rfl
  · simp [Stop.Endless]
  · simp [Stop.Endless]

/-- The read for the message comes back to the same function. -/
theorem Mapped.nested_recursion (h : Mapped s) (pc : ℕ) {q : ℕ} (hq : Reports q) :
    ∃ t, cpuRead8 nestedHardware pc q s = .error (.fatal .recursion) t := by
  have hlow : 0xFF80 ≤ q ∧ q < 0x10000 ∧ (q - 0xFF80) / 8 = 11 := by
    rw [Reports] at hq
    omega
  obtain ⟨log, mon, hrun⟩ := h.cpuRead8_run nestedHardware pc hlow.2.1
  have ht := h.traced log mon
  have hthrough := ht.throughExpander_run hlow.1 hlow.2.1
  have hslot : (s.traced log mon).priv.mapper.slot ((q - 0xFF80) / 8) = (4, 0) := by
    rw [hlow.2.2]
    rfl
  have hclass : classRead (fun _ => throw (.fatal .recursion)) pc 4 (q % 8) (s.traced log mon) =
      .error (.fatal .recursion) (s.traced log mon) := by
    rw [classRead, run_bind_ok run_get, ht.devices]
    rw [Reports] at hq
    rcases hq with rfl | rfl | rfl | rfl | rfl
    · rfl
    · rfl
    · rfl
    · rfl
    · rfl
  refine ⟨s.traced log mon, ?_⟩
  rw [hrun, h.target_expander hlow.1 hlow.2.1]
  rw [hslot, Nat.add_zero, Word.trunc_of_lt (by omega)] at hthrough
  exact (run_bind_ok hthrough).trans hclass

/-- Otherwise the read returns or leaves the memory. -/
theorem Mapped.nested_terminates (h : Mapped s) (pc : ℕ) {q : ℕ} (hq : ¬Reports q) {x : Stop}
    (hrun : cpuRead8 nestedHardware pc q s = .error x t) : ¬x.Endless := by
  by_cases hin : q < 0x10000
  · have hend := h.nested_outcome pc q
    rw [hrun] at hend
    rcases hend with ⟨hover, -⟩ | ⟨-, -, hout | hreports⟩
    · exact Stop.Overrun.not_endless hover
    · exact absurd hin hout
    · exact absurd hreports hq
  · have hread : cpuRead8 nestedHardware pc q s = .error (.fatal .mapIndex) s :=
      run_bind_error (run_bind_error (entry_overran hin))
    rw [hread] at hrun
    cases hrun
    simp [Stop.Endless]

theorem sdmapperRead_message (read8 : ℕ → M U8) (pc : ℕ) {reg : ℕ} (h : reg ≠ 0 ∧ reg ≠ 1 ∧ reg ≠ 5)
    (s : Board Priv) : sdmapperRead read8 pc reg s = (do
      let _ ← read8 (usub pc 3)
      return 0x42 : M U8) s := by
  rw [sdmapperRead, run_bind_ok run_get]
  split
  · exact absurd rfl h.1
  · exact absurd rfl h.2.1
  · exact absurd rfl h.2.2
  · rfl

theorem Mapped.read_terminates_iff (h : Mapped s) (pc reg : ℕ) :
    (RegisterAccess.read pc reg).Terminates s ↔ ¬(RegisterAccess.read pc reg).Stuck s := by
  by_cases hmessage : reg ≠ 0 ∧ reg ≠ 1 ∧ reg ≠ 5
  · have hrun := sdmapperRead_message (cpuRead8 nestedHardware pc) pc hmessage s
    rw [RegisterAccess.Stuck, and_iff_right hmessage]
    constructor
    · intro hends hreports
      obtain ⟨t, hread⟩ := h.nested_recursion pc hreports
      refine hends (.fatal .recursion) t ?_ (.inr rfl)
      exact run_bind_error (hrun.trans (run_bind_error hread))
    · intro hreports x t hstop
      cases hread : cpuRead8 nestedHardware pc (usub pc 3) s with
      | ok v u =>
        rw [RegisterAccess.perform, run_bind_ok (hrun.trans (run_bind_ok hread))] at hstop
        cases hstop
      | error y u =>
        rw [RegisterAccess.perform, run_bind_error (hrun.trans (run_bind_error hread))] at hstop
        cases hstop
        exact h.nested_terminates pc hreports hread
  · refine iff_of_true (fun x t hstop => ?_) fun hstuck => hmessage hstuck.1
    have hreg : reg = 0 ∨ reg = 1 ∨ reg = 5 := by omega
    rcases hreg with rfl | rfl | rfl
    · cases hstop
    · cases hstop
    · cases hstop

theorem sdmapperWrite_error {reg : ℕ} {val : U8} {x : Stop}
    (h : sdmapperWrite reg val s = .error x t) : s.priv.sd.write reg val = .error x := by
  rw [sdmapperWrite, run_bind_ok run_get] at h
  split at h
  · cases h
  · have hremap (c : Prop) [Decidable c] :
        ∃ u, (if c then sdmapperRemap 2 val else pure ()) s = .ok () u := by
      by_cases hc : c
      · rw [if_pos hc]
        exact ⟨_, sdmapperRemap_run 2 val s⟩
      · rw [if_neg hc]
        exact ⟨s, rfl⟩
    obtain ⟨u, hu⟩ := hremap (val &&& 0x10 = 0)
    rw [hu] at h
    cases h
  · rw [sdmapperRemap_run] at h
    cases h
  · cases hwrite : s.priv.sd.write reg val with
    | ok sd =>
      rw [hwrite] at h
      cases h
    | error y =>
      rw [hwrite] at h
      cases h
      rfl

theorem Sd.formAddr_neg_iff (sd : Sd) : sd.formAddr < 0 ↔ sd.sdlba2.getLsbD 6 = true := by
  constructor
  · intro hneg
    by_contra hclear
    rw [Bool.not_eq_true] at hclear
    have haddr := Sd.formAddr_eq hclear
    omega
  · exact Sd.formAddr_neg

/-- In the idle state a read command for a negative offset does not come back. -/
theorem Equipped.write_hangs (h : Equipped s) (hidle : s.priv.sd.state = .idle)
    (h6 : s.priv.sd.sdlba2.getLsbD 6 = true) : sdmapperWrite 1 0 s = .error .hang s := by
  obtain ⟨f, hf⟩ : ∃ f, s.priv.sd.sdFile = some f := by
    rcases h.provided with hno | hsome
    · rw [hidle] at hno
      cases hno
    · exact Option.isSome_iff_exists.mp hsome
  have hwrite := Sd.write_hang hf hidle h6
  rw [sdmapperWrite, run_bind_ok run_get]
  simp only [hwrite]
  rfl

theorem Equipped.write_terminates_iff (h : Equipped s) (reg : ℕ) (val : U8) :
    (RegisterAccess.write reg val).Terminates s ↔ ¬(RegisterAccess.write reg val).Stuck s := by
  constructor
  · rintro hends ⟨rfl, rfl, hidle, h6⟩
    exact hends .hang s (h.write_hangs hidle h6) (.inl rfl)
  · intro hstuck x t hstop
    rcases Sd.write_error (sdmapperWrite_error hstop) with rfl | ⟨-, rfl, rfl, hidle, hneg⟩
    · simp [Stop.Endless]
    · exact absurd ⟨rfl, rfl, hidle, (Sd.formAddr_neg_iff _).mp hneg⟩ hstuck

theorem Equipped.returns_iff (h : Equipped s) (e : RegisterAccess) :
    e.Terminates s ∧ e.Delivers s ↔ ¬e.Stuck s := by
  have hends : e.Terminates s ↔ ¬e.Stuck s := by
    cases e with
    | read pc reg => exact h.mapped.read_terminates_iff pc reg
    | write reg val => exact h.write_terminates_iff reg val
  rw [hends]
  refine and_iff_left_of_imp fun hstuck => ?_
  rintro rfl ⟨hidle, f, -, hseek⟩
  refine absurd ⟨rfl, rfl, hidle, (Sd.formAddr_neg_iff _).mp ?_⟩ hstuck
  by_contra hpos
  rw [File.fseek, if_neg hpos] at hseek
  cases hseek

section Reached
variable {debug : Bool} {bootRom : ℕ → U8} {batchFile : Option (List U8)} {sdFile : Option File}

/-- In every state that the guest can bring the machine to, an access to a register returns as it
should exactly if it is not stuck. -/
theorem register_returns_iff (hs : Reached debug bootRom batchFile sdFile s) (e : RegisterAccess) :
    e.Terminates s ∧ e.Delivers s ↔ ¬e.Stuck s := hs.equipped.returns_iff e

/-- CLR of an unreadable register from the RAM. -/
theorem register_returns_clr : ∃ s, Reached false (fun _ => 0) none none s ∧
    (RegisterAccess.read 0x1003 2).Terminates s ∧ (RegisterAccess.read 0x1003 2).Delivers s := by
  obtain ⟨s, hinit, -, -⟩ := init_run false (fun _ => 0) none none
  have hs := Reached.start hinit
  refine ⟨_, hs, (register_returns_iff hs _).mpr ?_⟩
  rintro ⟨-, hreports⟩
  revert hreports
  decide

/-! ## A run that hangs -/

theorem Reached.poll (h : Reached debug bootRom batchFile sdFile s) :
    ∃ t, Reached debug bootRom batchFile sdFile t ∧ t.priv.sd = s.priv.sd.readStatus.2 := by
  have hs := h.equipped.mapped
  obtain ⟨log, mon, hread⟩ := hs.cpuRead8_run hardware 0x1000 (a := 0xFFD9) (by decide)
  have ht := hs.traced log mon
  have hthrough := ht.throughExpander_run (a := 0xFFD9) (by decide) (by decide)
  have hclass : ∃ u, classRead (cpuRead8 nestedHardware 0x1000) 0x1000 4 1 (s.traced log mon) =
      .ok s.priv.sd.readStatus.1 u ∧ u.priv.sd = s.priv.sd.readStatus.2 := by
    rw [classRead, run_bind_ok run_get, ht.devices]
    exact ⟨_, rfl, rfl⟩
  obtain ⟨u, hclass, hu⟩ := hclass
  rw [hs.target_expander (by decide) (by decide)] at hread
  have hrun := hread.trans ((run_bind_ok hthrough).trans hclass)
  exact ⟨u, h.access (.read8 0x1000 0xFFD9) (run_bind_ok hrun), hu⟩

theorem Reached.sdlba2 (h : Reached debug bootRom batchFile sdFile s) (val : U8) :
    ∃ t, Reached debug bootRom batchFile sdFile t ∧ t.priv.sd = { s.priv.sd with sdlba2 := val } := by
  have hs := h.equipped.mapped
  obtain ⟨e, hwrite⟩ := cpuWrite8_resolved hardware 0x1000 (show 0xFFDC < 0x10000 by decide) val
    (hs.resolve_expander (by decide) (by decide)) (hs.attached (by decide)) (.inr (by decide))
  have hthrough := hs.throughExpander_run (a := 0xFFDC) (by decide) (by decide)
  have hclass : ∃ u, classWrite 4 4 val s = .ok () u ∧
      u.priv.sd = { s.priv.sd with sdlba2 := val } := by
    rw [classWrite, run_bind_ok run_get, hs.devices]
    exact ⟨_, rfl, rfl⟩
  obtain ⟨u, hclass, hu⟩ := hclass
  have hrun := hwrite.trans (run_bind_ok ((run_bind_ok hthrough).trans hclass))
  exact ⟨_, h.access (.write8 0x1000 0xFFDC val) hrun, hu⟩

theorem Reached.polls (n : ℕ) (h : Reached debug bootRom batchFile sdFile s) :
    ∃ t, Reached debug bootRom batchFile sdFile t ∧
      t.priv.sd = (fun sd => sd.readStatus.2)^[n] s.priv.sd := by
  induction n generalizing s with
  | zero => exact ⟨s, h, rfl⟩
  | succ n ih =>
    obtain ⟨t, ht, hsd⟩ := h.poll
    obtain ⟨u, hu, hsds⟩ := ih ht
    refine ⟨u, hu, ?_⟩
    rw [hsds, hsd]
    rfl

end Reached

/-- Sixteen polls, 0x40 to SDLBA2, and the read command never comes back. -/
theorem register_hangs : ¬∀ s, Reached false (fun _ => 0) none (some Session.numbered) s →
    ∀ e : RegisterAccess, e.Terminates s ∧ e.Delivers s := by
  intro h
  obtain ⟨s, hinit, -, hsd⟩ := init_run false (fun _ => 0) none (some Session.numbered)
  obtain ⟨t, ht, htsd⟩ := (Reached.start hinit).polls 16
  obtain ⟨u, hu, husd⟩ := ht.sdlba2 0x40
  have hstart : { s with cpuRunning := true }.priv.sd = Sd.init (some Session.numbered) := hsd
  rw [htsd, hstart] at husd
  have hstuck : (RegisterAccess.write 1 0).Stuck u := by
    refine ⟨rfl, rfl, ?_, ?_⟩
    · rw [husd]
      rfl
    · rw [husd]
      rfl
  exact (hu.equipped.returns_iff _).mp (h u hu (.write 1 0)) hstuck

end Multicomp

end Exec09
