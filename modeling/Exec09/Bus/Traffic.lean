import Exec09.Bus.Access

/-! # Runs of CPU accesses

What an access changes is what the device it reaches changes, besides the log
and the request for the monitor. So an invariant that depends on neither is
kept by a run of accesses if the devices keep it wherever the map lets them be
reached.
-/
namespace Exec09
open Foundation Access
variable {σ : Type}

/-- A call of `cpu_read8`, `cpu_read16` or `cpu_write8`. -/
inductive CpuAccess
  | read8 (pc addr : ℕ)
  | read16 (pc addr : ℕ)
  | write8 (pc addr : ℕ) (val : U8)

def CpuAccess.perform (hw : Hardware σ) : CpuAccess → BoardM σ Unit
  | read8 pc addr => do let _ ← cpuRead8 hw pc addr
  | read16 pc addr => do let _ ← cpuRead16 hw pc addr
  | write8 pc addr val => cpuWrite8 hw pc addr val

def Board.traced (log : List BusEvent) (m : Bool) (s : Board σ) : Board σ :=
  { s with log := log, monitorOn := m }

/-- The log and the request for the monitor do not matter for `I`. -/
class Untraced (I : Board σ → Prop) : Prop where
  traced : ∀ log m s, I s → I (s.traced log m)

namespace Access
variable {I : Board σ → Prop} [Untraced I] {hw : Hardware σ} {pc addr : ℕ}

instance record_keeps (e : BusEvent) : Keeps I (modify (Board.record e) : BoardM σ Unit) :=
  ⟨fun s h => Untraced.traced (e :: s.log) s.monitorOn s h⟩

instance simError_keeps : Keeps I (simError : BoardM σ Unit) := by
  have hmonitor : Keeps I (modify fun s => { s with monitorOn := true } : BoardM σ Unit) :=
    ⟨fun s h => Untraced.traced s.log true s h⟩
  rw [simError]
  infer_instance

instance fault_keeps (named type : ℕ) : Keeps I (fault named type : BoardM σ Unit) := by
  have hhandler (s : Board σ) : Keeps I (match s.machineFault with
      | .fault => if s.cpuRunning then simError else pure ()
      | .wpcFault => pure () : BoardM σ Unit) := by
    cases s.machineFault <;> infer_instance
  rw [fault]
  exact (record_keeps _).seq fun _ => Keeps.get.seq hhandler

instance doFault_keeps (named type : ℕ) : Keeps I (doFault named type : BoardM σ Unit) := by
  rw [doFault]
  infer_instance

instance findDevice_keeps (named id : ℕ) : Keeps I (findDevice named id : BoardM σ ℕ) := by
  rw [findDevice]
  infer_instance

instance entry_keeps (named : ℕ) : Keeps I (entry named : BoardM σ BusEntry) := by
  rw [entry]
  infer_instance

instance readTarget_keeps (named : ℕ) : Keeps I (readTarget named : BoardM σ (ℕ × ℕ)) := by
  rw [readTarget]
  infer_instance

theorem cpuRead8_keeps (h : ∀ dev offset, Keeps I (hw.read pc dev offset)) (addr : ℕ) :
    Keeps I (cpuRead8 hw pc addr) := by
  rw [cpuRead8]
  infer_instance

theorem cpuRead16_keeps (h : ∀ dev offset, Keeps I (hw.read pc dev offset)) (addr : ℕ) :
    Keeps I (cpuRead16 hw pc addr) := by
  rw [cpuRead16]
  infer_instance

theorem findDevice_outcome (named id : ℕ) (s : Board σ) : ∃ log m,
    findDevice named id s = .ok (if s.unattached id then 0 else Word.trunc 8 id) (s.traced log m) ∨
      ∃ e, s.unattached id = true ∧ findDevice named id s = .error e (s.traced log m) := by
  cases hid : s.unattached id with
  | false => exact ⟨s.log, s.monitorOn, .inl (findDevice_attached named hid)⟩
  | true =>
    rw [findDevice_unattached named hid]
    by_cases hrunning : s.cpuRunning = true
    · by_cases hstops : s.faultStops = true
      · exact ⟨.fault named FAULT_NO_RESPONSE :: s.log, s.monitorOn, .inr ⟨.exit 2, rfl, by
          rw [if_pos hrunning, if_pos hstops]
          rfl⟩⟩
      · exact ⟨.fault named FAULT_NO_RESPONSE :: s.log,
          s.monitorOn || s.machineFault == .fault && s.cpuRunning, .inl (by
          rw [if_pos hrunning, if_neg hstops]
          rfl)⟩
    · exact ⟨s.log, s.monitorOn, .inl (by
        rw [if_neg hrunning]
        rfl)⟩

/-- The map lets a write at the address through to a device. -/
def LetThrough (addr : ℕ) (s : Board σ) : Prop :=
  addr < 0x10000 ∧ (s.cpuRunning = false ∨ (findMap s.busmaps addr).writable = true)

/-- Where a write ends is where the device ends that it is let through to. -/
theorem cpuWrite8_final {s : Board σ} (val : U8)
    (hdenied : ¬(LetThrough addr s ∧ s.unattached (findMap s.busmaps addr).devid = false) → I s)
    (hallowed : LetThrough addr s → ∀ log m,
      I (finalState (hw.write pc (s.target addr).1 (s.target addr).2 val (s.traced log m)))) :
    I (finalState (cpuWrite8 hw pc addr val s)) := by
  rw [cpuWrite8]
  by_cases haddr : addr / 128 < 512
  · have hentry : entry addr s = .ok (findMap s.busmaps addr) s := entry_run (by omega) s
    rw [run_bind_ok hentry]
    obtain ⟨log, m, hfind | ⟨e, hunattached, hfind⟩⟩ :=
      findDevice_outcome addr (findMap s.busmaps addr).devid s
    · rw [run_bind_ok hfind]
      have hlast : I (finalState (writeChecked hw pc addr (s.target addr).1 (s.target addr).2
          (findMap s.busmaps addr) val (s.traced log m))) := by
        rw [writeChecked, run_bind_ok run_get]
        by_cases hlet : s.cpuRunning = false ∨ (findMap s.busmaps addr).writable = true
        · rw [if_pos (by simpa [Board.traced] using hlet)]
          exact hallowed ⟨by omega, hlet⟩ log m
        · rw [if_neg (by simpa [Board.traced] using hlet)]
          have hdoes : Keeps I (if (findMap s.busmaps addr).ignoreWrite then pure ()
            else doFault addr FAULT_NOT_WRITABLE : BoardM σ Unit) := inferInstance
          exact hdoes.keeps _ (Untraced.traced log m s (hdenied fun hc => hlet hc.1.2))
      cases hchecked : writeChecked hw pc addr (s.target addr).1 (s.target addr).2
          (findMap s.busmaps addr) val (s.traced log m) with
      | ok u t =>
        rw [hchecked] at hlast
        exact (congrArg (fun r => I (finalState r)) (run_bind_ok hchecked)).mpr
          (Untraced.traced (_ :: t.log) t.monitorOn t hlast)
      | error e t =>
        rw [hchecked] at hlast
        exact (congrArg (fun r => I (finalState r)) (run_bind_error hchecked)).mpr hlast
    · rw [run_bind_error hfind]
      exact Untraced.traced log m s (hdenied fun hc => by simp [hunattached] at hc)
  · have hentry : entry addr s = .error (.fatal .mapIndex) s := by
      rw [entry, run_bind_ok run_get, if_neg haddr]
      rfl
    rw [run_bind_error hentry]
    exact hdenied fun hc => haddr (by have := hc.1.1; omega)

end Access

section Runs
variable {I : Board σ → Prop} [Untraced I] {hw : Hardware σ} {ok : CpuAccess → Board σ → Prop}

theorem CpuAccess.perform_keeps (hread : ∀ pc dev offset, Keeps I (hw.read pc dev offset))
    (hwrite : ∀ pc addr val s, I s → ok (.write8 pc addr val) s → LetThrough addr s → ∀ log m,
      I (finalState (hw.write pc (s.target addr).1 (s.target addr).2 val (s.traced log m))))
    (e : CpuAccess) :
    Triple (fun s => I s ∧ ok e s) (e.perform hw) (fun _ => I) I := by
  cases e with
  | read8 pc addr =>
    have hkeeps := (cpuRead8_keeps (hread pc) addr).seq fun _ => Keeps.pure (I := I) ()
    exact hkeeps.rule.mono (fun _ h => h.1) (fun _ _ h => h) fun _ h => h
  | read16 pc addr =>
    have hkeeps := (cpuRead16_keeps (hread pc) addr).seq fun _ => Keeps.pure (I := I) ()
    exact hkeeps.rule.mono (fun _ h => h.1) (fun _ _ h => h) fun _ h => h
  | write8 pc addr val =>
    exact Triple.iff_final.mpr fun s hs =>
      cpuWrite8_final val (fun _ => hs.1) (hwrite pc addr val s hs.1 hs.2)

/-- An invariant that the devices keep where the condition of an access lets them be reached holds
wherever a run of such accesses ends. -/
theorem CpuAccess.runAll_keeps (hread : ∀ pc dev offset, Keeps I (hw.read pc dev offset))
    (hwrite : ∀ pc addr val s, I s → ok (.write8 pc addr val) s → LetThrough addr s → ∀ log m,
      I (finalState (hw.write pc (s.target addr).1 (s.target addr).2 val (s.traced log m))))
    {es : List CpuAccess} {s : Board σ} (hs : I s)
    (hok : Along (CpuAccess.perform hw) ok es s) :
    I (finalState (runAll (CpuAccess.perform hw) es s)) :=
  Triple.iff_final.mp (runAll_invariant (CpuAccess.perform_keeps hread hwrite) es) s ⟨hs, hok⟩

/-- During the run no byte of a ROM changes. -/
def RomKept (hw : Hardware σ) (es : List CpuAccess) (s : Board σ) : Prop :=
  ∀ es', es' <+: es → ∀ dev, (s.devices.getD dev ⟨.null, 0⟩).cls = .rom → ∀ a,
    (finalState (runAll (CpuAccess.perform hw) es' s)).mem dev a = s.mem dev a

/-- The invariant that keeps the ROM also keeps what leads to it out of reach. -/
theorem romKept_of_along (hread : ∀ pc dev offset, Keeps I (hw.read pc dev offset))
    (hwrite : ∀ pc addr val s, I s → ok (.write8 pc addr val) s → LetThrough addr s → ∀ log m,
      I (finalState (hw.write pc (s.target addr).1 (s.target addr).2 val (s.traced log m))))
    {es : List CpuAccess} {s : Board σ} (hs : I s) (hok : Along (CpuAccess.perform hw) ok es s)
    (hrom : ∀ t, I t → ∀ dev, (s.devices.getD dev ⟨.null, 0⟩).cls = .rom → t.mem dev = s.mem dev) :
    RomKept hw es s := by
  intro es' hes' dev hdev a
  have hend := CpuAccess.runAll_keeps hread hwrite hs (hok.initial hes')
  rw [hrom _ hend dev hdev]

end Runs

end Exec09
