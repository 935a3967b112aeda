import Exec09.Cpu.Elapsed

/-! # Emulated time

A turn of the main loop lets the devices work, runs `cpu_execute` and lets the
machine tick. Time is `total + cpu_period - cpu_clk`, and `cpu_execute` sets
both of the latter when it begins. What an interrupt entry charges before that
is lost, and the next call of `get_cycles` may return less than the last.

The programs below are those of the processor with a record of the calls of
`get_cycles` and of the cycles charged. Without the record they are the same.
-/
namespace Exec09
open Foundation
variable {β : Type}

set_option synthInstance.maxSize 100000

structure Observed (β : Type) where
  cpu : Cpu β
  /-- What `get_cycles` has returned to devices, `irq` and `rti`, latest first. -/
  readings : List ℕ
  /-- The sum of what has been charged to `cpu_clk`. -/
  charged : ℤ

abbrev ObservedM (β : Type) := EStateM Stop (Observed β)

def observe (s : Cpu β) : Observed β := ⟨s, [], 0⟩

/-- Run a program that charges cycles. -/
def charging {α : Type} (m : CpuM β α) : ObservedM β α := fun o =>
  match m o.cpu with
  | .ok a s => .ok a { o with cpu := s, charged := o.charged + (o.cpu.cpuClk - s.cpuClk) }
  | .error e s => .error e { o with cpu := s, charged := o.charged + (o.cpu.cpuClk - s.cpuClk) }

/-- Run a program that charges nothing. -/
def setting (m : CpuM β Unit) : ObservedM β Unit := fun o =>
  match m o.cpu with
  | .ok a s => .ok a { o with cpu := s }
  | .error e s => .error e { o with cpu := s }

/-- A call of `get_cycles`. -/
def readCycles : ObservedM β ℕ := fun o =>
  .ok (getCycles o.cpu) { o with readings := getCycles o.cpu :: o.readings }

/-! ## The program with its record -/

section Observed
variable [Bus β]

/-- The part of `irq` after its call of `get_cycles`. -/
def irqTail (t : ℕ) : CpuM β Unit := do
  setIrqStartTime fun _ => t
  changePc (← read16 0xfff8)

def irqObserved : ObservedM β Unit := do
  charging (do enterInterrupt true; mask I_FLAG)
  let t ← readCycles
  charging (irqTail t)

/-- The part of `rti` after its call of `get_cycles`. -/
def rtiTail (t : ℕ) : CpuM β Unit := do
  commandExitIrqHook fun s => Word.sub 64 t s.irqStartTime
  setCc (← pull8 .S)
  onlyIf ((← look Cpu.EFI) &&& E_FLAG ≠ 0) do
    charge 9
    pullRegisters
  setPc (← pull16 .S)

def rtiObserved : ObservedM β Unit := do
  charging (do monitorReturn; charge 6)
  let t ← readCycles
  charging (rtiTail t)

def selectedObserved (sel : Selected) : ObservedM β Unit :=
  if sel = .insn .rti then rtiObserved else charging sel.exec

def checkPendingObserved : ObservedM β Unit := do
  if ← charging (look firqDeliverable) then charging firq
  else if ← charging (look irqDeliverable) then irqObserved

def cpuStepObserved : ObservedM β Unit := do
  let sel ← charging (do modify latchPc; fetchOpcode)
  selectedObserved sel
  if ← charging (look Cpu.ccChanged) then
    checkPendingObserved
    charging clearCcChanged

/-- What a device does in its update, its tick or an access to it. -/
inductive DeviceCall
  | getCycles
  | requestIrq (source : ℕ)
  | releaseIrq (source : ℕ)
  | requestFirq (source : ℕ)
  | releaseFirq (source : ℕ)
  deriving DecidableEq, Repr

def DeviceCall.observed : DeviceCall → ObservedM β Unit
  | .getCycles => do let _ ← readCycles
  | .requestIrq n => do
    setting (modify fun s => { s with irqsPending := s.irqsPending ||| (1 <<< n) })
    if (← charging (look Cpu.EFI)) &&& I_FLAG = 0 then irqObserved
  | .releaseIrq n => setting (Exec09.releaseIrq n)
  | .requestFirq n => do
    setting (modify fun s => { s with firqsPending := s.firqsPending ||| (1 <<< n) })
    if (← charging (look Cpu.EFI)) &&& F_FLAG = 0 then charging firq
  | .releaseFirq n => setting (Exec09.releaseFirq n)

/-- What happens inside `cpu_execute`. -/
inductive SliceStep
  | insn
  | call (d : DeviceCall)
  deriving DecidableEq, Repr

def SliceStep.observed : SliceStep → ObservedM β Unit
  | .insn => cpuStepObserved
  | .call d => d.observed

/-- A turn of the main loop. -/
structure Turn where
  /-- The calls of `machine_update`. -/
  update : List DeviceCall
  /-- The argument of `cpu_execute`. -/
  cycles : ℤ
  slice : List SliceStep
  /-- The calls of the machine's tick. -/
  tick : List DeviceCall
  deriving DecidableEq, Repr

def Turn.observed (t : Turn) : ObservedM β Unit := do
  runAll DeviceCall.observed t.update
  setting (beginSlice t.cycles)
  runAll SliceStep.observed t.slice
  setting endSlice
  runAll DeviceCall.observed t.tick

end Observed

/-! ## The record changes nothing -/

def eraseRecord {α : Type} : EStateM.Result Stop (Observed β) α → EStateM.Result Stop (Cpu β) α
  | .ok a o => .ok a o.cpu
  | .error e o => .error e o.cpu

/-- Without its record, `mo` is `m`. -/
class Erases {α : Type} (mo : ObservedM β α) (m : outParam (CpuM β α)) : Prop where
  run : ∀ o, eraseRecord (mo o) = m o.cpu

namespace Erases
variable {α γ : Type} {mo no : ObservedM β α} {m n : CpuM β α}

instance charging (m : CpuM β α) : Erases (charging m) m where
  run o := by
    unfold Exec09.charging
    cases m o.cpu <;> rfl

instance setting (m : CpuM β Unit) : Erases (setting m) m where
  run o := by
    unfold Exec09.setting
    cases m o.cpu <;> rfl

instance readCycles : Erases (readCycles (β := β)) (look getCycles) := ⟨fun _ => rfl⟩

instance pure (a : α) : Erases (pure a : ObservedM β α) (pure a) := ⟨fun _ => rfl⟩

instance bind {fo : α → ObservedM β γ} {f : α → CpuM β γ} [hm : Erases mo m]
    [hf : ∀ a, Erases (fo a) (f a)] : Erases (mo >>= fo) (m >>= f) where
  run o := by
    have h := hm.run o
    cases hr : mo o with
    | ok a o' =>
      rw [hr] at h
      rw [run_bind_ok hr, run_bind_ok h.symm]
      exact (hf a).run o'
    | error e o' =>
      rw [hr] at h
      rw [run_bind_error hr, run_bind_error h.symm]
      rfl

instance ite {c : Prop} [Decidable c] [hm : Erases mo m] [hn : Erases no n] :
    Erases (if c then mo else no) (if c then m else n) := by
  by_cases h : c
  · simpa only [if_pos h] using hm
  · simpa only [if_neg h] using hn

theorem runAll {ι : Type} {po : ι → ObservedM β Unit} {p : ι → CpuM β Unit}
    (h : ∀ e, Erases (po e) (p e)) (es : List ι) : Erases (runAll po es) (runAll p es) := by
  induction es with
  | nil => exact Erases.pure _
  | cons e es ih =>
    have he := h e
    exact Erases.bind

end Erases

section Erasure
variable [Bus β]

instance irqObserved_erases : Erases (irqObserved (β := β)) irq := by
  have h : Erases (irqObserved (β := β)) (do
      (do enterInterrupt true; mask I_FLAG); let t ← look getCycles; irqTail t) := by
    unfold irqObserved
    infer_instance
  rwa [bind_assoc] at h

instance rtiObserved_erases : Erases (rtiObserved (β := β)) rti := by
  have h : Erases (rtiObserved (β := β)) (do
      (do monitorReturn; charge 6); let t ← look getCycles; rtiTail t) := by
    unfold rtiObserved
    infer_instance
  rwa [bind_assoc] at h

instance selectedObserved_erases (sel : Selected) :
    Erases (selectedObserved (β := β) sel) sel.exec := by
  unfold selectedObserved
  by_cases h : sel = .insn .rti
  · rw [if_pos h, h]
    exact rtiObserved_erases
  · rw [if_neg h]
    infer_instance

instance checkPendingObserved_erases : Erases (checkPendingObserved (β := β)) checkPending := by
  unfold checkPendingObserved checkPending
  infer_instance

instance cpuStepObserved_erases : Erases (cpuStepObserved (β := β)) cpuStep := by
  have h : Erases (cpuStepObserved (β := β)) (do
      let sel ← (do modify latchPc; fetchOpcode)
      sel.exec
      if ← look Cpu.ccChanged then ccModified) := by
    unfold cpuStepObserved ccModified
    infer_instance
  unfold cpuStep fetchExecute
  simpa only [bind_assoc] using h

/-- The events of a call. -/
def DeviceCall.events : DeviceCall → List Event
  | .getCycles => []
  | .requestIrq n => [.requestIrq n]
  | .releaseIrq n => [.releaseIrq n]
  | .requestFirq n => [.requestFirq n]
  | .releaseFirq n => [.releaseFirq n]

def SliceStep.events : SliceStep → List Event
  | .insn => [.insn]
  | .call d => d.events

def Turn.events (t : Turn) : List Event :=
  t.update.flatMap DeviceCall.events ++ .beginSlice t.cycles ::
    (t.slice.flatMap SliceStep.events ++ .endSlice :: t.tick.flatMap DeviceCall.events)

theorem erases_flatMap {ι : Type} {po : ι → ObservedM β Unit} {events : ι → List Event}
    (h : ∀ e, Erases (po e) (runAll Event.perform (events e))) (es : List ι) :
    Erases (runAll po es) (runAll Event.perform (es.flatMap events)) := by
  induction es with
  | nil => exact Erases.pure _
  | cons e es ih =>
    have he := h e
    rw [List.flatMap_cons, runAll_append]
    exact Erases.bind

theorem deviceCall_erases (d : DeviceCall) :
    Erases (d.observed (β := β)) (runAll Event.perform d.events) := by
  cases d with
  | getCycles =>
    -- the event list is empty: reading the clock and returning is what `pure` does
    have hread : Erases (β := β) (do let _ ← readCycles) (do let _ ← look getCycles) :=
      inferInstance
    exact hread
  | requestIrq n =>
    rw [DeviceCall.events, runAll_single]
    unfold DeviceCall.observed Event.perform requestIrq
    infer_instance
  | releaseIrq n =>
    rw [DeviceCall.events, runAll_single]
    exact Erases.setting (Exec09.releaseIrq n)
  | requestFirq n =>
    rw [DeviceCall.events, runAll_single]
    unfold DeviceCall.observed Event.perform requestFirq
    infer_instance
  | releaseFirq n =>
    rw [DeviceCall.events, runAll_single]
    exact Erases.setting (Exec09.releaseFirq n)

theorem sliceStep_erases (e : SliceStep) :
    Erases (e.observed (β := β)) (runAll Event.perform e.events) := by
  cases e with
  | insn =>
    rw [SliceStep.events, runAll_single]
    exact cpuStepObserved_erases
  | call d => exact deviceCall_erases d

/-- A turn is a run of its events. -/
theorem turn_erases (t : Turn) : Erases (t.observed (β := β)) (runAll Event.perform t.events) := by
  have hupdate := erases_flatMap (deviceCall_erases (β := β)) t.update
  have hslice := erases_flatMap (sliceStep_erases (β := β)) t.slice
  have htick := erases_flatMap (deviceCall_erases (β := β)) t.tick
  have h : Erases (t.observed (β := β)) (do
      runAll Event.perform (t.update.flatMap DeviceCall.events)
      beginSlice t.cycles
      runAll Event.perform (t.slice.flatMap SliceStep.events)
      endSlice
      runAll Event.perform (t.tick.flatMap DeviceCall.events)) := by
    unfold Turn.observed
    infer_instance
  rw [Turn.events, runAll_append, runAll, runAll_append, runAll]
  exact h

end Erasure

/-! ## Time passes -/

/-- The readings are in order and the charges are in the clock. -/
structure Regular (start : ℕ) (o : Observed β) : Prop where
  charged : 0 ≤ o.charged
  time : (o.cpu.total : ℤ) + o.cpu.cpuPeriod - o.cpu.cpuClk = start + o.charged
  sorted : o.readings.Pairwise (· ≥ ·)
  past : ∀ r ∈ o.readings, (r : ℤ) ≤ start + o.charged

/-- Up to the limit of `unsigned long`. -/
def Timely (start : ℕ) (o : Observed β) : Prop := start + o.charged < 2 ^ 64 → Regular start o

section Timely
variable {start : ℕ} {α : Type}

theorem Timely.charge {o : Observed β} {s : Cpu β} (ho : Timely start o)
    (hs : (mark o.cpu (some o.cpu.cpuClk)).Since s) :
    Timely start { o with cpu := s, charged := o.charged + (o.cpu.cpuClk - s.cpuClk) } := by
  intro hlimit
  have hclk : s.cpuClk ≤ o.cpu.cpuClk := hs.cpuClk _ rfl
  have hregular := ho (by dsimp only at hlimit; omega)
  have hcharged := hregular.charged
  have htime := hregular.time
  have hperiod : s.cpuPeriod = o.cpu.cpuPeriod := hs.cpuPeriod
  have htotal : s.total = o.cpu.total := hs.total
  refine ⟨by dsimp only; omega, ?_, hregular.sorted, fun r hr => ?_⟩
  · dsimp only
    rw [htotal, hperiod]
    omega
  · have hpast := hregular.past r hr
    dsimp only
    omega

theorem charging_triple {m : CpuM β α} {P : Cpu β → Prop}
    (h : ∀ x : Mark, Triple (fun s => P s ∧ x.Since s) m (fun _ => x.Since) x.Since) :
    Triple (fun o => P o.cpu ∧ Timely start o) (charging m) (fun _ => Timely start)
      (Timely start) := by
  rintro o ⟨hp, ho⟩
  have hs := h (mark o.cpu (some o.cpu.cpuClk)) o.cpu ⟨hp, since_self _⟩
  unfold charging
  cases hr : m o.cpu with
  | ok a s =>
    rw [hr] at hs
    exact ho.charge hs
  | error e s =>
    rw [hr] at hs
    exact ho.charge hs

instance charging_timely (m : CpuM β α) [h : ∀ x : Mark, Keeps x.Since m] :
    Keeps (Timely start) (charging m) := by
  have hm : ∀ x : Mark, Triple (fun s => True ∧ x.Since s) m (fun _ => x.Since) x.Since :=
    fun x => (Keeps.iff_triple.mp (h x)).mono (fun _ hs => hs.2) (fun _ _ hs => hs) fun _ hs => hs
  exact Keeps.iff_triple.mpr ((charging_triple hm).mono (fun _ ho => ⟨trivial, ho⟩)
    (fun _ _ ho => ho) fun _ ho => ho)

instance readCycles_timely : Keeps (Timely start) (readCycles (β := β)) where
  keeps o ho := by
    intro hlimit
    have hregular := ho hlimit
    have hcharged := hregular.charged
    have hnow : ((getCycles o.cpu : ℕ) : ℤ) = start + o.charged := by
      change start + o.charged < 2 ^ 64 at hlimit
      rw [getCycles, hregular.time]
      omega
    refine ⟨hregular.charged, hregular.time, ?_, ?_⟩
    · refine List.pairwise_cons.mpr ⟨fun r hr => ?_, hregular.sorted⟩
      have hpast := hregular.past r hr
      omega
    · intro r hr
      rcases List.mem_cons.mp hr with rfl | hr
      · exact hnow.le
      · exact hregular.past r hr

variable [Bus β]

instance irqTail_since (x : Mark) (t : ℕ) : Keeps x.Since (irqTail (β := β) t) := by
  unfold irqTail
  infer_instance

instance rtiTail_since (x : Mark) (t : ℕ) : Keeps x.Since (rtiTail (β := β) t) := by
  unfold rtiTail
  infer_instance

instance irqObserved_timely : Keeps (Timely start) (irqObserved (β := β)) := by
  unfold irqObserved
  infer_instance

instance rtiObserved_timely : Keeps (Timely start) (rtiObserved (β := β)) := by
  unfold rtiObserved
  infer_instance

instance checkPendingObserved_timely : Keeps (Timely start) (checkPendingObserved (β := β)) := by
  unfold checkPendingObserved
  infer_instance

omit [Bus β] in
/-- A program that charges nothing and leaves the clock alone. -/
theorem setting_timely {g : Cpu β → Cpu β} (htotal : ∀ s, (g s).total = s.total)
    (hperiod : ∀ s, (g s).cpuPeriod = s.cpuPeriod) (hclk : ∀ s, (g s).cpuClk = s.cpuClk) :
    Keeps (Timely start) (setting (modify g)) where
  keeps o ho := by
    intro hlimit
    have hregular := ho hlimit
    refine ⟨hregular.charged, ?_, hregular.sorted, hregular.past⟩
    change ((g o.cpu).total : ℤ) + (g o.cpu).cpuPeriod - (g o.cpu).cpuClk = start + o.charged
    rw [htotal, hperiod, hclk]
    exact hregular.time

instance deviceCall_timely (d : DeviceCall) : Keeps (Timely start) (d.observed (β := β)) := by
  cases d with
  | getCycles =>
    unfold DeviceCall.observed
    infer_instance
  | requestIrq n =>
    have hset : Keeps (Timely start) (setting (modify fun s : Cpu β =>
        { s with irqsPending := s.irqsPending ||| (1 <<< n) })) :=
      setting_timely (fun _ => rfl) (fun _ => rfl) fun _ => rfl
    unfold DeviceCall.observed
    infer_instance
  | releaseIrq n =>
    unfold DeviceCall.observed releaseIrq
    exact setting_timely (fun _ => rfl) (fun _ => rfl) fun _ => rfl
  | requestFirq n =>
    have hset : Keeps (Timely start) (setting (modify fun s : Cpu β =>
        { s with firqsPending := s.firqsPending ||| (1 <<< n) })) :=
      setting_timely (fun _ => rfl) (fun _ => rfl) fun _ => rfl
    unfold DeviceCall.observed
    infer_instance
  | releaseFirq n =>
    unfold DeviceCall.observed releaseFirq
    exact setting_timely (fun _ => rfl) (fun _ => rfl) fun _ => rfl

theorem cpuStepObserved_timely :
    Triple (fun o : Observed β => JmpLegal o.cpu ∧ Timely start o) cpuStepObserved
      (fun _ => Timely start) (Timely start) := by
  unfold cpuStepObserved
  have hfetch : Triple (fun o : Observed β => JmpLegal o.cpu ∧ Timely start o)
      (charging (do modify latchPc; fetchOpcode))
      (fun sel o => (∃ s, JmpLegal s ∧ fetchOpcode (latchPc s) = .ok sel o.cpu) ∧ Timely start o)
      (Timely start) := by
    rintro o ⟨hjmp, ho⟩
    have htimely : Keeps (Timely (β := β) start) (charging do modify latchPc; fetchOpcode) :=
      charging_timely _
    have hkeep := htimely.keeps o ho
    have hrun : charging (do modify latchPc; fetchOpcode) o =
        charging fetchOpcode { o with cpu := latchPc o.cpu } := by
      unfold charging
      rw [run_bind_ok (run_modify latchPc)]
      cases fetchOpcode (latchPc o.cpu) <;> rfl
    rw [hrun] at hkeep ⊢
    unfold charging at hkeep ⊢
    cases hr : fetchOpcode (latchPc o.cpu) with
    | ok sel t =>
      simp only [hr] at hkeep ⊢
      exact ⟨⟨o.cpu, hjmp, hr⟩, hkeep⟩
    | error e t =>
      simp only [hr] at hkeep ⊢
      exact hkeep
  refine hfetch.bind fun sel => ?_
  refine Triple.bind (Q := fun _ => Timely start) ?_ fun _ => Keeps.iff_triple.mp inferInstance
  rintro o ⟨⟨s, hjmp, hs⟩, ho⟩
  unfold selectedObserved
  by_cases hsel : sel = .insn .rti
  · simp only [if_pos hsel]
    exact Keeps.iff_triple.mp rtiObserved_timely o ho
  · simp only [if_neg hsel]
    exact charging_triple (fun x => exec_fetched hjmp hs) o ⟨rfl, ho⟩

end Timely

/-! ## Between two calls of `cpu_execute` -/

/-- `cpu_period` and `cpu_clk` cancel out in `get_cycles`. -/
def Level (s : Cpu β) : Prop := s.cpuPeriod = s.cpuClk

section Level
variable {α : Type}

instance onBus_level (m : EStateM Stop β α) : Keeps (Level (β := β)) (onBus m) where
  keeps s hs := by
    unfold onBus
    cases m s.bus <;> exact hs

instance note_level (e : Access) : Keeps (Level (β := β)) (note e) := Keeps.modify fun _ h => h
instance changePc_level (a : ℕ) : Keeps (Level (β := β)) (changePc a) := Keeps.modify fun _ h => h
instance setEfi_level (v : ℕ) : Keeps (Level (β := β)) (setEfi v) := Keeps.modify fun _ h => h
instance setIrqStartTime_level (v : Cpu β → ℕ) : Keeps (Level (β := β)) (setIrqStartTime v) :=
  Keeps.modify fun _ h => h

theorem charging_cpu {m : CpuM β α} {P E : Cpu β → Prop} {Q : α → Cpu β → Prop}
    (h : Triple P m Q E) :
    Triple (fun o => P o.cpu) (charging m) (fun a o => Q a o.cpu) fun o => E o.cpu := by
  intro o ho
  have hm := h o.cpu ho
  unfold charging
  cases hr : m o.cpu with
  | ok a s =>
    rw [hr] at hm
    exact hm
  | error e s =>
    rw [hr] at hm
    exact hm

instance charging_level (m : CpuM β α) [Keeps (Level (β := β)) m] :
    Keeps (fun o => Level o.cpu) (charging m) :=
  Keeps.iff_triple.mpr (charging_cpu (Keeps.iff_triple.mp inferInstance))

variable [Bus β]

/-- An interrupt that CWAI waits for stacks nothing. -/
theorem enterInterrupt_level (full : Bool) :
    Triple (fun s : Cpu β => s.cwaiState = .wait ∧ Level s) (enterInterrupt full)
      (fun _ => Level) Level := by
  rintro s ⟨hwait, hs⟩
  unfold enterInterrupt
  rw [run_bind_ok (run_look _ s), hwait]
  exact hs

theorem irqObserved_level :
    Triple (fun o : Observed β => o.cpu.cwaiState = .wait ∧ Level o.cpu) irqObserved
      (fun _ o => Level o.cpu) fun o => Level o.cpu := by
  have htail (t : ℕ) : Keeps (Level (β := β)) (irqTail t) := by
    unfold irqTail
    infer_instance
  have hread : Keeps (fun o : Observed β => Level o.cpu) readCycles := ⟨fun _ h => h⟩
  have hrest : Keeps (fun o : Observed β => Level o.cpu) (do
      let t ← readCycles; charging (irqTail t)) := inferInstance
  have henter : Triple (fun s : Cpu β => s.cwaiState = .wait ∧ Level s)
      (do enterInterrupt true; mask I_FLAG) (fun _ => Level) Level :=
    (enterInterrupt_level true).bind fun _ => Keeps.iff_triple.mp inferInstance
  unfold irqObserved
  exact (charging_cpu henter).bind fun _ => Keeps.iff_triple.mp hrest

theorem firq_level :
    Triple (fun s : Cpu β => s.cwaiState = .wait ∧ Level s) firq (fun _ => Level) Level := by
  have hrest : Keeps (Level (β := β)) (do
      mask (I_FLAG ||| F_FLAG); changePc (← read16 0xfff6)) := inferInstance
  unfold firq
  exact (enterInterrupt_level false).bind fun _ => Keeps.iff_triple.mp hrest

/-- A call that makes the processor stack no frame. -/
def DeviceCall.Quiet : DeviceCall → Cpu β → Prop
  | .requestIrq _, s => s.EFI &&& I_FLAG ≠ 0 ∨ s.cwaiState = .wait
  | .requestFirq _, s => s.EFI &&& F_FLAG ≠ 0 ∨ s.cwaiState = .wait
  | _, _ => True

instance DeviceCall.Quiet.decidable : ∀ (d : DeviceCall) (s : Cpu β), Decidable (d.Quiet s)
  | .requestIrq _, _ => inferInstanceAs (Decidable (_ ∨ _))
  | .requestFirq _, _ => inferInstanceAs (Decidable (_ ∨ _))
  | .getCycles, _ | .releaseIrq _, _ | .releaseFirq _, _ => isTrue trivial

theorem deviceCall_level (d : DeviceCall) :
    Triple (fun o : Observed β => Level o.cpu ∧ d.Quiet o.cpu) d.observed
      (fun _ o => Level o.cpu) fun o => Level o.cpu := by
  cases d with
  | getCycles => exact fun o ho => ho.1
  | releaseIrq n => exact fun o ho => ho.1
  | releaseFirq n => exact fun o ho => ho.1
  | requestIrq n =>
    have hlook : Triple (fun s : Cpu β => Level s ∧ DeviceCall.Quiet (.requestIrq n) s)
        (look Cpu.EFI) (fun efi s => (efi &&& I_FLAG ≠ 0 ∨ s.cwaiState = .wait) ∧ Level s) Level :=
      look_triple fun s hs => ⟨hs.2, hs.1⟩
    unfold DeviceCall.observed
    refine Triple.bind
      (Q := fun _ (o : Observed β) => Level o.cpu ∧ DeviceCall.Quiet (.requestIrq n) o.cpu)
      (fun _ ho => ho) fun _ => (charging_cpu hlook).bind fun efi => ?_
    refine Triple.ite (fun hunmasked => ?_) fun _ => Triple.pure _ fun o ho => ho.2
    exact irqObserved_level.mono (fun o ho => ⟨ho.1.resolve_left (not_not_intro hunmasked), ho.2⟩)
      (fun _ _ ho => ho) fun _ ho => ho
  | requestFirq n =>
    have hlook : Triple (fun s : Cpu β => Level s ∧ DeviceCall.Quiet (.requestFirq n) s)
        (look Cpu.EFI) (fun efi s => (efi &&& F_FLAG ≠ 0 ∨ s.cwaiState = .wait) ∧ Level s) Level :=
      look_triple fun s hs => ⟨hs.2, hs.1⟩
    unfold DeviceCall.observed
    refine Triple.bind
      (Q := fun _ (o : Observed β) => Level o.cpu ∧ DeviceCall.Quiet (.requestFirq n) o.cpu)
      (fun _ ho => ho) fun _ => (charging_cpu hlook).bind fun efi => ?_
    refine Triple.ite (fun hunmasked => ?_) fun _ => Triple.pure _ fun o ho => ho.2
    exact (charging_cpu firq_level).mono
      (fun o ho => ⟨ho.1.resolve_left (not_not_intro hunmasked), ho.2⟩)
      (fun _ _ ho => ho) fun _ ho => ho

end Level

/-! ## A turn -/

section Turn
variable {start : ℕ}

theorem beginSlice_timely (cycles : ℤ) :
    Triple (fun o : Observed β => Timely start o ∧ Level o.cpu) (setting (beginSlice cycles))
      (fun _ => Timely start) (Timely start) := by
  rintro o ⟨ho, hlevel⟩
  intro hlimit
  have hregular := ho hlimit
  have htime := hregular.time
  refine ⟨hregular.charged, ?_, hregular.sorted, hregular.past⟩
  unfold Level at hlevel
  change (o.cpu.total : ℤ) + cycles - cycles = start + o.charged
  omega

theorem endSlice_timely :
    Triple (Timely (β := β) start) (setting endSlice)
      (fun _ o => Timely start o ∧ Level o.cpu) (Timely start) := by
  intro o ho
  refine ⟨fun hlimit => ?_, rfl⟩
  have hregular := ho hlimit
  have hcharged := hregular.charged
  have htime := hregular.time
  refine ⟨hregular.charged, ?_, hregular.sorted, hregular.past⟩
  change start + o.charged < 2 ^ 64 at hlimit
  change ((((o.cpu.total + (o.cpu.cpuPeriod - o.cpu.cpuClk)) % 2 ^ 64).toNat : ℕ) : ℤ) +
    (o.cpu.cpuPeriod - o.cpu.cpuClk) - (o.cpu.cpuPeriod - o.cpu.cpuClk) = start + o.charged
  omega

variable [Bus β]

/-- No frame is stacked between two calls of `cpu_execute`. -/
def Outside (ds : List DeviceCall) : Observed β → Prop :=
  Along DeviceCall.observed (fun d o => d.Quiet o.cpu) ds

/-- An instruction gives no cycle back. -/
def SliceStep.Legal : SliceStep → Cpu β → Prop
  | .insn, s => JmpLegal s
  | .call _, _ => True

instance : ∀ (e : SliceStep) (s : Cpu β), Decidable (e.Legal s)
  | .insn, s => inferInstanceAs (Decidable (JmpLegal s))
  | .call _, _ => isTrue trivial

/-- The condition on `cpu_execute` and the tick. -/
def Turn.FairSlice (t : Turn) (o : Observed β) : Prop :=
  Along SliceStep.observed (fun e o => e.Legal o.cpu) t.slice o ∧
    OnReturn (do runAll SliceStep.observed t.slice; setting endSlice) o fun _ => Outside t.tick

def Turn.Fair (t : Turn) (o : Observed β) : Prop :=
  Outside t.update o ∧
    OnReturn (do runAll DeviceCall.observed t.update; setting (beginSlice t.cycles)) o
      fun _ => t.FairSlice

instance (ds : List DeviceCall) (o : Observed β) : Decidable (Outside ds o) :=
  inferInstanceAs (Decidable (Along _ _ ds o))

instance (t : Turn) (o : Observed β) : Decidable (t.FairSlice o) :=
  inferInstanceAs (Decidable (_ ∧ OnReturn _ _ fun _ => Outside t.tick))

instance (t : Turn) (o : Observed β) : Decidable (t.Fair o) :=
  inferInstanceAs (Decidable (Outside _ _ ∧ OnReturn _ _ fun _ => t.FairSlice))

theorem outside_timely (ds : List DeviceCall) :
    Triple (fun o : Observed β => (Timely start o ∧ Level o.cpu) ∧ Outside ds o)
      (runAll DeviceCall.observed ds) (fun _ o => Timely start o ∧ Level o.cpu) (Timely start) := by
  refine runAll_invariant (fun d => ?_) ds
  have htimely : Keeps (Timely (β := β) start) d.observed := deviceCall_timely d
  have hboth := (Keeps.iff_triple.mp htimely).and (deviceCall_level d)
  exact hboth.mono (fun o ho => ⟨ho.1.1, ho.1.2, ho.2⟩) (fun _ _ ho => ho) fun _ ho => ho.1

theorem slice_timely (es : List SliceStep) :
    Triple (fun o : Observed β => Timely start o ∧
        Along SliceStep.observed (fun e o => e.Legal o.cpu) es o)
      (runAll SliceStep.observed es) (fun _ => Timely start) (Timely start) := by
  refine runAll_invariant (fun e => ?_) es
  cases e with
  | insn =>
    exact cpuStepObserved_timely.mono (fun o ho => ⟨ho.2, ho.1⟩) (fun _ _ ho => ho) fun _ ho => ho
  | call d =>
    exact (Keeps.iff_triple.mp (deviceCall_timely d)).mono (fun o ho => ho.1) (fun _ _ ho => ho)
      fun _ ho => ho

theorem turn_timely (t : Turn) :
    Triple (fun o : Observed β => (Timely start o ∧ Level o.cpu) ∧ t.Fair o) t.observed
      (fun _ o => Timely start o ∧ Level o.cpu) (Timely start) := by
  have hupdate : Triple (fun o : Observed β => (Timely start o ∧ Level o.cpu) ∧ t.Fair o)
      (do runAll DeviceCall.observed t.update; setting (beginSlice t.cycles))
      (fun _ o => Timely start o ∧ t.FairSlice o) (Timely start) := by
    have houtside : Triple (fun o : Observed β => (Timely start o ∧ Level o.cpu) ∧ Outside t.update o)
        (runAll DeviceCall.observed t.update) (fun _ o => Timely start o ∧ Level o.cpu)
        (Timely start) := outside_timely t.update
    have h := houtside.bind fun _ => beginSlice_timely t.cycles
    exact h.onReturn.mono (fun o ho => ⟨⟨ho.1, ho.2.1⟩, ho.2.2⟩) (fun _ _ ho => ho) fun _ ho => ho
  have hslice : Triple (fun o : Observed β => Timely start o ∧ t.FairSlice o)
      (do runAll SliceStep.observed t.slice; setting endSlice)
      (fun _ o => (Timely start o ∧ Level o.cpu) ∧ Outside t.tick o) (Timely start) := by
    have hsteps : Triple (fun o : Observed β => Timely start o ∧
        Along SliceStep.observed (fun e o => e.Legal o.cpu) t.slice o)
        (runAll SliceStep.observed t.slice) (fun _ => Timely start) (Timely start) :=
      slice_timely t.slice
    have h := hsteps.bind fun _ => endSlice_timely
    exact h.onReturn.mono (fun o ho => ⟨⟨ho.1, ho.2.1⟩, ho.2.2⟩) (fun _ _ ho => ho) fun _ ho => ho
  have hassoc : t.observed (β := β) = (do
      (do runAll DeviceCall.observed t.update; setting (beginSlice t.cycles))
      (do runAll SliceStep.observed t.slice; setting endSlice)
      runAll DeviceCall.observed t.tick) := by
    simp only [Turn.observed, bind_assoc]
  rw [hassoc]
  exact hupdate.bind fun _ => hslice.bind fun _ => outside_timely t.tick

omit [Bus β] in
theorem observe_timely (s : Cpu β) (hs : Level s) :
    Timely s.total (observe s) ∧ Level (observe s).cpu := by
  refine ⟨fun _ => ⟨le_rfl, ?_, List.Pairwise.nil, nofun⟩, hs⟩
  unfold Level at hs
  change (s.total : ℤ) + s.cpuPeriod - s.cpuClk = s.total + 0
  omega

end Turn

section FlatRam

/-- LDS #$2000, ANDCC #$EF, and an interrupt handler that returns at once. -/
def unmaskingProgram : FlatRam := .image
  [(0x1000, [0x10, 0xce, 0x20, 0x00, 0x1c, 0xef]), (0x3000, [0x3b]), (0xfff8, [0x30, 0x00]),
    (0xfffe, [0x10, 0x00])]

def unmaskingStart : Cpu FlatRam := finalState (cpuReset (Cpu.powerOn unmaskingProgram))

end FlatRam

end Exec09
