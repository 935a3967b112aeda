import Exec09.Cpu.Compounds

/-! # What the machine sees of the processor

The machine behind the bus is changed by the accesses of the processor, by
`sim_error` and by the call that tells it that the processor runs, and by
nothing else. An invariant of the machine therefore need not mention the
processor: it is proved by induction on the accesses.
-/
namespace Exec09
open Foundation
variable {β : Type}

set_option synthInstance.maxSize 100000

/-- From the machine `b₀` the accesses, latest first, have led to the machine. -/
inductive Reaches [Bus β] (b₀ : β) : List Access → β → Prop
  | start : Reaches b₀ [] b₀
  | read8 {l : List Access} {b : β} (pc a : ℕ) (h : Reaches b₀ l b) :
    Reaches b₀ (.read8 a :: l) (finalState (Bus.cpuRead8 pc a b))
  | read16 {l : List Access} {b : β} (pc a : ℕ) (h : Reaches b₀ l b) :
    Reaches b₀ (.read16 a :: l) (finalState (Bus.cpuRead16 pc a b))
  | write8 {l : List Access} {b : β} (pc a data : ℕ) (h : Reaches b₀ l b) :
    Reaches b₀ (.write8 a data :: l) (finalState (Bus.cpuWrite8 pc a (BitVec.ofNat 8 data) b))
  | simError {l : List Access} {b : β} (h : Reaches b₀ l b) :
    Reaches b₀ l (finalState (Bus.simError b))
  | running {l : List Access} {b : β} (h : Reaches b₀ l b) : Reaches b₀ l (Bus.cpuIsRunning b)

/-- The machine is where the accesses since then have led to. -/
def Driven [Bus β] (b₀ : β) (l₀ : List Access) (s : Cpu β) : Prop :=
  ∃ l, s.trace = l ++ l₀ ∧ Reaches b₀ l s.bus

section Assignments
variable [Bus β] {b₀ : β} {l₀ : List Access} (v : ℕ) (n : ℤ)

/-- An assignment to the registers. -/
theorem modify_driven {g : Cpu β → Cpu β} (htrace : ∀ s, (g s).trace = s.trace)
    (hbus : ∀ s, (g s).bus = s.bus) : Keeps (Driven b₀ l₀) (modify g : CpuM β PUnit) := by
  apply Keeps.modify
  rintro s ⟨l, hl, hreaches⟩
  exact ⟨l, (htrace s).trans hl, by rwa [hbus]⟩

instance withFlags_driven {α : Type} (op : Flags → α × Flags) :
    Keeps (Driven b₀ l₀) (withFlags op) := ⟨fun _ h => h⟩
instance setEa_driven : Keeps (Driven b₀ l₀) (setEa v) := modify_driven (fun _ => rfl) fun _ => rfl
instance charge_driven : Keeps (Driven b₀ l₀) (charge n) := modify_driven (fun _ => rfl) fun _ => rfl
instance charges_driven : Charges (Driven b₀ l₀) := ⟨fun n _ => charge_driven n⟩
instance changePc_driven : Keeps (Driven b₀ l₀) (changePc v) :=
  modify_driven (fun _ => rfl) fun _ => rfl
instance advancePc_driven : Keeps (Driven b₀ l₀) (advancePc v) :=
  modify_driven (fun _ => rfl) fun _ => rfl
instance setA_driven : Keeps (Driven b₀ l₀) (setA v) := modify_driven (fun _ => rfl) fun _ => rfl
instance setB_driven : Keeps (Driven b₀ l₀) (setB v) := modify_driven (fun _ => rfl) fun _ => rfl
instance setDp_driven : Keeps (Driven b₀ l₀) (setDp v) := modify_driven (fun _ => rfl) fun _ => rfl
instance setX_driven : Keeps (Driven b₀ l₀) (setX v) := modify_driven (fun _ => rfl) fun _ => rfl
instance setY_driven : Keeps (Driven b₀ l₀) (setY v) := modify_driven (fun _ => rfl) fun _ => rfl
instance setPc_driven : Keeps (Driven b₀ l₀) (setPc v) := modify_driven (fun _ => rfl) fun _ => rfl
instance setEfi_driven : Keeps (Driven b₀ l₀) (setEfi v) := modify_driven (fun _ => rfl) fun _ => rfl
instance setCc_driven : Keeps (Driven b₀ l₀) (setCc v) := modify_driven (fun _ => rfl) fun _ => rfl
instance setCwaiState_driven (c : CwaiState) : Keeps (Driven b₀ l₀) (setCwaiState c) :=
  modify_driven (fun _ => rfl) fun _ => rfl
instance latchPc_driven : Keeps (Driven b₀ l₀) (modify latchPc : CpuM β Unit) :=
  modify_driven (fun _ => rfl) fun _ => rfl
instance clearCcChanged_driven : Keeps (Driven b₀ l₀) clearCcChanged :=
  modify_driven (fun _ => rfl) fun _ => rfl
instance setIrqStartTime_driven (f : Cpu β → ℕ) : Keeps (Driven b₀ l₀) (setIrqStartTime f) :=
  modify_driven (fun _ => rfl) fun _ => rfl
instance hook_driven (f : Cpu β → ℕ) : Keeps (Driven b₀ l₀) (commandExitIrqHook f) :=
  modify_driven (fun _ => rfl) fun _ => rfl
instance releaseIrq_driven : Keeps (Driven b₀ l₀) (releaseIrq v) :=
  modify_driven (fun _ => rfl) fun _ => rfl
instance releaseFirq_driven : Keeps (Driven b₀ l₀) (releaseFirq v) :=
  modify_driven (fun _ => rfl) fun _ => rfl
instance beginSlice_driven : Keeps (Driven b₀ l₀) (beginSlice n) :=
  modify_driven (fun _ => rfl) fun _ => rfl
instance endSlice_driven : Keeps (Driven b₀ l₀) endSlice := modify_driven (fun _ => rfl) fun _ => rfl
instance setIndexReg_driven (R : IndexReg) : Keeps (Driven b₀ l₀) (setIndexReg R v) :=
  modify_driven (fun _ => by cases R <;> rfl) fun _ => by cases R <;> rfl
instance setStackReg_driven (sp : StackReg) : Keeps (Driven b₀ l₀) (setStackReg sp v) :=
  modify_driven (fun _ => by cases sp <;> rfl) fun _ => by cases sp <;> rfl

end Assignments

section Accesses
variable [Bus β] {b₀ : β} {l₀ : List Access} (a v : ℕ)

instance simError_driven : Keeps (Driven b₀ l₀) (onBus Bus.simError : CpuM β Unit) where
  keeps s := by
    rintro ⟨l, hl, hreaches⟩
    have hnext := hreaches.simError
    unfold onBus
    cases hrun : Bus.simError s.bus <;> rw [hrun] at hnext <;> exact ⟨l, hl, hnext⟩

instance read8_driven : Keeps (Driven b₀ l₀) (read8 a) where
  keeps s := by
    rintro ⟨l, hl, hreaches⟩
    have hnext := hreaches.read8 (getPc s) a
    rw [read8_run]
    cases hrun : Bus.cpuRead8 (getPc s) a s.bus <;> rw [hrun] at hnext <;>
      exact ⟨.read8 a :: l, congrArg _ hl, hnext⟩

instance read16_driven : Keeps (Driven b₀ l₀) (read16 a) where
  keeps s := by
    rintro ⟨l, hl, hreaches⟩
    have hnext := hreaches.read16 (getPc s) a
    rw [read16_run]
    cases hrun : Bus.cpuRead16 (getPc s) a s.bus <;> rw [hrun] at hnext <;>
      exact ⟨.read16 a :: l, congrArg _ hl, hnext⟩

instance write8_driven : Keeps (Driven b₀ l₀) (write8 a v) where
  keeps s := by
    rintro ⟨l, hl, hreaches⟩
    have hnext := hreaches.write8 (getPc s) a v
    rw [write8_run]
    cases hrun : Bus.cpuWrite8 (getPc s) a (BitVec.ofNat 8 v) s.bus <;> rw [hrun] at hnext <;>
      exact ⟨.write8 a v :: l, congrArg _ hl, hnext⟩

end Accesses

section Runs
variable [Bus β] {b₀ : β} {l₀ : List Access}

instance requestIrq_driven (n : ℕ) : Keeps (Driven b₀ l₀) (requestIrq n) := by
  have hset : Keeps (Driven b₀ l₀)
      (modify fun s => { s with irqsPending := s.irqsPending ||| (1 <<< n) } : CpuM β Unit) :=
    modify_driven (fun _ => rfl) fun _ => rfl
  unfold requestIrq
  infer_instance

instance requestFirq_driven (n : ℕ) : Keeps (Driven b₀ l₀) (requestFirq n) := by
  have hset : Keeps (Driven b₀ l₀)
      (modify fun s => { s with firqsPending := s.firqsPending ||| (1 <<< n) } : CpuM β Unit) :=
    modify_driven (fun _ => rfl) fun _ => rfl
  unfold requestFirq
  infer_instance

instance exec_driven (i : Insn) : Keeps (Driven b₀ l₀) i.exec := by
  cases i <;> unfold Insn.exec <;> infer_instance

instance cpuReset_driven : Keeps (Driven b₀ l₀) cpuReset := by
  have hclear : Keeps (Driven b₀ l₀) (modify fun s => { s with
      X := 0, Y := 0, S := 0, U := 0, A := 0, B := 0, DP := 0
      flags := ⟨0, 0, 1, 0, 0⟩
      EFI := F_FLAG ||| I_FLAG } : CpuM β Unit) := modify_driven (fun _ => rfl) fun _ => rfl
  have hrunning : Keeps (Driven b₀ l₀)
      (modify fun s => { s with bus := Bus.cpuIsRunning s.bus } : CpuM β Unit) := by
    apply Keeps.modify
    rintro s ⟨l, hl, hreaches⟩
    exact ⟨l, hl, hreaches.running⟩
  unfold cpuReset
  infer_instance

instance event_driven (e : Event) : Keeps (Driven b₀ l₀) e.perform := by
  cases e <;> unfold Event.perform <;> infer_instance

end Runs

end Exec09
