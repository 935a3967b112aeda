import Exec09.Foundation.Simulation
import Exec09.Cpu.CpuExecute

/-! # The processor on two machines

The processor reaches the rest of the emulator through the operations of its
bus only. Where the operations of one bus simulate those of another, so does
every instruction, every interrupt and every run of the processor.
-/
namespace Exec09
open Foundation
variable {β γ : Type} {B : β → γ → Prop}

set_option synthInstance.maxSize 100000

/-- The processor with another machine behind its bus. -/
def Cpu.rebus (s : Cpu β) (b : γ) : Cpu γ := { s with bus := b }

/-- Equal processors on related machines. -/
def OverBus (B : β → γ → Prop) (s : Cpu β) (t : Cpu γ) : Prop := ∃ b, B s.bus b ∧ t = s.rebus b

/-- `m` does on the one machine what `n` does on the other. -/
abbrev Tracks {α : Type} (B : β → γ → Prop) (m : CpuM β α) (n : CpuM γ α) : Prop :=
  Simulates (OverBus B) m n

/-- The operations of the one bus simulate those of the other. -/
class BusSimulates (B : β → γ → Prop) [Bus β] [Bus γ] : Prop where
  cpuRead8 : ∀ pc a, Simulates B (Bus.cpuRead8 pc a) (Bus.cpuRead8 pc a)
  cpuRead16 : ∀ pc a, Simulates B (Bus.cpuRead16 pc a) (Bus.cpuRead16 pc a)
  cpuWrite8 : ∀ pc a v, Simulates B (Bus.cpuWrite8 pc a v) (Bus.cpuWrite8 pc a v)
  simError : Simulates B Bus.simError Bus.simError
  cpuIsRunning : ∀ b c, B b c → B (Bus.cpuIsRunning b) (Bus.cpuIsRunning c)

/-! ## Registers -/

/-- What `p` reads of the processor does not depend on the machine. -/
class Agrees {α : Type} (p : Cpu β → α) (q : Cpu γ → α) : Prop where
  same : ∀ (s : Cpu β) (b : γ), q (s.rebus b) = p s

section Getters
instance : Agrees (Cpu.A (β := β)) (Cpu.A (β := γ)) := ⟨fun _ _ => rfl⟩
instance : Agrees (Cpu.B (β := β)) (Cpu.B (β := γ)) := ⟨fun _ _ => rfl⟩
instance : Agrees (Cpu.X (β := β)) (Cpu.X (β := γ)) := ⟨fun _ _ => rfl⟩
instance : Agrees (Cpu.Y (β := β)) (Cpu.Y (β := γ)) := ⟨fun _ _ => rfl⟩
instance : Agrees (Cpu.U (β := β)) (Cpu.U (β := γ)) := ⟨fun _ _ => rfl⟩
instance : Agrees (Cpu.PC (β := β)) (Cpu.PC (β := γ)) := ⟨fun _ _ => rfl⟩
instance : Agrees (Cpu.DP (β := β)) (Cpu.DP (β := γ)) := ⟨fun _ _ => rfl⟩
instance : Agrees (Cpu.EFI (β := β)) (Cpu.EFI (β := γ)) := ⟨fun _ _ => rfl⟩
instance : Agrees (Cpu.ea (β := β)) (Cpu.ea (β := γ)) := ⟨fun _ _ => rfl⟩
instance : Agrees (Cpu.iPC (β := β)) (Cpu.iPC (β := γ)) := ⟨fun _ _ => rfl⟩
instance : Agrees (Cpu.ccChanged (β := β)) (Cpu.ccChanged (β := γ)) := ⟨fun _ _ => rfl⟩
instance : Agrees (Cpu.cwaiState (β := β)) (Cpu.cwaiState (β := γ)) := ⟨fun _ _ => rfl⟩
instance : Agrees (Cpu.cpuPeriod (β := β)) (Cpu.cpuPeriod (β := γ)) := ⟨fun _ _ => rfl⟩
instance : Agrees (getPc (β := β)) (getPc (β := γ)) := ⟨fun _ _ => rfl⟩
instance : Agrees (getD (β := β)) (getD (β := γ)) := ⟨fun _ _ => rfl⟩
instance : Agrees (getCc (β := β)) (getCc (β := γ)) := ⟨fun _ _ => rfl⟩
instance : Agrees (firqDeliverable (β := β)) (firqDeliverable (β := γ)) := ⟨fun _ _ => rfl⟩
instance : Agrees (irqDeliverable (β := β)) (irqDeliverable (β := γ)) := ⟨fun _ _ => rfl⟩
instance (c : Cond) : Agrees (fun s : Cpu β => c.holds s.flags) (fun s : Cpu γ => c.holds s.flags) :=
  ⟨fun _ _ => rfl⟩
instance (post nro : ℕ) :
    Agrees (fun s : Cpu β => transferred s post nro) (fun s : Cpu γ => transferred s post nro) :=
  ⟨fun _ _ => rfl⟩
instance (R : IndexReg) : Agrees (R.get (β := β)) (R.get (β := γ)) := ⟨fun _ _ => by cases R <;> rfl⟩
instance (r : Acc) : Agrees (r.get (β := β)) (r.get (β := γ)) := ⟨fun _ _ => by cases r <;> rfl⟩
instance (sp : StackReg) : Agrees (sp.get (β := β)) (sp.get (β := γ)) :=
  ⟨fun _ _ => by cases sp <;> rfl⟩
instance (r : Reg16) : Agrees (r.get (β := β)) (r.get (β := γ)) := by
  cases r with
  | D => exact ⟨fun _ _ => rfl⟩
  | index R => exact ⟨Agrees.same (p := R.get (β := β)) (q := R.get (β := γ))⟩
end Getters

instance look_tracks {α : Type} (p : Cpu β → α) (q : Cpu γ → α) [h : Agrees p q] :
    Tracks B (look p) (look q) where
  run s t := by
    rintro ⟨b, hb, rfl⟩
    exact ⟨(h.same s b).symm, b, hb, rfl⟩

/-- An assignment to the registers that does not look at the machine. -/
theorem modify_tracks {g : Cpu β → Cpu β} {h : Cpu γ → Cpu γ} (hbus : ∀ s, (g s).bus = s.bus)
    (hsame : ∀ s b, h (s.rebus b) = (g s).rebus b) :
    Tracks B (modify g : CpuM β PUnit) (modify h : CpuM γ PUnit) := by
  apply Simulates.modify
  rintro s _ ⟨b, hb, rfl⟩
  exact ⟨b, by rwa [hbus], hsame s b⟩

instance withFlags_tracks {α : Type} (op : Flags → α × Flags) :
    Tracks B (withFlags op) (withFlags op) where
  run s t := by
    rintro ⟨b, hb, rfl⟩
    exact ⟨rfl, b, hb, rfl⟩

section Assignments
variable (v : ℕ) (n : ℤ)

instance note_tracks (e : Access) : Tracks B (note e) (note e) :=
  modify_tracks (fun _ => rfl) fun _ _ => rfl
instance setEa_tracks : Tracks B (setEa v) (setEa v) := modify_tracks (fun _ => rfl) fun _ _ => rfl
instance charge_tracks : Tracks B (charge n) (charge n) :=
  modify_tracks (fun _ => rfl) fun _ _ => rfl
instance changePc_tracks : Tracks B (changePc v) (changePc v) :=
  modify_tracks (fun _ => rfl) fun _ _ => rfl
instance advancePc_tracks : Tracks B (advancePc v) (advancePc v) :=
  modify_tracks (fun _ => rfl) fun _ _ => rfl
instance setA_tracks : Tracks B (setA v) (setA v) := modify_tracks (fun _ => rfl) fun _ _ => rfl
instance setB_tracks : Tracks B (setB v) (setB v) := modify_tracks (fun _ => rfl) fun _ _ => rfl
instance setDp_tracks : Tracks B (setDp v) (setDp v) := modify_tracks (fun _ => rfl) fun _ _ => rfl
instance setX_tracks : Tracks B (setX v) (setX v) := modify_tracks (fun _ => rfl) fun _ _ => rfl
instance setY_tracks : Tracks B (setY v) (setY v) := modify_tracks (fun _ => rfl) fun _ _ => rfl
instance setPc_tracks : Tracks B (setPc v) (setPc v) := modify_tracks (fun _ => rfl) fun _ _ => rfl
instance setEfi_tracks : Tracks B (setEfi v) (setEfi v) :=
  modify_tracks (fun _ => rfl) fun _ _ => rfl
instance setCc_tracks : Tracks B (setCc v) (setCc v) := modify_tracks (fun _ => rfl) fun _ _ => rfl
instance setCwaiState_tracks (c : CwaiState) : Tracks B (setCwaiState c) (setCwaiState c) :=
  modify_tracks (fun _ => rfl) fun _ _ => rfl
instance latchPc_tracks : Tracks B (modify latchPc) (modify latchPc) :=
  modify_tracks (fun _ => rfl) fun _ _ => rfl
instance clearCcChanged_tracks : Tracks B clearCcChanged clearCcChanged :=
  modify_tracks (fun _ => rfl) fun _ _ => rfl
instance setIrqStartTime_tracks : Tracks B (setIrqStartTime getCycles) (setIrqStartTime getCycles) :=
  modify_tracks (fun _ => rfl) fun _ _ => rfl
instance hook_tracks : Tracks B
    (commandExitIrqHook fun s => Word.sub 64 (getCycles s) s.irqStartTime)
    (commandExitIrqHook fun s => Word.sub 64 (getCycles s) s.irqStartTime) :=
  modify_tracks (fun _ => rfl) fun _ _ => rfl
instance beginSlice_tracks : Tracks B (beginSlice n) (beginSlice n) :=
  modify_tracks (fun _ => rfl) fun _ _ => rfl
instance endSlice_tracks : Tracks B endSlice endSlice := modify_tracks (fun _ => rfl) fun _ _ => rfl
instance releaseIrq_tracks : Tracks B (releaseIrq v) (releaseIrq v) :=
  modify_tracks (fun _ => rfl) fun _ _ => rfl
instance releaseFirq_tracks : Tracks B (releaseFirq v) (releaseFirq v) :=
  modify_tracks (fun _ => rfl) fun _ _ => rfl

instance setIndexReg_tracks (R : IndexReg) : Tracks B (setIndexReg R v) (setIndexReg R v) :=
  modify_tracks (fun _ => by cases R <;> rfl) fun _ _ => by cases R <;> rfl
instance setStackReg_tracks (sp : StackReg) : Tracks B (setStackReg sp v) (setStackReg sp v) :=
  modify_tracks (fun _ => by cases sp <;> rfl) fun _ _ => by cases sp <;> rfl

instance setAcc_tracks (r : Acc) : Tracks B (setAcc r v) (setAcc r v) := by
  cases r <;> unfold setAcc <;> infer_instance

instance setReg_tracks (nro : ℕ) : Tracks B (setReg nro v) (setReg nro v) := by
  unfold setReg
  split
  all_goals exact modify_tracks (fun _ => rfl) fun _ _ => rfl

instance setD_tracks : Tracks B (setD v) (setD v) := by
  unfold setD
  infer_instance

end Assignments

section Registers

instance onlyIf_tracks (c : Prop) [Decidable c] (m : CpuM β Unit) (n : CpuM γ Unit)
    [Tracks B m n] : Tracks B (onlyIf c m) (onlyIf c n) := by
  unfold onlyIf
  infer_instance

instance onBit_tracks (post k : ℕ) (m : CpuM β Unit) (n : CpuM γ Unit) [Tracks B m n] :
    Tracks B (onBit post k m) (onBit post k n) := by
  unfold onBit
  infer_instance

instance monitorCall_tracks : Tracks (β := β) (γ := γ) B monitorCall monitorCall := Simulates.pure ()
instance monitorReturn_tracks : Tracks (β := β) (γ := γ) B monitorReturn monitorReturn :=
  Simulates.pure ()

instance lowerStack_tracks (sp : StackReg) (n : ℕ) :
    Tracks B (lowerStack sp n) (lowerStack sp n) := by
  unfold lowerStack
  infer_instance

instance raiseStack_tracks (sp : StackReg) (n : ℕ) :
    Tracks B (raiseStack sp n) (raiseStack sp n) := by
  unfold raiseStack
  infer_instance

instance updateFlags_tracks (op : Flags → Flags) : Tracks B (updateFlags op) (updateFlags op) := by
  unfold updateFlags
  infer_instance

instance mask_tracks (m : ℕ) : Tracks B (mask m) (mask m) := by
  unfold mask
  infer_instance

instance beginFrame_tracks (full : Bool) : Tracks B (beginFrame full) (beginFrame full) := by
  unfold beginFrame
  infer_instance

end Registers

/-! ## Memory -/

theorem onBus_rebus_ok {α : Type} {n : EStateM Stop γ α} {s : Cpu β} {b c : γ} {a : α}
    (h : n b = .ok a c) : onBus n (s.rebus b) = .ok a (s.rebus c) := by
  rw [onBus, Cpu.rebus, h]
  rfl

theorem onBus_rebus_error {α : Type} {n : EStateM Stop γ α} {s : Cpu β} {b c : γ} {e : Stop}
    (h : n b = .error e c) : onBus n (s.rebus b) = .error e (s.rebus c) := by
  rw [onBus, Cpu.rebus, h]
  rfl

theorem onBus_tracks {α : Type} {m : EStateM Stop β α} {n : EStateM Stop γ α}
    (h : Simulates B m n) : Tracks B (onBus m) (onBus n) where
  run s t := by
    rintro ⟨b, hb, rfl⟩
    have hmn := h.run s.bus b hb
    cases ht : n b with
    | ok a c =>
      rw [ht] at hmn
      obtain ⟨b', hs, hrel⟩ := hmn.of_ok
      rw [show s = s.rebus s.bus from rfl, onBus_rebus_ok hs, onBus_rebus_ok ht]
      exact ⟨rfl, c, hrel, rfl⟩
    | error e c =>
      rw [ht] at hmn
      obtain ⟨b', hs, hrel⟩ := hmn.of_error
      rw [show s = s.rebus s.bus from rfl, onBus_rebus_error hs, onBus_rebus_error ht]
      exact ⟨rfl, c, hrel, rfl⟩

section Memory
variable [Bus β] [Bus γ] [hbus : BusSimulates B]

instance simError_tracks : Tracks B simError simError := onBus_tracks hbus.simError

section Accesses
variable (a v : ℕ)

instance read8_tracks : Tracks B (read8 a) (read8 a) := by
  have (pc : ℕ) : Tracks B (onBus (Bus.cpuRead8 pc a)) (onBus (Bus.cpuRead8 pc a)) :=
    onBus_tracks (hbus.cpuRead8 pc a)
  unfold read8
  infer_instance

instance read16_tracks : Tracks B (read16 a) (read16 a) := by
  have (pc : ℕ) : Tracks B (onBus (Bus.cpuRead16 pc a)) (onBus (Bus.cpuRead16 pc a)) :=
    onBus_tracks (hbus.cpuRead16 pc a)
  unfold read16
  infer_instance

instance write8_tracks : Tracks B (write8 a v) (write8 a v) := by
  have (pc : ℕ) (w : U8) : Tracks B (onBus (Bus.cpuWrite8 pc a w)) (onBus (Bus.cpuWrite8 pc a w)) :=
    onBus_tracks (hbus.cpuWrite8 pc a w)
  unfold write8
  infer_instance

instance rdmem16_tracks : Tracks B (rdmem16 a) (rdmem16 a) := by
  unfold rdmem16
  infer_instance

instance readStack16_tracks : Tracks B (readStack16 a) (readStack16 a) := by
  unfold readStack16
  infer_instance

instance wrmem16_tracks : Tracks B (wrmem16 a v) (wrmem16 a v) := by
  unfold wrmem16
  infer_instance

instance writeStack16_tracks : Tracks B (writeStack16 a v) (writeStack16 a v) := by
  unfold writeStack16
  infer_instance

instance immByte_tracks : Tracks B immByte immByte := by
  unfold immByte
  infer_instance

instance immWord_tracks : Tracks B immWord immWord := by
  unfold immWord
  infer_instance

instance fetchOpcode_tracks : Tracks B fetchOpcode fetchOpcode := by
  unfold fetchOpcode
  infer_instance

end Accesses

section Addressing

instance direct_tracks : Tracks B direct direct := by
  unfold direct
  infer_instance

instance extended_tracks : Tracks B extended extended := by
  unfold extended
  infer_instance

instance indirect_tracks : Tracks B indirect indirect := by
  unfold indirect
  infer_instance

instance indexedEa_tracks (post : ℕ) (R : IndexReg) :
    Tracks B (indexedEa post R) (indexedEa post R) := by
  unfold indexedEa
  split <;> infer_instance

instance indexed_tracks : Tracks B indexed indexed := by
  unfold indexed
  infer_instance

instance address_tracks (m : Mode) : Tracks B m.address m.address := by
  cases m <;> unfold Mode.address <;> infer_instance

instance load8_tracks (src : Operand) : Tracks B src.load8 src.load8 := by
  cases src <;> unfold Operand.load8 <;> infer_instance

instance load16_tracks (src : Operand) : Tracks B src.load16 src.load16 := by
  cases src <;> unfold Operand.load16 <;> infer_instance

end Addressing

/-! ## Stacks and interrupts -/

section Stacks
variable (sp : StackReg) (v : ℕ)

instance push8_tracks : Tracks B (push8 sp v) (push8 sp v) := by
  unfold push8
  infer_instance

instance push16_tracks : Tracks B (push16 sp v) (push16 sp v) := by
  unfold push16
  infer_instance

instance pull8_tracks : Tracks B (pull8 sp) (pull8 sp) := by
  unfold pull8
  infer_instance

instance pull16_tracks : Tracks B (pull16 sp) (pull16 sp) := by
  unfold pull16
  infer_instance

instance psh_tracks : Tracks B (psh sp) (psh sp) := by
  unfold psh
  infer_instance

instance pul_tracks : Tracks B (pul sp) (pul sp) := by
  unfold pul
  infer_instance

instance pushRegisters_tracks : Tracks B pushRegisters pushRegisters := by
  unfold pushRegisters
  infer_instance

instance pullRegisters_tracks : Tracks B pullRegisters pullRegisters := by
  unfold pullRegisters
  infer_instance

instance stackMachineState_tracks (full : Bool) :
    Tracks B (stackMachineState full) (stackMachineState full) := by
  unfold stackMachineState
  infer_instance

end Stacks

section Interrupts
variable (c : Bool) (v : ℕ)

instance enterInterrupt_tracks : Tracks B (enterInterrupt c) (enterInterrupt c) := by
  unfold enterInterrupt
  refine (look_tracks _ _).seq fun state => ?_
  cases state <;> infer_instance

instance irq_tracks : Tracks B irq irq := by
  unfold irq
  infer_instance

instance firq_tracks : Tracks B firq firq := by
  unfold firq
  infer_instance

instance swi_tracks : Tracks B swi swi := by
  unfold swi
  infer_instance

instance swi2_tracks : Tracks B swi2 swi2 := by
  unfold swi2
  infer_instance

instance swi3_tracks : Tracks B swi3 swi3 := by
  unfold swi3
  infer_instance

instance checkPending_tracks : Tracks B checkPending checkPending := by
  unfold checkPending
  infer_instance

instance ccModified_tracks : Tracks B ccModified ccModified := by
  unfold ccModified
  infer_instance

instance sync_tracks : Tracks B sync sync := by
  unfold sync
  infer_instance

instance cwai_tracks : Tracks B cwai cwai := by
  unfold cwai
  refine (look_tracks _ _).seq fun state => ?_
  cases state <;> infer_instance

instance requestIrq_tracks : Tracks B (requestIrq v) (requestIrq v) := by
  have : Tracks B (modify fun s => { s with irqsPending := s.irqsPending ||| (1 <<< v) })
      (modify fun s => { s with irqsPending := s.irqsPending ||| (1 <<< v) }) :=
    modify_tracks (fun _ => rfl) fun _ _ => rfl
  unfold requestIrq
  infer_instance

instance requestFirq_tracks : Tracks B (requestFirq v) (requestFirq v) := by
  have : Tracks B (modify fun s => { s with firqsPending := s.firqsPending ||| (1 <<< v) })
      (modify fun s => { s with firqsPending := s.firqsPending ||| (1 <<< v) }) :=
    modify_tracks (fun _ => rfl) fun _ _ => rfl
  unfold requestFirq
  infer_instance

end Interrupts

/-! ## Instructions -/

section Instructions
variable (c : Bool) (v : ℕ)

instance jsr_tracks : Tracks B jsr jsr := by
  unfold jsr
  infer_instance

instance rts_tracks : Tracks B rts rts := by
  unfold rts
  infer_instance

instance rti_tracks : Tracks B rti rti := by
  unfold rti
  infer_instance

instance orcc_tracks : Tracks B orcc orcc := by
  unfold orcc
  infer_instance

instance andcc_tracks : Tracks B andcc andcc := by
  unfold andcc
  infer_instance

instance exg_tracks : Tracks B exg exg := by
  unfold exg
  infer_instance

instance tfr_tracks : Tracks B tfr tfr := by
  unfold tfr
  infer_instance

instance bra_tracks : Tracks B bra bra := by
  unfold bra
  infer_instance

instance longBra_tracks : Tracks B longBra longBra := by
  unfold longBra
  infer_instance

instance bsr_tracks : Tracks B bsr bsr := by
  unfold bsr
  infer_instance

instance longBsr_tracks : Tracks B longBsr longBsr := by
  unfold longBsr
  infer_instance

instance takeBranch_tracks : Tracks B (takeBranch c) (takeBranch c) := by
  unfold takeBranch
  infer_instance

instance branch_tracks : Tracks B (branch c) (branch c) := by
  unfold branch
  infer_instance

instance longBranch_tracks : Tracks B (longBranch c) (longBranch c) := by
  unfold longBranch
  infer_instance

instance unaryOp_tracks (op : Unary) : Tracks B (unaryOp op v) (unaryOp op v) := by
  unfold unaryOp
  infer_instance

instance tstOp_tracks : Tracks B (tstOp v) (tstOp v) := by
  unfold tstOp
  infer_instance

instance exec_tracks (i : Insn) : Tracks B i.exec i.exec := by
  cases i <;> unfold Insn.exec <;> infer_instance

instance selected_tracks (sel : Selected) : Tracks B sel.exec sel.exec := by
  cases sel <;> unfold Selected.exec <;> infer_instance

instance fetchExecute_tracks : Tracks B fetchExecute fetchExecute := by
  unfold fetchExecute
  infer_instance

instance cpuStep_tracks : Tracks B cpuStep cpuStep := by
  unfold cpuStep
  infer_instance

end Instructions

/-! ## Runs -/

instance cpuReset_tracks : Tracks B cpuReset cpuReset := by
  have hrunning : Tracks B (modify fun s => { s with bus := Bus.cpuIsRunning s.bus })
      (modify fun s => { s with bus := Bus.cpuIsRunning s.bus }) := by
    apply Simulates.modify
    rintro s _ ⟨b, hb, rfl⟩
    exact ⟨_, hbus.cpuIsRunning _ _ hb, rfl⟩
  have hclear : Tracks B
      (modify fun s => { s with
        X := 0, Y := 0, S := 0, U := 0, A := 0, B := 0, DP := 0
        flags := ⟨0, 0, 1, 0, 0⟩
        EFI := F_FLAG ||| I_FLAG })
      (modify fun s => { s with
        X := 0, Y := 0, S := 0, U := 0, A := 0, B := 0, DP := 0
        flags := ⟨0, 0, 1, 0, 0⟩
        EFI := F_FLAG ||| I_FLAG }) := modify_tracks (fun _ => rfl) fun _ _ => rfl
  unfold cpuReset
  infer_instance

instance event_tracks (e : Event) : Tracks B e.perform e.perform := by
  cases e <;> unfold Event.perform <;> infer_instance

end Memory

end Exec09
