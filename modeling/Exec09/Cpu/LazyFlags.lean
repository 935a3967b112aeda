import Exec09.Cpu.ConditionCodes
import Exec09.Cpu.Run

/-! # The lazy flag words cannot be observed

Two states that agree up to the flag words, with equal condition codes, run in
lockstep. `Same` also leaves out what an instruction writes before it reads
(`ea`, except between an addressing mode and its accesses) and what only the
monitor reads (`irqStartTime`, `irqLoad`); clocks and traces may start apart
and move together.
-/
namespace Exec09
open Foundation
variable {β : Type}

set_option synthInstance.maxSize 100000

/-- How far the clocks are apart, and the accesses before the two runs. -/
structure Origin where
  clk : ℤ
  left : List Access
  right : List Access

structure Same (o : Origin) (tracked : Bool) (s t : Cpu β) : Prop where
  A : s.A = t.A
  B : s.B = t.B
  X : s.X = t.X
  Y : s.Y = t.Y
  U : s.U = t.U
  S : s.S = t.S
  DP : s.DP = t.DP
  PC : s.PC = t.PC
  EFI : s.EFI = t.EFI
  iPC : s.iPC = t.iPC
  irqsPending : s.irqsPending = t.irqsPending
  firqsPending : s.firqsPending = t.firqsPending
  ccChanged : s.ccChanged = t.ccChanged
  cwaiState : s.cwaiState = t.cwaiState
  bus : s.bus = t.bus
  cc : s.flags.cc = t.flags.cc
  ea : tracked = true → s.ea = t.ea
  clk : s.cpuClk - t.cpuClk = o.clk
  trace : ∃ l, s.trace = l ++ o.left ∧ t.trace = l ++ o.right

/-- `m` runs in lockstep from states that track `ea` as `r` says to states that do as `r'` says. -/
abbrev Sync {α : Type} (o : Origin) (r r' : Bool) (m : CpuM β α) : Prop :=
  Lockstep (Same o false) (Same o r) (Same o r') m

variable {o : Origin} {r r' : Bool}

theorem Same.untracked {s t : Cpu β} (h : Same o r s t) : Same o false s t :=
  { h with ea := fun h => by cases h }

theorem Same.weaken {s t : Cpu β} (h : Same o true s t) : Same o r s t :=
  { h with ea := fun _ => h.ea rfl }

theorem Sync.weaken {α : Type} {m : CpuM β α} (h : Sync o r true m) : Sync o r r' m where
  run s t hst := (h.run s t hst).mono (fun _ _ h => h.weaken) fun _ _ h => h

/-! ## Reading -/

section Reads

theorem look_sync {α : Type} {p : Cpu β → α} (h : ∀ s t, Same o r s t → p s = p t) :
    Sync o r r (look p) :=
  ⟨fun s t hst => ⟨h s t hst, hst⟩⟩

instance look_A_sync : Sync (β := β) o r r (look Cpu.A) := look_sync fun _ _ h => h.A
instance look_B_sync : Sync (β := β) o r r (look Cpu.B) := look_sync fun _ _ h => h.B
instance look_X_sync : Sync (β := β) o r r (look Cpu.X) := look_sync fun _ _ h => h.X
instance look_Y_sync : Sync (β := β) o r r (look Cpu.Y) := look_sync fun _ _ h => h.Y
instance look_U_sync : Sync (β := β) o r r (look Cpu.U) := look_sync fun _ _ h => h.U
instance look_DP_sync : Sync (β := β) o r r (look Cpu.DP) := look_sync fun _ _ h => h.DP
instance look_PC_sync : Sync (β := β) o r r (look Cpu.PC) := look_sync fun _ _ h => h.PC
instance look_EFI_sync : Sync (β := β) o r r (look Cpu.EFI) := look_sync fun _ _ h => h.EFI
instance look_iPC_sync : Sync (β := β) o r r (look Cpu.iPC) := look_sync fun _ _ h => h.iPC
instance look_ccChanged_sync : Sync (β := β) o r r (look Cpu.ccChanged) :=
  look_sync fun _ _ h => h.ccChanged
instance look_cwaiState_sync : Sync (β := β) o r r (look Cpu.cwaiState) :=
  look_sync fun _ _ h => h.cwaiState
instance look_ea_sync : Sync (β := β) o true true (look Cpu.ea) := look_sync fun _ _ h => h.ea rfl
instance look_getPc_sync : Sync (β := β) o r r (look getPc) :=
  look_sync fun _ _ h => by rw [getPc, getPc, h.PC]
instance look_getD_sync : Sync (β := β) o r r (look getD) :=
  look_sync fun _ _ h => by rw [getD, getD, h.A, h.B]

theorem Same.getCc {s t : Cpu β} (h : Same o r s t) : getCc s = getCc t := getCc_congr h.EFI h.cc

instance look_getCc_sync : Sync (β := β) o r r (look getCc) := look_sync fun _ _ h => h.getCc

instance look_cond_sync (c : Cond) : Sync (β := β) o r r (look fun s => c.holds s.flags) :=
  look_sync fun _ _ h => c.holds_congr h.cc

instance look_firq_sync : Sync (β := β) o r r (look firqDeliverable) :=
  look_sync fun _ _ h => by rw [firqDeliverable, firqDeliverable, h.firqsPending, h.EFI]

instance look_irq_sync : Sync (β := β) o r r (look irqDeliverable) :=
  look_sync fun _ _ h => by rw [irqDeliverable, irqDeliverable, h.irqsPending, h.EFI]

instance look_index_sync (R : IndexReg) : Sync (β := β) o r r (look R.get) :=
  look_sync fun _ _ h => by
    cases R
    exacts [h.X, h.Y, h.U, h.S]

instance look_stack_sync (sp : StackReg) : Sync (β := β) o r r (look sp.get) :=
  look_sync fun _ _ h => by
    cases sp
    exacts [h.S, h.U]

instance look_acc_sync (a : Acc) : Sync (β := β) o r r (look a.get) :=
  look_sync fun _ _ h => by
    cases a
    exacts [h.A, h.B]

instance look_reg16_sync (a : Reg16) : Sync (β := β) o r r (look a.get) :=
  look_sync fun s t h => by
    cases a with
    | D => exact show getD s = getD t by rw [getD, getD, h.A, h.B]
    | index R =>
      cases R
      exacts [h.X, h.Y, h.U, h.S]

theorem Same.getReg {s t : Cpu β} (h : Same o r s t) (nro : ℕ) : getReg s nro = getReg t nro := by
  unfold Exec09.getReg
  split
  · rw [h.A, h.B]
  · exact h.X
  · exact h.Y
  · exact h.U
  · exact h.S
  · rw [h.PC]
  · exact h.A
  · exact h.B
  · exact h.getCc
  · rw [h.DP]
  · rfl

instance look_transferred_sync (post nro : ℕ) :
    Sync (β := β) o r r (look fun s => transferred s post nro) :=
  look_sync fun _ _ h => by rw [transferred, transferred, h.getReg]

end Reads

/-! ## Writing -/

section Writes

instance charge_sync (n : ℤ) : Sync (β := β) o r r (charge n) :=
  Lockstep.modify fun _ _ h => { h with clk := by rw [← h.clk]; ring }

instance note_sync (e : Access) : Sync (β := β) o r r (note e) :=
  Lockstep.modify fun _ _ h =>
    have ⟨l, hs, ht⟩ := h.trace
    { h with trace := ⟨e :: l, congrArg (e :: ·) hs, congrArg (e :: ·) ht⟩ }

instance onBus_sync {α : Type} (m : EStateM Stop β α) : Sync o r r (onBus m) where
  run s t h := by
    unfold onBus
    rw [← h.bus]
    cases m s.bus with
    | ok a b => exact ⟨rfl, { h with bus := rfl }⟩
    | error e b => exact ⟨rfl, { h.untracked with bus := rfl }⟩

instance withFlags_sync {α : Type} (op : Flags → α × Flags) [hop : Lazy op] :
    Sync (β := β) o r r (withFlags op) where
  run s t h :=
    have hcc := hop.congr s.flags t.flags h.cc
    ⟨hcc.1, { h with cc := hcc.2 }⟩

instance updateFlags_sync (op : Flags → Flags) [Lazy fun f => ((), op f)] :
    Sync (β := β) o r r (updateFlags op) := by
  unfold updateFlags
  infer_instance

instance changePc_sync (a : ℕ) : Sync (β := β) o r r (changePc a) :=
  Lockstep.modify fun _ _ h => { h with PC := rfl }
instance setPc_sync (v : ℕ) : Sync (β := β) o r r (setPc v) :=
  Lockstep.modify fun _ _ h => { h with PC := rfl }
instance advancePc_sync (n : ℕ) : Sync (β := β) o r r (advancePc n) :=
  Lockstep.modify fun _ _ h => { h with PC := by rw [h.PC] }
instance setA_sync (v : ℕ) : Sync (β := β) o r r (setA v) :=
  Lockstep.modify fun _ _ h => { h with A := rfl }
instance setB_sync (v : ℕ) : Sync (β := β) o r r (setB v) :=
  Lockstep.modify fun _ _ h => { h with B := rfl }
instance setX_sync (v : ℕ) : Sync (β := β) o r r (setX v) :=
  Lockstep.modify fun _ _ h => { h with X := rfl }
instance setY_sync (v : ℕ) : Sync (β := β) o r r (setY v) :=
  Lockstep.modify fun _ _ h => { h with Y := rfl }
instance setDp_sync (v : ℕ) : Sync (β := β) o r r (setDp v) :=
  Lockstep.modify fun _ _ h => { h with DP := rfl }
instance setEfi_sync (v : ℕ) : Sync (β := β) o r r (setEfi v) :=
  Lockstep.modify fun _ _ h => { h with EFI := rfl }
instance setCc_sync (v : ℕ) : Sync (β := β) o r r (setCc v) :=
  Lockstep.modify fun _ _ h => { h with EFI := rfl, cc := rfl, ccChanged := rfl }
instance setCwaiState_sync (c : CwaiState) : Sync (β := β) o r r (setCwaiState c) :=
  Lockstep.modify fun _ _ h => { h with cwaiState := rfl }
instance clearCcChanged_sync : Sync (β := β) o r r clearCcChanged :=
  Lockstep.modify fun _ _ h => { h with ccChanged := rfl }
instance setIrqStartTime_sync (v : Cpu β → ℕ) : Sync (β := β) o r r (setIrqStartTime v) :=
  Lockstep.modify fun _ _ h => { h with }
instance hook_sync (v : Cpu β → ℕ) : Sync (β := β) o r r (commandExitIrqHook v) :=
  Lockstep.modify fun _ _ h => { h with }

instance setEa_sync (a : ℕ) : Sync (β := β) o r r' (setEa a) :=
  Lockstep.modify fun _ _ h => { h with ea := fun _ => rfl }

instance setIndexReg_sync (R : IndexReg) (v : ℕ) : Sync (β := β) o r r (setIndexReg R v) :=
  Lockstep.modify fun _ _ h => by
    cases R
    exacts [{ h with X := rfl }, { h with Y := rfl }, { h with U := rfl }, { h with S := rfl }]

instance setStackReg_sync (sp : StackReg) (v : ℕ) : Sync (β := β) o r r (setStackReg sp v) :=
  Lockstep.modify fun _ _ h => by
    cases sp
    exacts [{ h with S := rfl }, { h with U := rfl }]

instance setAcc_sync (a : Acc) (v : ℕ) : Sync (β := β) o r r (setAcc a v) := by
  cases a <;> unfold setAcc <;> infer_instance

instance setReg_sync (nro v : ℕ) : Sync (β := β) o r r (setReg nro v) := by
  unfold setReg
  split
  case h_1 => exact Lockstep.modify fun _ _ h => { h with A := rfl, B := rfl }
  case h_2 => exact Lockstep.modify fun _ _ h => { h with X := rfl }
  case h_3 => exact Lockstep.modify fun _ _ h => { h with Y := rfl }
  case h_4 => exact Lockstep.modify fun _ _ h => { h with U := rfl }
  case h_5 => exact Lockstep.modify fun _ _ h => { h with S := rfl }
  case h_6 => exact Lockstep.modify fun _ _ h => { h with PC := rfl }
  case h_7 => exact Lockstep.modify fun _ _ h => { h with A := rfl }
  case h_8 => exact Lockstep.modify fun _ _ h => { h with B := rfl }
  case h_10 => exact Lockstep.modify fun _ _ h => { h with DP := rfl }
  all_goals infer_instance

/-- `ea` may be read after it has been set. -/
instance setEa_then {α : Type} (a : ℕ) (k : Unit → CpuM β α) [hk : ∀ u, Sync o true true (k u)] :
    Sync o r r' (setEa a >>= k) :=
  have h : Sync o r true (setEa a) := setEa_sync a
  Sync.weaken (h.seq hk)

end Writes

/-! ## Functions -/

section Functions

instance lowerStack_sync (sp : StackReg) (n : ℕ) : Sync (β := β) o r r (lowerStack sp n) := by
  unfold lowerStack; infer_instance
instance raiseStack_sync (sp : StackReg) (n : ℕ) : Sync (β := β) o r r (raiseStack sp n) := by
  unfold raiseStack; infer_instance
instance onlyIf_sync (c : Prop) [Decidable c] (k : CpuM β Unit) [Sync o r r k] :
    Sync o r r (onlyIf c k) := by
  unfold onlyIf; infer_instance
instance onBit_sync (post m : ℕ) (k : CpuM β Unit) [Sync o r r k] : Sync o r r (onBit post m k) := by
  unfold onBit; infer_instance
instance monitorCall_sync : Sync (β := β) o r r monitorCall := by unfold monitorCall; infer_instance
instance monitorReturn_sync : Sync (β := β) o r r monitorReturn := by
  unfold monitorReturn; infer_instance
instance beginFrame_sync (full : Bool) : Sync (β := β) o r r (beginFrame full) := by
  unfold beginFrame; infer_instance
instance mask_sync (m : ℕ) : Sync (β := β) o r r (mask m) := by unfold mask; infer_instance
instance unaryOp_sync (op : Unary) (arg : ℕ) : Sync (β := β) o r r (unaryOp op arg) := by
  unfold unaryOp; infer_instance
instance tstOp_sync (arg : ℕ) : Sync (β := β) o r r (tstOp arg) := by unfold tstOp; infer_instance
instance setD_sync (res : ℕ) : Sync (β := β) o r r (setD res) := by unfold setD; infer_instance

variable [Bus β]

instance simError_sync : Sync (β := β) o r r simError := by unfold simError; infer_instance
instance read8_sync (a : ℕ) : Sync (β := β) o r r (read8 a) := by unfold read8; infer_instance
instance read16_sync (a : ℕ) : Sync (β := β) o r r (read16 a) := by unfold read16; infer_instance
instance write8_sync (a v : ℕ) : Sync (β := β) o r r (write8 a v) := by
  unfold write8; infer_instance
instance wrmem16_sync (a v : ℕ) : Sync (β := β) o r r (wrmem16 a v) := by
  unfold wrmem16; infer_instance
instance rdmem16_sync (a : ℕ) : Sync (β := β) o r r (rdmem16 a) := by unfold rdmem16; infer_instance
instance writeStack16_sync (a v : ℕ) : Sync (β := β) o r r (writeStack16 a v) := by
  unfold writeStack16; infer_instance
instance readStack16_sync (a : ℕ) : Sync (β := β) o r r (readStack16 a) := by
  unfold readStack16; infer_instance
instance immByte_sync : Sync (β := β) o r r immByte := by unfold immByte; infer_instance
instance immWord_sync : Sync (β := β) o r r immWord := by unfold immWord; infer_instance
instance fetchOpcode_sync : Sync (β := β) o r r fetchOpcode := by unfold fetchOpcode; infer_instance
instance push8_sync (sp : StackReg) (v : ℕ) : Sync (β := β) o r r (push8 sp v) := by
  unfold push8; infer_instance
instance push16_sync (sp : StackReg) (v : ℕ) : Sync (β := β) o r r (push16 sp v) := by
  unfold push16; infer_instance
instance pull8_sync (sp : StackReg) : Sync (β := β) o r r (pull8 sp) := by
  unfold pull8; infer_instance
instance pull16_sync (sp : StackReg) : Sync (β := β) o r r (pull16 sp) := by
  unfold pull16; infer_instance
instance psh_sync (sp : StackReg) : Sync (β := β) o r r (psh sp) := by unfold psh; infer_instance
instance pul_sync (sp : StackReg) : Sync (β := β) o r r (pul sp) := by unfold pul; infer_instance
instance pushRegisters_sync : Sync (β := β) o r r pushRegisters := by
  unfold pushRegisters; infer_instance
instance pullRegisters_sync : Sync (β := β) o r r pullRegisters := by
  unfold pullRegisters; infer_instance
instance stackMachineState_sync (full : Bool) : Sync (β := β) o r r (stackMachineState full) := by
  unfold stackMachineState; infer_instance
instance rti_sync : Sync (β := β) o r r rti := by unfold rti; infer_instance
instance rts_sync : Sync (β := β) o r r rts := by unfold rts; infer_instance
instance swi_sync : Sync (β := β) o r r swi := by unfold swi; infer_instance
instance swi2_sync : Sync (β := β) o r r swi2 := by unfold swi2; infer_instance
instance swi3_sync : Sync (β := β) o r r swi3 := by unfold swi3; infer_instance
instance sync_sync : Sync (β := β) o r r Exec09.sync := by unfold Exec09.sync; infer_instance
instance orcc_sync : Sync (β := β) o r r orcc := by unfold orcc; infer_instance
instance andcc_sync : Sync (β := β) o r r andcc := by unfold andcc; infer_instance
instance exg_sync : Sync (β := β) o r r exg := by unfold exg; infer_instance
instance tfr_sync : Sync (β := β) o r r tfr := by unfold tfr; infer_instance
instance bra_sync : Sync (β := β) o r r bra := by unfold bra; infer_instance
instance longBra_sync : Sync (β := β) o r r longBra := by unfold longBra; infer_instance
instance takeBranch_sync (c : Bool) : Sync (β := β) o r r (takeBranch c) := by
  unfold takeBranch; infer_instance
instance branch_sync (c : Bool) : Sync (β := β) o r r (branch c) := by unfold branch; infer_instance
instance longBranch_sync (c : Bool) : Sync (β := β) o r r (longBranch c) := by
  unfold longBranch; infer_instance
instance bsr_sync : Sync (β := β) o r r bsr := by unfold bsr; infer_instance
instance longBsr_sync : Sync (β := β) o r r longBsr := by unfold longBsr; infer_instance

instance jsr_sync : Sync (β := β) o true true jsr := by unfold jsr; infer_instance

instance enterInterrupt_sync (full : Bool) : Sync (β := β) o r r (enterInterrupt full) := by
  unfold enterInterrupt
  refine Lockstep.seq look_cwaiState_sync fun c => ?_
  cases c <;> infer_instance

instance irq_sync : Sync (β := β) o r r irq := by unfold irq; infer_instance
instance firq_sync : Sync (β := β) o r r firq := by unfold firq; infer_instance
instance checkPending_sync : Sync (β := β) o r r checkPending := by
  unfold checkPending; infer_instance
instance ccModified_sync : Sync (β := β) o r r ccModified := by unfold ccModified; infer_instance

instance cwai_sync : Sync (β := β) o r r cwai := by
  unfold cwai
  refine Lockstep.seq look_cwaiState_sync fun c => ?_
  cases c <;> infer_instance

/-! ### Addressing modes -/

instance direct_sync : Sync (β := β) o false true direct := by unfold direct; infer_instance
instance extended_sync : Sync (β := β) o false true extended := by unfold extended; infer_instance
instance indirect_sync : Sync (β := β) o true true indirect := by unfold indirect; infer_instance

instance indexedEa_sync (post : ℕ) (R : IndexReg) : Sync (β := β) o false true (indexedEa post R) := by
  unfold indexedEa
  split <;> infer_instance

instance indexed_sync : Sync (β := β) o false true indexed := by
  unfold indexed
  refine Lockstep.seq immByte_sync fun post => ?_
  refine @Lockstep.ite _ _ _ _ _ _ _ _ _ _ ((indexedEa_sync post _).seq fun b => ?_) ?_ <;>
    infer_instance

instance address_sync (m : Mode) : Sync (β := β) o false true m.address := by
  cases m with
  | direct clk =>
    unfold Mode.address
    exact Lockstep.seq direct_sync fun _ => inferInstance
  | indexed pre post =>
    unfold Mode.address
    exact Lockstep.seq (charge_sync pre) fun _ => Lockstep.seq indexed_sync fun _ => inferInstance
  | extended clk =>
    unfold Mode.address
    exact Lockstep.seq extended_sync fun _ => inferInstance

/-- The program after an addressing mode may read `ea`. -/
instance address_then_sync {α : Type} (m : Mode) (k : Unit → CpuM β α)
    [hk : ∀ u, Sync o true true (k u)] : Sync o false false (m.address >>= k) :=
  Sync.weaken (Lockstep.seq (address_sync m) hk)

instance load8_sync (src : Operand) : Sync (β := β) o false false src.load8 := by
  cases src <;> unfold Operand.load8 <;> infer_instance

instance load16_sync (src : Operand) : Sync (β := β) o false false src.load16 := by
  cases src <;> unfold Operand.load16 <;> infer_instance

/-! ## Instructions and steps -/

instance exec_sync (i : Insn) : Sync (β := β) o false false i.exec := by
  cases i
  case lea r =>
    unfold Insn.exec
    exact Sync.weaken (Lockstep.seq indexed_sync fun _ => inferInstance)
  all_goals
    unfold Insn.exec
    infer_instance

instance selected_sync (sel : Selected) : Sync (β := β) o false false sel.exec := by
  cases sel <;> unfold Selected.exec <;> infer_instance

end Functions

/-- Agreement on all the claim about the flags lists: everything an instruction can depend on,
with the condition codes in place of the flag words. -/
structure Alike (s t : Cpu β) : Prop where
  A : s.A = t.A
  B : s.B = t.B
  DP : s.DP = t.DP
  X : s.X = t.X
  Y : s.Y = t.Y
  U : s.U = t.U
  S : s.S = t.S
  PC : s.PC = t.PC
  EFI : s.EFI = t.EFI
  irqsPending : s.irqsPending = t.irqsPending
  firqsPending : s.firqsPending = t.firqsPending
  ccChanged : s.ccChanged = t.ccChanged
  cwaiState : s.cwaiState = t.cwaiState
  bus : s.bus = t.bus
  cc : getCc s = getCc t

/-- From `s` and `t`, states `s'` and `t'` were reached by the same accesses in the same time. -/
def SameEffect (s t s' t' : Cpu β) : Prop :=
  Alike s' t' ∧ s.cpuClk - s'.cpuClk = t.cpuClk - t'.cpuClk ∧
    ∃ l, s'.trace = l ++ s.trace ∧ t'.trace = l ++ t.trace

def origin (s t : Cpu β) : Origin := ⟨s.cpuClk - t.cpuClk, s.trace, t.trace⟩

theorem Alike.same_latched {s t : Cpu β} (h : Alike s t) :
    Same (origin s t) false (latchPc s) (latchPc t) :=
  { h with
    iPC := h.PC, cc := cc_eq_of_getCc h.cc, ea := fun h => absurd h Bool.false_ne_true,
    clk := rfl, trace := ⟨[], rfl, rfl⟩ }

theorem Same.effect {s t s' t' : Cpu β} (h : Same (origin s t) r s' t') : SameEffect s t s' t' := by
  refine ⟨{ h with cc := h.getCc }, ?_, h.trace⟩
  have hclk : s'.cpuClk - t'.cpuClk = s.cpuClk - t.cpuClk := h.clk
  omega

/-- From alike states a step ends in states that agree on `iPC` as well. -/
theorem cpuStep_same [Bus β] {s t : Cpu β} (h : Alike s t) :
    SameOutcome (Same (origin s t) false) (Same (origin s t) false) (cpuStep s) (cpuStep t) := by
  have hlatch : Lockstep (Same (origin s t) false) (fun a b => a = s ∧ b = t)
      (Same (origin s t) false) (modify latchPc : CpuM β Unit) :=
    Lockstep.modify fun _ _ hab => by
      rw [hab.1, hab.2]
      exact h.same_latched
  have hfetch : Lockstep (Same (origin s t) false) (fun a b => a = s ∧ b = t)
      (Same (origin s t) false) (fetchExecute (β := β)) := by
    unfold fetchExecute
    exact hlatch.seq fun _ => inferInstance
  have hstep : Lockstep (Same (origin s t) false) (fun a b => a = s ∧ b = t)
      (Same (origin s t) false) (cpuStep (β := β)) := by
    unfold cpuStep
    exact hfetch.seq fun _ => inferInstance
  exact hstep.run s t ⟨rfl, rfl⟩

/-- The flag words cannot be observed: whatever the instruction at `PC` is, it has the same
effect from both states. -/
theorem cpuStep_alike [Bus β] {s t : Cpu β} (h : Alike s t) :
    SameOutcome (SameEffect s t) (SameEffect s t) (cpuStep s) (cpuStep t) :=
  (cpuStep_same h).mono (fun _ _ h => h.effect) fun _ _ h => h.effect

/-! `DAA` after an addition left the carry as `0x80`, and after a `COMA` left it as 1. -/

section FlatRam

def daaState (f : Flags) : Cpu FlatRam :=
  { Cpu.powerOn (FlatRam.image [(0x1000, [0x19])]) with PC := 0x1000, A := 0x35, flags := f }

theorem daa_alike :
    SameOutcome (SameEffect (daaState ⟨0x10, 0, 1, 0, 0x80⟩) (daaState ⟨0x30, 0x7f, 9, 3, 1⟩))
      (SameEffect (daaState ⟨0x10, 0, 1, 0, 0x80⟩) (daaState ⟨0x30, 0x7f, 9, 3, 1⟩))
      (cpuStep (daaState ⟨0x10, 0, 1, 0, 0x80⟩)) (cpuStep (daaState ⟨0x30, 0x7f, 9, 3, 1⟩)) :=
  cpuStep_alike ⟨rfl, rfl, rfl, rfl, rfl, rfl, rfl, rfl, rfl, rfl, rfl, rfl, rfl, rfl, by decide⟩

end FlatRam

end Exec09
