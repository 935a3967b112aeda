import Exec09.Cpu.Run

/-! # Invariants of compound operations

An operation that is put together from others keeps what all of them keep. For
an invariant of its own a module gives the assignments, the accesses and the
cycles, and has the functions of the source from here.
-/
namespace Exec09
open Foundation
variable {β : Type}

set_option synthInstance.maxSize 100000

/-- The passing of cycles keeps `I`. -/
class Charges (I : Cpu β → Prop) : Prop where
  charge : ∀ n : ℤ, 0 ≤ n → Keeps I (charge n)

variable {I : Cpu β → Prop}

instance charge_literal [h : Charges I] (n : ℕ) : Keeps I (charge (no_index (OfNat.ofNat n))) :=
  h.charge _ (Int.natCast_nonneg n)

/-! ## Registers -/

instance onlyIf_kept (c : Prop) [Decidable c] (k : CpuM β Unit) [Keeps I k] :
    Keeps I (onlyIf c k) := by
  unfold onlyIf
  infer_instance

instance onBit_kept (post m : ℕ) (k : CpuM β Unit) [Keeps I k] : Keeps I (onBit post m k) := by
  unfold onBit
  infer_instance

instance monitorCall_kept : Keeps I monitorCall := Keeps.pure ()
instance monitorReturn_kept : Keeps I monitorReturn := Keeps.pure ()

instance setAcc_kept (r : Acc) (v : ℕ) [hA : Keeps I (setA v)] [hB : Keeps I (setB v)] :
    Keeps I (setAcc r v) := by
  cases r
  exacts [hA, hB]

instance setD_kept (v : ℕ) [Keeps I (setA (v >>> 8))] [Keeps I (setB (v &&& 0xff))] :
    Keeps I (setD v) := by
  unfold setD
  infer_instance

instance lowerStack_kept (sp : StackReg) (n : ℕ) [∀ v, Keeps I (setStackReg sp (v &&& 0xffff))] :
    Keeps I (lowerStack sp n) := by
  unfold lowerStack
  infer_instance

instance raiseStack_kept (sp : StackReg) (n : ℕ) [∀ v, Keeps I (setStackReg sp (v &&& 0xffff))] :
    Keeps I (raiseStack sp n) := by
  unfold raiseStack
  infer_instance

instance updateFlags_kept (op : Flags → Flags) [h : Keeps I (withFlags fun f => ((), op f))] :
    Keeps I (updateFlags op) := h

instance unaryOp_kept (op : Unary) (arg : ℕ) [Keeps I (withFlags (op.eval · arg))] [Charges I] :
    Keeps I (unaryOp op arg) := by
  unfold unaryOp
  infer_instance

instance tstOp_kept (arg : ℕ) [Keeps I (updateFlags (tst · arg))] [Charges I] :
    Keeps I (tstOp arg) := by
  unfold tstOp
  infer_instance

instance mask_kept (m : ℕ) [∀ v, Keeps I (setEfi v)] : Keeps I (mask m) := by
  unfold mask
  infer_instance

instance beginFrame_kept (full : Bool) [∀ v, Keeps I (setEfi v)] [Charges I] :
    Keeps I (beginFrame full) := by
  unfold beginFrame
  infer_instance

instance setReg_kept (nro v : ℕ) [hA : ∀ v, Keeps I (setA v)] [hB : ∀ v, Keeps I (setB v)]
    [hX : ∀ v, Keeps I (setX v)] [hY : ∀ v, Keeps I (setY v)]
    [hsp : ∀ sp v, Keeps I (setStackReg sp v)] [hDp : ∀ v, Keeps I (setDp v)]
    [hPc : ∀ v, Keeps I (setPc v)] [hCc : ∀ v, Keeps I (setCc v)] : Keeps I (setReg nro v) := by
  have hD : Keeps I (do setA (v >>> 8); setB (v &&& 0xff) : CpuM β Unit) := inferInstance
  unfold setReg
  split
  exacts [hD, hX v, hY v, hsp .U v, hsp .S v, hPc v, hA v, hB v, hCc v, hDp _, Keeps.pure ()]

/-! ## Memory -/

section Memory
variable [Bus β]

instance simError_kept [Keeps I (onBus Bus.simError)] : Keeps I simError := by
  unfold simError
  infer_instance

section Accesses
variable [∀ {α : Type} (m : EStateM Stop β α), Keeps I (onBus m)] (a v : ℕ)

instance read8_kept [Keeps I (note (.read8 a))] : Keeps I (read8 a) := by
  unfold read8
  infer_instance

instance read16_kept [Keeps I (note (.read16 a))] : Keeps I (read16 a) := by
  unfold read16
  infer_instance

instance write8_kept [Keeps I (note (.write8 a v))] : Keeps I (write8 a v) := by
  unfold write8
  infer_instance

end Accesses

section Words
variable (a v : ℕ)

instance rdmem16_kept [Keeps I (read8 a)] [Keeps I (read8 ((a + 1) &&& 0xffff))] [Charges I] :
    Keeps I (rdmem16 a) := by
  unfold rdmem16
  infer_instance

instance readStack16_kept [Keeps I (read8 a)] [Keeps I (read8 ((a + 1) &&& 0xffff))] :
    Keeps I (readStack16 a) := by
  unfold readStack16
  infer_instance

instance wrmem16_kept [Keeps I (write8 a (v >>> 8))]
    [Keeps I (write8 ((a + 1) &&& 0xffff) (v &&& 0xff))] [Charges I] : Keeps I (wrmem16 a v) := by
  unfold wrmem16
  infer_instance

instance writeStack16_kept [Keeps I (write8 a (v >>> 8))]
    [Keeps I (write8 ((a + 1) &&& 0xffff) (v &&& 0xff))] : Keeps I (writeStack16 a v) := by
  unfold writeStack16
  infer_instance

end Words

instance immByte_kept [∀ a, Keeps I (read8 a)] [Keeps I (advancePc 1)] : Keeps I immByte := by
  unfold immByte
  infer_instance

instance immWord_kept [∀ a, Keeps I (read16 a)] [Keeps I (advancePc 2)] : Keeps I immWord := by
  unfold immWord
  infer_instance

instance fetchOpcode_kept [Keeps I immByte] : Keeps I fetchOpcode := by
  unfold fetchOpcode
  infer_instance

/-! ## Addressing modes -/

section Addressing
variable [∀ a, Keeps I (setEa a)]

instance direct_kept [∀ a, Keeps I (read8 a)] [Keeps I (advancePc 1)] : Keeps I direct := by
  unfold direct
  infer_instance

instance extended_kept [∀ a, Keeps I (read16 a)] [Keeps I (advancePc 2)] : Keeps I extended := by
  unfold extended
  infer_instance

variable [Charges I]

instance indirect_kept [∀ a, Keeps I (rdmem16 a)] : Keeps I indirect := by
  unfold indirect
  infer_instance

instance indexedEa_kept (post : ℕ) (R : IndexReg) [∀ R v, Keeps I (setIndexReg R v)]
    [Keeps I immByte] [Keeps I immWord] [Keeps I simError] : Keeps I (indexedEa post R) := by
  unfold indexedEa
  split <;> infer_instance

instance indexed_kept [∀ post R, Keeps I (indexedEa post R)] [Keeps I immByte]
    [Keeps I indirect] : Keeps I indexed := by
  unfold indexed
  infer_instance

end Addressing

section Operands
variable [hcharge : ∀ n, Keeps I (charge n)]

instance address_kept (m : Mode) [Keeps I direct] [Keeps I extended] [Keeps I indexed] :
    Keeps I m.address := by
  cases m <;> unfold Mode.address <;> infer_instance

instance load8_kept (src : Operand) [∀ m : Mode, Keeps I m.address] [Keeps I immByte]
    [∀ a, Keeps I (read8 a)] : Keeps I src.load8 := by
  cases src <;> unfold Operand.load8 <;> infer_instance

instance load16_kept (src : Operand) [∀ m : Mode, Keeps I m.address] [Keeps I immWord]
    [∀ a, Keeps I (rdmem16 a)] : Keeps I src.load16 := by
  cases src <;> unfold Operand.load16 <;> infer_instance

end Operands

/-! ## Stacks -/

instance push8_kept (sp : StackReg) (v : ℕ) [Keeps I (lowerStack sp 1)]
    [∀ a, Keeps I (write8 a v)] : Keeps I (push8 sp v) := by
  unfold push8
  infer_instance

instance push16_kept (sp : StackReg) (v : ℕ) [Keeps I (lowerStack sp 2)]
    [∀ a, Keeps I (writeStack16 a v)] : Keeps I (push16 sp v) := by
  unfold push16
  infer_instance

instance pull8_kept (sp : StackReg) [Keeps I (raiseStack sp 1)] [∀ a, Keeps I (read8 a)] :
    Keeps I (pull8 sp) := by
  unfold pull8
  infer_instance

instance pull16_kept (sp : StackReg) [Keeps I (raiseStack sp 2)] [∀ a, Keeps I (readStack16 a)] :
    Keeps I (pull16 sp) := by
  unfold pull16
  infer_instance

section Pushes
variable [∀ sp v, Keeps I (push8 sp v)] [∀ sp v, Keeps I (push16 sp v)]

instance psh_kept (sp : StackReg) [Keeps I immByte] [Charges I] : Keeps I (psh sp) := by
  unfold psh
  infer_instance

instance pushRegisters_kept : Keeps I pushRegisters := by
  unfold pushRegisters
  infer_instance

end Pushes

instance stackMachineState_kept (full : Bool) [Keeps I (beginFrame full)]
    [∀ v, Keeps I (push16 .S (v &&& 0xffff))] [Keeps I pushRegisters]
    [Keeps I (look getCc >>= push8 .S)] : Keeps I (stackMachineState full) := by
  unfold stackMachineState
  infer_instance

section Pulls
variable [∀ sp, Keeps I (pull8 sp)] [∀ sp, Keeps I (pull16 sp)] [∀ v, Keeps I (setA v)]
  [∀ v, Keeps I (setB v)] [∀ v, Keeps I (setX v)] [∀ v, Keeps I (setY v)] [∀ v, Keeps I (setDp v)]
  [∀ sp v, Keeps I (setStackReg sp v)]

instance pul_kept (sp : StackReg) [Keeps I immByte] [∀ v, Keeps I (setCc v)]
    [∀ v, Keeps I (setPc v)] [Charges I] : Keeps I (pul sp) := by
  unfold pul
  infer_instance

instance pullRegisters_kept : Keeps I pullRegisters := by
  unfold pullRegisters
  infer_instance

end Pulls

/-! ## Interrupts and jumps -/

instance enterInterrupt_kept (full : Bool) [Keeps I (setCwaiState .idle)]
    [Keeps I (stackMachineState full)] : Keeps I (enterInterrupt full) := by
  unfold enterInterrupt
  refine (look_keeps _).seq fun c => ?_
  cases c <;> infer_instance

instance checkPending_kept [Keeps I irq] [Keeps I firq] : Keeps I checkPending := by
  unfold checkPending
  infer_instance

instance ccModified_kept [Keeps I checkPending] [Keeps I clearCcChanged] : Keeps I ccModified := by
  unfold ccModified
  infer_instance

instance sync_kept [Keeps I simError] [Charges I] : Keeps I sync := by
  unfold sync
  infer_instance

section Jumps
variable [∀ a, Keeps I (changePc a)]

instance irq_kept [Keeps I (enterInterrupt true)] [Keeps I (mask I_FLAG)]
    [∀ f, Keeps I (setIrqStartTime f)] [Keeps I (read16 0xfff8)] : Keeps I irq := by
  unfold irq
  infer_instance

instance firq_kept [Keeps I (enterInterrupt false)] [Keeps I (mask (I_FLAG ||| F_FLAG))]
    [Keeps I (read16 0xfff6)] : Keeps I firq := by
  unfold firq
  infer_instance

instance swi_kept [Keeps I (stackMachineState true)] [Keeps I (mask (I_FLAG ||| F_FLAG))]
    [Keeps I (read16 0xfffa)] : Keeps I swi := by
  unfold swi
  infer_instance

instance swi2_kept [Keeps I (stackMachineState true)] [Keeps I (read16 0xfff4)] [Charges I] :
    Keeps I swi2 := by
  unfold swi2
  infer_instance

instance swi3_kept [Keeps I (stackMachineState true)] [Keeps I (read16 0xfff2)] [Charges I] :
    Keeps I swi3 := by
  unfold swi3
  infer_instance

instance cwai_kept [Keeps I immByte] [Keeps I (stackMachineState true)] [∀ v, Keeps I (setEfi v)]
    [Keeps I (setCwaiState .wait)] [Charges I] : Keeps I cwai := by
  unfold cwai
  refine (look_keeps _).seq fun c => ?_
  cases c <;> infer_instance

instance jsr_kept [∀ v, Keeps I (push16 .S (v &&& 0xffff))] : Keeps I jsr := by
  unfold jsr
  infer_instance

instance bsr_kept [Keeps I immByte] [∀ a, Keeps I (setEa a)] [∀ v, Keeps I (push16 .S (v &&& 0xffff))]
    [Charges I] : Keeps I bsr := by
  unfold bsr
  infer_instance

instance longBsr_kept [Keeps I immWord] [∀ a, Keeps I (setEa a)] [∀ v, Keeps I (push16 .S (v &&& 0xffff))]
    [Charges I] : Keeps I longBsr := by
  unfold longBsr
  infer_instance

instance bra_kept [Keeps I immByte] : Keeps I bra := by
  unfold bra
  infer_instance

instance takeBranch_kept (c : Bool) [Keeps I bra] : Keeps I (takeBranch c) := by
  unfold takeBranch
  infer_instance

instance branch_kept (c : Bool) [Keeps I (takeBranch c)] [Charges I] : Keeps I (branch c) := by
  unfold branch
  infer_instance

instance longBra_kept [Keeps I immWord] : Keeps I longBra := by
  unfold longBra
  infer_instance

instance longBranch_kept (c : Bool) [Keeps I longBra] [Charges I] : Keeps I (longBranch c) := by
  unfold longBranch
  infer_instance

end Jumps

section Returns
variable [∀ v, Keeps I (setPc v)] [Keeps I (pull16 .S)] [Charges I]

instance rts_kept : Keeps I rts := by
  unfold rts
  infer_instance

instance rti_kept [Keeps I (pull8 .S)] [Keeps I pullRegisters] [∀ v, Keeps I (setCc v)]
    [∀ f, Keeps I (commandExitIrqHook f)] : Keeps I rti := by
  unfold rti
  infer_instance

end Returns

section Postbytes
variable [Keeps I immByte] [Charges I]

instance orcc_kept [∀ v, Keeps I (setCc v)] : Keeps I orcc := by
  unfold orcc
  infer_instance

instance andcc_kept [∀ v, Keeps I (setCc v)] : Keeps I andcc := by
  unfold andcc
  infer_instance

instance exg_kept [∀ nro v, Keeps I (setReg nro v)] : Keeps I exg := by
  unfold exg
  infer_instance

instance tfr_kept [∀ nro v, Keeps I (setReg nro v)] : Keeps I tfr := by
  unfold tfr
  infer_instance

end Postbytes

/-! ## Steps -/

instance selected_kept (sel : Selected) [∀ i : Insn, Keeps I i.exec] [Keeps I simError]
    [∀ v, Keeps I (setPc v)] [Charges I] : Keeps I sel.exec := by
  cases sel <;> unfold Selected.exec <;> infer_instance

instance fetchExecute_kept [Keeps I (modify latchPc : CpuM β Unit)] [Keeps I fetchOpcode]
    [∀ sel : Selected, Keeps I sel.exec] : Keeps I fetchExecute := by
  unfold fetchExecute
  infer_instance

instance cpuStep_kept [Keeps I fetchExecute] [Keeps I ccModified] : Keeps I cpuStep := by
  unfold cpuStep
  infer_instance

end Memory

end Exec09
