import Exec09.Cpu.CodeFetch
import Exec09.Foundation.Cost

/-! # The cycles of the instructions

Each part of an instruction charges its own cycles, and the sums give a table
of the least and the most that an instruction costs. Only the branch that an
undefined opcode or postbyte takes has no entry, since `sim_error` does not
come back from it.
-/
namespace Exec09
open Foundation
variable {β : Type}

set_option synthInstance.maxSize 100000

section Parts

instance charge_costs (n : ℤ) : Costs Cpu.cpuClk (charge n : CpuM β Unit) n n where
  costs s a t h := by
    cases h
    dsimp only
    omega

instance look_costs {α : Type} (p : Cpu β → α) : Costs Cpu.cpuClk (look p) 0 0 :=
  Costs.free fun _ _ _ h => by cases h; rfl
instance onBus_costs {α : Type} (m : EStateM Stop β α) : Costs Cpu.cpuClk (onBus m) 0 0 := by
  apply Costs.free
  intro s a t h
  rw [onBus] at h
  cases hr : m s.bus with
  | ok v b =>
    rw [hr] at h
    cases h
    rfl
  | error e b =>
    rw [hr] at h
    cases h
instance withFlags_costs {α : Type} (op : Flags → α × Flags) :
    Costs Cpu.cpuClk (withFlags op : CpuM β α) 0 0 :=
  Costs.free fun _ _ _ h => by cases h; rfl
instance updateFlags_costs (op : Flags → Flags) :
    Costs Cpu.cpuClk (updateFlags op : CpuM β Unit) 0 0 := by
  unfold updateFlags
  infer_instance
instance note_costs (e : Access) : Costs Cpu.cpuClk (note e : CpuM β Unit) 0 0 :=
  Costs.modify fun _ => rfl
instance setEa_costs (a : ℕ) : Costs Cpu.cpuClk (setEa a : CpuM β Unit) 0 0 :=
  Costs.modify fun _ => rfl
instance changePc_costs (a : ℕ) : Costs Cpu.cpuClk (changePc a : CpuM β Unit) 0 0 :=
  Costs.modify fun _ => rfl
instance advancePc_costs (n : ℕ) : Costs Cpu.cpuClk (advancePc n : CpuM β Unit) 0 0 :=
  Costs.modify fun _ => rfl
instance setPc_costs (v : ℕ) : Costs Cpu.cpuClk (setPc v : CpuM β Unit) 0 0 :=
  Costs.modify fun _ => rfl
instance setA_costs (v : ℕ) : Costs Cpu.cpuClk (setA v : CpuM β Unit) 0 0 :=
  Costs.modify fun _ => rfl
instance setB_costs (v : ℕ) : Costs Cpu.cpuClk (setB v : CpuM β Unit) 0 0 :=
  Costs.modify fun _ => rfl
instance setDp_costs (v : ℕ) : Costs Cpu.cpuClk (setDp v : CpuM β Unit) 0 0 :=
  Costs.modify fun _ => rfl
instance setX_costs (v : ℕ) : Costs Cpu.cpuClk (setX v : CpuM β Unit) 0 0 :=
  Costs.modify fun _ => rfl
instance setY_costs (v : ℕ) : Costs Cpu.cpuClk (setY v : CpuM β Unit) 0 0 :=
  Costs.modify fun _ => rfl
instance setEfi_costs (v : ℕ) : Costs Cpu.cpuClk (setEfi v : CpuM β Unit) 0 0 :=
  Costs.modify fun _ => rfl
instance setCc_costs (arg : ℕ) : Costs Cpu.cpuClk (setCc arg : CpuM β Unit) 0 0 :=
  Costs.modify fun _ => rfl
instance hook_costs (c : Cpu β → ℕ) : Costs Cpu.cpuClk (commandExitIrqHook c) 0 0 :=
  Costs.modify fun _ => rfl
instance setCwaiState_costs (c : CwaiState) : Costs Cpu.cpuClk (setCwaiState c : CpuM β Unit) 0 0 :=
  Costs.modify fun _ => rfl
instance setIrqStartTime_costs (v : Cpu β → ℕ) : Costs Cpu.cpuClk (setIrqStartTime v) 0 0 :=
  Costs.modify fun _ => rfl
instance setIndexReg_costs (R : IndexReg) (v : ℕ) :
    Costs Cpu.cpuClk (setIndexReg R v : CpuM β Unit) 0 0 :=
  Costs.modify fun _ => by cases R <;> rfl
instance setStackReg_costs (sp : StackReg) (v : ℕ) :
    Costs Cpu.cpuClk (setStackReg sp v : CpuM β Unit) 0 0 :=
  Costs.modify fun _ => by cases sp <;> rfl
instance setReg_costs (nro val : ℕ) : Costs Cpu.cpuClk (setReg nro val : CpuM β Unit) 0 0 := by
  unfold setReg
  split <;> first | infer_instance | exact Costs.modify fun _ => rfl

instance lowerStack_costs (sp : StackReg) (n : ℕ) :
    Costs Cpu.cpuClk (lowerStack sp n : CpuM β Unit) 0 0 := by
  unfold lowerStack
  infer_instance
instance raiseStack_costs (sp : StackReg) (n : ℕ) :
    Costs Cpu.cpuClk (raiseStack sp n : CpuM β Unit) 0 0 := by
  unfold raiseStack
  infer_instance
instance setAcc_costs (r : Acc) (v : ℕ) : Costs Cpu.cpuClk (setAcc r v : CpuM β Unit) 0 0 := by
  cases r <;> unfold setAcc <;> infer_instance

instance onlyIf_costs (c : Prop) [Decidable c] {k : CpuM β Unit} {lo hi : ℤ}
    [Costs Cpu.cpuClk k lo hi] : Costs Cpu.cpuClk (onlyIf c k) (min lo 0) (max hi 0) := by
  unfold onlyIf
  infer_instance
instance onBit_costs (post m : ℕ) {k : CpuM β Unit} {lo hi : ℤ} [Costs Cpu.cpuClk k lo hi] :
    Costs Cpu.cpuClk (onBit post m k) (min lo 0) (max hi 0) := by
  unfold onBit
  infer_instance
instance monitorCall_costs : Costs Cpu.cpuClk (monitorCall : CpuM β Unit) 0 0 := by
  unfold monitorCall
  infer_instance
instance monitorReturn_costs : Costs Cpu.cpuClk (monitorReturn : CpuM β Unit) 0 0 := by
  unfold monitorReturn
  infer_instance
instance mask_costs (m : ℕ) : Costs Cpu.cpuClk (mask m : CpuM β Unit) 0 0 := by
  unfold mask
  infer_instance

variable [Bus β]

instance simError_costs : Costs Cpu.cpuClk (simError : CpuM β Unit) 0 0 := by
  unfold simError
  infer_instance
instance read8_costs (a : ℕ) : Costs Cpu.cpuClk (read8 a : CpuM β ℕ) 0 0 := by
  unfold read8
  exact Costs.congr inferInstance rfl rfl
instance read16_costs (a : ℕ) : Costs Cpu.cpuClk (read16 a : CpuM β ℕ) 0 0 := by
  unfold read16
  exact Costs.congr inferInstance rfl rfl
instance write8_costs (a v : ℕ) : Costs Cpu.cpuClk (write8 a v : CpuM β Unit) 0 0 := by
  unfold write8
  exact Costs.congr inferInstance rfl rfl
instance wrmem16_costs (a v : ℕ) : Costs Cpu.cpuClk (wrmem16 a v : CpuM β Unit) 1 1 := by
  unfold wrmem16
  exact Costs.congr inferInstance rfl rfl
instance rdmem16_costs (a : ℕ) : Costs Cpu.cpuClk (rdmem16 a : CpuM β ℕ) 1 1 := by
  unfold rdmem16
  exact Costs.congr inferInstance rfl rfl
instance writeStack16_costs (a v : ℕ) : Costs Cpu.cpuClk (writeStack16 a v : CpuM β Unit) 0 0 := by
  unfold writeStack16
  exact Costs.congr inferInstance rfl rfl
instance readStack16_costs (a : ℕ) : Costs Cpu.cpuClk (readStack16 a : CpuM β ℕ) 0 0 := by
  unfold readStack16
  exact Costs.congr inferInstance rfl rfl
instance immByte_costs : Costs Cpu.cpuClk (immByte : CpuM β ℕ) 0 0 := by
  unfold immByte
  exact Costs.congr inferInstance rfl rfl
instance immWord_costs : Costs Cpu.cpuClk (immWord : CpuM β ℕ) 0 0 := by
  unfold immWord
  exact Costs.congr inferInstance rfl rfl
instance fetchOpcode_costs : Costs Cpu.cpuClk (fetchOpcode : CpuM β Selected) 0 0 := by
  unfold fetchOpcode
  exact Costs.congr inferInstance rfl rfl
instance direct_costs : Costs Cpu.cpuClk (direct : CpuM β Unit) 0 0 := by
  unfold direct
  exact Costs.congr inferInstance rfl rfl
instance extended_costs : Costs Cpu.cpuClk (extended : CpuM β Unit) 0 0 := by
  unfold extended
  exact Costs.congr inferInstance rfl rfl
instance indirect_costs : Costs Cpu.cpuClk (indirect : CpuM β Unit) 3 3 := by
  unfold indirect
  exact Costs.congr inferInstance rfl rfl
instance push8_costs (sp : StackReg) (v : ℕ) : Costs Cpu.cpuClk (push8 sp v : CpuM β Unit) 0 0 := by
  unfold push8
  exact Costs.congr inferInstance rfl rfl
instance push16_costs (sp : StackReg) (v : ℕ) : Costs Cpu.cpuClk (push16 sp v : CpuM β Unit) 0 0 := by
  unfold push16
  exact Costs.congr inferInstance rfl rfl
instance pull8_costs (sp : StackReg) : Costs Cpu.cpuClk (pull8 sp : CpuM β ℕ) 0 0 := by
  unfold pull8
  exact Costs.congr inferInstance rfl rfl
instance pull16_costs (sp : StackReg) : Costs Cpu.cpuClk (pull16 sp : CpuM β ℕ) 0 0 := by
  unfold pull16
  exact Costs.congr inferInstance rfl rfl
instance psh_costs (sp : StackReg) : Costs Cpu.cpuClk (psh sp : CpuM β Unit) 5 17 := by
  unfold psh
  exact Costs.congr inferInstance rfl rfl
instance pul_costs (sp : StackReg) : Costs Cpu.cpuClk (pul sp : CpuM β Unit) 5 17 := by
  unfold pul
  exact Costs.congr inferInstance rfl rfl
instance pushRegisters_costs : Costs Cpu.cpuClk (pushRegisters : CpuM β Unit) 0 0 := by
  unfold pushRegisters
  exact Costs.congr inferInstance rfl rfl
instance pullRegisters_costs : Costs Cpu.cpuClk (pullRegisters : CpuM β Unit) 0 0 := by
  unfold pullRegisters
  exact Costs.congr inferInstance rfl rfl
instance jsr_costs : Costs Cpu.cpuClk (jsr : CpuM β Unit) 0 0 := by
  unfold jsr
  exact Costs.congr inferInstance rfl rfl
instance rts_costs : Costs Cpu.cpuClk (rts : CpuM β Unit) 5 5 := by
  unfold rts
  exact Costs.congr inferInstance rfl rfl
instance rti_costs : Costs Cpu.cpuClk (rti : CpuM β Unit) 6 15 := by
  unfold rti
  exact Costs.congr inferInstance rfl rfl
instance orcc_costs : Costs Cpu.cpuClk (orcc : CpuM β Unit) 3 3 := by
  unfold orcc
  exact Costs.congr inferInstance rfl rfl
instance andcc_costs : Costs Cpu.cpuClk (andcc : CpuM β Unit) 3 3 := by
  unfold andcc
  exact Costs.congr inferInstance rfl rfl
instance exg_costs : Costs Cpu.cpuClk (exg : CpuM β Unit) 8 8 := by
  unfold exg
  exact Costs.congr inferInstance rfl rfl
instance tfr_costs : Costs Cpu.cpuClk (tfr : CpuM β Unit) 6 6 := by
  unfold tfr
  exact Costs.congr inferInstance rfl rfl
instance bra_costs : Costs Cpu.cpuClk (bra : CpuM β Unit) 0 0 := by
  unfold bra
  exact Costs.congr inferInstance rfl rfl
instance takeBranch_costs (c : Bool) : Costs Cpu.cpuClk (takeBranch c : CpuM β Unit) 0 0 := by
  unfold takeBranch
  exact Costs.congr inferInstance rfl rfl
instance branch_costs (c : Bool) : Costs Cpu.cpuClk (branch c : CpuM β Unit) 3 3 := by
  unfold branch
  exact Costs.congr inferInstance rfl rfl
instance longBra_costs : Costs Cpu.cpuClk (longBra : CpuM β Unit) 0 0 := by
  unfold longBra
  exact Costs.congr inferInstance rfl rfl
instance longBranch_costs (c : Bool) : Costs Cpu.cpuClk (longBranch c : CpuM β Unit) 5 6 := by
  unfold longBranch
  exact Costs.congr inferInstance rfl rfl
instance bsr_costs : Costs Cpu.cpuClk (bsr : CpuM β Unit) 7 7 := by
  unfold bsr
  exact Costs.congr inferInstance rfl rfl
instance longBsr_costs : Costs Cpu.cpuClk (longBsr : CpuM β Unit) 9 9 := by
  unfold longBsr
  exact Costs.congr inferInstance rfl rfl
instance unaryOp_costs (op : Unary) (arg : ℕ) : Costs Cpu.cpuClk (unaryOp op arg : CpuM β ℕ) 2 2 := by
  unfold unaryOp
  exact Costs.congr inferInstance rfl rfl
instance tstOp_costs (arg : ℕ) : Costs Cpu.cpuClk (tstOp arg : CpuM β Unit) 2 2 := by
  unfold tstOp
  exact Costs.congr inferInstance rfl rfl
instance setD_costs (res : ℕ) : Costs Cpu.cpuClk (setD res : CpuM β Unit) 0 0 := by
  unfold setD
  exact Costs.congr inferInstance rfl rfl

/-- The cycles of a full and of a short frame. -/
def frameClks (full : Bool) : ℤ := if full then 19 else 6

theorem frameClks_nonneg (full : Bool) : 0 ≤ frameClks full := by cases full <;> decide

omit [Bus β] in
instance beginFrame_costs (full : Bool) :
    Costs Cpu.cpuClk (beginFrame full : CpuM β Unit) (frameClks full) (frameClks full) := by
  unfold beginFrame
  cases full with
  | true =>
    rw [if_pos rfl]
    exact Costs.congr inferInstance rfl rfl
  | false =>
    rw [if_neg Bool.false_ne_true]
    exact Costs.congr inferInstance rfl rfl

instance stackMachineState_costs (full : Bool) :
    Costs Cpu.cpuClk (stackMachineState full : CpuM β Unit) (frameClks full) (frameClks full) := by
  unfold stackMachineState
  refine Costs.congr inferInstance ?_ ?_ <;> cases full <;> rfl

/-- A frame that CWAI has stacked is not stacked again. -/
instance enterInterrupt_costs (full : Bool) :
    Costs Cpu.cpuClk (enterInterrupt full : CpuM β Unit) 0 (frameClks full) := by
  unfold enterInterrupt
  refine ((look_costs _).seq fun c =>
    (?_ : Costs Cpu.cpuClk _ 0 (frameClks full))).congr rfl (zero_add _)
  cases c with
  | wait => exact (setCwaiState_costs _).weaken le_rfl (frameClks_nonneg full)
  | idle => exact (stackMachineState_costs full).weaken (frameClks_nonneg full) le_rfl

instance irq_costs : Costs Cpu.cpuClk (irq : CpuM β Unit) 0 19 := by
  unfold irq
  exact Costs.congr inferInstance rfl rfl
instance firq_costs : Costs Cpu.cpuClk (firq : CpuM β Unit) 0 6 := by
  unfold firq
  exact Costs.congr inferInstance rfl rfl
instance swi_costs : Costs Cpu.cpuClk (swi : CpuM β Unit) 19 19 := by
  unfold swi
  exact Costs.congr inferInstance rfl rfl
instance swi2_costs : Costs Cpu.cpuClk (swi2 : CpuM β Unit) 20 20 := by
  unfold swi2
  exact Costs.congr inferInstance rfl rfl
instance swi3_costs : Costs Cpu.cpuClk (swi3 : CpuM β Unit) 20 20 := by
  unfold swi3
  exact Costs.congr inferInstance rfl rfl
instance cwai_costs : Costs Cpu.cpuClk (cwai : CpuM β Unit) 1 20 := by
  unfold cwai
  refine ((look_costs _).seq fun c => (?_ : Costs Cpu.cpuClk _ 1 20)).congr rfl rfl
  cases c with
  | idle =>
    have hfirst : Costs Cpu.cpuClk (do
        let n ← (immByte : CpuM β ℕ)
        setEfi ((← look Cpu.EFI) &&& int8 n)
        charge 1
        stackMachineState true
        setCwaiState .wait
        changePc (usub (← look Cpu.PC) 2)) 20 20 := Costs.congr inferInstance rfl rfl
    exact hfirst.weaken (by decide) le_rfl
  | wait =>
    have hagain : Costs Cpu.cpuClk (do
        charge 1
        changePc (usub (← look (β := β) Cpu.PC) 1)) 1 1 := Costs.congr inferInstance rfl rfl
    exact hagain.weaken le_rfl (by decide)
instance sync_costs : Costs Cpu.cpuClk (sync : CpuM β Unit) 4 4 := by
  unfold sync
  exact Costs.congr inferInstance rfl rfl

end Parts

/-! ## The table -/

/-- The least and the most that the postbyte of an indexed mode costs. -/
def Mode.least : Mode → ℤ
  | .direct clk | .extended clk => clk
  | .indexed pre post => pre + 4 + post

def Mode.most : Mode → ℤ
  | .direct clk | .extended clk => clk
  | .indexed pre post => pre + 12 + post

def Operand.least : Operand → ℤ
  | .imm clk => clk
  | .mem m => m.least

def Operand.most : Operand → ℤ
  | .imm clk => clk
  | .mem m => m.most

/-- The cycles of an instruction that do not depend on its operand; a word in memory takes one
more than a byte. -/
def Insn.least : Insn → ℤ
  | .rmw _ m | .tstMem m => m.least + 2
  | .jmp m | .st _ m | .jsr m => m.least
  | .std m | .st16 _ m => m.least + 1
  | .alu _ _ src => src.least
  | .addd src | .subd src | .cmp16 _ src => src.least + src.tail + src.tail
  | .ldd src | .ld16 _ src => src.least + src.tail
  | .lea _ => 4
  | .psh _ | .pul _ | .longBra | .longBrn | .longBranch _ | .rts => 5
  | .bra | .brn | .branch _ | .orcc | .andcc | .abx => 3
  | .unary _ _ | .tstAcc _ | .nop | .daa | .sex => 2
  | .sync => 4
  | .tfr | .rti => 6
  | .bsr => 7
  | .exg => 8
  | .longBsr => 9
  | .mul => 11
  | .cwai => 1
  | .swi => 19
  | .swi2 | .swi3 => 20

def Insn.most : Insn → ℤ
  | .rmw _ m | .tstMem m => m.most + 2
  | .jmp m | .st _ m | .jsr m => m.most
  | .std m | .st16 _ m => m.most + 1
  | .alu _ _ src => src.most
  | .addd src | .subd src | .cmp16 _ src => src.most + src.tail + src.tail
  | .ldd src | .ld16 _ src => src.most + src.tail
  | .lea _ => 12
  | .psh _ | .pul _ => 17
  | .longBranch _ => 6
  | .rti => 15
  | .cwai => 20
  | i => i.least

section Table
variable [Bus β]

theorem simError_never_returns (htraps : Traps β) (s t : Cpu β) (u : Unit) :
    simError s ≠ .ok u t := by
  intro h
  have hstop := htraps s.bus
  rw [simError, onBus] at h
  cases hr : Bus.simError s.bus with
  | ok a b =>
    rw [hr] at hstop
    cases hstop
  | error e b =>
    rw [hr] at h
    cases h

theorem indexedEa_costs (htraps : Traps β) (post : ℕ) (R : IndexReg) :
    Costs Cpu.cpuClk (indexedEa post R : CpuM β Bool) 4 9 := by
  unfold indexedEa
  split
  case h_24 =>
    apply Costs.never
    intro s b t h
    obtain ⟨_, _, _, hrest⟩ := of_run_bind_ok h
    obtain ⟨_, _, hnever, _⟩ := of_run_bind_ok hrest
    exact simError_never_returns htraps _ _ _ hnever
  all_goals exact Costs.weaken inferInstance (by decide) (by decide)

theorem indexed_costs (htraps : Traps β) : Costs Cpu.cpuClk (indexed : CpuM β Unit) 4 12 := by
  have hea (post : ℕ) (R : IndexReg) : Costs Cpu.cpuClk (indexedEa post R : CpuM β Bool) 4 9 :=
    indexedEa_costs htraps post R
  unfold indexed
  exact Costs.congr inferInstance rfl rfl

theorem address_costs (htraps : Traps β) (m : Mode) :
    Costs Cpu.cpuClk (m.address : CpuM β Unit) m.least m.most := by
  have hindexed : Costs Cpu.cpuClk (indexed : CpuM β Unit) 4 12 := indexed_costs htraps
  cases m <;> unfold Mode.address <;> refine Costs.congr inferInstance ?_ ?_ <;>
    simp only [Mode.least, Mode.most] <;> omega

theorem load8_costs (htraps : Traps β) (src : Operand) :
    Costs Cpu.cpuClk (src.load8 : CpuM β ℕ) src.least src.most := by
  have haddress (m : Mode) := address_costs (β := β) htraps m
  cases src <;> unfold Operand.load8 <;> refine Costs.congr inferInstance ?_ ?_ <;>
    simp only [Operand.least, Operand.most] <;> omega

theorem load16_costs (htraps : Traps β) (src : Operand) :
    Costs Cpu.cpuClk (src.load16 : CpuM β ℕ) (src.least + src.tail) (src.most + src.tail) := by
  have haddress (m : Mode) := address_costs (β := β) htraps m
  cases src <;> unfold Operand.load16 <;> refine Costs.congr inferInstance ?_ ?_ <;>
    simp only [Operand.least, Operand.most, Operand.tail] <;> omega

/-- The table is right. -/
theorem exec_costs (htraps : Traps β) (i : Insn) :
    Costs Cpu.cpuClk (i.exec : CpuM β Unit) i.least i.most := by
  have hindexed : Costs Cpu.cpuClk (indexed : CpuM β Unit) 4 12 := indexed_costs htraps
  have haddress (m : Mode) := address_costs (β := β) htraps m
  have hload8 (src : Operand) := load8_costs (β := β) htraps src
  have hload16 (src : Operand) := load16_costs (β := β) htraps src
  cases i <;> unfold Insn.exec <;> refine Costs.congr inferInstance ?_ ?_ <;>
    simp only [Insn.least, Insn.most] <;> omega

end Table

end Exec09
