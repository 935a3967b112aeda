import Exec09.Cpu.PushPull

/-! # Every register value fits its register

The registers are plain unsigned words, so every instruction and every register
assignment of the debugger masks for itself. Unlike the addresses of the bus
accesses, the widths hold wherever the program counter is.
-/
namespace Exec09
open Foundation
variable {β : Type}

set_option synthInstance.maxSize 100000

/-! ## The external register functions -/

namespace External

def setA (val : ℕ) : CpuM β Unit := Exec09.setA (val &&& 0xff)
def setB (val : ℕ) : CpuM β Unit := Exec09.setB (val &&& 0xff)
def setDp (val : ℕ) : CpuM β Unit := Exec09.setDp ((val &&& 0xff) <<< 8)
def setX (val : ℕ) : CpuM β Unit := Exec09.setX (val &&& 0xffff)
def setY (val : ℕ) : CpuM β Unit := Exec09.setY (val &&& 0xffff)
def setS (val : ℕ) : CpuM β Unit := setStackReg .S (val &&& 0xffff)
def setU (val : ℕ) : CpuM β Unit := setStackReg .U (val &&& 0xffff)
def setPc (val : ℕ) : CpuM β Unit := Exec09.setPc (val &&& 0xffff)

def setD (val : ℕ) : CpuM β Unit := do
  Exec09.setA ((val >>> 8) &&& 0xff)
  Exec09.setB (val &&& 0xff)

end External

/-- The symbols of `auto_symtab` that stand for a register. -/
inductive VirtualReg
  | pc | x | y | u | s | d | a | b | dp | cc
  deriving DecidableEq, Repr

/-- The functions `pc_virtual` to `cc_virtual`, called to write. The value is an `unsigned long`,
the argument of the register functions an `unsigned`. -/
def VirtualReg.write (val : BitVec 64) : VirtualReg → CpuM β Unit
  | .pc => External.setPc (uint val.toNat)
  | .x => External.setX (uint val.toNat)
  | .y => External.setY (uint val.toNat)
  | .u => External.setU (uint val.toNat)
  | .s => External.setS (uint val.toNat)
  | .d => External.setD (uint val.toNat)
  | .a => External.setA (uint val.toNat)
  | .b => External.setB (uint val.toNat)
  | .dp => External.setDp (uint val.toNat)
  | .cc => setCc (uint val.toNat)

variable [Bus β]

def write16 (addr val : ℕ) : CpuM β Unit := do
  write8 (uint (addr + 1)) (val &&& 0xff)
  write8 addr ((val >>> 8) &&& 0xff)

/-- What `cmd_measure` does to the processor. -/
def measure (retaddr : U16) (addr : BitVec 64) : CpuM β Unit := do
  External.setS (usub (← look Cpu.S) 2)
  write16 (← look Cpu.S) retaddr.toNat
  setCc ((← look getCc) ||| 0x50)
  External.setPc (uint addr.toNat)

/-- A step of the emulator with its debugger. -/
inductive Move
  | event (e : Event)
  | reset
  | assign (r : VirtualReg) (val : BitVec 64)
  | measure (retaddr : U16) (addr : BitVec 64)
  deriving DecidableEq, Repr

def Move.perform : Move → CpuM β Unit
  | .event e => e.perform
  | .reset => cpuReset
  | .assign r val => r.write val
  | .measure retaddr addr => Exec09.measure retaddr addr

/-! ## The invariant -/

/-- The registers and the bytes written so far have their widths. The effective address is
tracked only between `indexed` and the load of it. -/
structure Trimmed (tracked : Bool) (s : Cpu β) : Prop extends Widths s where
  EFI : EfiBits s.EFI
  ea : tracked = true → s.ea < 0x10000
  written : ∀ a d, Access.write8 a d ∈ s.trace → d < 0x100

omit [Bus β] in
theorem Trimmed.untracked {t : Bool} {s : Cpu β} (h : Trimmed t s) : Trimmed false s :=
  { h with ea := fun hfalse => absurd hfalse Bool.false_ne_true }

instance trimmed_hasWidths (t : Bool) : HasWidths (Trimmed (β := β) t) where
  widths h := h.toWidths
  congr h hw hefi hea htrace :=
    ⟨hw, hefi h.EFI, fun ht => hea ▸ h.ea ht, fun a d hd => h.written a d (htrace ▸ hd)⟩

/-! ## Functions that keep it -/

section Registers
variable {t : Bool}

omit [Bus β]

instance look_EFI_trimmed : Gives (Trimmed (β := β) t) (look Cpu.EFI) EfiBits :=
  look_gives fun _ h => h.EFI
instance look_ea_trimmed : Gives (Trimmed (β := β) true) (look Cpu.ea) (· < 0x10000) :=
  look_gives fun _ h => h.ea rfl

theorem note_trimmed {e : Access} (he : ∀ a d, e = .write8 a d → d < 0x100) :
    Keeps (Trimmed (β := β) t) (note e) :=
  Keeps.modify fun _ hs => { hs with
    written := fun a d hd => (List.mem_cons.mp hd).elim (fun h => he a d h.symm) (hs.written a d) }

instance setEa_trimmed (v : ℕ) : Keeps (Trimmed (β := β) false) (setEa v) :=
  Keeps.modify fun _ h => { h with ea := nofun }

/-! The external register functions, each through the assignment it ends in. -/

variable (v : ℕ)

instance externalA_trimmed : Keeps (Trimmed (β := β) t) (External.setA v) := setA_keeps _
instance externalB_trimmed : Keeps (Trimmed (β := β) t) (External.setB v) := setB_keeps _
instance externalDp_trimmed : Keeps (Trimmed (β := β) t) (External.setDp v) := setDp_keeps _
instance externalX_trimmed : Keeps (Trimmed (β := β) t) (External.setX v) := setX_keeps _
instance externalY_trimmed : Keeps (Trimmed (β := β) t) (External.setY v) := setY_keeps _
instance externalS_trimmed : Keeps (Trimmed (β := β) t) (External.setS v) := setStackReg_keeps _ .S
instance externalU_trimmed : Keeps (Trimmed (β := β) t) (External.setU v) := setStackReg_keeps _ .U
instance externalPc_trimmed : Keeps (Trimmed (β := β) t) (External.setPc v) := setPc_keeps _

instance externalD_trimmed : Keeps (Trimmed (β := β) t) (External.setD v) := by
  unfold External.setD
  infer_instance

instance write_trimmed (r : VirtualReg) (val : BitVec 64) :
    Keeps (Trimmed (β := β) t) (r.write val) := by
  cases r <;> unfold VirtualReg.write <;> infer_instance

end Registers

section Memory
variable {t : Bool}

instance read8_trimmed (a : ℕ) : Gives (Trimmed (β := β) t) (read8 a) (· < 0x100) where
  gives := by
    unfold read8
    refine (Keeps.iff_triple.mp (note_trimmed fun _ _ he => by cases he)).bind fun _ => ?_
    exact Keeps.rule.bind fun _ => Keeps.rule.bind fun v => Triple.pure _ fun _ hs => ⟨v.isLt, hs⟩

instance read16_trimmed (a : ℕ) : Gives (Trimmed (β := β) t) (read16 a) (· < 0x10000) where
  gives := by
    unfold read16
    refine (Keeps.iff_triple.mp (note_trimmed fun _ _ he => by cases he)).bind fun _ => ?_
    exact Keeps.rule.bind fun _ => Keeps.rule.bind fun v => Triple.pure _ fun _ hs => ⟨v.isLt, hs⟩

instance write8_trimmed (a v : ℕ) [hv : Fact (v < 0x100)] :
    Keeps (Trimmed (β := β) t) (write8 a v) := by
  have hnote : Keeps (Trimmed (β := β) t) (note (.write8 a v)) :=
    note_trimmed fun _ _ he => (Access.write8.inj he).2 ▸ hv.out
  unfold write8
  infer_instance

instance write16_trimmed (a v : ℕ) : Keeps (Trimmed (β := β) t) (write16 a v) := by
  unfold write16
  infer_instance

instance rdmem16_trimmed (a : ℕ) : Gives (Trimmed (β := β) t) (rdmem16 a) (· < 0x10000) where
  gives := by
    unfold rdmem16
    refine (read8_trimmed a).gives.bind fun hi s hs => ?_
    refine (Keeps.rule.bind fun _ => (read8_trimmed _).gives.bind fun lo => Triple.pure _ ?_) s hs.2
    exact fun _ h => ⟨word_lt hs.1 h.1, h.2⟩

instance readStack16_trimmed (a : ℕ) :
    Gives (Trimmed (β := β) t) (readStack16 a) (· < 0x10000) where
  gives := by
    unfold readStack16
    refine (read8_trimmed a).gives.bind fun hi s hs => ?_
    refine ((read8_trimmed _).gives.bind fun lo => Triple.pure _ ?_) s hs.2
    exact fun _ h => ⟨word_lt hs.1 h.1, h.2⟩

instance immByte_trimmed : Gives (Trimmed (β := β) t) immByte (· < 0x100) where
  gives := by
    unfold immByte
    exact Keeps.rule.bind fun pc => ((read8_trimmed pc).after fun _ => inferInstance).gives

instance immWord_trimmed : Gives (Trimmed (β := β) t) immWord (· < 0x10000) where
  gives := by
    unfold immWord
    exact Keeps.rule.bind fun pc => ((read16_trimmed pc).after fun _ => inferInstance).gives

instance pull8_trimmed (sp : StackReg) : Gives (Trimmed (β := β) t) (pull8 sp) (· < 0x100) where
  gives := by
    unfold pull8
    exact Keeps.rule.bind fun a => ((read8_trimmed a).after fun _ => inferInstance).gives

instance pull16_trimmed (sp : StackReg) :
    Gives (Trimmed (β := β) t) (pull16 sp) (· < 0x10000) where
  gives := by
    unfold pull16
    exact Keeps.rule.bind fun a => ((readStack16_trimmed a).after fun _ => inferInstance).gives

instance pushRegisters_trimmed : Keeps (Trimmed (β := β) t) pushRegisters := by
  unfold pushRegisters
  infer_instance

instance pullRegisters_trimmed : Keeps (Trimmed (β := β) t) pullRegisters := by
  unfold pullRegisters
  infer_instance

instance measure_trimmed (retaddr : U16) (addr : BitVec 64) :
    Keeps (Trimmed (β := β) t) (Exec09.measure retaddr addr) := by
  unfold Exec09.measure
  infer_instance

end Memory

/-! ## Effective addresses

Only `lea` loads a register from the effective address, which `indexed` masks in every mode. -/

section Addresses

/-- `m` leaves a 16-bit effective address. -/
class Locates {α : Type} (m : CpuM β α) : Prop where
  rule : Triple (Trimmed false) m (fun _ => Trimmed true) (Trimmed false)

namespace Locates
variable {α γ : Type} {k : α → CpuM β γ} {m : CpuM β α}

omit [Bus β]

instance setEa (a : ℕ) [h : Fact (a < 0x10000)] : Locates (setEa (β := β) a) :=
  ⟨Triple.modify fun _ hs => { hs with ea := fun _ => h.out }⟩

instance keeps [hm : Locates m] [hk : ∀ a, Keeps (Trimmed true) (k a)] : Locates (m >>= k) :=
  ⟨hm.rule.bind fun a => (hk a).rule.mono (fun _ h => h) (fun _ _ h => h) fun _ h => h.untracked⟩

instance seq [hm : Keeps (Trimmed false) m] [hk : ∀ a, Locates (k a)] : Locates (m >>= k) :=
  ⟨hm.rule.bind fun a => (hk a).rule⟩

instance given {V : α → Prop} [hm : Gives (Trimmed false) m V]
    [hk : ∀ a : { a // V a }, Locates (k a.1)] : Locates (m >>= k) :=
  ⟨hm.gives.bind fun a s hs => (hk ⟨a, hs.1⟩).rule s hs.2⟩

end Locates

theorem indexedEa_locates (post : ℕ) (R : IndexReg) : Locates (indexedEa (β := β) post R) := by
  unfold indexedEa
  split <;> infer_instance

theorem indirect_trimmed :
    Triple (Trimmed (β := β) true) indirect (fun _ => Trimmed true) (Trimmed false) := by
  have h : Locates (β := β) (do setEa (← rdmem16 (← look Cpu.ea)); charge 2) := inferInstance
  exact h.rule.mono (fun _ hs => hs.untracked) (fun _ _ hs => hs) fun _ hs => hs

theorem indexed_trimmed :
    Triple (Trimmed (β := β) false) indexed (fun _ => Trimmed true) (Trimmed false) := by
  unfold indexed
  refine immByte_trimmed.gives.bind fun post s hs => ?_
  refine Triple.ite (fun _ => ?_) (fun _ => ?_) s hs.2
  · refine (indexedEa_locates post _).rule.bind fun b => ?_
    exact Triple.ite (fun _ => indirect_trimmed) fun _ => Triple.pure _ fun _ h => h
  · have h : Locates (β := β) (do
        setEa (uint ((← look (indexReg post).get) +
          if post &&& 0x10 ≠ 0 then post ||| 0xfff0 else post &&& 0x000f) &&& 0xffff)
        charge 5) := inferInstance
    exact h.rule

instance indexed_keeps : Keeps (Trimmed (β := β) false) indexed :=
  Keeps.iff_triple.mpr (indexed_trimmed.mono (fun _ h => h) (fun _ _ h => h.untracked) fun _ h => h)

instance load8_trimmed (src : Operand) :
    Gives (Trimmed (β := β) false) src.load8 (· < 0x100) where
  gives := by
    cases src with
    | imm clk => exact Keeps.rule.bind fun _ => immByte_trimmed.gives
    | mem m => exact Keeps.rule.bind fun _ => Keeps.rule.bind fun a => (read8_trimmed a).gives

instance load16_trimmed (src : Operand) :
    Gives (Trimmed (β := β) false) src.load16 (· < 0x10000) where
  gives := by
    cases src with
    | imm clk => exact Keeps.rule.bind fun _ => immWord_trimmed.gives
    | mem m => exact Keeps.rule.bind fun _ => Keeps.rule.bind fun a => (rdmem16_trimmed a).gives

end Addresses

/-! ## Instructions -/

section Exec

instance exg_trimmed : Keeps (Trimmed (β := β) false) exg := by
  unfold exg
  refine immByte_trimmed.seq fun post => ?_
  refine (look_gives fun s hs => (exchanged_fits hs.toWidths post.2).1).seq fun v => ?_
  refine (look_gives fun s hs => (exchanged_fits hs.toWidths post.2).2).seq fun w => ?_
  exact (setReg_keeps v.2).seq fun _ => (setReg_keeps w.2).seq fun _ => inferInstance

instance tfr_trimmed : Keeps (Trimmed (β := β) false) tfr := by
  unfold tfr
  refine immByte_trimmed.seq fun post => ?_
  refine (look_gives fun s hs => (exchanged_fits hs.toWidths post.2).1).seq fun v => ?_
  exact (setReg_keeps v.2).seq fun _ => inferInstance

instance psh_trimmed (sp : StackReg) : Keeps (Trimmed (β := β) false) (psh sp) := by
  unfold psh
  infer_instance

instance pul_trimmed (sp : StackReg) : Keeps (Trimmed (β := β) false) (pul sp) := by
  unfold pul
  infer_instance

instance cwai_trimmed : Keeps (Trimmed (β := β) false) cwai := by
  unfold cwai
  refine (look_keeps _).seq fun c => ?_
  cases c <;> infer_instance

theorem lea_trimmed (r : IndexReg) : Keeps (Trimmed (β := β) false) (Insn.exec (.lea r)) := by
  refine Keeps.iff_triple.mpr (indexed_trimmed.bind fun _ => ?_)
  have h : Keeps (Trimmed (β := β) true) (do
      let ea ← look Cpu.ea
      setIndexReg r ea
      onlyIf (r = .X ∨ r = .Y) do updateFlags fun f => { f with Z := ea }) := inferInstance
  exact h.rule.mono (fun _ hs => hs) (fun _ _ hs => hs.untracked) fun _ hs => hs.untracked

instance exec_trimmed (i : Insn) : Keeps (Trimmed (β := β) false) i.exec := by
  cases i
  case lea r => exact lea_trimmed r
  all_goals
    unfold Insn.exec
    infer_instance

theorem event_trimmed (e : Event) : Keeps (Trimmed (β := β) false) e.perform := by
  cases e <;> unfold Event.perform <;> infer_instance

/-- Reset clears the registers before it fetches its vector, so the invariant holds even where
that fetch stops the emulator. -/
theorem cpuReset_trimmed {P : Cpu β → Prop}
    (hP : ∀ s, P s → ∀ a d, Access.write8 a d ∈ s.trace → d < 0x100) :
    Triple P cpuReset (fun _ => Trimmed false) (Trimmed false) := by
  unfold cpuReset
  refine Triple.bind (Q := fun _ => Trimmed false) (Triple.modify fun s hs => ?_) fun _ => ?_
  · have hzero : 0 < 0x10000 := by decide
    have hbyte : 0 < 0x100 := by decide
    exact ⟨⟨hbyte, hbyte, hzero, hzero, hzero, hzero, hzero, rfl⟩, (fact_efi_or F_FLAG I_FLAG).out,
      nofun, hP s hs⟩
  · have hrun : Keeps (Trimmed (β := β) false)
        (modify fun s => { s with bus := Bus.cpuIsRunning s.bus } : CpuM β Unit) :=
      Keeps.modify fun _ h => { h with }
    exact Keeps.rule

theorem move_trimmed (m : Move) :
    Triple (Trimmed (β := β) false) m.perform (fun _ => Trimmed false) (Trimmed false) := by
  cases m with
  | event e => exact Keeps.iff_triple.mp (event_trimmed e)
  | reset => exact cpuReset_trimmed fun _ h => h.written
  | assign r val => exact Keeps.iff_triple.mp (write_trimmed r val)
  | measure retaddr addr => exact Keeps.iff_triple.mp (measure_trimmed retaddr addr)

/-! ## The values that are combined from registers -/

omit [Bus β]

/-- The registers, and what the instructions combine from them, have their widths. -/
structure RegistersFit (s : Cpu β) : Prop extends Widths s where
  DP_le : s.DP ≤ 0xff00
  EFI : s.EFI &&& (E_FLAG ||| F_FLAG ||| I_FLAG) = s.EFI
  written : ∀ a d, Access.write8 a d ∈ s.trace → d < 0x100
  d : getD s < 0x10000
  pushed : ∀ sp post, ∀ b ∈ pushedBytes sp post s, b < 0x100
  exchanged : ∀ post < 0x100, RegFits (post &&& 15) (transferred s post (post >>> 4)) ∧
    RegFits (post >>> 4) (transferred s post (post &&& 15))

theorem wordCells_fit {v : ℕ} (hv : v < 0x10000) : ∀ b ∈ wordCells v, b < 0x100 := by
  have : Fact (v < 0x10000) := ⟨hv⟩
  simp only [wordCells, List.mem_cons, List.not_mem_nil, or_false, forall_eq_or_imp, forall_eq]
  exact ⟨(fact_shiftRight v).out, (fact_and_ff v).out⟩

theorem pushedBytes_fit {s : Cpu β} (hs : Widths s) (sp : StackReg) (post : ℕ) :
    ∀ b ∈ pushedBytes sp post s, b < 0x100 := by
  have hother : sp.other.get s < 0x10000 := by
    cases sp
    exacts [hs.U, hs.S]
  have hdp : s.DP >>> 8 < 0x100 := by
    rw [Nat.shiftRight_eq_div_pow]
    have := hs.DP
    omega
  have hparts : ∀ p ∈ parts sp s, ∀ b ∈ p.2, b < 0x100 := by
    simp only [parts, List.mem_cons, List.not_mem_nil, or_false, forall_eq_or_imp, forall_eq]
    exact ⟨getCc_lt s, hs.A, hs.B, hdp, wordCells_fit hs.X, wordCells_fit hs.Y,
      wordCells_fit hother, wordCells_fit (fact_and_ffff s.PC).out⟩
  intro b hb
  obtain ⟨p, hp, hb⟩ := List.mem_flatMap.mp hb
  split at hb
  · exact hparts p hp b hb
  · simp at hb

theorem Trimmed.registersFit {t : Bool} {s : Cpu β} (h : Trimmed t s) : RegistersFit s where
  toWidths := h.toWidths
  DP_le := by
    have hlt := h.DP
    have hpage := h.page
    omega
  EFI := h.EFI
  written := h.written
  d := word_lt h.A h.B
  pushed := pushedBytes_fit h.toWidths
  exchanged _ hpost := exchanged_fits h.toWidths hpost

variable [Bus β]

/-- From a reset on, the registers fit after every sequence of instructions, interrupts, resets and
register assignments, also where it stops the emulator. -/
theorem registers_fit_along_run (ms : List Move) {s₀ : Cpu β} (htrace : s₀.trace = []) :
    RegistersFit (finalState (runAll Move.perform (.reset :: ms) s₀)) := by
  have hrun : Triple (fun s : Cpu β => s.trace = []) (runAll Move.perform (.reset :: ms))
      (fun _ => Trimmed false) (Trimmed false) :=
    (cpuReset_trimmed fun s hs a d h => by simp [hs] at h).bind fun _ =>
      runAll_keeps move_trimmed ms
  exact (Triple.iff_final.mp hrun s₀ htrace).registersFit

end Exec

/-- After a jump, with the debugger's `$dp=0x1234` and an interrupt before it. -/
theorem registers_fit_wrapProgram : RegistersFit (finalState (runAll Move.perform
    [.reset, .assign .dp 0x1234, .event (.requestIrq 0), .event .insn] (Cpu.powerOn wrapProgram))) :=
  registers_fit_along_run [.assign .dp 0x1234, .event (.requestIrq 0), .event .insn] rfl

end Exec09
