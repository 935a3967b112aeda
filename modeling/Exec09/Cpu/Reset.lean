import Exec09.Cpu.Elapsed
import Exec09.Cpu.InterruptDelivery
import Exec09.Cpu.InterruptReturn
import Exec09.Cpu.LazyFlags

/-! # What a reset leaves of the past

`cpu_reset` sets the registers and the flags, but neither `cwai_state` nor
`cc_changed`. Two states in which these agree cannot be told apart after it.
Before the first instruction the saved `iPC` may still differ, but then all
interrupts are masked; from the first instruction on nothing differs that the
processor reads.
-/
namespace Exec09
open Foundation
variable {β : Type}

/-- Agreement on what is not the processor's own: memory and devices, time, and the lines. -/
structure SameSetting (s t : Cpu β) : Prop where
  bus : s.bus = t.bus
  cpuClk : s.cpuClk = t.cpuClk
  cpuPeriod : s.cpuPeriod = t.cpuPeriod
  total : s.total = t.total
  irqsPending : s.irqsPending = t.irqsPending
  firqsPending : s.firqsPending = t.firqsPending

/-- From `s` and `t` two runs have come to states that agree in the registers and in the setting,
by the same accesses. -/
structure Joined (s t s' t' : Cpu β) : Prop where
  alike : Alike s' t'
  setting : SameSetting s' t'
  accesses : ∃ l, s'.trace = l ++ s.trace ∧ t'.trace = l ++ t.trace

/-- Two runs have stopped after the same accesses and with the same memory. -/
structure Stopped (s t s' t' : Cpu β) : Prop where
  bus : s'.bus = t'.bus
  accesses : ∃ l, s'.trace = l ++ s.trace ∧ t'.trace = l ++ t.trace

/-- `iPC` agrees, or all interrupts are masked and only a fetch, which sets it, is to come. -/
def Latched (s t : Cpu β) : Prop := s.iPC = t.iPC ∨ s.EFI = F_FLAG ||| I_FLAG

variable {s t s' t' u v : Cpu β}

theorem Joined.same (h : Joined s t s' t') (hpc : s'.iPC = t'.iPC) :
    Same ⟨0, s.trace, t.trace⟩ false s' t' :=
  { h.alike with
    iPC := hpc
    cc := cc_eq_of_getCc h.alike.cc
    ea := fun h => by cases h
    clk := sub_eq_zero.mpr h.setting.cpuClk
    trace := h.accesses }

/-- A step measured from where it starts, with the words of the main loop. -/
theorem Same.joined (h : Same (origin s' t') false u v) (hj : Joined s t s' t')
    (hu : u.cpuPeriod = s'.cpuPeriod ∧ u.total = s'.total)
    (hv : v.cpuPeriod = t'.cpuPeriod ∧ v.total = t'.total) : Joined s t u v where
  alike := { h with cc := h.getCc }
  setting := by
    have hclk : u.cpuClk - v.cpuClk = s'.cpuClk - t'.cpuClk := h.clk
    have hzero := hj.setting.cpuClk
    exact ⟨h.bus, by omega, hu.1.trans (hj.setting.cpuPeriod.trans hv.1.symm),
      hu.2.trans (hj.setting.total.trans hv.2.symm), h.irqsPending, h.firqsPending⟩
  accesses := by
    obtain ⟨l, hs, ht⟩ := hj.accesses
    obtain ⟨l', hs', ht'⟩ := h.trace
    refine ⟨l' ++ l, ?_, ?_⟩
    · rw [hs', origin, hs, List.append_assoc]
    · rw [ht', origin, ht, List.append_assoc]

theorem Joined.stopped (h : Joined s t s' t') : Stopped s t s' t' := ⟨h.setting.bus, h.accesses⟩

/-- The words of the main loop. -/
def Words (period : ℤ) (total : ℕ) (s : Cpu β) : Prop := s.cpuPeriod = period ∧ s.total = total

section Steps
variable [Bus β] {period : ℤ} {total : ℕ}

omit [Bus β] in
theorem keeps_words {α : Type} {m : CpuM β α} (h : ∀ s : Cpu β, Keeps (mark s none).Since m) :
    Keeps (Words period total) m where
  keeps s hs := by
    have hkeep := (h s).keeps s (since_free s)
    exact ⟨hkeep.cpuPeriod.trans hs.1, hkeep.total.trans hs.2⟩

instance cpuStep_words : Keeps (Words period total) (cpuStep (β := β)) :=
  keeps_words fun _ => cpuStep_since_free rfl

instance irq_words : Keeps (Words period total) (irq (β := β)) := keeps_words fun _ => inferInstance
instance firq_words : Keeps (Words period total) (firq (β := β)) := keeps_words fun _ => inferInstance

instance requestIrq_words (n : ℕ) : Keeps (Words period total) (requestIrq (β := β) n) := by
  have hset : Keeps (Words period total)
      (modify fun s => { s with irqsPending := s.irqsPending ||| (1 <<< n) } : CpuM β Unit) :=
    Keeps.modify fun _ h => h
  unfold requestIrq
  infer_instance

instance requestFirq_words (n : ℕ) : Keeps (Words period total) (requestFirq (β := β) n) := by
  have hset : Keeps (Words period total)
      (modify fun s => { s with firqsPending := s.firqsPending ||| (1 <<< n) } : CpuM β Unit) :=
    Keeps.modify fun _ h => h
  unfold requestFirq
  infer_instance

instance requestIrq_sync {o : Origin} (n : ℕ) :
    Sync (β := β) o false false (requestIrq n) := by
  have hset : Sync (β := β) o false false
      (modify fun s => { s with irqsPending := s.irqsPending ||| (1 <<< n) }) :=
    Lockstep.modify fun _ _ h => { h with irqsPending := by rw [h.irqsPending] }
  unfold requestIrq
  infer_instance

instance requestFirq_sync {o : Origin} (n : ℕ) :
    Sync (β := β) o false false (requestFirq n) := by
  have hset : Sync (β := β) o false false
      (modify fun s => { s with firqsPending := s.firqsPending ||| (1 <<< n) }) :=
    Lockstep.modify fun _ _ h => { h with firqsPending := by rw [h.firqsPending] }
  unfold requestFirq
  infer_instance

/-- The relation that the steps after a reset keep. -/
def InStep (s t s' t' : Cpu β) : Prop := Joined s t s' t' ∧ Latched s' t'

omit [Bus β] in
/-- A program that runs in lockstep and leaves the words alone. -/
theorem inStep_of_same {α : Type} {m : CpuM β α} (hm : ∀ p n, Keeps (Words (β := β) p n) m)
    (hj : Joined s t s' t')
    (h : SameOutcome (Same (origin s' t') false) (Same (origin s' t') false) (m s') (m t')) :
    SameOutcome (InStep s t) (Stopped s t) (m s') (m t') := by
  have hwords := h.final ((hm _ _).keeps s' ⟨rfl, rfl⟩) ((hm _ _).keeps t' ⟨rfl, rfl⟩)
  exact hwords.mono (fun u v huv => ⟨huv.1.joined hj huv.2.1 huv.2.2, .inl huv.1.iPC⟩)
    fun u v huv => (huv.1.joined hj huv.2.1 huv.2.2).stopped

/-- A request while the interrupts are masked waits in its word. -/
theorem requestIrq_masked (n : ℕ) (h : s.EFI = F_FLAG ||| I_FLAG) :
    requestIrq n s = .ok () { s with irqsPending := s.irqsPending ||| (1 <<< n) } := by
  have hset : (modify fun s => { s with irqsPending := s.irqsPending ||| (1 <<< n) } : CpuM β Unit) s =
      .ok () { s with irqsPending := s.irqsPending ||| (1 <<< n) } := rfl
  have hmasked : ¬(F_FLAG ||| I_FLAG) &&& I_FLAG = 0 := by decide
  rw [requestIrq, run_bind_ok hset, run_bind_ok (run_look _ _), h, if_neg hmasked]
  rfl

theorem requestFirq_masked (n : ℕ) (h : s.EFI = F_FLAG ||| I_FLAG) :
    requestFirq n s = .ok () { s with firqsPending := s.firqsPending ||| (1 <<< n) } := by
  have hset : (modify fun s => { s with firqsPending := s.firqsPending ||| (1 <<< n) } : CpuM β Unit) s =
      .ok () { s with firqsPending := s.firqsPending ||| (1 <<< n) } := rfl
  have hmasked : ¬(F_FLAG ||| I_FLAG) &&& F_FLAG = 0 := by decide
  rw [requestFirq, run_bind_ok hset, run_bind_ok (run_look _ _), h, if_neg hmasked]
  rfl

omit [Bus β] in
/-- A change of the words outside of the processor. -/
theorem InStep.update (h : InStep s t s' t') {u v : Cpu β} (halike : Alike u v)
    (hsetting : SameSetting u v) (hs : u.trace = s'.trace) (ht : v.trace = t'.trace)
    (hlatched : Latched u v) : InStep s t u v := by
  obtain ⟨l, hl, hl'⟩ := h.1.accesses
  exact ⟨⟨halike, hsetting, l, hs.trans hl, ht.trans hl'⟩, hlatched⟩

theorem perform_inStep (e : Event) (h : InStep s t s' t') :
    SameOutcome (InStep s t) (Stopped s t) (e.perform s') (e.perform t') := by
  obtain ⟨hj, hl⟩ := h
  have ha := hj.alike
  have hset := hj.setting
  have hefi : s'.EFI = t'.EFI := ha.EFI
  cases e with
  | insn => exact inStep_of_same (fun _ _ => cpuStep_words) hj (cpuStep_same ha)
  | requestIrq n =>
    rcases hl with hpc | hmasked
    · have hsync : Sync (β := β) (origin s' t') false false (requestIrq n) := inferInstance
      exact inStep_of_same (fun _ _ => requestIrq_words n) hj (hsync.run s' t'
        { ha.same_latched with iPC := hpc })
    · change SameOutcome _ _ (requestIrq n s') (requestIrq n t')
      rw [requestIrq_masked n hmasked, requestIrq_masked n (hefi ▸ hmasked)]
      have hirqs := congrArg (· ||| (1 <<< n)) ha.irqsPending
      exact ⟨rfl, InStep.update ⟨hj, .inr hmasked⟩ { ha with irqsPending := hirqs }
        { hset with irqsPending := hirqs } rfl rfl (.inr hmasked)⟩
  | requestFirq n =>
    rcases hl with hpc | hmasked
    · have hsync : Sync (β := β) (origin s' t') false false (requestFirq n) := inferInstance
      exact inStep_of_same (fun _ _ => requestFirq_words n) hj (hsync.run s' t'
        { ha.same_latched with iPC := hpc })
    · change SameOutcome _ _ (requestFirq n s') (requestFirq n t')
      rw [requestFirq_masked n hmasked, requestFirq_masked n (hefi ▸ hmasked)]
      have hfirqs := congrArg (· ||| (1 <<< n)) ha.firqsPending
      exact ⟨rfl, InStep.update ⟨hj, .inr hmasked⟩ { ha with firqsPending := hfirqs }
        { hset with firqsPending := hfirqs } rfl rfl (.inr hmasked)⟩
  | releaseIrq n =>
    have hirqs := congrArg (· &&& unot (1 <<< n)) ha.irqsPending
    exact ⟨rfl, InStep.update ⟨hj, hl⟩ { ha with irqsPending := hirqs }
      { hset with irqsPending := hirqs } rfl rfl hl⟩
  | releaseFirq n =>
    have hfirqs := congrArg (· &&& unot (1 <<< n)) ha.firqsPending
    exact ⟨rfl, InStep.update ⟨hj, hl⟩ { ha with firqsPending := hfirqs }
      { hset with firqsPending := hfirqs } rfl rfl hl⟩
  | beginSlice c =>
    exact ⟨rfl, InStep.update ⟨hj, hl⟩ { ha with }
      { hset with cpuClk := rfl, cpuPeriod := rfl } rfl rfl hl⟩
  | endSlice =>
    have hperiod : s'.cpuPeriod - s'.cpuClk = t'.cpuPeriod - t'.cpuClk := by
      rw [hset.cpuPeriod, hset.cpuClk]
    have htotal : ((s'.total + (s'.cpuPeriod - s'.cpuClk)) % 2 ^ 64).toNat =
        ((t'.total + (t'.cpuPeriod - t'.cpuClk)) % 2 ^ 64).toNat := by
      rw [hperiod, hset.total]
    exact ⟨rfl, InStep.update ⟨hj, hl⟩ { ha with }
      { hset with cpuClk := hperiod, cpuPeriod := hperiod, total := htotal } rfl rfl hl⟩

theorem runAll_inStep (es : List Event) (h : InStep s t s' t') :
    SameOutcome (InStep s t) (Stopped s t) (runAll Event.perform es s')
      (runAll Event.perform es t') := by
  have hrun : Lockstep (Stopped s t) (InStep s t) (InStep s t) (runAll (Event.perform (β := β)) es) := by
    induction es with
    | nil => exact Lockstep.pure _
    | cons e es ih => exact Lockstep.seq ⟨fun _ _ hst => perform_inStep e hst⟩ fun _ => ih
  exact hrun.run s' t' h

/-! ## The reset -/

/-- What `cpu_reset` assigns before it reads the vector. -/
def cleared (s : Cpu β) : Cpu β :=
  { s with
    X := 0, Y := 0, S := 0, U := 0, A := 0, B := 0, DP := 0
    flags := ⟨0, 0, 1, 0, 0⟩
    EFI := F_FLAG ||| I_FLAG }

theorem cpuReset_run (s : Cpu β) : cpuReset s =
    match Bus.cpuRead16 (getPc s) 0xfffe s.bus with
    | .ok v b => .ok () { cleared s with
        PC := v.toNat &&& 0xffff, bus := Bus.cpuIsRunning b, trace := .read16 0xfffe :: s.trace }
    | .error e b => .error e { cleared s with bus := b, trace := .read16 0xfffe :: s.trace } := by
  have hclear : (modify fun s => { s with
      X := 0, Y := 0, S := 0, U := 0, A := 0, B := 0, DP := 0
      flags := ⟨0, 0, 1, 0, 0⟩
      EFI := F_FLAG ||| I_FLAG } : CpuM β Unit) s = .ok () (cleared s) := rfl
  have hread := read16_run 0xfffe (cleared s)
  have hpc : getPc (cleared s) = getPc s := rfl
  have hbus : (cleared s).bus = s.bus := rfl
  rw [hpc, hbus] at hread
  rw [cpuReset, run_bind_ok hclear]
  cases hv : Bus.cpuRead16 (getPc s) 0xfffe s.bus with
  | ok v b =>
    rw [hv] at hread
    rw [run_bind_ok hread]
    rfl
  | error e b =>
    rw [hv] at hread
    rw [run_bind_error hread]
    rfl

/-- The registers are those of the reset, and the rest agreed before. -/
theorem cpuReset_inStep (hset : SameSetting s t) (hcwai : s.cwaiState = t.cwaiState)
    (hcc : s.ccChanged = t.ccChanged)
    (hread : ∀ p q a, (Bus.cpuRead16 p a : EStateM Stop β U16) = Bus.cpuRead16 q a) :
    SameOutcome (InStep s t) (Stopped s t) (cpuReset s) (cpuReset t) := by
  rw [cpuReset_run, cpuReset_run, hread (getPc s) (getPc t), hset.bus]
  cases Bus.cpuRead16 (getPc t) 0xfffe t.bus with
  | ok v b =>
    have hflags : (cleared s).flags = (cleared t).flags := rfl
    have hefi : (cleared s).EFI = (cleared t).EFI := rfl
    refine ⟨rfl, ⟨⟨?_, ?_, [.read16 0xfffe], rfl, rfl⟩, .inr rfl⟩⟩
    · exact ⟨rfl, rfl, rfl, rfl, rfl, rfl, rfl, rfl, hefi, hset.irqsPending, hset.firqsPending, hcc,
        hcwai, rfl, getCc_congr hefi (congrArg Flags.cc hflags)⟩
    · exact { hset with bus := rfl }
  | error e b => exact ⟨rfl, rfl, [.read16 0xfffe], rfl, rfl⟩

/-! ## The first frame -/

/-- Where the stack is and what is masked. -/
def StackAt (sp efi : ℕ) (s : Cpu β) : Prop := s.S = sp ∧ s.EFI = efi

variable {sp efi : ℕ}

instance onBus_stackAt {α : Type} (m : EStateM Stop β α) : Keeps (StackAt sp efi) (onBus m) where
  keeps s hs := by
    rw [onBus]
    cases m s.bus <;> exact hs

omit [Bus β] in
instance note_stackAt (e : Access) : Keeps (StackAt (β := β) sp efi) (note e) :=
  Keeps.modify fun _ h => h

omit [Bus β] in
theorem lowerStack_stackAt {sp' k : ℕ} (h : usub sp k &&& 0xffff = sp') :
    Triple (StackAt (β := β) sp efi) (lowerStack .S k) (fun _ => StackAt sp' efi) fun _ => True := by
  rintro s ⟨hS, hefi⟩
  rw [lowerStack_run k s]
  refine ⟨?_, hefi⟩
  change usub s.S k &&& 0xffff = sp'
  rw [hS, h]

theorem push8_stackAt {sp' : ℕ} (h : usub sp 1 &&& 0xffff = sp') (v : ℕ) :
    Triple (StackAt (β := β) sp efi) (push8 .S v) (fun _ => StackAt sp' efi) fun _ => True := by
  unfold push8
  exact (lowerStack_stackAt h).bind fun _ => Keeps.triple

theorem push16_stackAt {sp' : ℕ} (h : usub sp 2 &&& 0xffff = sp') (v : ℕ) :
    Triple (StackAt (β := β) sp efi) (push16 .S v) (fun _ => StackAt sp' efi) fun _ => True := by
  unfold push16
  exact (lowerStack_stackAt h).bind fun _ => Keeps.triple

omit [Bus β] in
theorem look_stackAt {α : Type} (p : Cpu β → α) :
    Triple (StackAt sp efi) (look p) (fun _ => StackAt sp efi) fun _ => True := Keeps.triple

/-- The registers, the PC and CC are 12 bytes. -/
theorem stackMachineState_stackAt : Triple (StackAt (β := β) 0 efi) (stackMachineState true)
    (fun _ => StackAt 0xfff4 (efi ||| E_FLAG)) fun _ => True := by
  have hpc : usub 0 2 &&& 0xffff = 0xfffe := by decide
  have hu : usub 0xfffe 2 &&& 0xffff = 0xfffc := by decide
  have hy : usub 0xfffc 2 &&& 0xffff = 0xfffa := by decide
  have hx : usub 0xfffa 2 &&& 0xffff = 0xfff8 := by decide
  have hdp : usub 0xfff8 1 &&& 0xffff = 0xfff7 := by decide
  have hb : usub 0xfff7 1 &&& 0xffff = 0xfff6 := by decide
  have ha : usub 0xfff6 1 &&& 0xffff = 0xfff5 := by decide
  have hcc : usub 0xfff5 1 &&& 0xffff = 0xfff4 := by decide
  unfold stackMachineState pushRegisters
  rw [beginFrame_eq, onlyIf, if_pos rfl]
  refine Triple.bind (Q := fun _ => StackAt 0 (efi ||| E_FLAG)) (Triple.modify fun s hs => ?_)
    fun _ => ?_
  · exact ⟨hs.1, congrArg (· ||| E_FLAG) hs.2⟩
  apply (look_stackAt _).bind fun _ => ?_
  apply (push16_stackAt hpc _).bind fun _ => ?_
  refine Triple.bind (Q := fun _ => StackAt 0xfff5 (efi ||| E_FLAG)) ?_ fun _ => ?_
  · apply (look_stackAt _).bind fun _ => ?_
    apply (push16_stackAt hu _).bind fun _ => ?_
    apply (look_stackAt _).bind fun _ => ?_
    apply (push16_stackAt hy _).bind fun _ => ?_
    apply (look_stackAt _).bind fun _ => ?_
    apply (push16_stackAt hx _).bind fun _ => ?_
    apply (look_stackAt _).bind fun _ => ?_
    apply (push8_stackAt hdp _).bind fun _ => ?_
    apply (look_stackAt _).bind fun _ => ?_
    apply (push8_stackAt hb _).bind fun _ => ?_
    apply (look_stackAt _).bind fun _ => ?_
    exact push8_stackAt ha _
  · apply (look_stackAt _).bind fun _ => ?_
    exact push8_stackAt hcc _

theorem irq_stackAt (hidle : s.cwaiState = .idle) (h : StackAt 0 efi s) :
    Triple (· = s) irq (fun _ => StackAt 0xfff4 (efi ||| E_FLAG ||| I_FLAG)) fun _ => True := by
  have hvector (a : ℕ) : Keeps (StackAt (β := β) 0xfff4 (efi ||| E_FLAG ||| I_FLAG)) (changePc a) :=
    Keeps.modify fun _ h => h
  have hstart : Keeps (StackAt (β := β) 0xfff4 (efi ||| E_FLAG ||| I_FLAG))
      (setIrqStartTime getCycles) := Keeps.modify fun _ h => h
  unfold irq
  refine Triple.bind (Q := fun _ => StackAt 0xfff4 (efi ||| E_FLAG)) ?_ fun _ => ?_
  · rintro _ rfl
    rw [enterInterrupt_idle true hidle]
    exact stackMachineState_stackAt _ h
  · refine Triple.bind (Q := fun _ => StackAt 0xfff4 (efi ||| E_FLAG ||| I_FLAG)) ?_ fun _ =>
      Keeps.triple
    rintro s ⟨hS, hefi⟩
    exact ⟨hS, congrArg (· ||| I_FLAG) hefi⟩

/-- `cpu_reset` and what happens next. -/
def resetThen (es : List Event) : CpuM β Unit := do
  cpuReset
  runAll Event.perform es

/-- Every run from a reset on has the same outcome. -/
def AlikeAfterReset (s t : Cpu β) : Prop :=
  ∀ es, SameOutcome (Joined s t) (Stopped s t) (resetThen es s) (resetThen es t)

end Steps

/-! On a machine with memory only: a reset in the middle of a CWAI leaves the wait behind. -/

section FlatRam

theorem irq_waiting {s : Cpu FlatRam} (hwait : s.cwaiState = .wait) :
    ∃ u, irq s = .ok () u ∧ SameSetting s u := by
  rw [irq, run_bind_ok (enterInterrupt_wait true hwait)]
  exact ⟨_, rfl, rfl, rfl, rfl, rfl, rfl, rfl⟩

/-- An interrupt that ends a CWAI changes neither memory nor the clock, and dropping it again
leaves no trace in the pending words. -/
theorem interrupt_setting {s : Cpu FlatRam} (hwait : s.cwaiState = .wait)
    (hopen : s.EFI &&& I_FLAG = 0) (hnone : s.irqsPending = 0) :
    ∃ t, runAll Event.perform [.requestIrq 0, .releaseIrq 0] s = .ok () t ∧ SameSetting s t := by
  have hset : (modify fun s => { s with irqsPending := s.irqsPending ||| (1 <<< 0) } :
      CpuM FlatRam Unit) s = .ok () { s with irqsPending := s.irqsPending ||| (1 <<< 0) } := rfl
  have hdrop : (0 ||| 1 <<< 0) &&& unot (1 <<< 0) = 0 := by decide
  obtain ⟨u, hirq, hsame⟩ := irq_waiting
    (s := { s with irqsPending := s.irqsPending ||| (1 <<< 0) }) hwait
  have hfirst : Event.perform (.requestIrq 0) s = .ok () u := by
    change requestIrq 0 s = _
    rw [requestIrq, run_bind_ok hset, run_bind_ok (run_look _ _), if_pos hopen, hirq]
  refine ⟨{ u with irqsPending := u.irqsPending &&& unot (1 <<< 0) },
    by rw [runAll, run_bind_ok hfirst]; rfl, { hsame with irqsPending := ?_ }⟩
  have hpending : u.irqsPending = 0 ||| 1 <<< 0 := by rw [← hsame.irqsPending, hnone]
  change s.irqsPending = u.irqsPending &&& unot (1 <<< 0)
  rw [hpending, hdrop, hnone]

/-- `LDS #$8000` and `CWAI #$EF` executed. -/
def waiting : Cpu FlatRam :=
  finalState (runAll Event.perform [.insn, .insn] (afterReset (maskProgram [0x3c, 0xef])))

def interrupted : Cpu FlatRam :=
  finalState (runAll Event.perform [.requestIrq 0, .releaseIrq 0] waiting)

theorem waiting_run : runAll Event.perform [.insn, .insn]
    (afterReset (maskProgram [0x3c, 0xef])) = .ok () waiting := by
  have hreturned : returned (runAll Event.perform [.insn, .insn]
      (afterReset (maskProgram [0x3c, 0xef]))) = true := by decide +kernel
  exact eq_ok_finalState hreturned

theorem interrupted_run :
    runAll Event.perform [.requestIrq 0, .releaseIrq 0] waiting = .ok () interrupted ∧
      SameSetting waiting interrupted := by
  have hwait : waiting.cwaiState = .wait := by decide +kernel
  have hopen : waiting.EFI &&& I_FLAG = 0 := by decide +kernel
  have hnone : waiting.irqsPending = 0 := by decide +kernel
  obtain ⟨t, hrun, hsame⟩ := interrupt_setting hwait hopen hnone
  have ht : interrupted = t := by rw [interrupted, hrun]; rfl
  rw [ht]
  exact ⟨hrun, hsame⟩

theorem not_alike_of_stack {s t : Cpu FlatRam} (es : List Event)
    (hs : returned (resetThen es s) = true) (ht : returned (resetThen es t) = true)
    (hS : (finalState (resetThen es s)).S ≠ (finalState (resetThen es t)).S) :
    ¬AlikeAfterReset s t := by
  intro hall
  have h := hall es
  rw [eq_ok_finalState hs, eq_ok_finalState ht] at h
  exact hS h.2.alike.S

end FlatRam

end Exec09
