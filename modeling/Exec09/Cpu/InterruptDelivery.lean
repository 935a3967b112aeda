import Exec09.Cpu.Compounds

/-! # Pending interrupts are taken when they are unmasked

Delivery concerns the pending words, the two masks and the `cc_changed` latch
only. Almost every function leaves all four alone, so preservation of a
predicate on them is found by instance search. Inside an instruction the
invariant is `Settled`: whoever unmasks a pending interrupt has set the latch,
and the test after the instruction turns `Settled` into `Quiet`. CWAI clears
masks without setting the latch, and `CwaiSafe` excludes exactly the steps in
which that matters.
-/
namespace Exec09
open Foundation
variable {β : Type}

set_option synthInstance.maxSize 100000

/-- What decides whether an interrupt has to be taken. -/
structure Control where
  firqsPending : ℕ
  irqsPending : ℕ
  firqMask : ℕ
  irqMask : ℕ
  ccChanged : Bool

def control (s : Cpu β) : Control where
  firqsPending := s.firqsPending
  irqsPending := s.irqsPending
  firqMask := s.EFI &&& F_FLAG
  irqMask := s.EFI &&& I_FLAG
  ccChanged := s.ccChanged

def Control.FirqQuiet (c : Control) : Prop := ¬(c.firqsPending ≠ 0 ∧ c.firqMask = 0)

def Control.IrqQuiet (c : Control) : Prop := ¬(c.irqsPending ≠ 0 ∧ c.irqMask = 0)

def Control.Quiet (c : Control) : Prop := c.FirqQuiet ∧ c.IrqQuiet

def Control.Settled (c : Control) : Prop := c.ccChanged = true ∨ c.Quiet

/-- A predicate on the control part of a state. -/
def On (P : Control → Prop) (s : Cpu β) : Prop := P (control s)

/-- No interrupt is both pending and unmasked. -/
def Quiet (s : Cpu β) : Prop :=
  ¬(s.firqsPending ≠ 0 ∧ s.EFI &&& F_FLAG = 0) ∧ ¬(s.irqsPending ≠ 0 ∧ s.EFI &&& I_FLAG = 0)

instance (s : Cpu β) : Decidable (Quiet s) := inferInstanceAs (Decidable (_ ∧ _))

/-! ## Functions that leave the control part alone -/

section Frame
variable {P : Control → Prop}

instance onBus_control {α : Type} (m : EStateM Stop β α) : Keeps (On P) (onBus m) where
  keeps s hs := by
    unfold onBus
    cases m s.bus <;> exact hs

instance note_control (e : Access) : Keeps (On (β := β) P) (note e) := Keeps.modify fun _ h => h
instance charge_control (n : ℤ) : Keeps (On (β := β) P) (charge n) := Keeps.modify fun _ h => h
instance charges_control : Charges (On (β := β) P) := ⟨fun n _ => charge_control n⟩
instance setEa_control (a : ℕ) : Keeps (On (β := β) P) (setEa a) := Keeps.modify fun _ h => h
instance withFlags_control {α : Type} (op : Flags → α × Flags) :
    Keeps (On (β := β) P) (withFlags op) := ⟨fun _ h => h⟩
instance changePc_control (a : ℕ) : Keeps (On (β := β) P) (changePc a) := Keeps.modify fun _ h => h
instance advancePc_control (n : ℕ) : Keeps (On (β := β) P) (advancePc n) :=
  Keeps.modify fun _ h => h
instance setPc_control (v : ℕ) : Keeps (On (β := β) P) (setPc v) := Keeps.modify fun _ h => h
instance setA_control (v : ℕ) : Keeps (On (β := β) P) (setA v) := Keeps.modify fun _ h => h
instance setB_control (v : ℕ) : Keeps (On (β := β) P) (setB v) := Keeps.modify fun _ h => h
instance setDp_control (v : ℕ) : Keeps (On (β := β) P) (setDp v) := Keeps.modify fun _ h => h
instance setX_control (v : ℕ) : Keeps (On (β := β) P) (setX v) := Keeps.modify fun _ h => h
instance setY_control (v : ℕ) : Keeps (On (β := β) P) (setY v) := Keeps.modify fun _ h => h
instance hook_control (c : Cpu β → ℕ) : Keeps (On (β := β) P) (commandExitIrqHook c) :=
  Keeps.modify fun _ h => h

instance setIndexReg_control (R : IndexReg) (v : ℕ) : Keeps (On (β := β) P) (setIndexReg R v) :=
  Keeps.modify fun _ h => by cases R <;> exact h

instance setStackReg_control (sp : StackReg) (v : ℕ) : Keeps (On (β := β) P) (setStackReg sp v) :=
  Keeps.modify fun _ h => by cases sp <;> exact h

instance setCwaiState_control (c : CwaiState) : Keeps (On (β := β) P) (setCwaiState c) :=
  Keeps.modify fun _ h => h
instance setIrqStartTime_control (v : Cpu β → ℕ) : Keeps (On (β := β) P) (setIrqStartTime v) :=
  Keeps.modify fun _ h => h

/-- `EFI` changes outside the two masks. -/
theorem efi_control (g : ℕ → ℕ) (hF : ∀ e, g e &&& F_FLAG = e &&& F_FLAG)
    (hI : ∀ e, g e &&& I_FLAG = e &&& I_FLAG) :
    Keeps (On (β := β) P) (do setEfi (g (← look Cpu.EFI))) where
  keeps s hs := by
    change On P { s with EFI := g s.EFI }
    unfold On at hs ⊢
    rwa [show control { s with EFI := g s.EFI } = control s by simp [control, hF, hI]]

instance beginFrame_control (full : Bool) : Keeps (On (β := β) P) (beginFrame full) := by
  have hset := efi_control (β := β) (P := P) (· ||| E_FLAG) (setE_and rfl) (setE_and rfl)
  have hclear := efi_control (β := β) (P := P) (· &&& unot E_FLAG) (clearE_and rfl) (clearE_and rfl)
  unfold beginFrame
  infer_instance

end Frame

/-! ## Functions that may unmask -/

/-- `set_cc` may unmask anything, but it sets the latch. -/
instance setCc_settled (arg : ℕ) : Keeps (On (β := β) Control.Settled) (setCc arg) :=
  Keeps.modify fun _ _ => .inl rfl

theorem and_eq_zero_of_or {e m k : ℕ} (h : (e ||| m) &&& k = 0) : e &&& k = 0 := by
  rw [Nat.and_or_distrib_right] at h
  exact (Nat.or_eq_zero_iff.mp h).1

theorem or_and_ne_zero {e m k : ℕ} (h : m &&& k ≠ 0) : (e ||| m) &&& k ≠ 0 := by
  rw [Nat.and_or_distrib_right]
  exact fun h0 => h (Nat.or_eq_zero_iff.mp h0).2

/-- Masking more never makes an interrupt deliverable. -/
instance mask_settled (m : ℕ) : Keeps (On (β := β) Control.Settled) (mask m) where
  keeps s hs := by
    change On Control.Settled { s with EFI := s.EFI ||| m }
    rcases hs with hs | hs
    · exact .inl hs
    · exact .inr ⟨fun h => hs.1 ⟨h.1, and_eq_zero_of_or h.2⟩,
        fun h => hs.2 ⟨h.1, and_eq_zero_of_or h.2⟩⟩

/-- `Quiet` after `EFI &= k`. -/
def Control.QuietUnder (k : ℕ) (c : Control) : Prop :=
  Control.Quiet { c with firqMask := c.firqMask &&& k, irqMask := c.irqMask &&& k }

theorem on_quietUnder {k : ℕ} {s : Cpu β} :
    On (Control.QuietUnder k) s ↔ Quiet { s with EFI := s.EFI &&& k } := by
  unfold On Control.QuietUnder Quiet control Control.Quiet Control.FirqQuiet Control.IrqQuiet
  simp only [Nat.and_right_comm s.EFI k]

theorem quiet_settled {s : Cpu β} (h : On Control.Quiet s) : On Control.Settled s := .inr h

variable [Bus β]

/-- Every instruction but CWAI sets the latch when it unmasks. -/
theorem exec_settled {i : Insn} (hi : i ≠ .cwai) : Keeps (On (β := β) Control.Settled) i.exec := by
  cases i
  case cwai => exact absurd rfl hi
  all_goals
    unfold Insn.exec
    infer_instance

theorem selected_settled {sel : Selected} (h : sel ≠ .insn .cwai) :
    Keeps (On (β := β) Control.Settled) sel.exec := by
  cases sel with
  | insn i => exact exec_settled fun hi => h (by rw [hi])
  | invalid => unfold Selected.exec; infer_instance
  | invalidPrefixed => unfold Selected.exec; infer_instance

/-! ## CWAI -/

/-- If CWAI is entered idle in `s`, its immediate byte unmasks no pending interrupt. -/
def CwaiMaskSafe (s : Cpu β) : Prop :=
  s.cwaiState = .idle → OnReturn immByte s fun n _ => Quiet { s with EFI := s.EFI &&& int8 n }

/-- If the instruction at `PC` is a CWAI, it unmasks no pending interrupt. -/
def CwaiSafe (s : Cpu β) : Prop :=
  OnReturn fetchOpcode (latchPc s) fun sel s₁ => sel = .insn .cwai → CwaiMaskSafe s₁

instance (s : Cpu β) : Decidable (CwaiMaskSafe s) := inferInstanceAs (Decidable (_ → _))

instance (s : Cpu β) : Decidable (CwaiSafe s) := inferInstanceAs (Decidable (OnReturn _ _ _))

theorem cwai_settled :
    Triple (fun s : Cpu β => Quiet s ∧ CwaiMaskSafe s) cwai (fun _ => On Control.Settled)
      (fun _ => True) := by
  unfold cwai
  refine Triple.bind (Q := fun c s => c = s.cwaiState ∧ Quiet s ∧ CwaiMaskSafe s)
    (look_triple fun s h => ⟨rfl, h⟩) fun c => ?_
  cases c with
  | idle =>
    refine Triple.bind (Q := fun n s => Quiet { s with EFI := s.EFI &&& int8 n }) ?_ fun n => ?_
    · rintro s ⟨hidle, _, hsafe⟩
      cases hr : immByte s with
      | ok n s₂ =>
        have hn := (onReturn_ok hr).mp (hsafe hidle.symm)
        have h := (immByte_kept (I := On (Control.QuietUnder (int8 n)))).keeps s (on_quietUnder.mpr hn)
        rw [hr] at h
        exact on_quietUnder.mp h
      | error e s₂ => exact True.intro
    · refine Triple.bind (Q := fun efi s => Quiet { s with EFI := efi &&& int8 n })
        (look_triple fun s h => h) fun efi => ?_
      refine Triple.bind (Q := fun _ => On Control.Quiet) (Triple.modify fun s h => h) fun _ => ?_
      exact Keeps.triple.mono (fun _ h => h) (fun _ _ h => quiet_settled h) fun _ h => h
  | wait =>
    exact Keeps.triple.mono (P := On Control.Quiet) (fun _ h => h.2.1)
      (fun _ _ h => quiet_settled h) fun _ h => h

theorem fetchExecute_settled :
    Triple (fun s : Cpu β => Quiet s ∧ CwaiSafe s) fetchExecute (fun _ => On Control.Settled)
      (fun _ => True) := by
  rintro s ⟨hq, hsafe⟩
  have hfetch := (fetchOpcode_kept (I := On Control.Quiet)).keeps (latchPc s) hq
  rw [fetchExecute, run_bind_ok (run_modify latchPc)]
  cases hr : fetchOpcode (latchPc s) with
  | error e s₁ =>
    rw [run_bind_error hr]
    exact True.intro
  | ok sel s₁ =>
    have hsel := (onReturn_ok hr).mp hsafe
    rw [hr] at hfetch
    rw [run_bind_ok hr]
    by_cases hc : sel = .insn .cwai
    · have h := cwai_settled s₁ ⟨hfetch, hsel hc⟩
      rwa [hc]
    · have := selected_settled (β := β) hc
      exact Keeps.triple s₁ (quiet_settled hfetch)

/-! ## Taking an interrupt -/

theorem firq_quiet :
    Triple (fun _ : Cpu β => True) firq (fun _ => Quiet) (fun _ => True) := by
  unfold firq
  refine Triple.trivial.bind fun _ => Triple.bind (Q := fun _ => On Control.Quiet) ?_
    fun _ => Keeps.triple
  refine fun s _ => show On Control.Quiet { s with EFI := s.EFI ||| (I_FLAG ||| F_FLAG) } from ?_
  refine ⟨fun h => ?_, fun h => ?_⟩
  · exact or_and_ne_zero (m := I_FLAG ||| F_FLAG) (k := F_FLAG) (by decide) h.2
  · exact or_and_ne_zero (m := I_FLAG ||| F_FLAG) (k := I_FLAG) (by decide) h.2

theorem irq_quiet :
    Triple (On (β := β) Control.FirqQuiet) irq (fun _ => Quiet) (fun _ => True) := by
  unfold irq
  refine Keeps.triple.bind fun _ => Triple.bind (Q := fun _ => On Control.Quiet) ?_
    fun _ => Keeps.triple
  refine fun s hs => show On Control.Quiet { s with EFI := s.EFI ||| I_FLAG } from ?_
  refine ⟨fun h => hs ⟨h.1, and_eq_zero_of_or h.2⟩, fun h => ?_⟩
  exact or_and_ne_zero (m := I_FLAG) (k := I_FLAG) (by decide) h.2

theorem checkPending_quiet :
    Triple (fun _ : Cpu β => True) checkPending (fun _ => Quiet) (fun _ => True) := by
  unfold checkPending
  refine Triple.bind (Q := fun f s => f = firqDeliverable s) (look_triple fun _ _ => rfl) fun f => ?_
  refine Triple.ite (fun _ => firq_quiet.mono (fun _ _ => True.intro) (fun _ _ h => h) fun _ h => h)
    fun hf => ?_
  refine Triple.bind (Q := fun i s => On Control.FirqQuiet s ∧ i = irqDeliverable s)
    (look_triple fun s h => ⟨fun hq => hf (h.trans (decide_eq_true hq)), rfl⟩) fun i => ?_
  refine Triple.ite (fun _ => irq_quiet.mono (fun _ h => h.1) (fun _ _ h => h) fun _ h => h)
    fun hi => Triple.pure _ fun s h => ⟨h.1, fun hq => hi (h.2.trans (decide_eq_true hq))⟩

theorem ccModified_quiet :
    Triple (fun _ : Cpu β => True) ccModified (fun _ => Quiet) (fun _ => True) := by
  have hclear : Keeps (On (β := β) Control.Quiet) clearCcChanged := Keeps.modify fun _ h => h
  exact checkPending_quiet.bind fun _ => hclear.triple

/-- The interrupt to take when one is deliverable: FIRQ has priority. -/
def takePending : CpuM β Unit := do
  if ← look firqDeliverable then firq else irq

theorem checkPending_of_not_quiet {s : Cpu β} (h : ¬Quiet s) : checkPending s = takePending s := by
  rw [checkPending, takePending, run_bind_ok (run_look _ s), run_bind_ok (run_look _ s)]
  split
  · rfl
  · rename_i hf
    have hi : irqDeliverable s = true := decide_eq_true (by_contra fun hi =>
      h ⟨fun hq => hf (decide_eq_true hq), hi⟩)
    rw [run_bind_ok (run_look _ s), if_pos hi]

theorem cpuStep_quiet :
    Triple (fun s : Cpu β => Quiet s ∧ CwaiSafe s) cpuStep (fun _ => Quiet) (fun _ => True) := by
  unfold cpuStep
  refine fetchExecute_settled.bind fun _ => ?_
  refine Triple.bind (Q := fun c s => c = s.ccChanged ∧ On Control.Settled s)
    (look_triple fun s h => ⟨rfl, h⟩) fun c => ?_
  refine Triple.ite (fun _ => ccModified_quiet.mono (fun _ _ => True.intro) (fun _ _ h => h)
    fun _ h => h) fun hc => Triple.pure _ ?_
  rintro s ⟨hcc, h | h⟩
  · exact absurd (hcc.trans h) hc
  · exact h

theorem requestFirq_quiet (source : ℕ) :
    Triple (Quiet (β := β)) (requestFirq source) (fun _ => Quiet) (fun _ => True) := by
  unfold requestFirq
  refine Triple.bind (Q := fun _ => On Control.IrqQuiet) (Triple.modify fun s hs => hs.2) fun _ => ?_
  refine Triple.bind (Q := fun efi s => efi = s.EFI ∧ On Control.IrqQuiet s)
    (look_triple fun s h => ⟨rfl, h⟩) fun efi => ?_
  refine Triple.ite (fun _ => firq_quiet.mono (fun _ _ => True.intro) (fun _ _ h => h) fun _ h => h)
    fun hm => Triple.pure _ ?_
  rintro s ⟨rfl, h⟩
  exact ⟨fun hf => hm hf.2, h⟩

theorem requestIrq_quiet (source : ℕ) :
    Triple (Quiet (β := β)) (requestIrq source) (fun _ => Quiet) (fun _ => True) := by
  unfold requestIrq
  refine Triple.bind (Q := fun _ => On Control.FirqQuiet) (Triple.modify fun s hs => hs.1) fun _ => ?_
  refine Triple.bind (Q := fun efi s => efi = s.EFI ∧ On Control.FirqQuiet s)
    (look_triple fun s h => ⟨rfl, h⟩) fun efi => ?_
  refine Triple.ite (fun _ => irq_quiet.mono (fun _ h => h.2) (fun _ _ h => h) fun _ h => h)
    fun hm => Triple.pure _ ?_
  rintro s ⟨rfl, h⟩
  exact ⟨h, fun hi => hm hi.2⟩

theorem and_ne_zero_left {a b : ℕ} (h : a &&& b ≠ 0) : a ≠ 0 := by
  rintro rfl
  exact h (Nat.zero_and b)

/-- The condition on a step under which it delivers what it unmasks. -/
def Event.Delivers : Event → Cpu β → Prop
  | .insn, s => CwaiSafe s
  | _, _ => True

instance : ∀ (e : Event) (s : Cpu β), Decidable (e.Delivers s)
  | .insn, s => inferInstanceAs (Decidable (CwaiSafe s))
  | .requestIrq _, _ | .releaseIrq _, _ | .requestFirq _, _ | .releaseFirq _, _ => isTrue trivial
  | .beginSlice _, _ | .endSlice, _ => isTrue trivial

theorem perform_quiet (e : Event) :
    Triple (fun s : Cpu β => Quiet s ∧ e.Delivers s) e.perform (fun _ => Quiet) (fun _ => True) := by
  cases e with
  | insn => exact cpuStep_quiet
  | requestIrq n => exact (requestIrq_quiet n).mono (fun _ h => h.1) (fun _ _ h => h) fun _ h => h
  | requestFirq n => exact (requestFirq_quiet n).mono (fun _ h => h.1) (fun _ _ h => h) fun _ h => h
  | releaseIrq n =>
    exact Triple.modify fun s hs => ⟨hs.1.1, fun h => hs.1.2 ⟨and_ne_zero_left h.1, h.2⟩⟩
  | releaseFirq n =>
    exact Triple.modify fun s hs => ⟨fun h => hs.1.1 ⟨and_ne_zero_left h.1, h.2⟩, hs.1.2⟩
  | beginSlice c => exact Triple.modify fun s hs => hs.1
  | endSlice => exact Triple.modify fun s hs => hs.1

/-- Reset masks both interrupts. -/
theorem cpuReset_quiet :
    Triple (fun _ : Cpu β => True) cpuReset (fun _ => Quiet) (fun _ => True) := by
  unfold cpuReset
  have hrun : Keeps (On (β := β) Control.Quiet)
      (modify fun s => { s with bus := Bus.cpuIsRunning s.bus } : CpuM β Unit) :=
    Keeps.modify fun _ h => h
  refine Triple.bind (Q := fun _ => On Control.Quiet) (Triple.modify fun s _ => ?_)
    fun _ => Keeps.triple
  exact ⟨fun h => absurd (a := (F_FLAG ||| I_FLAG) &&& F_FLAG = 0) h.2 (by decide),
    fun h => absurd (a := (F_FLAG ||| I_FLAG) &&& I_FLAG = 0) h.2 (by decide)⟩

/-- After every step of a run that starts with a reset, no interrupt is pending and
unmasked, and an instruction that unmasks one takes it before it ends. -/
theorem quiet_along_run {es : List Event} {s₀ s₁ s : Cpu β} (hreset : cpuReset s₀ = .ok () s₁)
    (hok : Along Event.perform Event.Delivers es s₁) (hrun : runAll Event.perform es s₁ = .ok () s) :
    Quiet s ∧ ∀ s', CwaiSafe s → fetchExecute s = .ok () s' → ¬Quiet s' →
      cpuStep s = (do takePending; clearCcChanged) s' := by
  have h₁ : Quiet s₁ := by
    have h := cpuReset_quiet s₀ True.intro
    rwa [hreset] at h
  have hs : Quiet s := by
    have h := runAll_invariant perform_quiet es s₁ ⟨h₁, hok⟩
    rwa [hrun] at h
  refine ⟨hs, fun s' hsafe hx hnq => ?_⟩
  have hset := fetchExecute_settled s ⟨hs, hsafe⟩
  rw [hx] at hset
  have hcc : s'.ccChanged = true := hset.resolve_right hnq
  have htake := checkPending_of_not_quiet hnq
  rw [cpuStep, run_bind_ok hx, run_bind_ok (run_look _ s'), if_pos hcc, ccModified]
  cases hr : takePending s' with
  | ok a t => rw [run_bind_ok hr, run_bind_ok (htake.trans hr)]
  | error e t => rw [run_bind_error hr, run_bind_error (htake.trans hr)]

/-! Delivery on a machine with memory only: an IRQ requested while masked is
taken at the end of the ANDCC that unmasks it, but a CWAI leaves it pending. -/

section FlatRam

/-- `LDS #$8000`, then `insns`, with an IRQ handler at `0x2000`. -/
def maskProgram (insns : List U8) : FlatRam :=
  .image [(0x1000, [0x10, 0xce, 0x80, 0x00] ++ insns), (0xfff8, [0x20, 0x00]), (0xfffe, [0x10, 0x00])]

def afterReset (ram : FlatRam) : Cpu FlatRam := finalState (cpuReset (Cpu.powerOn ram))

def requestThenUnmask : List Event := [.insn, .requestIrq 0, .insn]

theorem quiet_after_andcc :
    ∃ s, runAll Event.perform requestThenUnmask (afterReset (maskProgram [0x1c, 0xef])) = .ok () s ∧
      s.PC = 0x2000 ∧ Quiet s := by
  have hreset : returned (cpuReset (Cpu.powerOn (maskProgram [0x1c, 0xef]))) = true := by
    decide +kernel
  have hok : Along Event.perform Event.Delivers requestThenUnmask
      (afterReset (maskProgram [0x1c, 0xef])) := by decide +kernel
  have hrun : returned (runAll Event.perform requestThenUnmask
      (afterReset (maskProgram [0x1c, 0xef]))) = true := by decide +kernel
  exact ⟨_, eq_ok_finalState hrun, by decide +kernel,
    (quiet_along_run (eq_ok_finalState hreset) hok (eq_ok_finalState hrun)).1⟩

theorem not_quiet_after_cwai :
    ¬∀ (es : List Event) (s₀ s₁ s : Cpu FlatRam), cpuReset s₀ = .ok () s₁ →
      runAll Event.perform es s₁ = .ok () s → Quiet s := by
  intro h
  have hreset : returned (cpuReset (Cpu.powerOn (maskProgram [0x3c, 0xef]))) = true := by
    decide +kernel
  have hrun : returned (runAll Event.perform requestThenUnmask
      (afterReset (maskProgram [0x3c, 0xef]))) = true := by decide +kernel
  exact absurd (h _ _ _ _ (eq_ok_finalState hreset) (eq_ok_finalState hrun)) (by decide +kernel)

end FlatRam

end Exec09
