import Exec09.Cpu.Elapsed
import Exec09.Devices.Imux

/-! # The line of the interrupt multiplexer

The multiplexer beside the processor that it interrupts. `imux_refresh` is the
last thing that each of its operations does, and it may run the interrupt
entry, which leaves the pending words of the processor as they are. So the
line always shows whether an enabled edge is pending.
-/
namespace Exec09
open Foundation
variable {β : Type}

set_option synthInstance.maxSize 100000

structure Muxed (β : Type) where
  imux : Imux
  cpu : Cpu β

abbrev MuxM (β : Type) := EStateM Stop (Muxed β)

def onCpu (m : CpuM β Unit) : MuxM β Unit := fun s =>
  match m s.cpu with
  | .ok _ c => .ok () { s with cpu := c }
  | .error e c => .error e { s with cpu := c }

/-- The pending bit of the processor for a source: its IRQ for 1, its FIRQ for any other. -/
def sourceBit (src : ℕ) (s : Cpu β) : Bool :=
  if src = 1 then s.irqsPending.testBit src else s.firqsPending.testBit src

/-- A program of the processor that leaves the pending bit of `src` to its device. -/
structure Spared (β : Type) (src : ℕ) where
  run : CpuM β Unit
  keeps : ∀ b, Keeps (fun s => sourceBit src s = b) run

/-- One operation on a multiplexer whose line is `src`, or of the processor. -/
inductive MuxEvent (β : Type) (src : ℕ)
  | assert (sig : Fin 8)
  | write (addr : ℕ) (val : U8)
  | cpu (op : Spared β src)

section Operations
variable [Bus β]

def imuxRefresh : MuxM β Unit := do
  let s ← get
  if s.imux.pending &&& s.imux.enabled ≠ 0 then
    if s.imux.src = 1 then onCpu (requestIrq s.imux.src) else onCpu (requestFirq s.imux.src)
  else
    if s.imux.src = 1 then onCpu (releaseIrq s.imux.src) else onCpu (releaseFirq s.imux.src)

def imuxAssert (sig : ℕ) : MuxM β Unit := do
  modify fun s => { s with imux := { s.imux with pending := s.imux.pending ||| (1 <<< sig) } }
  imuxRefresh

def imuxWrite (addr : ℕ) (val : U8) : MuxM β Unit := do
  match addr with
  | 0 => modify fun s => { s with imux := { s.imux with enabled := val.toNat } }
  | 1 =>
    modify fun s => { s with imux := { s.imux with pending := s.imux.pending &&& unot val.toNat } }
  | _ => pure ()
  imuxRefresh

/-- `imux_create`, with what `malloc` leaves in the words, and the reset by `device_attach`. -/
def imuxCreate (enabled pending cpuLine : ℕ) (cpu : Cpu β) : Muxed β :=
  ⟨Imux.reset ⟨enabled, pending, cpuLine⟩, cpu⟩

def MuxEvent.perform {src : ℕ} : MuxEvent β src → MuxM β Unit
  | .assert sig => imuxAssert sig
  | .write addr val => imuxWrite addr val
  | .cpu op => onCpu op.run

end Operations

/-- The lines asserted and not acknowledged, after an event. -/
def MuxEvent.owe {src : ℕ} (lines : Set ℕ) : MuxEvent β src → Set ℕ
  | .assert sig => insert (sig : ℕ) lines
  | .write 1 val => {i ∈ lines | val.getLsbD i = false}
  | _ => lines

def owed {src : ℕ} (events : List (MuxEvent β src)) : Set ℕ := events.foldl MuxEvent.owe ∅

/-! ## The processor leaves the line alone -/

section Spared
variable {src : ℕ}

theorem sourceBit_of_since {m : CpuM β Unit}
    (h : ∀ x : Mark, x.bound = none → Keeps x.Since m) (b : Bool) :
    Keeps (fun s => sourceBit src s = b) m where
  keeps s hs := by
    have hsince := (h _ rfl).keeps s (since_free s)
    have hirqs : (finalState (m s)).irqsPending = s.irqsPending := hsince.irqsPending
    have hfirqs : (finalState (m s)).firqsPending = s.firqsPending := hsince.firqsPending
    simpa only [sourceBit, hirqs, hfirqs] using hs

variable [Bus β]

instance irq_sourceBit (b : Bool) : Keeps (fun s : Cpu β => sourceBit src s = b) irq :=
  sourceBit_of_since (fun _ _ => inferInstance) b

instance firq_sourceBit (b : Bool) : Keeps (fun s : Cpu β => sourceBit src s = b) firq :=
  sourceBit_of_since (fun _ _ => inferInstance) b

theorem request_testBit (w n : ℕ) :
    (w ||| (1 <<< n)).testBit src = (w.testBit src || decide (n = src)) := by
  rw [Nat.testBit_or, Nat.one_shiftLeft, Nat.testBit_two_pow]

theorem release_testBit (hsrc : src < 32) (w n : ℕ) :
    (w &&& unot (1 <<< n)).testBit src = (w.testBit src && !decide (n = src)) := by
  rw [Nat.testBit_and, Word.testBit_compl hsrc, Nat.one_shiftLeft, Nat.testBit_two_pow]

/-- The event is a call about the line `src`. -/
def Event.Drives (src : ℕ) : Event → Prop
  | .requestIrq n | .releaseIrq n => src = 1 ∧ n = src
  | .requestFirq n | .releaseFirq n => src ≠ 1 ∧ n = src
  | _ => False

omit [Bus β] in
theorem sourceBit_requestIrq (s : Cpu β) (n : ℕ) :
    sourceBit src { s with irqsPending := s.irqsPending ||| (1 <<< n) } =
      (sourceBit src s || decide (src = 1 ∧ n = src)) := by
  by_cases h : src = 1
  · rw [sourceBit, sourceBit, if_pos h, if_pos h, request_testBit]
    simp [h]
  · simp [sourceBit, h]

omit [Bus β] in
theorem sourceBit_releaseIrq (hsrc : src < 32) (s : Cpu β) (n : ℕ) :
    sourceBit src { s with irqsPending := s.irqsPending &&& unot (1 <<< n) } =
      (sourceBit src s && !decide (src = 1 ∧ n = src)) := by
  by_cases h : src = 1
  · rw [sourceBit, sourceBit, if_pos h, if_pos h, release_testBit hsrc]
    simp [h]
  · simp [sourceBit, h]

omit [Bus β] in
theorem sourceBit_requestFirq (s : Cpu β) (n : ℕ) :
    sourceBit src { s with firqsPending := s.firqsPending ||| (1 <<< n) } =
      (sourceBit src s || decide (src ≠ 1 ∧ n = src)) := by
  by_cases h : src = 1
  · simp [sourceBit, h]
  · rw [sourceBit, sourceBit, if_neg h, if_neg h, request_testBit]
    simp [h]

omit [Bus β] in
theorem sourceBit_releaseFirq (hsrc : src < 32) (s : Cpu β) (n : ℕ) :
    sourceBit src { s with firqsPending := s.firqsPending &&& unot (1 <<< n) } =
      (sourceBit src s && !decide (src ≠ 1 ∧ n = src)) := by
  by_cases h : src = 1
  · simp [sourceBit, h]
  · rw [sourceBit, sourceBit, if_neg h, if_neg h, release_testBit hsrc]
    simp [h]

theorem event_sourceBit {e : Event} (hsrc : src < 32) (he : ¬e.Drives src) (b : Bool) :
    Keeps (fun s : Cpu β => sourceBit src s = b) e.perform := by
  cases e with
  | insn => exact sourceBit_of_since (fun _ hx => cpuStep_since_free hx) b
  | requestIrq n =>
    have hset : Keeps (fun s : Cpu β => sourceBit src s = b)
        (modify fun s => { s with irqsPending := s.irqsPending ||| (1 <<< n) } : CpuM β Unit) :=
      Keeps.modify fun s hs => by
        rw [sourceBit_requestIrq, decide_eq_false (p := src = 1 ∧ n = src) he, Bool.or_false, hs]
    unfold Event.perform requestIrq
    infer_instance
  | releaseIrq n =>
    exact Keeps.modify fun s hs => by
      rw [sourceBit_releaseIrq hsrc,
        decide_eq_false (p := src = 1 ∧ n = src) he, Bool.not_false, Bool.and_true, hs]
  | requestFirq n =>
    have hset : Keeps (fun s : Cpu β => sourceBit src s = b)
        (modify fun s => { s with firqsPending := s.firqsPending ||| (1 <<< n) } : CpuM β Unit) :=
      Keeps.modify fun s hs => by
        rw [sourceBit_requestFirq, decide_eq_false (p := src ≠ 1 ∧ n = src) he, Bool.or_false, hs]
    unfold Event.perform requestFirq
    infer_instance
  | releaseFirq n =>
    exact Keeps.modify fun s hs => by
      rw [sourceBit_releaseFirq hsrc,
        decide_eq_false (p := src ≠ 1 ∧ n = src) he, Bool.not_false, Bool.and_true, hs]
  | beginSlice c => exact Keeps.modify fun _ hs => hs
  | endSlice => exact Keeps.modify fun _ hs => hs

/-- Instructions, and what devices on other lines do. -/
def Spared.event (e : Event) (hsrc : src < 32) (he : ¬e.Drives src) : Spared β src :=
  ⟨e.perform, event_sourceBit hsrc he⟩

end Spared

/-! ## One operation -/

/-- The line shows whether an enabled edge is pending. -/
def Mirrors (s : Muxed β) : Prop :=
  sourceBit s.imux.src s.cpu = true ↔ s.imux.pending &&& s.imux.enabled ≠ 0

section Mirrors
variable {src : ℕ} [Bus β]

omit [Bus β] in
theorem onCpu_imux {m : CpuM β Unit} {P Q E : Cpu β → Prop} (mux : Imux)
    (h : Triple P m (fun _ => Q) E) :
    Triple (fun s => s.imux = mux ∧ P s.cpu) (onCpu m) (fun _ s => s.imux = mux ∧ Q s.cpu)
      (fun s => s.imux = mux ∧ E s.cpu) := by
  rintro s ⟨hmux, hs⟩
  have hm := h s.cpu hs
  unfold onCpu
  cases hr : m s.cpu with
  | ok a c =>
    rw [hr] at hm
    exact ⟨hmux, hm⟩
  | error e c =>
    rw [hr] at hm
    exact ⟨hmux, hm⟩

theorem request_sourceBit :
    Triple (fun _ : Cpu β => True) (if src = 1 then requestIrq src else requestFirq src)
      (fun _ s => sourceBit src s = true) (fun s => sourceBit src s = true) := by
  by_cases h : src = 1
  · have hset : Triple (fun _ : Cpu β => True)
        (modify fun s => { s with irqsPending := s.irqsPending ||| (1 <<< src) } : CpuM β Unit)
        (fun _ s => sourceBit src s = true) (fun s => sourceBit src s = true) :=
      Triple.modify fun s _ => by
        rw [sourceBit_requestIrq, decide_eq_true ⟨h, rfl⟩, Bool.or_true]
    rw [if_pos h]
    unfold requestIrq
    exact hset.bind fun _ => Keeps.iff_triple.mp inferInstance
  · have hset : Triple (fun _ : Cpu β => True)
        (modify fun s => { s with firqsPending := s.firqsPending ||| (1 <<< src) } : CpuM β Unit)
        (fun _ s => sourceBit src s = true) (fun s => sourceBit src s = true) :=
      Triple.modify fun s _ => by
        rw [sourceBit_requestFirq, decide_eq_true ⟨h, rfl⟩, Bool.or_true]
    rw [if_neg h]
    unfold requestFirq
    exact hset.bind fun _ => Keeps.iff_triple.mp inferInstance

omit [Bus β] in
theorem release_sourceBit (hsrc : src < 32) :
    Triple (fun _ : Cpu β => True) (if src = 1 then releaseIrq src else releaseFirq src)
      (fun _ s => sourceBit src s = false) (fun s => sourceBit src s = false) := by
  by_cases h : src = 1
  · rw [if_pos h]
    exact Triple.modify fun s _ => by
      rw [sourceBit_releaseIrq hsrc, decide_eq_true ⟨h, rfl⟩, Bool.not_true, Bool.and_false]
  · rw [if_neg h]
    exact Triple.modify fun s _ => by
      rw [sourceBit_releaseFirq hsrc, decide_eq_true ⟨h, rfl⟩, Bool.not_true, Bool.and_false]

/-- Wherever the interrupt entry ends, the line is right. -/
theorem imuxRefresh_mirrors {mux : Imux} (hsrc : mux.src < 32) :
    Triple (fun s : Muxed β => s.imux = mux) imuxRefresh
      (fun _ s => s.imux = mux ∧ Mirrors s) (fun s => s.imux = mux ∧ Mirrors s) := by
  unfold imuxRefresh
  refine Triple.bind (Q := fun t s => t.imux = mux ∧ s.imux = mux) (Triple.get fun s hs => ⟨hs, hs⟩)
    fun t => Triple.and_pre fun ht => ?_
  subst ht
  by_cases hpending : t.imux.pending &&& t.imux.enabled ≠ 0
  · rw [if_pos hpending, ← apply_ite onCpu]
    exact (onCpu_imux t.imux request_sourceBit).mono (fun s hs => ⟨hs, trivial⟩)
      (fun _ s hs => ⟨hs.1, by simpa only [Mirrors, hs.1] using iff_of_true hs.2 hpending⟩)
      fun s hs => ⟨hs.1, by simpa only [Mirrors, hs.1] using iff_of_true hs.2 hpending⟩
  · have hfalse {s : Muxed β} (hs : s.imux = t.imux ∧ sourceBit t.imux.src s.cpu = false) :
        s.imux = t.imux ∧ Mirrors s := by
      refine ⟨hs.1, ?_⟩
      rw [Mirrors, hs.1, hs.2]
      exact iff_of_false Bool.false_ne_true hpending
    rw [if_neg hpending, ← apply_ite onCpu]
    exact (onCpu_imux t.imux (release_sourceBit hsrc)).mono (fun s hs => ⟨hs, trivial⟩)
      (fun _ _ hs => hfalse hs) fun _ hs => hfalse hs

/-- The line is right and the pending word holds `lines`. -/
structure Holding (src : ℕ) (lines : Set ℕ) (s : Muxed β) : Prop where
  src : s.imux.src = src
  mirrors : Mirrors s
  pending : ∀ i, s.imux.pending.testBit i = true ↔ i ∈ lines
  range : ∀ i ∈ lines, i < 8

/-- After its words are set, each operation refreshes the line. -/
theorem refresh_holding (hsrc : src < 32) {lines : Set ℕ} {mux : Imux} (hmux : mux.src = src)
    (hpending : ∀ i, mux.pending.testBit i = true ↔ i ∈ lines) (hrange : ∀ i ∈ lines, i < 8) :
    Triple (fun s : Muxed β => s.imux = mux) imuxRefresh (fun _ => Holding src lines)
      (fun _ => True) := by
  refine (imuxRefresh_mirrors (by rwa [hmux])).mono (fun _ hs => hs) (fun _ s hs => ?_)
    fun _ _ => trivial
  exact ⟨by rw [hs.1, hmux], hs.2, by rwa [hs.1], hrange⟩

theorem ack_testBit {w i : ℕ} (val : U8) (hi : i < 8) :
    (w &&& unot val.toNat).testBit i = (w.testBit i && !val.getLsbD i) := by
  rw [Nat.testBit_and, Word.testBit_compl (by omega), BitVec.testBit_toNat]

theorem write_holding (hsrc : src < 32) {lines : Set ℕ} (addr : ℕ) (val : U8) :
    Triple (Holding (β := β) src lines) (imuxWrite addr val)
      (fun _ => Holding src (MuxEvent.owe lines (.write addr val : MuxEvent β src)))
      (fun _ => True) := by
  intro s hs
  unfold imuxWrite
  match addr with
  | 0 =>
    refine refresh_holding hsrc ?_ ?_ hs.range _ rfl
    · exact hs.src
    · exact hs.pending
  | 1 =>
    refine refresh_holding hsrc ?_ (fun i => ?_) (fun i hi => hs.range i hi.1) _ rfl
    · exact hs.src
    change (s.imux.pending &&& unot val.toNat).testBit i = true ↔
      i ∈ lines ∧ val.getLsbD i = false
    by_cases hi : i < 8
    · rw [ack_testBit val hi, Bool.and_eq_true, hs.pending, Bool.not_eq_true']
    · have hout : i ∉ lines := fun h => hi (hs.range i h)
      rw [Nat.testBit_and, Bool.and_eq_true, hs.pending]
      exact iff_of_false (fun h => hout h.1) fun h => hout h.1
  | _ + 2 => exact refresh_holding hsrc hs.src hs.pending hs.range _ rfl

theorem assert_holding (hsrc : src < 32) {lines : Set ℕ} (sig : Fin 8) :
    Triple (Holding (β := β) src lines) (imuxAssert sig)
      (fun _ => Holding src (insert (sig : ℕ) lines)) (fun _ => True) := by
  intro s hs
  refine refresh_holding hsrc ?_ (fun i => ?_) (fun i hi => ?_) _ rfl
  · exact hs.src
  · rw [request_testBit, Bool.or_eq_true, hs.pending, decide_eq_true_eq, Set.mem_insert_iff,
      or_comm, eq_comm]
  · rcases Set.mem_insert_iff.mp hi with rfl | hi
    · exact sig.isLt
    · exact hs.range i hi

theorem perform_holding (hsrc : src < 32) {lines : Set ℕ} (e : MuxEvent β src) :
    Triple (Holding src lines) e.perform (fun _ => Holding src (e.owe lines)) (fun _ => True) := by
  cases e with
  | assert sig => exact assert_holding hsrc sig
  | write addr val => exact write_holding hsrc addr val
  | cpu op =>
    intro s hs
    have hbit := onCpu_imux s.imux (Keeps.iff_triple.mp (op.keeps (sourceBit src s.cpu))) s ⟨rfl, rfl⟩
    have hrun : MuxEvent.perform (.cpu op) s = onCpu op.run s := rfl
    rw [hrun]
    cases hr : onCpu op.run s with
    | ok a t =>
      rw [hr] at hbit
      change Holding src lines t
      obtain ⟨himux, hcpu⟩ := hbit
      have hmirrors := hs.mirrors
      refine ⟨by rw [himux, hs.src], ?_, by rw [himux]; exact hs.pending, hs.range⟩
      rw [Mirrors, hs.src] at hmirrors
      rwa [Mirrors, himux, hs.src, hcpu]
    | error err t => trivial

theorem run_holding (hsrc : src < 32) (events : List (MuxEvent β src)) :
    ∀ lines, Triple (Holding src lines) (runAll MuxEvent.perform events)
      (fun _ => Holding src (events.foldl MuxEvent.owe lines)) (fun _ => True) := by
  induction events with
  | nil => exact fun lines => Triple.pure _ fun _ hs => hs
  | cons e events ih => exact fun lines => (perform_holding hsrc e).bind fun _ => ih _

omit [Bus β] in
theorem create_holding (enabled pending : ℕ) (bus : β) :
    Holding src ∅ (imuxCreate enabled pending src (Cpu.powerOn bus)) where
  src := rfl
  mirrors := by simp [Mirrors, imuxCreate, Imux.reset, sourceBit, Cpu.powerOn]
  pending i := by simp [imuxCreate, Imux.reset]
  range i hi := absurd hi (Set.notMem_empty i)

end Mirrors

/-- After every run of a multiplexer on line `src` its line is up exactly if an enabled edge is
pending, and the pending word holds what was asserted and not acknowledged. An interrupt entry,
be it `irq` or `firq`, changes neither. -/
theorem imux_line [Bus β] (src : Fin 32) (enabled pending : ℕ) (bus : β)
    (events : List (MuxEvent β src)) :
    (OnReturn (runAll MuxEvent.perform events)
      (imuxCreate enabled pending src (Cpu.powerOn bus)) fun _ s =>
        (sourceBit src s.cpu = true ↔ s.imux.pending &&& s.imux.enabled ≠ 0) ∧
          ∀ i, s.imux.pending.testBit i = true ↔ i ∈ owed events) ∧
      ∀ (s : Muxed β) (fast : Bool),
        let taken := finalState (onCpu (if fast then firq else irq) s)
        taken.imux = s.imux ∧ sourceBit src taken.cpu = sourceBit src s.cpu := by
  refine ⟨?_, fun s fast => ?_⟩
  · have hrun := run_holding src.isLt events ∅ _ (create_holding enabled pending bus)
    cases hr : runAll MuxEvent.perform events (imuxCreate enabled pending src (Cpu.powerOn bus)) with
    | ok a s =>
      rw [hr] at hrun
      have hmirrors := hrun.mirrors
      rw [Mirrors, hrun.src] at hmirrors
      exact (onReturn_ok hr).mpr ⟨hmirrors, hrun.pending⟩
    | error e s => exact onReturn_error hr
  · have hkeeps (b : Bool) : Keeps (fun s : Cpu β => sourceBit src s = b)
        (if fast then firq else irq) := inferInstance
    have h := onCpu_imux s.imux (Keeps.iff_triple.mp (hkeeps (sourceBit src s.cpu)))
    exact Triple.iff_final.mp h s ⟨rfl, rfl⟩

/-! ## The words alone -/

section Lines
variable [Bus β]

def lines (s : Cpu β) : IrqLines := ⟨s.irqsPending, s.firqsPending⟩

omit [Bus β] in
theorem lines_of_since {m : CpuM β Unit} (h : ∀ x : Mark, x.bound = none → Keeps x.Since m)
    (s : Cpu β) : lines (finalState (m s)) = lines s := by
  have hsince := (h _ rfl).keeps s (since_free s)
  rw [lines, hsince.irqsPending, hsince.firqsPending]
  rfl

theorem requestIrq_lines (n : ℕ) (s : Cpu β) :
    lines (finalState (requestIrq n s)) = (lines s).requestIrq n := by
  have hrest : ∀ x : Mark, x.bound = none → Keeps x.Since (do
      if (← look (β := β) Cpu.EFI) &&& I_FLAG = 0 then irq) := fun x _ => inferInstance
  exact lines_of_since hrest { s with irqsPending := s.irqsPending ||| (1 <<< n) }

theorem requestFirq_lines (n : ℕ) (s : Cpu β) :
    lines (finalState (requestFirq n s)) = (lines s).requestFirq n := by
  have hrest : ∀ x : Mark, x.bound = none → Keeps x.Since (do
      if (← look (β := β) Cpu.EFI) &&& F_FLAG = 0 then firq) := fun x _ => inferInstance
  exact lines_of_since hrest { s with firqsPending := s.firqsPending ||| (1 <<< n) }

omit [Bus β] in
theorem onCpu_final (m : CpuM β Unit) (s : Muxed β) :
    (finalState (onCpu m s)).cpu = finalState (m s.cpu) := by
  unfold onCpu
  cases m s.cpu <;> rfl

/-- `Imux.refresh` is what `imux_refresh` does to the pending words. -/
theorem imuxRefresh_lines (s : Muxed β) :
    lines (finalState (imuxRefresh s)).cpu = s.imux.refresh (lines s.cpu) := by
  unfold imuxRefresh
  rw [run_bind_ok run_get]
  unfold Imux.refresh
  by_cases hpending : s.imux.pending &&& s.imux.enabled ≠ 0 <;> by_cases hsrc : s.imux.src = 1
  · rw [if_pos hpending, if_pos hsrc, if_pos hpending, if_pos hsrc, onCpu_final]
    exact requestIrq_lines _ _
  · rw [if_pos hpending, if_neg hsrc, if_pos hpending, if_neg hsrc, onCpu_final]
    exact requestFirq_lines _ _
  · rw [if_neg hpending, if_pos hsrc, if_neg hpending, if_pos hsrc, onCpu_final]
    rfl
  · rw [if_neg hpending, if_neg hsrc, if_neg hpending, if_neg hsrc, onCpu_final]
    rfl

end Lines

end Exec09
