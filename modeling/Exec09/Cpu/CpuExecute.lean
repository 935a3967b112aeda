import Exec09.Cpu.Cycles
import Exec09.Cpu.EmulatedTime
import Exec09.Cpu.InterruptDelivery
import Exec09.Cpu.StackWrites
import Exec09.Cpu.NextInsn

/-! # The slice of cycles that `cpu_execute` runs for

Every iteration of the loop charges a cycle at least, whatever interrupts are
taken in it, so that the loop ends. What it has charged is a number of type
`int`, and the last iteration may go beyond the slice.
-/
namespace Exec09
open Foundation
variable {β : Type}

set_option synthInstance.maxSize 100000

section Loop
variable [Bus β]

def DeviceCall.perform : DeviceCall → CpuM β Unit
  | .getCycles => pure ()
  | .requestIrq n => Exec09.requestIrq n
  | .releaseIrq n => Exec09.releaseIrq n
  | .requestFirq n => Exec09.requestFirq n
  | .releaseFirq n => Exec09.releaseFirq n

/-- An iteration of the loop, with the calls that devices make meanwhile. -/
def iteration (calls : List DeviceCall) : CpuM β Unit := do
  cpuStep
  runAll DeviceCall.perform calls

/-- The statements from the label `cpu_exit` on. -/
def cpuExit : CpuM β ℤ := do
  modify fun s => { s with cpuPeriod := toInt (s.cpuPeriod - s.cpuClk) }
  modify fun s => { s with cpuClk := s.cpuPeriod }
  look Cpu.cpuPeriod

/-- `cpu_execute` with the device calls of each iteration. There is no value if the loop has not
come to its end after `fuel` iterations. -/
def cpuExecute (calls : ℕ → List DeviceCall) (fuel : ℕ) (cycles : ℤ) : CpuM β (Option ℤ) := do
  beginSlice cycles
  if ← countdown Cpu.cpuClk (fun k => iteration (calls k)) fuel then return some (← cpuExit)
  else return none

/-- `total += n`. -/
def addTotal (n : ℤ) (s : Cpu β) : Cpu β := { s with total := ((s.total + n) % 2 ^ 64).toNat }

/-- What a run of `cpu_execute` is expected to do: its iterations charge the cycles `l`, each at
least one, and the value is their sum. -/
def Counted (calls : ℕ → List DeviceCall) (cycles : ℤ) (s : Cpu β) (v : Option ℤ) (t : Cpu β) :
    Prop :=
  ∃ l u n, v = some n ∧
    Countdown Cpu.cpuClk (fun k => iteration (calls k)) { s with cpuPeriod := cycles, cpuClk := cycles }
      l u ∧
    (∀ k ∈ l, 1 ≤ k) ∧ l.length ≤ cycles ∧ n = l.sum ∧ cycles ≤ n ∧
    getCycles (addTotal n t) = getCycles u

end Loop

/-- Every run of `cpu_execute (cycles)` in which `sim_error` is not called, on every machine. -/
def AlwaysCounted (cycles : ℤ) : Prop :=
  ∀ (β : Type) (I : Bus β) (calls : ℕ → List DeviceCall) (fuel : ℕ) (s t : Cpu β) (v : Option ℤ),
    cycles ≤ fuel → @cpuExecute β I.trapping calls fuel cycles s = .ok v t →
      @Counted β I.trapping calls cycles s v t

/-! ## The cycles of the interrupts -/

/-- The most that interrupts can still cost, before a mask is cleared again. -/
def Control.budget (c : Control) : ℤ :=
  if c.firqMask = 0 then if c.irqMask = 0 then 25 else 6 else if c.irqMask = 0 then 19 else 0

theorem Control.budget_bounds (c : Control) : 0 ≤ c.budget ∧ c.budget ≤ 25 := by
  unfold Control.budget
  split <;> split <;> decide

/-- From `s` to `t` cycles have been charged, and within the budget. -/
def Taken (s t : Cpu β) : Prop :=
  t.cpuClk ≤ s.cpuClk ∧ s.cpuClk - t.cpuClk + (control t).budget ≤ (control s).budget

theorem Taken.refl (s : Cpu β) : Taken s s := ⟨le_rfl, by omega⟩

theorem Taken.trans {s t u : Cpu β} (h : Taken s t) (h' : Taken t u) : Taken s u := by
  obtain ⟨hclk, hbudget⟩ := h
  obtain ⟨hclk', hbudget'⟩ := h'
  exact ⟨by omega, by omega⟩

section Interrupts
variable [Bus β]

theorem firq_masks : Triple (fun _ : Cpu β => True) firq
    (fun _ => On fun c => c.firqMask ≠ 0 ∧ c.irqMask ≠ 0) Anywhere := by
  unfold firq
  refine Triple.trivial.bind fun _ => Triple.bind
    (Q := fun _ => On fun c => c.firqMask ≠ 0 ∧ c.irqMask ≠ 0) ?_ fun _ => Keeps.anywhere
  intro s _
  change On _ { s with EFI := s.EFI ||| (I_FLAG ||| F_FLAG) }
  exact ⟨or_and_ne_zero (m := I_FLAG ||| F_FLAG) (k := F_FLAG) (by decide),
    or_and_ne_zero (m := I_FLAG ||| F_FLAG) (k := I_FLAG) (by decide)⟩

theorem irq_masks (a : ℕ) : Triple (On (β := β) fun c => c.firqMask = a) irq
    (fun _ => On fun c => c.firqMask = a ∧ c.irqMask ≠ 0) Anywhere := by
  have hapart : I_FLAG &&& F_FLAG = 0 := rfl
  unfold irq
  refine Keeps.anywhere.bind fun _ => Triple.bind
    (Q := fun _ => On fun c => c.firqMask = a ∧ c.irqMask ≠ 0) ?_ fun _ => Keeps.anywhere
  intro s hs
  change On _ { s with EFI := s.EFI ||| I_FLAG }
  refine ⟨?_, or_and_ne_zero (m := I_FLAG) (k := I_FLAG) (by decide)⟩
  change (s.EFI ||| I_FLAG) &&& F_FLAG = a
  rw [Nat.and_or_distrib_right, hapart, Nat.or_zero]
  exact hs

theorem firq_taken {s t : Cpu β} (hopen : s.EFI &&& F_FLAG = 0) (h : firq s = .ok () t) :
    Taken s t := by
  have hcost := firq_costs.costs s () t h
  obtain ⟨hF, hI⟩ := firq_masks.of_ok trivial h
  have hafter : (control t).budget = 0 := by rw [Control.budget, if_neg hF, if_neg hI]
  have hbefore : 6 ≤ (control s).budget := by
    have hmask : (control s).firqMask = 0 := hopen
    rw [Control.budget, if_pos hmask]
    split <;> decide
  exact ⟨by omega, by omega⟩

theorem irq_taken {s t : Cpu β} (hopen : s.EFI &&& I_FLAG = 0) (h : irq s = .ok () t) :
    Taken s t := by
  have hcost := irq_costs.costs s () t h
  obtain ⟨hF, hI⟩ := (irq_masks (control s).firqMask).of_ok rfl h
  have hafter : (control t).budget = (control s).budget - 19 := by
    have hmask : (control s).irqMask = 0 := hopen
    rw [Control.budget, Control.budget, hF, if_neg hI, if_neg hI, if_pos hmask, if_pos hmask]
    split <;> decide
  exact ⟨by omega, by omega⟩

theorem checkPending_taken {s t : Cpu β} (h : checkPending s = .ok () t) : Taken s t := by
  rw [checkPending, run_bind_ok (run_look _ _)] at h
  by_cases hfirq : firqDeliverable s = true
  · rw [if_pos hfirq] at h
    exact firq_taken (of_decide_eq_true hfirq).2 h
  · rw [if_neg hfirq, run_bind_ok (run_look _ _)] at h
    by_cases hirq : irqDeliverable s = true
    · rw [if_pos hirq] at h
      exact irq_taken (of_decide_eq_true hirq).2 h
    · rw [if_neg hirq] at h
      cases h
      exact Taken.refl s

theorem ccModified_taken {s t : Cpu β} (h : ccModified s = .ok () t) : Taken s t := by
  obtain ⟨⟨⟩, u, hcheck, hclear⟩ := of_run_bind_ok h
  have htaken := checkPending_taken hcheck
  cases hclear
  exact htaken

/-- A call of a device charges cycles only for the interrupt that it starts. -/
theorem DeviceCall.taken (d : DeviceCall) {s t : Cpu β} (h : d.perform s = .ok () t) :
    Taken s t := by
  cases d with
  | getCycles =>
    cases h
    exact Taken.refl s
  | releaseIrq n =>
    cases h
    exact Taken.refl s
  | releaseFirq n =>
    cases h
    exact Taken.refl s
  | requestIrq n =>
    have hset : Taken s { s with irqsPending := s.irqsPending ||| (1 <<< n) } := Taken.refl s
    rw [DeviceCall.perform, Exec09.requestIrq, run_bind_ok (run_modify _),
      run_bind_ok (run_look _ _)] at h
    split at h
    · rename_i hopen
      exact hset.trans (irq_taken hopen h)
    · cases h
      exact hset
  | requestFirq n =>
    have hset : Taken s { s with firqsPending := s.firqsPending ||| (1 <<< n) } := Taken.refl s
    rw [DeviceCall.perform, Exec09.requestFirq, run_bind_ok (run_modify _),
      run_bind_ok (run_look _ _)] at h
    split at h
    · rename_i hopen
      exact hset.trans (firq_taken hopen h)
    · cases h
      exact hset

theorem calls_taken (calls : List DeviceCall) {s t : Cpu β}
    (h : runAll DeviceCall.perform calls s = .ok () t) : Taken s t := by
  induction calls generalizing s with
  | nil =>
    cases h
    exact Taken.refl _
  | cons d calls ih =>
    obtain ⟨⟨⟩, u, hfirst, hrest⟩ := of_run_bind_ok h
    exact (d.taken hfirst).trans (ih hrest)

end Interrupts

/-! ## An iteration -/

section Iteration
variable [Bus β]

theorem decode_cycles : ∀ v : U8, ∀ i ∈ decode v.toNat, 1 ≤ i.least ∧ i.most ≤ 20 := by
  decide +kernel

theorem decode10_cycles : ∀ v : U8, ∀ i ∈ decode10 v.toNat, 1 ≤ i.least ∧ i.most ≤ 20 := by
  decide +kernel

theorem decode11_cycles : ∀ v : U8, ∀ i ∈ decode11 v.toNat, 1 ≤ i.least ∧ i.most ≤ 20 := by
  decide +kernel

theorem selected_costs (htraps : Traps β) {sel : Selected}
    (hsel : ∀ i, sel = .insn i → 1 ≤ i.least ∧ i.most ≤ 20) :
    Costs Cpu.cpuClk (sel.exec : CpuM β Unit) 1 20 := by
  cases sel with
  | insn i => exact (exec_costs htraps i).weaken (hsel i rfl).1 (hsel i rfl).2
  | invalid =>
    apply Costs.never
    intro s a t h
    obtain ⟨_, _, _, hrest⟩ := of_run_bind_ok h
    obtain ⟨_, _, hnever, _⟩ := of_run_bind_ok hrest
    exact simError_never_returns htraps _ _ _ hnever
  | invalidPrefixed =>
    apply Costs.never
    intro s a t h
    exact simError_never_returns htraps _ _ _ h

/-- Every instruction costs a cycle at least. -/
theorem fetchExecute_costs (htraps : Traps β) :
    Costs Cpu.cpuClk (fetchExecute : CpuM β Unit) 1 20 where
  costs s a t h := by
    rw [fetchExecute, run_bind_ok (run_modify latchPc)] at h
    obtain ⟨sel, u, hfetch, hexec⟩ := of_run_bind_ok h
    have hdecoded := (fetchOpcode_decodes decode_cycles decode10_cycles decode11_cycles).of_ok
      trivial hfetch
    have hfirst := fetchOpcode_costs.costs _ sel u hfetch
    have hsecond := (selected_costs htraps hdecoded).costs u a t hexec
    change 0 ≤ s.cpuClk - u.cpuClk ∧ s.cpuClk - u.cpuClk ≤ 0 at hfirst
    omega

theorem cpuStep_taken {s t : Cpu β} (h : cpuStep s = .ok () t) :
    ∃ u, fetchExecute s = .ok () u ∧ Taken u t := by
  obtain ⟨⟨⟩, u, hfetch, hrest⟩ := of_run_bind_ok h
  refine ⟨u, hfetch, ?_⟩
  rw [run_bind_ok (run_look _ _)] at hrest
  split at hrest
  · exact ccModified_taken hrest
  · cases hrest
    exact Taken.refl _

/-- The costs of an iteration: those of its instruction, and at most one FIRQ after one IRQ. -/
theorem iteration_costs (htraps : Traps β) (calls : List DeviceCall) :
    Costs Cpu.cpuClk (iteration calls : CpuM β Unit) 1 45 where
  costs s a t h := by
    obtain ⟨⟨⟩, u, hstep, hcalls⟩ := of_run_bind_ok h
    obtain ⟨r, hfetch, htaken⟩ := cpuStep_taken hstep
    obtain ⟨hclk, hbudget⟩ := htaken.trans (calls_taken calls hcalls)
    have hinsn := (fetchExecute_costs htraps).costs s () r hfetch
    have hbefore := (control r).budget_bounds
    have hafter := (control t).budget_bounds
    omega

/-- The slice that `cpu_execute` was called for. -/
def PeriodIs (cycles : ℤ) (s : Cpu β) : Prop := s.cpuPeriod = cycles

omit [Bus β] in
theorem period_of_since {cycles : ℤ} {m : CpuM β Unit}
    (h : ∀ x : Mark, x.bound = none → Keeps x.Since m) : Keeps (PeriodIs cycles) m where
  keeps s hs := ((h (mark s none) rfl).keeps s (since_free s)).cpuPeriod.trans hs

theorem iteration_period {cycles : ℤ} (calls : List DeviceCall) :
    Keeps (PeriodIs (β := β) cycles) (iteration calls) := by
  have hstep : Keeps (PeriodIs (β := β) cycles) cpuStep := period_of_since fun _ => cpuStep_since_free
  have hirq : Keeps (PeriodIs (β := β) cycles) irq := period_of_since fun _ _ => inferInstance
  have hfirq : Keeps (PeriodIs (β := β) cycles) firq := period_of_since fun _ _ => inferInstance
  have hcall (d : DeviceCall) : Keeps (PeriodIs (β := β) cycles) d.perform := by
    cases d with
    | getCycles => exact Keeps.pure _
    | requestIrq k =>
      have hpending : Keeps (PeriodIs (β := β) cycles)
          (modify fun s => { s with irqsPending := s.irqsPending ||| (1 <<< k) } : CpuM β Unit) :=
        Keeps.modify fun _ h => h
      unfold DeviceCall.perform Exec09.requestIrq
      infer_instance
    | releaseIrq k => exact Keeps.modify fun _ h => h
    | requestFirq k =>
      have hpending : Keeps (PeriodIs (β := β) cycles)
          (modify fun s => { s with firqsPending := s.firqsPending ||| (1 <<< k) } : CpuM β Unit) :=
        Keeps.modify fun _ h => h
      unfold DeviceCall.perform Exec09.requestFirq
      infer_instance
    | releaseFirq k => exact Keeps.modify fun _ h => h
  have hcalls : Keeps (PeriodIs (β := β) cycles) (runAll DeviceCall.perform calls) :=
    Keeps.iff_triple.mpr (runAll_keeps (fun d => Keeps.iff_triple.mp (hcall d)) calls)
  unfold iteration
  infer_instance

end Iteration

/-! ## The slice -/

section Slice
variable [Bus β] {calls : ℕ → List DeviceCall} {cycles : ℤ} {fuel : ℕ} {s t : Cpu β} {v : Option ℤ}

/-- The loop leaves the length of the slice alone. -/
theorem loop_period {b : Bool} {u : Cpu β}
    (hloop : countdown Cpu.cpuClk (fun k => iteration (calls k)) fuel
      { s with cpuPeriod := cycles, cpuClk := cycles } = .ok b u) : u.cpuPeriod = cycles := by
  have hcount : Keeps (PeriodIs (β := β) cycles)
      (countdown Cpu.cpuClk (fun k => iteration (calls k)) fuel) :=
    countdown_keeps (fun k => iteration_period (calls k)) fuel
  have hkept := hcount.keeps { s with cpuPeriod := cycles, cpuClk := cycles }
    (show PeriodIs cycles _ from rfl)
  rwa [hloop] at hkept

/-- With a fuel of `cycles` the loop comes to its end, and the value is what it has charged. -/
theorem cpuExecute_run (htraps : Traps β) (hpos : 1 ≤ cycles) (hfuel : cycles ≤ fuel)
    (h : cpuExecute calls fuel cycles s = .ok v t) :
    ∃ l u, Countdown Cpu.cpuClk (fun k => iteration (calls k))
        { s with cpuPeriod := cycles, cpuClk := cycles } l u ∧ u.cpuPeriod = cycles ∧
      v = some (toInt (cycles - u.cpuClk)) ∧
      t = { u with cpuPeriod := toInt (cycles - u.cpuClk), cpuClk := toInt (cycles - u.cpuClk) } := by
  rw [cpuExecute, beginSlice, run_bind_ok (run_modify _)] at h
  obtain ⟨b, u, hloop, hexit⟩ := of_run_bind_ok h
  have hperiod := loop_period hloop
  obtain ⟨rfl, l, hl⟩ := countdown_ends (fun k => iteration_costs htraps (calls k)) le_rfl
    (by dsimp only; omega) (by dsimp only; omega) hloop
  cases hexit
  exact ⟨l, u, hl, hperiod, by rw [← hperiod], by rw [← hperiod]⟩

theorem toInt_of_fits {n : ℤ} (hlo : 0 ≤ n) (hhi : n < 2 ^ 31) : toInt n = n := by
  rw [toInt]
  exact Int.bmod_eq_of_le (by omega) (by omega)

omit [Bus β] in
/-- The clock shows the same before and after the exit. -/
theorem getCycles_exit (u : Cpu β) :
    getCycles (addTotal (u.cpuPeriod - u.cpuClk) { u with
      cpuPeriod := u.cpuPeriod - u.cpuClk, cpuClk := u.cpuPeriod - u.cpuClk }) = getCycles u := by
  have hclock (total period clk : ℤ) :
      (((((total + (period - clk)) % 2 ^ 64).toNat : ℤ) + (period - clk) - (period - clk)) % 2 ^ 64) =
        (total + period - clk) % 2 ^ 64 := by omega
  exact congrArg Int.toNat (hclock u.total u.cpuPeriod u.cpuClk)

/-- A slice that ends 44 cycles below the limit of `int` cannot go beyond it. -/
theorem cpuExecute_counted (htraps : Traps β) (hpos : 1 ≤ cycles) (hlimit : cycles ≤ 2147483603)
    (hfuel : cycles ≤ fuel) (h : cpuExecute calls fuel cycles s = .ok v t) :
    Counted calls cycles s v t := by
  obtain ⟨l, u, hl, hperiod, hv, ht⟩ := cpuExecute_run htraps hpos hfuel h
  have hcosts (k : ℕ) := iteration_costs htraps (calls k)
  have hstart : (0 : ℤ) < Cpu.cpuClk { s with cpuPeriod := cycles, cpuClk := cycles } := by
    dsimp only
    omega
  have hend := hl.ends
  have hover := hl.overshoot hcosts hstart
  have hsum := hl.sum
  have hlength := hl.length_le hcosts le_rfl hstart
  have hfits : toInt (cycles - u.cpuClk) = cycles - u.cpuClk := toInt_of_fits (by omega) (by omega)
  rw [hfits] at hv ht
  refine ⟨l, u, _, hv, hl, hl.each hcosts, hlength, hsum.symm, by omega, ?_⟩
  rw [ht, ← hperiod]
  exact getCycles_exit u

end Slice

/-! ## Slices that go beyond the limit -/

/-- No frame waits, and `k` cycles are left. -/
structure Poised (e : ℕ) (k : ℤ) (s : Cpu β) : Prop where
  clk : s.cpuClk = k
  EFI : s.EFI = e
  ccChanged : s.ccChanged = false
  cwaiState : s.cwaiState = .idle

section Entries
variable [Bus β] {e : ℕ} {k : ℤ}

omit [Bus β] in
theorem Poised.framed {s : Cpu β} (h : Poised e k s) (full : Bool) :
    Poised (if full then e ||| E_FLAG else e &&& unot E_FLAG) (k - frameClks full)
      (framed full s) := by
  obtain ⟨hclk, hefi, hcc, hidle⟩ := h
  cases full
  · exact ⟨by rw [← hclk]; rfl, by rw [← hefi]; rfl, hcc, hidle⟩
  · exact ⟨by rw [← hclk]; rfl, by rw [← hefi]; rfl, hcc, hidle⟩

omit [Bus β] in
theorem Pushing.poised {s₀ s : Cpu β} {bytes : List ℕ} (h : Pushing .S s₀ bytes s)
    (hs : Poised e k s₀) : Poised e k s := by
  have hrest := h.rest
  obtain ⟨hclk, hefi, hcc, hidle⟩ := hs
  exact ⟨by rw [hrest]; exact hclk, by rw [hrest]; exact hefi, by rw [hrest]; exact hcc,
    by rw [hrest]; exact hidle⟩

theorem frame_poised (full : Bool) : Triple (Poised (β := β) e k) (stackMachineState full)
    (fun _ => Poised (if full then e ||| E_FLAG else e &&& unot E_FLAG) (k - frameClks full))
    Anywhere := by
  intro s hs
  have hframed := hs.framed full
  cases full with
  | true =>
    exact stackMachineState_pushing.mono (fun _ h => h) (fun _ _ h => h.poised hframed)
      (fun _ h => h) s rfl
  | false =>
    exact stackMachineState_short_pushing.mono (fun _ h => h) (fun _ _ h => h.poised hframed)
      (fun _ h => h) s rfl

omit [Bus β] in
theorem charge_poised (n : ℤ) :
    Triple (Poised (β := β) e k) (charge n) (fun _ => Poised e (k - n)) Anywhere :=
  Triple.modify fun _ h => ⟨congrArg (· - n) h.clk, h.EFI, h.ccChanged, h.cwaiState⟩

theorem vector_poised (a : ℕ) : Triple (Poised (β := β) e k) (do changePc (← read16 a))
    (fun _ => Poised e k) Anywhere := by
  refine Triple.bind (Q := fun _ => Poised e k) ?_ fun _ => ?_
  · intro s h
    rw [read16_run]
    cases Bus.cpuRead16 (getPc s) a s.bus with
    | ok v b => exact ⟨h.clk, h.EFI, h.ccChanged, h.cwaiState⟩
    | error e b => trivial
  · exact Triple.modify fun _ h => ⟨h.clk, h.EFI, h.ccChanged, h.cwaiState⟩

omit [Bus β] in
theorem mask_poised (m : ℕ) :
    Triple (Poised (β := β) e k) (mask m) (fun _ => Poised (e ||| m) k) Anywhere :=
  fun _ h => ⟨h.clk, congrArg (· ||| m) h.EFI, h.ccChanged, h.cwaiState⟩

theorem enter_poised (full : Bool) : Triple (Poised (β := β) e k) (enterInterrupt full)
    (fun _ => Poised (if full then e ||| E_FLAG else e &&& unot E_FLAG) (k - frameClks full))
    Anywhere := by
  intro s hs
  rw [enterInterrupt_idle full hs.cwaiState]
  exact frame_poised full s hs

theorem swi2_poised :
    Triple (Poised (β := β) e k) swi2 (fun _ => Poised (e ||| E_FLAG) (k - 1 - 19)) Anywhere := by
  unfold swi2
  exact (charge_poised 1).bind fun _ => (frame_poised true).bind fun _ => vector_poised _

theorem irq_poised :
    Triple (Poised (β := β) e k) irq (fun _ => Poised (e ||| E_FLAG ||| I_FLAG) (k - 19)) Anywhere := by
  unfold irq
  refine (enter_poised true).bind fun _ => (mask_poised _).bind fun _ => ?_
  have hstart : Triple (Poised (β := β) (e ||| E_FLAG ||| I_FLAG) (k - 19)) (setIrqStartTime getCycles)
      (fun _ => Poised (e ||| E_FLAG ||| I_FLAG) (k - 19)) Anywhere :=
    Triple.modify fun _ h => ⟨h.clk, h.EFI, h.ccChanged, h.cwaiState⟩
  exact hstart.bind fun _ => vector_poised _

theorem firq_poised : Triple (Poised (β := β) e k) firq
    (fun _ => Poised ((e &&& unot E_FLAG) ||| (I_FLAG ||| F_FLAG)) (k - 6)) Anywhere := by
  unfold firq
  exact (enter_poised false).bind fun _ => (mask_poised _).bind fun _ => vector_poised _

end Entries

/-- A machine that delivers the bytes of a list one after the other, then zeros. -/
def CodeStream := List U8

instance : Bus CodeStream where
  cpuRead8 _ _ := fun l => .ok (List.headD l 0) (List.tail l)
  cpuRead16 _ _ := fun l => .ok 0 l
  cpuWrite8 _ _ _ := fun l => .ok () l
  simError := throw (.exit 2)
  cpuIsRunning := id

section Stream

/-! Its accesses always succeed. -/

instance look_total {β α : Type} (p : Cpu β → α) : StopsFor (fun _ => False) (look p) :=
  ⟨fun _ _ _ h => by cases h⟩

instance read16_total (a : ℕ) : StopsFor (fun _ => False) (read16 a : CpuM CodeStream ℕ) :=
  ⟨fun _ _ _ h => by cases h⟩

instance write8_total (a v : ℕ) : StopsFor (fun _ => False) (write8 a v : CpuM CodeStream Unit) :=
  ⟨fun _ _ _ h => by cases h⟩

instance push16_total (v : ℕ) : StopsFor (fun _ => False) (push16 .S v : CpuM CodeStream Unit) := by
  unfold push16 lowerStack setStackReg writeStack16
  infer_instance

instance push8_total (v : ℕ) : StopsFor (fun _ => False) (push8 .S v : CpuM CodeStream Unit) := by
  unfold push8 lowerStack setStackReg
  infer_instance

instance frame_total (full : Bool) :
    StopsFor (fun _ => False) (stackMachineState full : CpuM CodeStream Unit) := by
  unfold stackMachineState onlyIf beginFrame pushRegisters setEfi charge
  infer_instance

instance enterInterrupt_total (full : Bool) :
    StopsFor (fun _ => False) (enterInterrupt full : CpuM CodeStream Unit) := by
  unfold enterInterrupt
  refine StopsFor.seq inferInstance fun c => ?_
  cases c with
  | wait => exact StopsFor.modify _
  | idle => exact frame_total full

theorem swi2_total : StopsFor (fun _ => False) (swi2 : CpuM CodeStream Unit) := by
  unfold swi2 charge changePc
  infer_instance

theorem irq_total : StopsFor (fun _ => False) (irq : CpuM CodeStream Unit) := by
  unfold irq mask setEfi setIrqStartTime changePc
  infer_instance

theorem firq_total : StopsFor (fun _ => False) (firq : CpuM CodeStream Unit) := by
  unfold firq mask setEfi changePc
  infer_instance

variable {l : List U8} {k : ℤ} {s : Cpu CodeStream}

/-- What is known of a poised state, written into it. -/
theorem Poised.eq (hbus : s.bus = l) (h : Poised 0 k s) :
    s = { s with bus := l, cpuClk := k, EFI := 0, ccChanged := false, cwaiState := .idle } := by
  rw [← hbus, ← h.clk, ← h.EFI, ← h.ccChanged, ← h.cwaiState]

/-- NOP. -/
theorem nop_stream (hbus : s.bus = (0x12 :: l : List U8)) (h : Poised 0 k s) :
    ∃ t, iteration [] s = .ok () t ∧ t.bus = l ∧ Poised 0 (k - 2) t := by
  rw [h.eq hbus]
  exact ⟨_, rfl, rfl, rfl, rfl, rfl, rfl⟩

/-- A branch to itself. -/
theorem bra_stream (hbus : s.bus = (0x20 :: 0xfe :: l : List U8)) (h : Poised 0 k s) :
    ∃ t, iteration [] s = .ok () t ∧ t.bus = l ∧ Poised 0 (k - 3) t := by
  rw [h.eq hbus]
  exact ⟨_, rfl, rfl, rfl, rfl, rfl, rfl⟩

theorem cpuStep_swi2 (hbus : s.bus = (0x10 :: 0x3f :: l : List U8)) (h : Poised 0 k s) :
    ∃ t, cpuStep s = .ok () t ∧ Poised E_FLAG (k - 1 - 19) t := by
  have hfetch : ∃ s₁, fetchOpcode (latchPc s) = .ok (.insn .swi2) s₁ ∧ Poised 0 k s₁ := by
    rw [h.eq hbus]
    exact ⟨_, rfl, rfl, rfl, rfl, rfl⟩
  obtain ⟨s₁, hop, hs₁⟩ := hfetch
  obtain ⟨⟨⟩, t, hexec⟩ := swi2_total.total s₁
  have ht := swi2_poised.of_ok hs₁ hexec
  refine ⟨t, ?_, ht⟩
  have hinsn : fetchExecute s = .ok () t := by
    rw [fetchExecute, run_bind_ok (run_modify latchPc), run_bind_ok hop]
    exact hexec
  rw [cpuStep, run_bind_ok hinsn, run_bind_ok (run_look _ _), ht.ccChanged]
  rfl

/-- SWI2 masks no interrupt: an IRQ and after it a FIRQ stack their frames too. -/
theorem swi2_stream (hbus : s.bus = (0x10 :: 0x3f :: l : List U8)) (h : Poised 0 k s) :
    ∃ t, iteration [.requestIrq 0, .requestFirq 0] s = .ok () t ∧ t.cpuClk = k - 45 := by
  obtain ⟨t, hstep, ht⟩ := cpuStep_swi2 hbus h
  have ht' : Poised E_FLAG (k - 1 - 19) { t with irqsPending := t.irqsPending ||| (1 <<< 0) } :=
    ⟨ht.clk, ht.EFI, ht.ccChanged, ht.cwaiState⟩
  obtain ⟨⟨⟩, u, hirq⟩ := irq_total.total { t with irqsPending := t.irqsPending ||| (1 <<< 0) }
  have hu := irq_poised.of_ok ht' hirq
  have hu' : Poised (E_FLAG ||| E_FLAG ||| I_FLAG) (k - 1 - 19 - 19)
      { u with firqsPending := u.firqsPending ||| (1 <<< 0) } :=
    ⟨hu.clk, hu.EFI, hu.ccChanged, hu.cwaiState⟩
  obtain ⟨⟨⟩, v, hfirq⟩ := firq_total.total { u with firqsPending := u.firqsPending ||| (1 <<< 0) }
  have hv := firq_poised.of_ok hu' hfirq
  have hirqOpen : t.EFI &&& I_FLAG = 0 := by
    rw [ht.EFI]
    rfl
  have hfirqOpen : u.EFI &&& F_FLAG = 0 := by
    rw [hu.EFI]
    rfl
  have hfirst : requestIrq 0 t = .ok () u := by
    rw [requestIrq, run_bind_ok (run_modify _), run_bind_ok (run_look _ _), if_pos hirqOpen]
    exact hirq
  have hsecond : requestFirq 0 u = .ok () v := by
    rw [requestFirq, run_bind_ok (run_modify _), run_bind_ok (run_look _ _), if_pos hfirqOpen]
    exact hfirq
  refine ⟨v, ?_, by rw [hv.clk]; omega⟩
  rw [iteration, run_bind_ok hstep, runAll, DeviceCall.perform, run_bind_ok hfirst, runAll,
    DeviceCall.perform, run_bind_ok hsecond]
  rfl

/-- The machine as it is switched on. -/
def streamOn (l : List U8) : Cpu CodeStream := Cpu.powerOn l

/-- With `k` cycles left, some code makes the slice end 44 cycles late. -/
def Late (k : ℕ) : Prop :=
  ∃ (calls : ℕ → List DeviceCall) (l : List U8), ∀ (fuel : ℕ) (s : Cpu CodeStream), k ≤ fuel →
    s.bus = l → Poised 0 k s →
      ∃ u, countdown Cpu.cpuClk (fun i => iteration (calls i)) fuel s = .ok true u ∧ u.cpuClk = -44

theorem late_one : Late 1 := by
  refine ⟨fun _ => [.requestIrq 0, .requestFirq 0], [0x10, 0x3f], fun fuel s hfuel hbus h => ?_⟩
  obtain ⟨fuel, rfl⟩ := Nat.exists_eq_succ_of_ne_zero (by omega : fuel ≠ 0)
  obtain ⟨u, hrun, hclk⟩ := swi2_stream (l := []) hbus h
  refine ⟨u, ?_, hclk⟩
  rw [countdown, run_bind_ok hrun, run_bind_ok run_get, hclk]
  rfl

/-- An iteration without calls before. -/
def quietFirst (calls : ℕ → List DeviceCall) : ℕ → List DeviceCall
  | 0 => []
  | i + 1 => calls i

/-- An instruction before. -/
theorem Late.after {k n : ℕ} (h : Late (k + 1)) (insn : List U8)
    (hinsn : ∀ {l : List U8} {c : ℤ} {s : Cpu CodeStream}, s.bus = (insn ++ l : List U8) →
      Poised 0 c s → ∃ t, iteration [] s = .ok () t ∧ t.bus = l ∧ Poised 0 (c - (n + 1 : ℕ)) t) :
    Late (k + 1 + (n + 1)) := by
  obtain ⟨calls, l, h⟩ := h
  refine ⟨quietFirst calls, insn ++ l, fun fuel s hfuel hbus hs => ?_⟩
  obtain ⟨fuel, rfl⟩ := Nat.exists_eq_succ_of_ne_zero (by omega : fuel ≠ 0)
  obtain ⟨t, hrun, hbus', ht⟩ := hinsn hbus hs
  have hclk : ((k + 1 + (n + 1) : ℕ) : ℤ) - (n + 1 : ℕ) = (k + 1 : ℕ) := by
    push_cast
    omega
  rw [hclk] at ht
  obtain ⟨u, hloop, hend⟩ := h fuel t (by omega) hbus' ht
  have hgoes : 0 < t.cpuClk := by
    rw [ht.clk]
    omega
  refine ⟨u, ?_, hend⟩
  rw [countdown, quietFirst, run_bind_ok hrun, run_bind_ok run_get, if_pos hgoes]
  exact hloop

/-- Branches to itself take three cycles each, and at most two NOPs the rest. -/
theorem late_all : ∀ k, Late (k + 3)
  | 0 => late_one.after (n := 1) [0x12] nop_stream
  | 1 => late_one.after (n := 2) [0x20, 0xfe] bra_stream
  | 2 => (late_one.after (n := 1) [0x12] nop_stream).after (n := 1) [0x12] nop_stream
  | k + 3 => (late_all k).after (n := 2) [0x20, 0xfe] bra_stream

end Stream

/-! ## The exact limit -/

theorem toInt_beyond {n : ℤ} (hlo : 2 ^ 31 ≤ n) (hhi : n < 2 ^ 32) : toInt n < 0 := by
  rw [toInt, Int.bmod]
  split <;> omega

/-- A run from its loop. -/
theorem cpuExecute_of_loop [Bus β] {calls : ℕ → List DeviceCall} {fuel : ℕ} {cycles : ℤ} {s u : Cpu β}
    (hloop : countdown Cpu.cpuClk (fun k => iteration (calls k)) fuel
      { s with cpuPeriod := cycles, cpuClk := cycles } = .ok true u) :
    ∃ t, cpuExecute calls fuel cycles s = .ok (some (toInt (cycles - u.cpuClk))) t := by
  have hperiod := loop_period hloop
  have hexit : ∃ t, cpuExit u = .ok (toInt (u.cpuPeriod - u.cpuClk)) t := ⟨_, rfl⟩
  obtain ⟨t, ht⟩ := hexit
  refine ⟨t, ?_⟩
  rw [cpuExecute, beginSlice, run_bind_ok (run_modify _), run_bind_ok hloop, if_pos rfl,
    run_bind_ok ht, hperiod]
  rfl

theorem Counted.le [Bus β] {calls : ℕ → List DeviceCall} {cycles n : ℤ} {s t : Cpu β}
    (h : Counted calls cycles s (some n) t) : cycles ≤ n := by
  obtain ⟨-, -, n', hv, -, -, -, -, hle, -⟩ := h
  cases hv
  exact hle

theorem cpuExecute_late {cycles : ℤ} (hlow : 2147483603 < cycles) (hhigh : cycles < 2 ^ 31) :
    ¬AlwaysCounted cycles := by
  intro h
  obtain ⟨k, rfl⟩ : ∃ k : ℕ, cycles = (k + 3 : ℕ) := ⟨(cycles - 3).toNat, by omega⟩
  obtain ⟨calls, l, hlate⟩ := late_all k
  obtain ⟨u, hloop, hend⟩ := hlate (k + 3)
    { streamOn l with cpuPeriod := (k + 3 : ℕ), cpuClk := (k + 3 : ℕ) } le_rfl rfl
    ⟨rfl, rfl, rfl, rfl⟩
  obtain ⟨t, hrun⟩ := cpuExecute_of_loop (s := streamOn l) hloop
  have hle := (h CodeStream inferInstance calls (k + 3) (streamOn l) t _ le_rfl hrun).le
  have hneg : toInt ((k + 3 : ℕ) - u.cpuClk) < 0 := by
    rw [hend]
    exact toInt_beyond (by omega) (by omega)
  omega

theorem slice_counted_iff {cycles : ℤ} (hpos : 1 ≤ cycles) (hint : cycles < 2 ^ 31) :
    AlwaysCounted cycles ↔ cycles ≤ 2147483603 := by
  constructor
  · intro h
    by_contra hlimit
    exact cpuExecute_late (not_le.mp hlimit) hint h
  · intro hlimit β I calls fuel s t v hfuel h
    exact @cpuExecute_counted β I.trapping calls cycles fuel s t v (traps_trapping I) hpos hlimit
      hfuel h

theorem slice_counted_tick : AlwaysCounted 20000 :=
  (slice_counted_iff (by decide) (by decide)).mpr (by decide)

/-! A branch to itself in RAM: the longest slice of type `int` ends two cycles late. -/

section Spin

def spinRam : FlatRam := fun a => if a = 0x1000 then 0x20 else 0xfe

def spin : Cpu FlatRam := { Cpu.powerOn spinRam with PC := 0x1000 }

structure Spinning (k : ℤ) (s : Cpu FlatRam) : Prop where
  bus : s.bus = spin.bus
  PC : s.PC = 0x1000
  clk : s.cpuClk = k
  ccChanged : s.ccChanged = false
  cwaiState : s.cwaiState = .idle

theorem spinning_step {k : ℤ} {s : Cpu FlatRam} (h : Spinning k s) :
    ∃ t, iteration [] s = .ok () t ∧ Spinning (k - 3) t := by
  obtain ⟨hbus, hpc, hclk, hcc, hidle⟩ := h
  cases s
  cases hbus
  cases hpc
  cases hclk
  cases hcc
  cases hidle
  refine ⟨_, rfl, rfl, ?_, rfl, rfl, rfl⟩
  dsimp only [latchPc]
  decide

theorem spinning_loop (n fuel : ℕ) {s : Cpu FlatRam} (hfuel : n < fuel) (h : Spinning (3 * n + 1) s) :
    ∃ u, countdown Cpu.cpuClk (fun _ => iteration []) fuel s = .ok true u ∧ u.cpuClk = -2 := by
  induction n generalizing s fuel with
  | zero =>
    obtain ⟨u, hrun, hu⟩ := spinning_step h
    obtain ⟨fuel, rfl⟩ := Nat.exists_eq_succ_of_ne_zero (by omega : fuel ≠ 0)
    refine ⟨u, ?_, hu.clk⟩
    rw [countdown, run_bind_ok hrun, run_bind_ok run_get, hu.clk]
    rfl
  | succ n ih =>
    obtain ⟨t, hrun, ht⟩ := spinning_step h
    obtain ⟨fuel, rfl⟩ := Nat.exists_eq_succ_of_ne_zero (by omega : fuel ≠ 0)
    have hclk : (3 * (n + 1 : ℕ) + 1 : ℤ) - 3 = 3 * n + 1 := by
      push_cast
      omega
    rw [hclk] at ht
    obtain ⟨u, hloop, hend⟩ := ih fuel (by omega) ht
    refine ⟨u, ?_, hend⟩
    have hgoes : 0 < t.cpuClk := by
      rw [ht.clk]
      omega
    rw [countdown, run_bind_ok hrun, run_bind_ok run_get, if_pos hgoes]
    exact hloop

/-- One cycle past a multiple of three, the last branch ends two cycles late. -/
theorem spinning_late (n : ℕ) (hlow : 2 ^ 31 ≤ (3 * n + 1 : ℤ) + 2)
    (hhigh : (3 * n + 1 : ℤ) + 2 < 2 ^ 32) : ¬AlwaysCounted (3 * n + 1) := by
  intro h
  obtain ⟨u, hloop, hend⟩ := spinning_loop n (3 * n + 1)
    (s := { spin with cpuPeriod := 3 * n + 1, cpuClk := 3 * n + 1 }) (by omega)
    ⟨rfl, rfl, rfl, rfl, rfl⟩
  obtain ⟨t, hrun⟩ := cpuExecute_of_loop hloop
  have hle := (h FlatRam inferInstance (fun _ => []) (3 * n + 1) spin t _ (by omega) hrun).le
  have hneg : toInt (3 * n + 1 - u.cpuClk) < 0 := by
    rw [hend]
    exact toInt_beyond (by omega) (by omega)
  omega

theorem spin_not_counted : ¬∀ cycles : ℤ, 1 ≤ cycles → cycles < 2 ^ 31 → AlwaysCounted cycles := by
  intro h
  obtain ⟨n, hn⟩ : ∃ n : ℕ, (3 * n + 1 : ℤ) = 2147483647 := by
    use (2147483646 / 3 : ℤ).toNat
    omega
  exact spinning_late n (by omega) (by omega) (h _ (by omega) (by omega))

end Spin

end Exec09
