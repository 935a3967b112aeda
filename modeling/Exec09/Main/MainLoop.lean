import Exec09.Cpu.CpuExecute

/-! # Programs that do not end

The main loop counts the cycles of its slices in `total`, and calls `sim_error`
when they exceed the limit of `-m`. Where that ends the emulator, a program
that does not end is ended, not much later than the limit says.
-/
namespace Exec09
open Foundation
variable {β : Type}

/-- `max_cycles` and `cycles_per_tick`. -/
structure LoopOptions where
  maxCycles : ℤ
  cyclesPerTick : ℕ
  deriving DecidableEq, Repr

/-- The argument of `cpu_execute`, for `mhz = 1`. -/
def LoopOptions.slice (o : LoopOptions) : ℤ :=
  if o.cyclesPerTick = 0 then 1024 else toInt o.cyclesPerTick

/-- What the devices do to the interrupt lines during a round of the loop. -/
structure RoundCalls where
  update : List DeviceCall
  /-- The calls in each iteration of `cpu_execute`. -/
  execute : ℕ → List DeviceCall
  tick : List DeviceCall
  periodic : List DeviceCall

section Rounds
variable [Bus β]

/-- A round of the loop of `main` in which the monitor is not entered. -/
def mainRound (o : LoopOptions) (w : RoundCalls) : CpuM β Unit := do
  runAll DeviceCall.perform w.update
  let n ← cpuExecute w.execute o.slice.toNat o.slice
  modify (addTotal (n.getD 0))
  runAll DeviceCall.perform (if o.cyclesPerTick = 0 then [] else w.tick)
  runAll DeviceCall.perform w.periodic
  if 0 < o.maxCycles ∧ o.maxCycles < (← look Cpu.total) then simError

def mainLoop (o : LoopOptions) (ws : List RoundCalls) : CpuM β Unit := runAll (mainRound o) ws

end Rounds

/-! ## The counter -/

/-- The cycles of the slices that have ended. -/
def TotalIs (n : ℕ) (s : Cpu β) : Prop := s.total = n

theorem total_of_since {n : ℕ} {m : CpuM β Unit}
    (h : ∀ x : Mark, x.bound = none → Keeps x.Since m) : Keeps (TotalIs n) m where
  keeps s hs := ((h (mark s none) rfl).keeps s (since_free s)).total.trans hs

section Counter
variable [Bus β] {n : ℕ}

instance deviceCall_total (d : DeviceCall) : Keeps (TotalIs (β := β) n) d.perform := by
  have hirq : Keeps (TotalIs (β := β) n) irq := total_of_since fun _ _ => inferInstance
  have hfirq : Keeps (TotalIs (β := β) n) firq := total_of_since fun _ _ => inferInstance
  have hset {g : Cpu β → Cpu β} (hg : ∀ s, (g s).total = s.total) :
      Keeps (TotalIs n) (modify g : CpuM β PUnit) := Keeps.modify fun s hs => (hg s).trans hs
  cases d with
  | getCycles => exact Keeps.pure ()
  | requestIrq source =>
    have hpending : Keeps (TotalIs (β := β) n)
        (modify fun s => { s with irqsPending := s.irqsPending ||| (1 <<< source) }) :=
      hset fun _ => rfl
    unfold DeviceCall.perform requestIrq
    infer_instance
  | requestFirq source =>
    have hpending : Keeps (TotalIs (β := β) n)
        (modify fun s => { s with firqsPending := s.firqsPending ||| (1 <<< source) }) :=
      hset fun _ => rfl
    unfold DeviceCall.perform requestFirq
    infer_instance
  | releaseIrq source => exact hset fun _ => rfl
  | releaseFirq source => exact hset fun _ => rfl

instance calls_total (ds : List DeviceCall) :
    Keeps (TotalIs (β := β) n) (runAll DeviceCall.perform ds) :=
  Keeps.iff_triple.mpr (runAll_keeps (fun d => Keeps.iff_triple.mp (deviceCall_total d)) ds)

instance iteration_total (calls : List DeviceCall) : Keeps (TotalIs (β := β) n) (iteration calls) := by
  have hstep : Keeps (TotalIs (β := β) n) cpuStep := total_of_since fun _ => cpuStep_since_free
  unfold iteration
  infer_instance

instance cpuExecute_total (calls : ℕ → List DeviceCall) (fuel : ℕ) (cycles : ℤ) :
    Keeps (TotalIs (β := β) n) (cpuExecute calls fuel cycles) := by
  have hslice : Keeps (TotalIs (β := β) n) (beginSlice cycles) := Keeps.modify fun _ hs => hs
  have hcount : Keeps (TotalIs (β := β) n)
      (countdown Cpu.cpuClk (fun k => iteration (calls k)) fuel) :=
    countdown_keeps (fun k => iteration_total (calls k)) fuel
  have hexit : Keeps (TotalIs (β := β) n) cpuExit := by
    unfold cpuExit
    refine Keeps.seq (Keeps.modify fun _ hs => hs) fun _ => ?_
    exact Keeps.seq (Keeps.modify fun _ hs => hs) fun _ => look_keeps _
  unfold cpuExecute
  infer_instance

end Counter

/-! ## Rounds -/

section Bounds
variable [Bus β] {o : LoopOptions} {calls : ℕ → List DeviceCall} {s t : Cpu β}

/-- The options that a slice can be counted for. -/
structure LoopOptions.Sound (o : LoopOptions) : Prop where
  limited : 0 < o.maxCycles
  int : o.maxCycles < 2 ^ 31
  tick : o.cyclesPerTick ≤ 2147483603

theorem LoopOptions.slice_range (h : o.Sound) : 1 ≤ o.slice ∧ o.slice ≤ 2147483603 := by
  have htick := h.tick
  rw [slice]
  split
  · decide
  · rw [toInt_of_fits (by omega) (by omega)]
    omega

/-- A slice that returns has run for its cycles, and at most 44 more. -/
theorem cpuExecute_slice (htraps : Traps β) (h : o.Sound) {v : Option ℤ}
    (hrun : cpuExecute calls o.slice.toNat o.slice s = .ok v t) :
    ∃ n, v = some n ∧ o.slice ≤ n ∧ n ≤ o.slice + 44 := by
  obtain ⟨hpos, hlimit⟩ := o.slice_range h
  obtain ⟨l, u, hl, -, hv, -⟩ := cpuExecute_run htraps hpos (by omega) hrun
  have hstart : (0 : ℤ) < Cpu.cpuClk { s with cpuPeriod := o.slice, cpuClk := o.slice } := by
    dsimp only
    omega
  have hend := hl.ends
  have hover := hl.overshoot (fun k => iteration_costs htraps (calls k)) hstart
  rw [toInt_of_fits (by omega) (by omega)] at hv
  exact ⟨_, hv, by omega, by omega⟩

def TotalWithin (low high : ℤ) (s : Cpu β) : Prop := low ≤ s.total ∧ (s.total : ℤ) ≤ high

omit [Bus β] in
/-- What leaves the counter alone leaves it within its bounds. -/
theorem keeps_between {low high : ℤ} {m : CpuM β Unit} (hm : ∀ n, Keeps (TotalIs n) m) :
    Keeps (TotalWithin low high) m where
  keeps s hs := by
    have hsame : (finalState (m s)).total = s.total := (hm s.total).keeps s rfl
    rwa [TotalWithin, hsame]

theorem cpuExecute_counts (htraps : Traps β) (h : o.Sound) (n : ℕ) :
    Triple (TotalIs (β := β) n) (cpuExecute calls o.slice.toNat o.slice)
      (fun v t => TotalIs n t ∧ ∃ k, v = some k ∧ o.slice ≤ k ∧ k ≤ o.slice + 44) (TotalIs n) := by
  intro s hs
  have hkept := (cpuExecute_total calls o.slice.toNat o.slice).keeps s hs
  cases hrun : cpuExecute calls o.slice.toNat o.slice s with
  | ok v t =>
    rw [hrun] at hkept
    exact ⟨hkept, cpuExecute_slice htraps h hrun⟩
  | error e t =>
    rw [hrun] at hkept
    exact hkept

omit [Bus β] in
theorem addTotal_counts (h : o.Sound) {n : ℕ} (hn : (n : ℤ) ≤ o.maxCycles) {v : Option ℤ}
    {E : Cpu β → Prop} :
    Triple (fun t => TotalIs n t ∧ ∃ k, v = some k ∧ o.slice ≤ k ∧ k ≤ o.slice + 44)
      (modify (addTotal (v.getD 0)) : CpuM β Unit)
      (fun _ => TotalWithin (n + o.slice) (o.maxCycles + o.slice + 44)) E := by
  obtain ⟨hpos, hlimit⟩ := o.slice_range h
  have hint := h.int
  apply Triple.modify
  rintro t ⟨ht, k, rfl, hlow, hhigh⟩
  have htotal : ((addTotal k t).total : ℤ) = n + k := by
    change ((((t.total : ℤ) + k) % 2 ^ 64).toNat : ℤ) = n + k
    rw [show t.total = n from ht]
    omega
  rw [Option.getD_some]
  exact ⟨by rw [htotal]; omega, by rw [htotal]; omega⟩

/-- The counter within its limits at the end of a round, and beyond them by less than a slice
where the emulator ends. -/
theorem mainRound_counts (htraps : Traps β) (h : o.Sound) (w : RoundCalls) {n : ℕ}
    (hn : (n : ℤ) ≤ o.maxCycles) :
    Triple (TotalIs (β := β) n) (mainRound o w)
      (fun _ => TotalWithin (n + o.slice) o.maxCycles)
      fun t => (t.total : ℤ) ≤ o.maxCycles + o.slice + 44 := by
  have hpos := (o.slice_range h).1
  have hearly (t : Cpu β) (ht : TotalIs n t) : (t.total : ℤ) ≤ o.maxCycles + o.slice + 44 := by
    rw [show t.total = n from ht]
    omega
  have hstays {m : CpuM β Unit} (hm : Keeps (TotalWithin (n + o.slice) (o.maxCycles + o.slice + 44)) m) :
      Triple (TotalWithin (n + o.slice) (o.maxCycles + o.slice + 44)) m
        (fun _ => TotalWithin (n + o.slice) (o.maxCycles + o.slice + 44))
        fun t => (t.total : ℤ) ≤ o.maxCycles + o.slice + 44 :=
    (Keeps.iff_triple.mp hm).mono (fun _ hs => hs) (fun _ _ hs => hs) fun _ hs => hs.2
  have hends : Keeps (TotalWithin (β := β) (n + o.slice) (o.maxCycles + o.slice + 44)) simError :=
    keeps_between fun _ => total_of_since fun _ _ => inferInstance
  have hcalls (ds : List DeviceCall) :
      Keeps (TotalWithin (β := β) (n + o.slice) (o.maxCycles + o.slice + 44))
        (runAll DeviceCall.perform ds) := keeps_between fun _ => calls_total ds
  unfold mainRound
  refine ((Keeps.iff_triple.mp (calls_total w.update)).mono (fun _ hs => hs) (fun _ _ hs => hs)
    hearly).bind fun _ => ?_
  refine ((cpuExecute_counts htraps h n).mono (fun _ hs => hs) (fun _ _ hs => hs)
    hearly).bind fun v => ?_
  refine (addTotal_counts h hn).bind fun _ => ?_
  refine (hstays (hcalls _)).bind fun _ => ?_
  refine (hstays (hcalls w.periodic)).bind fun _ => ?_
  intro t ht
  rw [run_bind_ok (run_look _ t)]
  by_cases hover : 0 < o.maxCycles ∧ o.maxCycles < t.total
  · rw [if_pos hover]
    have hstops := simError_never htraps (fun _ => True) t trivial
    have hkept := hends.keeps t ht
    cases hrun : simError t with
    | ok _ u => rw [hrun] at hstops; exact hstops.elim
    | error e u =>
      rw [hrun] at hkept
      exact hkept.2
  · rw [if_neg hover]
    exact ⟨ht.1, not_lt.mp fun hhigh => hover ⟨h.limited, hhigh⟩⟩

theorem mainLoop_counts (htraps : Traps β) (h : o.Sound) (ws : List RoundCalls) {n : ℕ}
    (hn : (n : ℤ) ≤ o.maxCycles) :
    Triple (TotalIs (β := β) n) (mainLoop o ws)
      (fun _ => TotalWithin (n + ws.length * o.slice) o.maxCycles)
      fun t => (t.total : ℤ) ≤ o.maxCycles + o.slice + 44 := by
  induction ws generalizing n with
  | nil =>
    apply Triple.pure
    rintro t rfl
    exact ⟨by simp, hn⟩
  | cons w ws ih =>
    refine (mainRound_counts htraps h w hn).bind fun _ t ht => ?_
    have hrest : Triple (TotalIs (β := β) t.total) (mainLoop o ws)
        (fun _ => TotalWithin (n + (w :: ws).length * o.slice) o.maxCycles)
        fun t => (t.total : ℤ) ≤ o.maxCycles + o.slice + 44 := by
      refine (ih ht.2).mono (fun _ hs => hs) (fun _ u hu => ⟨?_, hu.2⟩) fun _ hs => hs
      have hfirst := ht.1
      have hlow := hu.1
      rw [List.length_cons, Nat.cast_add, add_mul]
      omega
    exact hrest t rfl

/-- With a limit, and where `sim_error` ends the emulator, no program keeps the main loop going:
it goes on only as long as the counter, which every round raises by a slice at least, is within the
limit, and when it ends the counter is not a slice and 44 cycles beyond it. -/
theorem mainLoop_stops (htraps : Traps β) (h : o.Sound) (ws : List RoundCalls) (s : Cpu β)
    (hs : s.total = 0) :
    ((finalState (mainLoop o ws s)).total : ℤ) ≤ o.maxCycles + o.slice + 44 ∧
      (o.maxCycles < ws.length * o.slice → returned (mainLoop o ws s) = false) := by
  have hpos := (o.slice_range h).1
  have hlimited := h.limited
  have hloop := mainLoop_counts htraps h ws (n := 0) (by omega) s hs
  cases hrun : mainLoop o ws s with
  | ok _ t =>
    rw [hrun] at hloop
    obtain ⟨hlow, hhigh⟩ := hloop
    exact ⟨by rw [finalState]; omega, fun hlong => absurd hlong (by omega)⟩
  | error e t =>
    rw [hrun] at hloop
    exact ⟨hloop, fun _ => rfl⟩

theorem mainLoop_stops_nop : returned (mainLoop ⟨1000, 0⟩ [⟨[], fun _ => [], [], []⟩]
    (Cpu.powerOn (β := FlatRam) fun _ => 0x12)) = false :=
  (mainLoop_stops (fun _ => rfl) ⟨by decide, by decide, by decide⟩ _ _ rfl).2 (by decide)

end Bounds

end Exec09
