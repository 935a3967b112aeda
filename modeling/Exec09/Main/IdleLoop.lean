import Exec09.Cpu.State
import Exec09.Debugger.Breakpoints

/-! # Emulated time against real time

`idle_loop` is called after every slice and takes a sample at every 30th call.
It counts emulated milliseconds, calls the periodic hooks about every 100 of
them, and sleeps when the emulator is ahead of the real clock.
-/
namespace Exec09
open Foundation Debugger

/-- `struct timeval`. -/
structure Timeval where
  sec : ℤ
  usec : ℤ
  deriving DecidableEq, Repr

def Timeval.micros (t : Timeval) : ℤ := 1000000 * t.sec + t.usec

def timeDiff (old new : Timeval) : ℤ :=
  (new.usec - old.usec).tdiv 1000 + (new.sec - old.sec) * 1000

/-- The static variables of `idle_loop`, and how often it has called the hooks and slept. -/
structure Idle where
  last : Timeval
  lastCycles : BitVec 64
  count : ℤ
  totalMsElapsed : ℤ
  cumulativeDelay : ℤ
  periodics : ℕ
  sleeps : ℕ
  deriving DecidableEq, Repr

def Idle.start : Idle := ⟨⟨0, 0⟩, 0, 30, 0, 0, 0, 0⟩

/-- What a call reads if it takes a sample. Only the first sample reads the clock twice. -/
structure Reading where
  first : Timeval
  now : Timeval
  cycles : BitVec 64
  deriving DecidableEq, Repr

/-- `sim_ms`, an `int`. -/
def simMs (last cycles : BitVec 64) : ℤ :=
  let ms := toInt ((cycles - last) / 2000).toNat
  if ms < 0 then ms + 2000 else ms

abbrev IdleM (τ : Type) := EStateM Crash (Idle × State τ)

section Calls
variable {τ : Type}

def modifyIdle (g : Idle → Idle) : IdleM τ Unit := modify fun s => (g s.1, s.2)

/-- The hooks that are called every 100 ms. -/
def callPeriodic : IdleM τ Unit := fun s =>
  match commandPeriodic s.2 with
  | .ok _ t => .ok () ({ s.1 with periodics := s.1.periodics + 1 }, t)
  | .error e t => .error e (s.1, t)

def Idle.delay (delay : ℤ) (i : Idle) : Idle :=
  let i := { i with cumulativeDelay := i.cumulativeDelay + delay }
  if 0 < i.cumulativeDelay then
    { i with cumulativeDelay := i.cumulativeDelay - 50, sleeps := i.sleeps + 1 }
  else i

/-- The clock at the last sample. The first sample takes the time before it. -/
def lastClock (i : Idle) (r : Reading) : Timeval := if i.last = ⟨0, 0⟩ then r.first else i.last

/-- `real_ms`, an `int`. -/
def realMs (i : Idle) (r : Reading) : ℤ := toInt (timeDiff (lastClock i r) r.now)

def countPeriod : IdleM τ Unit := do
  if 100 < (← get).1.totalMsElapsed then
    modifyIdle fun i => { i with totalMsElapsed := i.totalMsElapsed - 100 }
    callPeriodic

def takeSample (r : Reading) : IdleM τ Unit := do
  let i := (← get).1
  let sim := simMs i.lastCycles r.cycles
  modifyIdle fun i => { i with
    last := r.now, lastCycles := r.cycles, totalMsElapsed := i.totalMsElapsed + sim }
  countPeriod
  modifyIdle (Idle.delay (sim - realMs i r))
  modifyIdle fun i => { i with count := 30 }

def idleLoop (r : Reading) : IdleM τ Unit := do
  modifyIdle fun i => { i with count := i.count - 1 }
  if (← get).1.count ≤ 0 then takeSample r

/-! ## Calls as functions -/

/-- What `command_periodic` does. -/
def periodic (s : State τ) : State τ :=
  if s.stopAfterMs = 0 then s
  else if s.stopAfterMs ≤ 100 then
    { s with monitorOn := true, stopRequested := true, stopAfterMs := 0 }
  else { s with stopAfterMs := s.stopAfterMs - 100 }

theorem commandPeriodic_run (s : State τ) : commandPeriodic s = .ok () (periodic s) := by
  rw [commandPeriodic, run_bind_ok run_get, periodic]
  by_cases hzero : s.stopAfterMs = 0
  · rw [if_neg (not_not.mpr hzero), if_pos hzero]
    rfl
  · rw [if_pos hzero, if_neg hzero, run_bind_ok (run_modify _), run_bind_ok run_get]
    by_cases hend : s.stopAfterMs ≤ 100
    · rw [if_pos (by dsimp only; omega), if_pos hend]
      rfl
    · rw [if_neg (by dsimp only; omega), if_neg hend]
      rfl

def Idle.counted (r : Reading) (i : Idle) : Idle :=
  let total := i.totalMsElapsed + simMs i.lastCycles r.cycles
  { i with
    last := r.now
    lastCycles := r.cycles
    totalMsElapsed := if 100 < total then total - 100 else total
    periodics := if 100 < total then i.periodics + 1 else i.periodics }

def Idle.sample (r : Reading) (i : Idle) : Idle :=
  { (i.counted r).delay (simMs i.lastCycles r.cycles - realMs i r) with count := 30 }

def Idle.next (i : Idle) (r : Reading) : Idle :=
  if 1 < i.count then { i with count := i.count - 1 } else i.sample r

theorem Idle.delay_periodics (i : Idle) (d : ℤ) : (i.delay d).periodics = i.periodics := by
  rw [delay]
  split <;> rfl

theorem Idle.delay_total (i : Idle) (d : ℤ) : (i.delay d).totalMsElapsed = i.totalMsElapsed := by
  rw [delay]
  split <;> rfl

theorem Idle.delay_last (i : Idle) (d : ℤ) : (i.delay d).last = i.last := by
  rw [delay]
  split <;> rfl

theorem Idle.delay_cycles (i : Idle) (d : ℤ) : (i.delay d).lastCycles = i.lastCycles := by
  rw [delay]
  split <;> rfl

theorem Idle.delay_count (i : Idle) (d c : ℤ) :
    Idle.delay d { i with count := c } = { i.delay d with count := c } := by
  simp only [delay]
  split <;> rfl

theorem Idle.next_periodics (i : Idle) (r : Reading) : (i.next r).periodics = i.periodics ∨
    (i.next r).periodics = i.periodics + 1 := by
  rw [next]
  split
  · exact .inl rfl
  · change (Idle.delay _ _).periodics = _ ∨ (Idle.delay _ _).periodics = _
    rw [delay_periodics]
    dsimp only [counted]
    split <;> simp

theorem callPeriodic_run (i : Idle) (s : State τ) :
    callPeriodic (i, s) = .ok () ({ i with periodics := i.periodics + 1 }, periodic s) := by
  rw [callPeriodic, commandPeriodic_run]

theorem takeSample_run (r : Reading) (i : Idle) (s : State τ) :
    takeSample r ({ i with count := i.count - 1 }, s) = .ok () (i.sample r,
      periodic^[(i.sample r).periodics - i.periodics] s) := by
  have hperiodics : (i.sample r).periodics = if 100 < i.totalMsElapsed + simMs i.lastCycles r.cycles
      then i.periodics + 1 else i.periodics := Idle.delay_periodics _ _
  have hperiod : countPeriod ({ i with
      count := i.count - 1, last := r.now, lastCycles := r.cycles,
      totalMsElapsed := i.totalMsElapsed + simMs i.lastCycles r.cycles }, s) = .ok ()
        ({ i.counted r with count := i.count - 1 },
          periodic^[(i.sample r).periodics - i.periodics] s) := by
    rw [countPeriod, run_bind_ok run_get, hperiodics, Idle.counted]
    by_cases hdue : 100 < i.totalMsElapsed + simMs i.lastCycles r.cycles
    · rw [if_pos hdue, if_pos hdue, if_pos hdue, Nat.add_sub_cancel_left]
      exact (run_bind_ok (run_modify _)).trans (callPeriodic_run _ s)
    · rw [if_neg hdue, if_neg hdue, if_neg hdue, Nat.sub_self]
      rfl
  rw [takeSample, run_bind_ok run_get]
  refine (run_bind_ok (run_modify _)).trans ((run_bind_ok hperiod).trans ?_)
  refine (run_bind_ok (run_modify _)).trans ?_
  have hdelay := Idle.delay_count (i.counted r) (simMs i.lastCycles r.cycles - realMs i r)
    (i.count - 1)
  exact congrArg (fun j : Idle => EStateM.Result.ok () ({ j with count := 30 }, _)) hdelay

theorem idleLoop_run (r : Reading) (i : Idle) (s : State τ) :
    idleLoop r (i, s) = .ok () (i.next r, periodic^[(i.next r).periodics - i.periodics] s) := by
  have hfirst : (modifyIdle fun i => { i with count := i.count - 1 } : IdleM τ Unit) (i, s)
      = .ok () ({ i with count := i.count - 1 }, s) := rfl
  rw [idleLoop, run_bind_ok hfirst, run_bind_ok run_get, Idle.next]
  by_cases hcount : 1 < i.count
  · rw [if_neg (by dsimp only; omega), if_pos hcount, Nat.sub_self]
    rfl
  · rw [if_pos (by dsimp only; omega), if_neg hcount, takeSample_run]

def Idle.run (i : Idle) (rs : List Reading) : Idle := rs.foldl Idle.next i

theorem Idle.run_periodics (rs : List Reading) (i : Idle) : i.periodics ≤ (i.run rs).periodics := by
  induction rs generalizing i with
  | nil => exact le_rfl
  | cons r rs ih =>
    have hfirst : i.periodics ≤ (i.next r).periodics := by
      rcases i.next_periodics r with h | h <;> omega
    exact hfirst.trans (ih (i.next r))

/-- A run calls the hooks as often as it counts. -/
theorem idleLoop_runs (rs : List Reading) (i : Idle) (s : State τ) :
    runAll idleLoop rs (i, s)
      = .ok () (i.run rs, periodic^[(i.run rs).periodics - i.periodics] s) := by
  induction rs generalizing i s with
  | nil =>
    change _ = EStateM.Result.ok () (i, periodic^[i.periodics - i.periodics] s)
    rw [Nat.sub_self]
    rfl
  | cons r rs ih =>
    have hfirst : i.periodics ≤ (i.next r).periodics := by
      rcases i.next_periodics r with h | h <;> omega
    have hrest := Idle.run_periodics rs (i.next r)
    rw [runAll, run_bind_ok (idleLoop_run r i s), ih, ← Function.iterate_add_apply]
    change _ = EStateM.Result.ok () ((i.next r).run rs, periodic^[((i.next r).run rs).periodics - _] s)
    congr 4
    omega

end Calls

/-! ## Emulated and real time -/

namespace Idle

/-- The emulated time since the start, in milliseconds. -/
def emulated (i : Idle) : ℤ := 100 * i.periodics + i.totalMsElapsed

/-- The real time since the first sample, in milliseconds. -/
def real (i : Idle) : ℤ := i.emulated - i.cumulativeDelay - 50 * i.sleeps

theorem sample_emulated (r : Reading) (i : Idle) :
    (i.sample r).emulated = i.emulated + simMs i.lastCycles r.cycles := by
  have hperiodics : (i.sample r).periodics = (i.counted r).periodics := delay_periodics _ _
  have htotal : (i.sample r).totalMsElapsed = (i.counted r).totalMsElapsed := delay_total _ _
  rw [emulated, emulated, hperiodics, htotal]
  dsimp only [counted]
  split
  · push_cast
    ring
  · ring

theorem sample_real (r : Reading) (i : Idle) : (i.sample r).real = i.real + realMs i r := by
  have hdelay (j : Idle) (d : ℤ) : (j.delay d).cumulativeDelay + 50 * (j.delay d).sleeps
      = j.cumulativeDelay + 50 * j.sleeps + d := by
    simp only [delay]
    split
    · push_cast
      ring
    · ring
  have hsample : (i.sample r).cumulativeDelay + 50 * (i.sample r).sleeps
      = i.cumulativeDelay + 50 * i.sleeps + (simMs i.lastCycles r.cycles - realMs i r) :=
    hdelay _ _
  rw [real, real, sample_emulated]
  linarith

end Idle

/-- A reading comes after another one, at most `d` cycles and 19 hours later. -/
structure Reading.Follows (d : ℕ) (r r' : Reading) : Prop where
  cycles : r.cycles.toNat ≤ r'.cycles.toNat
  cyclesNear : r'.cycles.toNat ≤ r.cycles.toNat + d
  clock : r.now.micros ≤ r'.first.micros
  clockAgain : r'.first.micros ≤ r'.now.micros
  clockNear : r'.now.micros ≤ r.now.micros + 2 ^ 36

theorem simMs_eq {last cycles : BitVec 64} (hle : last.toNat ≤ cycles.toNat)
    (hnear : cycles.toNat - last.toNat < 2000 * 2 ^ 31) :
    simMs last cycles = ((cycles.toNat - last.toNat) / 2000 : ℕ) := by
  have hsub : (cycles - last).toNat = cycles.toNat - last.toNat := BitVec.toNat_sub_of_le hle
  have hdiv : ((cycles - last) / 2000).toNat = (cycles.toNat - last.toNat) / 2000 := by
    rw [BitVec.toNat_udiv, hsub]
    rfl
  have hfits : toInt ((cycles.toNat - last.toNat) / 2000 : ℕ)
      = ((cycles.toNat - last.toNat) / 2000 : ℕ) :=
    Int.bmod_eq_of_le (by omega) (by omega)
  rw [simMs, hdiv, hfits]
  exact if_neg (by omega)

/-- A sample's real time is off by less than a millisecond. -/
theorem timeDiff_near (old new : Timeval) :
    |new.micros - old.micros - 1000 * timeDiff old new| ≤ 999 := by
  have hmod : new.micros - old.micros - 1000 * timeDiff old new
      = (new.usec - old.usec).tmod 1000 := by
    have hdecomp := Int.mul_tdiv_add_tmod (new.usec - old.usec) 1000
    rw [timeDiff, Timeval.micros, Timeval.micros]
    linarith
  have hlow := Int.lt_tmod_of_pos (new.usec - old.usec) (by decide : (0 : ℤ) < 1000)
  have hhigh := Int.tmod_lt_of_pos (new.usec - old.usec) (by decide : (0 : ℤ) < 1000)
  rw [hmod, abs_le]
  omega

/-- The accounts after `k` calls, with `r` read last and `w` on the clock at the first sample. -/
structure Accounts (d k : ℕ) (r : Reading) (w : ℤ) (i : Idle) : Prop where
  count : i.count = 30 - (k % 30 : ℕ)
  cycles : i.lastCycles.toNat ≤ r.cycles.toNat
  cyclesNear : r.cycles.toNat ≤ i.lastCycles.toNat + k % 30 * d
  emulated : 2000 * i.emulated ≤ i.lastCycles.toNat
  emulatedNear : (i.lastCycles.toNat : ℤ) ≤ 2000 * i.emulated + 1999 * (k / 30 : ℕ)
  unsampled : k < 30 → i.last = ⟨0, 0⟩ ∧ i.real = 0
  started : 0 < r.now.micros
  clock : 30 ≤ k → 0 < i.last.micros ∧ i.last.micros ≤ r.now.micros
  clockNear : 30 ≤ k → r.now.micros ≤ i.last.micros + (k % 30 : ℕ) * 2 ^ 36
  real : 30 ≤ k → |i.last.micros - w - 1000 * i.real| ≤ 999 * (k / 30 : ℕ)

namespace Accounts
variable {d k : ℕ} {r r' : Reading} {w : ℤ} {i : Idle}

theorem waits (h : Accounts d k r w i) (hr : r.Follows d r') (hk : k % 30 ≠ 29) :
    Accounts d (k + 1) r' w { i with count := i.count - 1 } := by
  have hmod : (k + 1) % 30 = k % 30 + 1 := by omega
  have hdiv : (k + 1) / 30 = k / 30 := by omega
  have hcount := h.count
  have hnext := hr.clock.trans hr.clockAgain
  exact
    { count := by dsimp only; omega
      cycles := h.cycles.trans hr.cycles
      cyclesNear := by
        have hnear := h.cyclesNear
        have hstep := hr.cyclesNear
        change r'.cycles.toNat ≤ i.lastCycles.toNat + _
        rw [hmod, Nat.add_mul]
        omega
      emulated := h.emulated
      emulatedNear := by
        rw [hdiv]
        exact h.emulatedNear
      unsampled := fun hlt => h.unsampled (by omega)
      started := h.started.trans_le hnext
      clock := fun hle => ⟨(h.clock (by omega)).1, (h.clock (by omega)).2.trans hnext⟩
      clockNear := by
        intro hle
        have hnear := h.clockNear (by omega)
        have hstep := hr.clockNear
        rw [hmod]
        push_cast
        omega
      real := by
        intro hle
        rw [hdiv]
        exact h.real (by omega) }

/-- The cycles that a sample counts. -/
theorem sampled_cycles (h : Accounts d k r w i) (hr : r.Follows d r') (hd : d ≤ 2 ^ 32) :
    simMs i.lastCycles r'.cycles
        = ((r'.cycles.toNat - i.lastCycles.toNat) / 2000 : ℕ) ∧
      i.lastCycles.toNat ≤ r'.cycles.toNat := by
  have hle := h.cycles.trans hr.cycles
  have hnear := h.cyclesNear
  have hstep := hr.cyclesNear
  have hmod : k % 30 * d ≤ 29 * 2 ^ 32 := Nat.mul_le_mul (by omega) hd
  exact ⟨simMs_eq hle (by omega), hle⟩

theorem lastClock_first (h : Accounts d k r w i) (hk : k = 29) : lastClock i r' = r'.first :=
  if_pos (h.unsampled (by omega)).1

theorem lastClock_later (h : Accounts d k r w i) (hk : 30 ≤ k) : lastClock i r' = i.last := by
  refine if_neg fun heq => ?_
  have hclock := (h.clock hk).1
  rw [heq] at hclock
  exact absurd hclock (by decide)

/-- The milliseconds that a sample counts on the real clock. -/
theorem sampled_real (h : Accounts d k r w i) (hr : r.Follows d r') (hk : k % 30 = 29) :
    |r'.now.micros - (lastClock i r').micros - 1000 * realMs i r'| ≤ 999 ∧ 0 ≤ realMs i r' := by
  have hnear := timeDiff_near (lastClock i r') r'.now
  have hdiff : 0 ≤ r'.now.micros - (lastClock i r').micros ∧
      r'.now.micros - (lastClock i r').micros ≤ 30 * 2 ^ 36 := by
    have hstep := hr.clock
    have hagain := hr.clockAgain
    have hclockNear := hr.clockNear
    by_cases hfirst : k = 29
    · rw [h.lastClock_first hfirst]
      omega
    · have hle : 30 ≤ k := by omega
      have hclock := h.clock hle
      have hsample := h.clockNear hle
      rw [hk] at hsample
      rw [h.lastClock_later hle]
      omega
  have hfits : realMs i r' = timeDiff (lastClock i r') r'.now := by
    have hbounds := abs_le.mp hnear
    exact Int.bmod_eq_of_le (by omega) (by omega)
  rw [hfits]
  have hbounds := abs_le.mp hnear
  exact ⟨hnear, by omega⟩

/-- The real time at a sample. -/
theorem real_near (h : Accounts d k r w i) (hr : r.Follows d r') (hk : k % 30 = 29) :
    |r'.now.micros - (if k = 29 then r'.first.micros else w) - 1000 * (i.real + realMs i r')|
      ≤ 999 * ((k + 1) / 30 : ℕ) := by
  obtain ⟨hnear, -⟩ := h.sampled_real hr hk
  by_cases hfirst : k = 29
  · rw [h.lastClock_first hfirst] at hnear
    rw [if_pos hfirst, (h.unsampled (by omega)).2, zero_add]
    subst hfirst
    exact hnear
  · have hle : 30 ≤ k := by omega
    have hreal := abs_le.mp (h.real hle)
    have hdiv : (k + 1) / 30 = k / 30 + 1 := by omega
    rw [h.lastClock_later hle, abs_le] at hnear
    rw [if_neg hfirst, abs_le, hdiv, Nat.cast_add, Nat.cast_one]
    constructor <;> linarith

theorem samples (h : Accounts d k r w i) (hr : r.Follows d r') (hd : d ≤ 2 ^ 32)
    (hk : k % 30 = 29) :
    Accounts d (k + 1) r' (if k = 29 then r'.first.micros else w) (i.sample r') := by
  have hmod : (k + 1) % 30 = 0 := by omega
  have hdiv : (k + 1) / 30 = k / 30 + 1 := by omega
  have hlast : (i.sample r').last = r'.now := Idle.delay_last _ _
  have hcycles : (i.sample r').lastCycles = r'.cycles := Idle.delay_cycles _ _
  have hnext := hr.clock.trans hr.clockAgain
  obtain ⟨hsim, hle⟩ := h.sampled_cycles hr hd
  have hemulated := h.emulated
  have hemulatedNear := h.emulatedNear
  exact
    { count := by rw [hmod]; rfl
      cycles := by rw [hcycles]
      cyclesNear := by rw [hcycles]; omega
      emulated := by
        rw [hcycles, Idle.sample_emulated, hsim]
        omega
      emulatedNear := by
        rw [hcycles, Idle.sample_emulated, hsim, hdiv]
        push_cast
        omega
      unsampled := fun hlt => absurd hmod (by omega)
      started := h.started.trans_le hnext
      clock := by
        intro _
        rw [hlast]
        exact ⟨h.started.trans_le hnext, le_rfl⟩
      clockNear := by
        intro _
        rw [hlast, hmod]
        simp
      real := by
        intro _
        rw [hlast, Idle.sample_real]
        exact h.real_near hr hk }

theorem step (h : Accounts d k r w i) (hr : r.Follows d r') (hd : d ≤ 2 ^ 32) :
    Accounts d (k + 1) r' (if k = 29 then r'.first.micros else w) (i.next r') := by
  have hcount := h.count
  by_cases hk : k % 30 = 29
  · have hnext : i.next r' = i.sample r' := if_neg (by omega)
    rw [hnext]
    exact h.samples hr hd hk
  · have hnext : i.next r' = { i with count := i.count - 1 } := if_pos (by omega)
    rw [hnext, if_neg (by omega)]
    exact h.waits hr hk

theorem start (d : ℕ) (r : Reading) (w : ℤ) (hzero : r.cycles = 0) (hclock : 0 < r.now.micros) :
    Accounts d 0 r w .start where
  count := rfl
  cycles := by rw [hzero]; rfl
  cyclesNear := by rw [hzero]; exact Nat.zero_le _
  emulated := le_rfl
  emulatedNear := le_rfl
  unsampled _ := ⟨rfl, rfl⟩
  started := hclock
  clock h := absurd h (by decide)
  clockNear h := absurd h (by decide)
  real h := absurd h (by decide)

/-- The milliseconds of a sample, where a call is at most `d` cycles after the one before. -/
theorem simMs_short (h : Accounts d k r w i) (hr : r.Follows d r') (hd : d ≤ 2 ^ 32) :
    0 ≤ simMs i.lastCycles r'.cycles ∧ 2000 * simMs i.lastCycles r'.cycles ≤ 30 * d := by
  obtain ⟨hsim, hle⟩ := h.sampled_cycles hr hd
  have hnear := h.cyclesNear
  have hstep := hr.cyclesNear
  have hmod : k % 30 * d ≤ 29 * d := Nat.mul_le_mul (by omega) le_rfl
  rw [hsim]
  omega

/-- A sample counts less than 100 ms. -/
theorem next_total (h : Accounts d k r w i) (hr : r.Follows d r') (hd : d ≤ 6666)
    (htotal : 0 ≤ i.totalMsElapsed ∧ i.totalMsElapsed ≤ 100) :
    0 ≤ (i.next r').totalMsElapsed ∧ (i.next r').totalMsElapsed ≤ 100 := by
  obtain ⟨hpos, hshort⟩ := h.simMs_short hr (by omega)
  rw [Idle.next]
  split
  · exact htotal
  · have hsample : (i.sample r').totalMsElapsed = (i.counted r').totalMsElapsed :=
      Idle.delay_total _ _
    rw [hsample]
    dsimp only [Idle.counted]
    split <;> omega

/-- A sample counts less than the 50 ms that the emulator sleeps. -/
theorem next_delay (h : Accounts d k r w i) (hr : r.Follows d r') (hd : d ≤ 3333)
    (hdelay : i.cumulativeDelay ≤ 0) : (i.next r').cumulativeDelay ≤ 0 := by
  obtain ⟨hpos, hshort⟩ := h.simMs_short hr (by omega)
  have hcount := h.count
  by_cases hk : k % 30 = 29
  · obtain ⟨-, hreal⟩ := h.sampled_real hr hk
    have hnext : i.next r' = i.sample r' := if_neg (by omega)
    rw [hnext]
    change (Idle.delay _ (i.counted r')).cumulativeDelay ≤ 0
    have hsame : (i.counted r').cumulativeDelay = i.cumulativeDelay := rfl
    simp only [Idle.delay]
    split <;> dsimp only at * <;> omega
  · have hnext : i.next r' = { i with count := i.count - 1 } := if_pos (by omega)
    rw [hnext]
    exact hdelay

end Accounts

/-- The clock at the first sample of a run. -/
def firstSample (rs : List Reading) : ℤ := (rs[29]?.map (·.first.micros)).getD 0

/-- The emulator starts when nothing has been executed. -/
structure Reading.Origin (r : Reading) : Prop where
  cycles : r.cycles = 0
  clock : 0 < r.now.micros

section Runs
variable {τ : Type} {d : ℕ} {r : Reading} {rs : List Reading}

/-- What every call keeps holds after a run, beside the accounts. -/
theorem run_keeps {P : Idle → Prop} (hr : r.Origin) (hd : d ≤ 2 ^ 32) (hstart : P .start)
    (hnext : ∀ {k r w i r'}, Accounts d k r w i → r.Follows d r' → P i → P (i.next r'))
    (hrs : (r :: rs).IsChain (Reading.Follows d)) :
    Accounts d rs.length (rs.getLast?.getD r) (firstSample rs) (Idle.start.run rs) ∧
      P (Idle.start.run rs) := by
  induction rs using List.reverseRecOn with
  | nil => exact ⟨Accounts.start d r _ hr.cycles hr.clock, hstart⟩
  | append_singleton rs r' ih =>
    rw [← List.cons_append, List.isChain_append] at hrs
    obtain ⟨hbefore, -, hlast⟩ := hrs
    obtain ⟨haccounts, hkept⟩ := ih hbefore
    have hfollows : (rs.getLast?.getD r).Follows d r' := by
      apply hlast _ _ r' (by rw [List.head?_cons]; rfl)
      rw [List.getLast?_cons]
      rfl
    have hfirst : firstSample (rs ++ [r'])
        = if rs.length = 29 then r'.first.micros else firstSample rs := by
      by_cases hlen : rs.length = 29
      · rw [if_pos hlen, firstSample, List.getElem?_append_right (by omega), hlen]
        rfl
      · rw [if_neg hlen, firstSample, firstSample]
        by_cases hlt : 29 < rs.length
        · rw [List.getElem?_append_left hlt]
        · rw [List.getElem?_eq_none (by simp; omega), List.getElem?_eq_none (by omega)]
    have hrun : Idle.start.run (rs ++ [r']) = (Idle.start.run rs).next r' := List.foldl_append
    rw [hrun, hfirst, List.length_append, List.getLast?_concat]
    exact ⟨haccounts.step hfollows hd, hnext haccounts hfollows hkept⟩

/-- A clock reading at `ms` milliseconds, with 2000 cycles for each. -/
def Reading.at (ms : ℕ) : Reading :=
  ⟨⟨1, 1000 * ms⟩, ⟨1, 1000 * ms⟩, BitVec.ofNat 64 (2000 * ms)⟩

theorem origin_zero : (Reading.at 0).Origin := ⟨rfl, by decide⟩

/-- A run that stays at 1 ms. -/
theorem still (n : ℕ) : (.at 0 :: List.replicate n (.at 1)).IsChain (Reading.Follows 2000) := by
  have hfirst : (Reading.at 0).Follows 2000 (.at 1) := by
    constructor <;> decide
  have hrest : (Reading.at 1).Follows 2000 (.at 1) := by
    constructor <;> decide
  cases n with
  | zero => exact List.isChain_singleton _
  | succ n => exact (List.isChain_replicate_of_rel (n + 1) hrest).cons_cons hfirst

/-- Emulated milliseconds are counted from the cycle counter, never ahead of it and behind it by
less than a millisecond for each sample and the calls since the last one. The clock readings agree
with the real time counted in the same way. -/
theorem idleLoop_accounts (hr : r.Origin) (hd : d ≤ 2 ^ 32)
    (hrs : (r :: rs).IsChain (Reading.Follows d)) (s : State τ) :
    ∃ i t, runAll idleLoop rs (Idle.start, s) = .ok () (i, t) ∧
      2000 * i.emulated ≤ (rs.getLast?.getD r).cycles.toNat ∧
      ((rs.getLast?.getD r).cycles.toNat : ℤ)
        ≤ 2000 * i.emulated + 1999 * (rs.length / 30 : ℕ) + (rs.length % 30 : ℕ) * d ∧
      (30 ≤ rs.length → |i.last.micros - firstSample rs - 1000 * i.real|
        ≤ 999 * (rs.length / 30 : ℕ)) := by
  obtain ⟨h, -⟩ := run_keeps (P := fun _ => True) hr hd trivial (fun _ _ _ => trivial) hrs
  have hemulated := h.emulated
  have hnear := h.emulatedNear
  have hcycles := h.cycles
  have hcyclesNear := h.cyclesNear
  refine ⟨_, _, idleLoop_runs rs .start s, by omega, ?_, h.real⟩
  rw [← Nat.cast_mul]
  omega

theorem idleLoop_accounts_still : ∃ (i : Idle) (t : State ℕ),
    runAll idleLoop (List.replicate 40 (.at 1)) (Idle.start, State.init 0) = .ok () (i, t) ∧
      2000 * i.emulated ≤ 2000 := by
  obtain ⟨i, t, hrun, hle, -⟩ :=
    idleLoop_accounts (d := 2000) origin_zero (by decide) (still 40) (State.init 0)
  exact ⟨i, t, hrun, hle⟩

/-- Where a call is at most 3333 cycles after the one before, as with the slices of 1024 cycles,
the emulator is never ahead of the real time and what it has slept, and the hooks are called
every 100 emulated milliseconds. -/
theorem idleLoop_throttles (hr : r.Origin) (hd : d ≤ 3333)
    (hrs : (r :: rs).IsChain (Reading.Follows d)) (s : State τ) :
    ∃ i t, runAll idleLoop rs (Idle.start, s) = .ok () (i, t) ∧
      i.emulated ≤ i.real + 50 * i.sleeps ∧
      100 * i.periodics ≤ i.emulated ∧ i.emulated ≤ 100 * i.periodics + 100 := by
  obtain ⟨-, htotal, hdelay⟩ := run_keeps
    (P := fun i => (0 ≤ i.totalMsElapsed ∧ i.totalMsElapsed ≤ 100) ∧ i.cumulativeDelay ≤ 0)
    hr (by omega) ⟨by decide, by decide⟩
    (fun h hf hp => ⟨h.next_total hf (by omega) hp.1, h.next_delay hf hd hp.2⟩) hrs
  refine ⟨_, _, idleLoop_runs rs .start s, ?_, ?_, ?_⟩
  · rw [Idle.real]
    omega
  · rw [Idle.emulated]
    omega
  · rw [Idle.emulated]
    omega

theorem idleLoop_throttles_still : ∃ (i : Idle) (t : State ℕ),
    runAll idleLoop (List.replicate 40 (.at 1)) (Idle.start, State.init 0) = .ok () (i, t) ∧
      i.emulated ≤ i.real + 50 * i.sleeps := by
  obtain ⟨i, t, hrun, hle, -⟩ :=
    idleLoop_throttles (d := 2000) origin_zero (by decide) (still 40) (State.init 0)
  exact ⟨i, t, hrun, hle⟩

/-! ## The `runfor` command -/

/-- The hooks count a `runfor` down and then ask for the monitor. -/
theorem periodic_iterate (n : ℕ) {s : State τ} (hs : 0 < s.stopAfterMs) :
    periodic^[n] s = if s.stopAfterMs ≤ 100 * n then
        { s with monitorOn := true, stopRequested := true, stopAfterMs := 0 }
      else { s with stopAfterMs := s.stopAfterMs - 100 * n } := by
  induction n with
  | zero =>
    rw [if_neg (by omega)]
    simp
  | succ n ih =>
    rw [Function.iterate_succ_apply', ih, Nat.cast_add, Nat.cast_one]
    by_cases hbefore : s.stopAfterMs ≤ 100 * n
    · rw [if_pos hbefore, if_pos (by omega)]
      rfl
    · rw [if_neg hbefore, periodic]
      dsimp only
      rw [if_neg (by omega)]
      by_cases hlast : s.stopAfterMs ≤ 100 * (n + 1)
      · rw [if_pos (by omega), if_pos hlast]
      · rw [if_neg (by omega), if_neg hlast, sub_sub, ← mul_add_one]

/-- A `runfor` that is given after some calls stops when its time has elapsed on the emulated
clock, to within 100 ms. -/
theorem runfor_stops (hr : r.Origin) (hd : d ≤ 6666) {before : List Reading}
    (hrs : (r :: (before ++ rs)).IsChain (Reading.Follows d)) {i : Idle} {s₀ s₁ s : State τ}
    (hbefore : runAll idleLoop before (Idle.start, s₀) = .ok () (i, s₁))
    (hs : 0 < s.stopAfterMs) (hoff : s.monitorOn = false) :
    ∃ j t, runAll idleLoop rs (i, s) = .ok () (j, t) ∧
      (t.monitorOn = true → s.stopAfterMs ≤ j.emulated - i.emulated + 100) ∧
      (t.monitorOn = false → j.emulated - i.emulated < s.stopAfterMs + 100) := by
  have htotal {rs : List Reading} (hrs : (r :: rs).IsChain (Reading.Follows d)) :
      0 ≤ (Idle.start.run rs).totalMsElapsed ∧ (Idle.start.run rs).totalMsElapsed ≤ 100 :=
    (run_keeps (P := fun i => 0 ≤ i.totalMsElapsed ∧ i.totalMsElapsed ≤ 100) hr (by omega)
      (by decide) (fun h hf hp => h.next_total hf hd hp) hrs).2
  have hi : Idle.start.run before = i := by
    rw [idleLoop_runs] at hbefore
    cases hbefore
    rfl
  have hj : Idle.start.run (before ++ rs) = i.run rs := by
    rw [← hi]
    exact List.foldl_append
  have hchain : (r :: before).IsChain (Reading.Follows d) := by
    rw [← List.cons_append] at hrs
    exact hrs.left_of_append
  have hfirst := htotal hchain
  have hlast := htotal hrs
  have hle := Idle.run_periodics rs i
  rw [hi] at hfirst
  rw [hj] at hlast
  refine ⟨_, _, idleLoop_runs rs i s, ?_⟩
  rw [periodic_iterate _ hs, Idle.emulated, Idle.emulated]
  split
  · exact ⟨fun _ => by omega, fun h => Bool.noConfusion h⟩
  · exact ⟨fun h => absurd (hoff.symm.trans h) (by decide), fun _ => by omega⟩

theorem runfor_stops_still : ∃ (j : Idle) (t : State ℕ),
    runAll idleLoop (List.replicate 40 (.at 1))
      (Idle.start, { State.init 0 with stopAfterMs := 500 }) = .ok () (j, t) ∧
    (t.monitorOn = false → j.emulated < 600) := by
  have hbefore : runAll idleLoop [] (Idle.start, State.init 0) =
      .ok () (Idle.start, State.init 0) := rfl
  obtain ⟨j, t, hrun, -, hoff⟩ := runfor_stops (d := 2000) origin_zero (by decide) (still 40) hbefore
    (s := { State.init 0 with stopAfterMs := 500 }) (by decide) rfl
  exact ⟨j, t, hrun, fun h => by simpa [Idle.emulated, Idle.start] using hoff h⟩

end Runs

end Exec09
