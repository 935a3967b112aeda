import Exec09.Machines.Wpc

/-! # The switches of wpc

A key closes a switch for 200 ms, and the periodic function opens it again. One
switch and the time that it has left are remembered. A key for another switch
takes this place, and the earlier switch stays closed for ever.
-/
namespace Exec09.Wpc
open Foundation

def BUTTON_DURATION : ℤ := 200

/-- The ASIC with the fields that the periodic function uses alone, and the keys typed. -/
structure Panel where
  asic : Asic
  currSw : ℕ
  currSwTime : ℤ
  input : List U8

namespace Panel

/-- After `wpc_asic_reset`. -/
def reset : Panel := ⟨wpcWriteSwitch 19 true Asic.zero, 0, 0, []⟩

/-- The cases of `wpc_keypoll`; another key prints a message. -/
def keySwitch (c : U8) : Option ℕ :=
  match c.toNat with
  | 55 => some 4
  | 56 => some 5
  | 57 => some 6
  | 48 => some 7
  | 44 => some 75
  | 46 => some 73
  | _ => none

def wpcPressSwitch (num : ℕ) (delay : ℤ) (p : Panel) : Panel :=
  { p with asic := wpcWriteSwitch num true p.asic, currSw := num, currSwTime := delay }

/-- Without a key nothing is read. -/
def wpcKeypoll (p : Panel) : Panel :=
  match p.input with
  | [] => p
  | c :: rest =>
    match keySwitch c with
    | some num => wpcPressSwitch num BUTTON_DURATION { p with input := rest }
    | none => { p with input := rest }

/-- The end of `wpc_periodic`. -/
def expire (p : Panel) : Panel :=
  if 0 < p.currSwTime then
    if p.currSwTime - 100 ≤ 0 then
      { p with currSwTime := 0, asic := wpcWriteSwitch p.currSw false p.asic }
    else { p with currSwTime := p.currSwTime - 100 }
  else p

def countWatchdog (p : Panel) : Panel :=
  { p with asic := { p.asic with wdogTimer := toInt (p.asic.wdogTimer - 50) } }

def wpcPeriodic (p : Panel) : Panel := p.wpcKeypoll.countWatchdog.expire

/-- A key is typed, or the time slice ends. -/
inductive Happening
  | key (c : U8)
  | tick
  deriving DecidableEq

def Happening.step : Happening → EStateM Stop Panel Unit
  | key c => modify fun p => { p with input := p.input ++ [c] }
  | tick => modify wpcPeriodic

def closed (p : Panel) (num : ℕ) : Prop := wpcReadSwitch num p.asic = 1

instance (p : Panel) (num : ℕ) : Decidable (p.closed num) := inferInstanceAs (Decidable (_ = _))

/-- Every closed switch but number 19 is the current one, with time left. -/
def Released (p : Panel) : Prop :=
  ∀ num, num < 80 → num ≠ 19 → p.closed num → num = p.currSw ∧ 0 < p.currSwTime

/-- No key for another switch is read while a switch has time left. -/
def Alone : Happening → Panel → Prop
  | .key _, _ => True
  | .tick, p => ∀ num ∈ p.input.head?.bind keySwitch, 0 < p.currSwTime → num = p.currSw

/-! ## One switch -/

theorem readSwitch_iff (num : ℕ) (a : Asic) :
    wpcReadSwitch num a = 1 ↔ (a.switchMx (num / 8)).getLsbD (num % 8) = true := by
  rw [wpcReadSwitch, Nat.one_shiftLeft, Nat.and_two_pow, ← BitVec.testBit_toNat]
  cases (a.switchMx (num / 8)).toNat.testBit (num % 8) <;> simp

theorem readSwitch_write (num m : ℕ) (flag : Bool) (a : Asic) :
    wpcReadSwitch num (wpcWriteSwitch m flag a) = 1 ↔
      if num = m then flag = true else wpcReadSwitch num a = 1 := by
  have hbit : (BitVec.ofNat 8 (1 <<< (m % 8))).getLsbD (num % 8) = decide (m % 8 = num % 8) := by
    rw [BitVec.getLsbD_ofNat, Nat.one_shiftLeft, Nat.testBit_two_pow]
    simp
    omega
  rw [readSwitch_iff, readSwitch_iff, wpcWriteSwitch]
  generalize BitVec.ofNat 8 (1 <<< (m % 8)) = bit at hbit ⊢
  by_cases hcol : num / 8 = m / 8
  · rw [hcol]
    simp only [Function.update_self]
    have hlt : num % 8 < 8 := by omega
    have hsame : num = m ↔ m % 8 = num % 8 := by omega
    rw [if_congr hsame rfl rfl]
    cases flag <;> by_cases hm : m % 8 = num % 8 <;>
      simp only [hm, if_true, if_false, Bool.false_eq_true, BitVec.getLsbD_and, BitVec.getLsbD_or,
        BitVec.getLsbD_not, hbit, decide_true, decide_false, hlt, Bool.not_true, Bool.not_false,
        Bool.and_true, Bool.and_false, Bool.or_true, Bool.or_false]
  · have hne : num ≠ m := by
      rintro rfl
      exact hcol rfl
    simp only [Function.update_of_ne hcol, if_neg hne]

theorem closed_write (num m : ℕ) (flag : Bool) (p : Panel) :
    { p with asic := wpcWriteSwitch m flag p.asic }.closed num ↔
      if num = m then flag = true else p.closed num := readSwitch_write num m flag p.asic

theorem keySwitch_cases {c : U8} {num : ℕ} (h : keySwitch c = some num) : num < 80 ∧ num ≠ 19 := by
  unfold keySwitch at h
  split at h <;> cases h <;> decide

/-! ## Ticks -/

/-- The switch that has time left is closed. -/
structure Held (p : Panel) : Prop where
  released : p.Released
  pressed : 0 < p.currSwTime → p.currSw < 80 ∧ p.currSw ≠ 19 ∧ p.closed p.currSw

variable {p : Panel}

theorem reset_held : reset.Held where
  released := by
    intro num _ hne hclosed
    have hzero := (readSwitch_write num 19 true Asic.zero).mp hclosed
    rw [if_neg hne] at hzero
    simp [wpcReadSwitch, Asic.zero] at hzero
  pressed h := absurd h (lt_irrefl 0)

theorem Held.countWatchdog (h : p.Held) : p.countWatchdog.Held := ⟨h.released, h.pressed⟩

/-- A switch is opened when its time has come. -/
theorem Held.expire (h : p.Held) : p.expire.Held := by
  unfold Panel.expire
  split_ifs with htime hlast
  · refine ⟨fun num hnum hne hclosed => ?_, fun hpos => absurd hpos (lt_irrefl 0)⟩
    have hopen := (closed_write num p.currSw false p).mp hclosed
    split_ifs at hopen with hcurr
    exact absurd (h.released num hnum hne hopen).1 hcurr
  · refine ⟨fun num hnum hne hclosed => ?_, fun _ => h.pressed htime⟩
    exact ⟨(h.released num hnum hne hclosed).1, not_le.mp hlast⟩
  · exact h

theorem Held.press (h : p.Held) {num : ℕ} (hnum : num < 80) (hne : num ≠ 19)
    (halone : 0 < p.currSwTime → num = p.currSw) : (wpcPressSwitch num BUTTON_DURATION p).Held where
  released := by
    intro m hm hm19 hclosed
    have hbefore := (closed_write m num true p).mp hclosed
    have htime : 0 < BUTTON_DURATION := by decide
    refine ⟨?_, htime⟩
    split_ifs at hbefore with hsame
    · exact hsame
    · obtain ⟨hcurr, hleft⟩ := h.released m hm hm19 hbefore
      exact hcurr.trans (halone hleft).symm
  pressed _ := ⟨hnum, hne, (closed_write num num true p).mpr (by simp)⟩

/-- The switch that had time left stays closed under the key for another one. -/
theorem not_released_of_other (h : p.Held) {num : ℕ} (htime : 0 < p.currSwTime)
    (hother : num ≠ p.currSw) :
    ¬(wpcPressSwitch num BUTTON_DURATION p).countWatchdog.expire.Released := by
  obtain ⟨hlt, hne, hclosed⟩ := h.pressed htime
  intro hreleased
  have hstill : (wpcPressSwitch num BUTTON_DURATION p).closed p.currSw :=
    (closed_write p.currSw num true p).mpr (by simpa [hother.symm] using hclosed)
  exact hother (hreleased p.currSw hlt hne hstill).1.symm

theorem Held.keypoll (h : p.Held) (halone : Alone .tick p) : p.wpcKeypoll.Held := by
  unfold wpcKeypoll
  cases hinput : p.input with
  | nil => exact h
  | cons c rest =>
    cases hkey : keySwitch c with
    | none => simpa only [hkey] using (⟨h.released, h.pressed⟩ : Held { p with input := rest })
    | some num =>
      obtain ⟨hlt, hne⟩ := keySwitch_cases hkey
      have hbefore : Held { p with input := rest } := ⟨h.released, h.pressed⟩
      have hpress := hbefore.press hlt hne (halone num (by simp [hinput, hkey]))
      simpa only [hkey] using hpress

/-- A happening keeps to the rule exactly if no key is read too early. -/
theorem Happening.alone_iff (e : Happening) (h : p.Held) :
    Alone e p ↔ (finalState (e.step p)).Released := by
  cases e with
  | key c => exact iff_of_true trivial h.released
  | tick =>
    constructor
    · intro halone
      exact (h.keypoll halone).countWatchdog.expire.released
    · intro hreleased num hkey htime
      by_contra hother
      have hpoll : p.wpcKeypoll =
          wpcPressSwitch num BUTTON_DURATION { p with input := p.wpcKeypoll.input } := by
        obtain ⟨c, hc, hnum⟩ := Option.bind_eq_some_iff.mp hkey
        obtain ⟨rest, hinput⟩ := List.head?_eq_some_iff.mp hc
        simp [wpcKeypoll, hinput, hnum, wpcPressSwitch]
      have hbefore : Held { p with input := p.wpcKeypoll.input } := ⟨h.released, h.pressed⟩
      change p.wpcKeypoll.countWatchdog.expire.Released at hreleased
      rw [hpoll] at hreleased
      exact not_released_of_other hbefore htime hother hreleased

theorem Happening.step_held (e : Happening) (h : p.Held) (halone : Alone e p) :
    (finalState (e.step p)).Held := by
  cases e with
  | key c => exact ⟨h.released, h.pressed⟩
  | tick => exact (h.keypoll halone).countWatchdog.expire

/-- Without keys a switch is open as soon as its time has passed. -/
theorem Held.undone {n : ℕ} (h : p.Held) (hquiet : p.input = []) (htime : p.currSwTime ≤ 100 * n)
    {num : ℕ} (hnum : num < 80) (hne : num ≠ 19) : ¬(wpcPeriodic^[n] p).closed num := by
  induction n generalizing p with
  | zero =>
    intro hclosed
    have hpos := (h.released num hnum hne hclosed).2
    omega
  | succ n ih =>
    have halone : Alone .tick p := by simp [Alone, hquiet]
    have hpoll : p.wpcKeypoll = p := by rw [wpcKeypoll, hquiet]
    have hnext : p.wpcPeriodic = p.countWatchdog.expire := by rw [wpcPeriodic, hpoll]
    refine ih ((Happening.tick).step_held h halone) ?_ ?_
    · rw [hnext, Panel.expire]
      split_ifs <;> exact hquiet
    · have hcount : p.countWatchdog.currSwTime = p.currSwTime := rfl
      rw [hnext, Panel.expire, hcount]
      push_cast at htime
      split_ifs
      · exact Int.mul_nonneg (by decide) (Int.natCast_nonneg n)
      · dsimp only
        omega
      · omega

/-- From a reset on the switches are always released exactly if no key for another switch is read
while a switch has time left. -/
theorem released_along_iff (es : List Happening) :
    Along Happening.step Alone es reset ↔
      ∀ es', es' <+: es → (finalState (runAll Happening.step es' reset)).Released :=
  along_iff_ends (fun _ h => h.released) (fun e _ h => e.alone_iff h)
    (fun e _ h halone => e.step_held h halone) reset_held

/-- Keys for switches 4 and 5, read by two ticks: switch 4 is not opened. -/
theorem stuck_switch : ¬∀ es : List Happening,
    (finalState (runAll Happening.step es reset)).Released := by
  intro h
  have hstuck := h [.key 55, .key 56, .tick, .tick, .tick, .tick] 4 (by decide) (by decide)
    (by decide)
  exact absurd hstuck.2 (by decide)

end Panel

end Exec09.Wpc
