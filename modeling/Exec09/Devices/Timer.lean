import Exec09.Cpu.State
import Mathlib.Data.Int.ModEq

/-! # The periodic hardware timer

`count` is a signed `int` that the elapsed cycles are subtracted from. When it
is not positive the timer asserts its line of the interrupt multiplexer; when
it is negative the reload value is added, and at zero it is left as it is.
-/
namespace Exec09
open Foundation

def HWTF_INT : ℕ := 0x80

structure Hwtimer where
  count : ℤ
  reload : ℕ
  resolution : ℕ
  flags : ℕ
  prevCycles : ℕ
  /-- The interrupt multiplexer, if one is attached. -/
  intDev : Option ℕ
  intLine : ℕ

namespace Hwtimer

/-- A timer, the lines for which it has called `imux_assert`, latest first, and what `sim_error`
uses. -/
structure World where
  timer : Hwtimer
  asserted : List ℕ
  debugEnabled : Bool
  monitorOn : Bool

abbrev M := EStateM Stop World

def setCount (n : ℤ) : M Unit := modify fun s => { s with timer := { s.timer with count := n } }

def imuxAssert : M Unit := modify fun s => { s with asserted := s.timer.intLine :: s.asserted }

def simError : M Unit := do
  let s ← get
  if s.debugEnabled then modify fun s => { s with monitorOn := true } else throw (.exit 2)

/-- What `hwtimer_decrement` does with a negative count. -/
def wrap : M Unit := do
  let s ← get
  if s.timer.reload > 0 then do
    setCount (toInt (s.timer.count + s.timer.reload))
    if toInt (s.timer.count + s.timer.reload) < 0 then simError
  else setCount 0

def hwtimerDecrement (cycles : ℕ) : M Unit := do
  let s ← get
  if s.timer.count = 0 ∧ s.timer.reload = 0 then pure ()
  else do
    let count := toInt (s.timer.count - cycles)
    setCount count
    if count ≤ 0 then do
      if s.timer.intDev.isSome ∧ s.timer.flags &&& HWTF_INT ≠ 0 then imuxAssert
      if count < 0 then wrap

/-- `cycles` is the value of `get_cycles`. -/
def hwtimerUpdate (cycles : ℕ) : M Unit := do
  let s ← get
  hwtimerDecrement (Word.trunc 32 (Word.sub 64 cycles s.timer.prevCycles))
  modify fun s => { s with timer := { s.timer with prevCycles := cycles } }

def hwtimerReset (cycles : ℕ) (t : Hwtimer) : Hwtimer :=
  { t with count := 0, flags := 0, resolution := 128, prevCycles := cycles }

def oscillatorReset (cycles : ℕ) (t : Hwtimer) : Hwtimer :=
  let t := hwtimerReset cycles t
  { t with
    count := toInt t.reload
    flags := if t.intDev.isSome then t.flags ||| HWTF_INT else t.flags }

/-- `oscillator_create`, before the reset. -/
def oscillator (intDev : Option ℕ) (intLine : ℕ) : Hwtimer where
  count := 0
  reload := 2048
  resolution := 0
  flags := 0
  prevCycles := 0
  intDev := intDev
  intLine := intLine

/-! ## One call -/

/-- A periodic timer with its interrupt enabled and attached. -/
structure Periodic (R : ℕ) (t : Hwtimer) : Prop where
  reload : t.reload = R
  attached : t.intDev.isSome
  enabled : t.flags &&& HWTF_INT ≠ 0

/-- `n` of the points `c₀`, `c₀ + R`, ... have been reached when `e` cycles have elapsed, and the
count is what it takes to the next one, or zero at a point. -/
structure At (c₀ R e n : ℕ) (count : ℤ) : Prop where
  nonneg : 0 ≤ count
  le : count ≤ R
  ahead : 0 < count → e + count = c₀ + n * R ∧ (0 < n → count < R)
  point : count = 0 → 0 < n ∧ e + R = c₀ + n * R

theorem toInt_of_small {n : ℤ} (hlow : -2 ^ 30 ≤ n) (hhigh : n ≤ 2 ^ 30) : toInt n = n :=
  Int.bmod_eq_of_le (by omega) (by omega)

/-- The timer after a call with `c` cycles. -/
def counted (count : ℤ) (c R : ℕ) : ℤ := if count - c < 0 then count - c + R else count - c

theorem wrap_run {R : ℕ} {s : World} (hs : s.timer.reload = R) (hR : 0 < R) (hR30 : R < 2 ^ 30)
    (hlow : -(R : ℤ) ≤ s.timer.count) (hneg : s.timer.count < 0) :
    wrap s = .ok () { s with timer := { s.timer with count := s.timer.count + R } } := by
  have hint : toInt (s.timer.count + s.timer.reload) = s.timer.count + R := by
    rw [hs]
    exact toInt_of_small (by omega) (by omega)
  have hset : setCount (s.timer.count + R) s =
      .ok () { s with timer := { s.timer with count := s.timer.count + R } } := rfl
  rw [wrap, run_bind_ok run_get, if_pos (by rw [hs]; exact hR), hint, run_bind_ok hset,
    if_neg (by omega)]
  rfl

theorem hwtimerDecrement_run {R c : ℕ} {s : World} (hs : Periodic R s.timer) (hR : 0 < R)
    (hR30 : R < 2 ^ 30) (hcR : c ≤ R) (hcount : 0 ≤ s.timer.count) (hle : s.timer.count ≤ R) :
    hwtimerDecrement c s = .ok () { s with
      timer := { s.timer with count := counted s.timer.count c R }
      asserted := if s.timer.count ≤ c then s.timer.intLine :: s.asserted else s.asserted } := by
  have hint : toInt (s.timer.count - c) = s.timer.count - c :=
    toInt_of_small (by omega) (by omega)
  have hrunning : ¬(s.timer.count = 0 ∧ s.timer.reload = 0) := by
    rw [hs.reload]
    omega
  have hset : setCount (s.timer.count - c) s =
      .ok () { s with timer := { s.timer with count := s.timer.count - c } } := rfl
  rw [hwtimerDecrement, run_bind_ok run_get, if_neg hrunning]
  simp only [hint]
  rw [run_bind_ok hset]
  by_cases hdue : s.timer.count ≤ c
  · have hassert : imuxAssert { s with timer := { s.timer with count := s.timer.count - c } } =
        .ok () { s with
          timer := { s.timer with count := s.timer.count - c }
          asserted := s.timer.intLine :: s.asserted } := rfl
    rw [if_pos (by omega), if_pos ⟨hs.attached, hs.enabled⟩, if_pos hdue, run_bind_ok hassert]
    by_cases hneg : s.timer.count - c < 0
    · rw [if_pos hneg, counted, if_pos hneg]
      exact wrap_run hs.reload hR hR30 (by change -(R : ℤ) ≤ s.timer.count - c; omega) hneg
    · rw [if_neg hneg, counted, if_neg hneg]
      rfl
  · rw [if_neg (by omega), if_neg hdue, counted, if_neg (by omega)]
    rfl

/-- A call that starts at a point and does not reach the next one. -/
def Short (c₀ R e c : ℕ) : Prop := c₀ ≤ e ∧ (e - c₀) % R = 0 ∧ c < R

instance (c₀ R e c : ℕ) : Decidable (Short c₀ R e c) := inferInstanceAs (Decidable (_ ∧ _ ∧ _))

/-- The timer is at a point exactly if its count is zero. -/
theorem At.point_iff {c₀ R e n : ℕ} {count : ℤ} (h : At c₀ R e n count) :
    (c₀ ≤ e ∧ (e - c₀) % R = 0) ↔ count = 0 := by
  by_cases h₀ : count = 0
  · obtain ⟨hn, he⟩ := h.point h₀
    obtain ⟨m, rfl⟩ : ∃ m, n = m + 1 := ⟨n - 1, by omega⟩
    have he' : e = c₀ + m * R := by
      rw [Nat.add_mul] at he
      omega
    refine iff_of_true ⟨by omega, ?_⟩ h₀
    rw [he', Nat.add_sub_cancel_left, Nat.mul_mod_left]
  · have hpos : 0 < count := lt_of_le_of_ne h.nonneg (Ne.symm h₀)
    obtain ⟨he, hlt⟩ := h.ahead hpos
    refine iff_of_false ?_ h₀
    rintro ⟨hle, hmod⟩
    obtain ⟨k, hk⟩ := Nat.dvd_of_mod_eq_zero hmod
    have hek : (e : ℤ) = c₀ + R * k := by
      have : e = c₀ + R * k := by omega
      exact_mod_cast this
    have hdvd : (R : ℤ) ∣ count := ⟨n - k, by linarith⟩
    have hRcount : (R : ℤ) ≤ count := Int.le_of_dvd hpos hdvd
    by_cases hn : n = 0
    · rw [hn] at he
      omega
    · exact absurd (hlt (Nat.pos_of_ne_zero hn)) (by omega)

/-- One call counts on. It asserts the line for the point it reaches, or because it is short. -/
theorem At.step {c₀ R e n c : ℕ} {count : ℤ} (h : At c₀ R e n count) (hc : 0 < c)
    (hcR : c ≤ R) :
    ∃ n', At c₀ R (e + c) n' (counted count c R) ∧
      n' + (if Short c₀ R e c then 1 else 0) = n + (if count ≤ c then 1 else 0) := by
  have hshort : Short c₀ R e c ↔ count = 0 ∧ c < R := by
    rw [← h.point_iff, and_assoc]
    rfl
  have hnonneg : 0 ≤ count := h.nonneg
  have hle : count ≤ R := h.le
  have hsucc : (n + 1) * R = n * R + R := by ring
  by_cases h₀ : count = 0
  · obtain ⟨hn, he⟩ := h.point h₀
    have hcounted : counted count c R = R - c := by
      rw [counted, if_pos (by omega)]
      omega
    by_cases hfull : c = R
    · refine ⟨n + 1, ⟨?_, ?_, ?_, ?_⟩, ?_⟩
      · omega
      · omega
      · omega
      · omega
      · rw [if_neg (by rw [hshort]; omega), if_pos (by omega)]
    · refine ⟨n, ⟨?_, ?_, ?_, ?_⟩, ?_⟩
      · omega
      · omega
      · intro _
        rw [hcounted]
        refine ⟨?_, by omega⟩
        have : ((e + R : ℕ) : ℤ) = ((c₀ + n * R : ℕ) : ℤ) := congrArg _ he
        push_cast at this ⊢
        linarith
      · omega
      · rw [if_pos (by rw [hshort]; omega), if_pos (by omega)]
  · obtain ⟨he, hlt⟩ := h.ahead (by omega)
    have hlong : ¬Short c₀ R e c := by
      rw [hshort]
      exact fun hs => h₀ hs.1
    rw [if_neg hlong]
    rcases lt_trichotomy count c with hpast | hon | hbefore
    · have hcounted : counted count c R = count - c + R := by rw [counted, if_pos (by omega)]
      refine ⟨n + 1, ⟨?_, ?_, ?_, ?_⟩, ?_⟩
      · omega
      · omega
      · intro _
        rw [hcounted]
        refine ⟨?_, by omega⟩
        push_cast
        linarith
      · omega
      · rw [if_pos (by omega)]
    · have hcounted : counted count c R = 0 := by rw [counted, if_neg (by omega), hon, sub_self]
      refine ⟨n + 1, ⟨?_, ?_, ?_, ?_⟩, ?_⟩
      · omega
      · omega
      · omega
      · intro _
        refine ⟨by omega, ?_⟩
        rw [hon] at he
        have he' : e + c = c₀ + n * R := by exact_mod_cast he
        omega
      · rw [if_pos (by omega)]
    · have hcounted : counted count c R = count - c := by rw [counted, if_neg (by omega)]
      refine ⟨n, ⟨?_, ?_, ?_, ?_⟩, ?_⟩
      · omega
      · omega
      · intro _
        rw [hcounted]
        refine ⟨?_, fun hn => by linarith [hlt hn]⟩
        push_cast
        linarith
      · omega
      · rw [if_neg (by omega)]

/-! ## Sequences of calls -/

/-- How many of the points `c₀`, `c₀ + R`, ... have been reached or passed after `e` cycles. -/
def reached (c₀ R e : ℕ) : ℕ := if e < c₀ then 0 else (e - c₀) / R + 1

theorem At.eq_reached {c₀ R e n : ℕ} {count : ℤ} (hR : 0 < R) (h : At c₀ R e n count) :
    n = reached c₀ R e := by
  have hnonneg : 0 ≤ count := h.nonneg
  have hle : count ≤ R := h.le
  by_cases hn : n = 0
  · have hpos : 0 < count := by
      by_contra hc
      exact absurd (h.point (by omega)).1 (by omega)
    obtain ⟨he, _⟩ := h.ahead hpos
    rw [hn] at he
    rw [reached, if_pos (by omega), hn]
  · obtain ⟨m, rfl⟩ : ∃ m, n = m + 1 := ⟨n - 1, by omega⟩
    have hsucc : (m + 1) * R = R * m + R := by ring
    obtain ⟨d, hd, hdR⟩ : ∃ d, e = c₀ + (d + R * m) ∧ d < R := by
      by_cases h₀ : count = 0
      · exact ⟨0, by have := (h.point h₀).2; omega, hR⟩
      · obtain ⟨he, hlt⟩ := h.ahead (by omega)
        have hlt' : count < R := hlt (by omega)
        refine ⟨R - count.toNat, ?_, by omega⟩
        have hcast : (count.toNat : ℤ) = count := Int.toNat_of_nonneg hnonneg
        have he' : e + count.toNat = c₀ + (m + 1) * R := by
          rw [← hcast] at he
          exact_mod_cast he
        omega
    rw [reached, if_neg (by omega), hd, Nat.add_sub_cancel_left, Nat.add_mul_div_left _ _ hR,
      Nat.div_eq_of_lt hdR, Nat.zero_add]

theorem At.modEq {c₀ R e n : ℕ} {count : ℤ} (h : At c₀ R e n count) :
    count ≡ c₀ - e [ZMOD R] := by
  rw [Int.modEq_iff_dvd]
  by_cases h₀ : count = 0
  · obtain ⟨_, he⟩ := h.point h₀
    have he' : (e : ℤ) + R = c₀ + n * R := by exact_mod_cast he
    exact ⟨1 - n, by rw [h₀]; linarith⟩
  · obtain ⟨he, _⟩ := h.ahead (lt_of_le_of_ne h.nonneg (Ne.symm h₀))
    exact ⟨-n, by linarith⟩

/-- How many calls of a sequence are short; `e` cycles have elapsed before it. -/
def shortCalls (c₀ R : ℕ) : (e : ℕ) → List ℕ → ℕ
  | _, [] => 0
  | e, c :: cs => (if Short c₀ R e c then 1 else 0) + shortCalls c₀ R (e + c) cs

theorem shortCalls_eq_zero (c₀ R e : ℕ) (cs : List ℕ) :
    shortCalls c₀ R e cs = 0 ↔
      ∀ before c after, cs = before ++ c :: after → ¬Short c₀ R (e + before.sum) c := by
  induction cs generalizing e with
  | nil => simp [shortCalls]
  | cons d cs ih =>
    rw [shortCalls, Nat.add_eq_zero_iff, ih]
    constructor
    · rintro ⟨hd, hcs⟩ before c after heq
      cases before with
      | nil =>
        simp only [List.nil_append, List.cons.injEq] at heq
        obtain ⟨rfl, rfl⟩ := heq
        simpa using hd
      | cons b before =>
        simp only [List.cons_append, List.cons.injEq] at heq
        obtain ⟨rfl, heq⟩ := heq
        rw [List.sum_cons, ← Nat.add_assoc]
        exact hcs before c after heq
    · intro h
      refine ⟨?_, ?_⟩
      · have hd := h [] d cs rfl
        simpa using hd
      · intro before c after heq
        have hc := h (d :: before) c after (by rw [heq]; rfl)
        rwa [List.sum_cons, ← Nat.add_assoc] at hc

theorem runAll_at {c₀ R : ℕ} (hR : 0 < R) (hR30 : R < 2 ^ 30) {cs : List ℕ}
    (hcs : ∀ c ∈ cs, 0 < c ∧ c ≤ R) {e n : ℕ} {s : World} (hs : Periodic R s.timer)
    (hat : At c₀ R e n s.timer.count) :
    ∃ t n', runAll hwtimerDecrement cs s = .ok () t ∧ At c₀ R (e + cs.sum) n' t.timer.count ∧
      n' + shortCalls c₀ R e cs + s.asserted.length = n + t.asserted.length := by
  induction cs generalizing e n s with
  | nil => exact ⟨s, n, rfl, hat, rfl⟩
  | cons c cs ih =>
    obtain ⟨hc, hcR⟩ := hcs c List.mem_cons_self
    obtain ⟨n', hat', hn'⟩ := hat.step hc hcR
    have hrun := hwtimerDecrement_run hs hR hR30 hcR hat.nonneg hat.le
    generalize ht : ({ s with
      timer := { s.timer with count := counted s.timer.count c R }
      asserted := if s.timer.count ≤ c then s.timer.intLine :: s.asserted else s.asserted } : World) = t at hrun
    have hper : Periodic R t.timer := by
      rw [← ht]
      exact ⟨hs.reload, hs.attached, hs.enabled⟩
    have hcount : t.timer.count = counted s.timer.count c R := by rw [← ht]
    have hlength : t.asserted.length =
        s.asserted.length + if s.timer.count ≤ c then 1 else 0 := by
      rw [← ht]
      by_cases hdue : s.timer.count ≤ c <;> simp [hdue]
    rw [← hcount] at hat'
    obtain ⟨u, n'', hruns, hatu, hu⟩ :=
      ih (fun d hd => hcs d (List.mem_cons_of_mem c hd)) hper hat'
    refine ⟨u, n'', ?_, ?_, ?_⟩
    · rw [runAll, run_bind_ok hrun, hruns]
    · rwa [List.sum_cons, ← Nat.add_assoc]
    · rw [shortCalls]
      omega

/-- The interrupts of a periodic timer are one for every point reached, exactly if no call that
starts at a point is shorter than the period: at zero the count is not reloaded, so the next call
finds it negative and asserts the line again. -/
theorem hwtimerDecrement_iff {R c₀ : ℕ} (hR : 0 < R) (hR30 : R < 2 ^ 30) (hc₀ : 1 ≤ c₀ ∧ c₀ ≤ R)
    {s : World} (hs : Periodic R s.timer) (hcount : s.timer.count = c₀) (hnone : s.asserted = [])
    {cs : List ℕ} (hcs : ∀ c ∈ cs, 0 < c ∧ c ≤ R) :
    ∃ t, runAll hwtimerDecrement cs s = .ok () t ∧
      (t.asserted.length = reached c₀ R cs.sum ∧ 0 ≤ t.timer.count ∧
          t.timer.count ≡ c₀ - cs.sum [ZMOD R] ↔
        ∀ before c after, cs = before ++ c :: after → ¬Short c₀ R before.sum c) := by
  have hat : At c₀ R 0 0 s.timer.count := by
    rw [hcount]
    constructor <;> omega
  obtain ⟨t, n, hrun, hatt, hn⟩ := runAll_at hR hR30 hcs hs hat
  rw [Nat.zero_add] at hatt
  have hreached : n = reached c₀ R cs.sum := hatt.eq_reached hR
  refine ⟨t, hrun, ?_⟩
  have hshort := shortCalls_eq_zero c₀ R 0 cs
  simp only [Nat.zero_add] at hshort
  rw [← hshort]
  have hmod : t.timer.count ≡ c₀ - cs.sum [ZMOD R] := hatt.modEq
  rw [hnone, List.length_nil] at hn
  constructor
  · rintro ⟨hlength, _⟩
    omega
  · intro h₀
    exact ⟨by omega, hatt.nonneg, hmod⟩

/-- The oscillator of eon2 as its reset leaves it. -/
def started : World := ⟨oscillatorReset 0 (oscillator (some 7) 0), [], false, false⟩

theorem periodic_started : Periodic 2048 started.timer :=
  ⟨rfl, rfl, by decide⟩

theorem count_started : started.timer.count = (2048 : ℕ) := by decide

theorem hwtimerDecrement_iff_started :
    ∃ t, runAll hwtimerDecrement [2000, 100, 1996] started = .ok () t ∧
      (t.asserted.length = reached 2048 2048 [2000, 100, 1996].sum ∧ 0 ≤ t.timer.count ∧
          t.timer.count ≡ (2048 : ℕ) - ([2000, 100, 1996].sum : ℕ) [ZMOD (2048 : ℕ)] ↔
        ∀ before c after, [2000, 100, 1996] = before ++ c :: after →
          ¬Short 2048 2048 before.sum c) :=
  hwtimerDecrement_iff (by decide) (by decide) (by decide) periodic_started count_started rfl
    (by decide)

/-- A call that ends exactly at a point and a short one after it assert the line twice. -/
theorem hwtimerDecrement_twice :
    returned (runAll hwtimerDecrement [2048, 1] started) = true ∧
      (finalState (runAll hwtimerDecrement [2048, 1] started)).asserted.length = 2 ∧
      reached 2048 2048 [2048, 1].sum = 1 := by
  decide +kernel

end Hwtimer

end Exec09
