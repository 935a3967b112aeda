import Exec09.Foundation.Program
import Exec09.Multicomp.Console

/-! # The interrupt lines of multicomp09

The pending word of the CPU has one bit for the timer and one for the receiver
of UART0. The timer's bit is the interrupt bit of its register. The receiver's
bit outlives a control write that disables the receive interrupt.
-/
namespace Exec09.Multicomp
open Foundation

namespace Console
variable {c : Console} {source i : ℕ}

@[simp] theorem requestIrq_testBit :
    (c.requestIrq source).irqsPending.testBit i = (c.irqsPending.testBit i || decide (source = i)) := by
  rw [requestIrq, Nat.testBit_or, Nat.one_shiftLeft, Nat.testBit_two_pow]

theorem releaseIrq_testBit (hi : i < 32) :
    (c.releaseIrq source).irqsPending.testBit i =
      (c.irqsPending.testBit i && !decide (source = i)) := by
  rw [releaseIrq, Nat.testBit_and, Word.testBit_compl hi, Nat.one_shiftLeft, Nat.testBit_two_pow]

@[simp] theorem requestIrq_timer : (c.requestIrq source).timer = c.timer := rfl

@[simp] theorem requestIrq_fifo : (c.requestIrq source).fifo = c.fifo := rfl

@[simp] theorem requestIrq_wrStatus : (c.requestIrq source).wrStatus = c.wrStatus := rfl

@[simp] theorem releaseIrq_timer : (c.releaseIrq source).timer = c.timer := rfl

/-- The lines are what the devices drive them to. -/
structure Follows (c : Console) : Prop where
  timer : c.irqsPending.testBit 0 = c.timer.getLsbD 7
  uart : c.irqsPending.testBit 1 = true → ¬c.fifo.empty ∧ c.wrStatus.getLsbD 7 = true

theorem and_bit7 : ∀ x : U8, x &&& 0x80 ≠ 0 ↔ x.getLsbD 7 = true := by decide

/-! ## One operation -/

theorem put_nonempty (f : CharFifo) (ch : U8) : (f.put ch).empty = false := rfl

/-- A poll can only fill the FIFO. -/
theorem rxpoll_frame (c : Console) :
    c.rxpoll.irqsPending = c.irqsPending ∧ c.rxpoll.timer = c.timer ∧
      c.rxpoll.wrStatus = c.wrStatus ∧ (c.rxpoll.fifo.empty → c.fifo.empty) := by
  rw [rxpoll]
  rcases c.batchFile with _ | file
  · rcases c.keyboard with _ | ⟨ch, rest⟩
    · exact ⟨rfl, rfl, rfl, id⟩
    · dsimp only
      split
      · exact ⟨rfl, rfl, rfl, id⟩
      · exact ⟨rfl, rfl, rfl, fun h => absurd h (by simp [put_nonempty])⟩
  · dsimp only
    split
    · rcases file with _ | ⟨ch, rest⟩
      · exact ⟨rfl, rfl, rfl, fun h => absurd h (by simp [put_nonempty])⟩
      · exact ⟨rfl, rfl, rfl, fun h => absurd h (by simp [put_nonempty])⟩
    · exact ⟨rfl, rfl, rfl, id⟩

theorem Follows.rxpoll (h : c.Follows) : c.rxpoll.Follows := by
  obtain ⟨hpending, htimer, hstatus, hempty⟩ := c.rxpoll_frame
  refine ⟨?_, fun hbit => ?_⟩
  · rw [hpending, htimer]
    exact h.timer
  · rw [hpending] at hbit
    rw [hstatus]
    exact ⟨fun he => (h.uart hbit).1 (hempty he), (h.uart hbit).2⟩

theorem Follows.pop (h : c.Follows) : c.pop.2.Follows := by
  rw [Console.pop]
  dsimp only
  split
  · refine ⟨?_, fun hbit => ?_⟩
    · rw [releaseIrq_testBit (by decide)]
      simpa using h.timer
    · rw [releaseIrq_testBit (by decide)] at hbit
      simp at hbit
  · exact ⟨h.timer, h.uart⟩

theorem Follows.read (h : c.Follows) (addr : ℕ) : (c.read addr).2.Follows := by
  match addr with
  | 0 => exact h.rxpoll
  | 1 =>
    rw [Console.read]
    by_cases hempty : c.rxpoll.fifo.empty = true
    · simpa only [if_pos hempty] using h.rxpoll
    · simpa only [if_neg hempty] using h.rxpoll.pop
  | 2 => exact h
  | 3 => exact h
  | 4 => exact h
  | _ + 5 => exact h

theorem Follows.update (h : c.Follows) : c.update.Follows := by
  have hpoll := h.rxpoll
  rw [Console.update]
  generalize c.rxpoll = p at hpoll
  by_cases hready : ¬p.fifo.empty ∧ p.wrStatus &&& 0x80 ≠ 0
  · simp only [if_pos hready]
    refine ⟨?_, fun _ => ⟨hready.1, (and_bit7 _).mp hready.2⟩⟩
    rw [requestIrq_testBit]
    simpa using hpoll.timer
  · simpa only [if_neg hready] using hpoll

theorem Follows.tick (h : c.Follows) : c.tick.Follows := by
  rw [Console.tick]
  split
  · refine ⟨?_, ?_⟩
    · rw [requestIrq_testBit]
      simp [requestIrq]
    · rw [requestIrq_testBit]
      simpa [requestIrq] using h.uart
  · exact h

theorem Follows.writeTimer (h : c.Follows) (val : U8) : (c.writeTimer val).Follows := by
  have hkeep : (c.timer &&& 0xfd ||| val &&& 2).getLsbD 7 = c.timer.getLsbD 7 := by
    simp
  rw [Console.writeTimer]
  dsimp only
  split
  · refine ⟨?_, ?_⟩
    · change (releaseIrq 0 _).irqsPending.testBit 0 = _
      rw [releaseIrq_testBit (by decide)]
      simp [releaseIrq]
    · change (releaseIrq 0 _).irqsPending.testBit 1 = _ → _
      rw [releaseIrq_testBit (by decide)]
      simpa [releaseIrq] using h.uart
  · exact ⟨h.timer.trans hkeep.symm, h.uart⟩

/-- The control value `val` turns the receive interrupt off, and is no master reset. -/
def Disables (val : U8) : Prop := val.getLsbD 7 = false ∧ val ≠ 3

instance (val : U8) : Decidable (Disables val) := inferInstanceAs (Decidable (_ ∧ _))

theorem Follows.control_iff (h : c.Follows) (val : U8) :
    (c.write 0 val).Follows ↔ ¬(Disables val ∧ c.irqsPending.testBit 1 = true) := by
  rw [Console.write]
  by_cases hreset : val = 3
  · rw [if_pos hreset]
    refine iff_of_true ⟨?_, fun hbit => ?_⟩ fun hbad => hbad.1.2 hreset
    · rw [releaseIrq_testBit (by decide)]
      simpa using h.timer
    · rw [releaseIrq_testBit (by decide)] at hbit
      simp at hbit
  · rw [if_neg hreset]
    constructor
    · rintro hf ⟨hoff, hbit⟩
      have hon := (hf.uart hbit).2
      rw [hoff.1] at hon
      cases hon
    · intro hok
      refine ⟨h.timer, fun hbit => ⟨(h.uart hbit).1, ?_⟩⟩
      by_contra hoff
      exact hok ⟨⟨by simpa using hoff, hreset⟩, hbit⟩

end Console

/-! ## Runs -/

namespace Lines
open Console

/-- What can happen to the devices that drive the lines. -/
inductive Event where
  | tick
  | timerWrite (val : U8)
  | write (addr : ℕ) (val : U8)
  | read (addr : ℕ)
  | arrive (ch : U8)
  | update
deriving DecidableEq

def Event.apply : Event → Console → Console
  | .tick, c => c.tick
  | .timerWrite val, c => c.writeTimer val
  | .write addr val, c => c.write addr val
  | .read addr, c => (c.read addr).2
  | .arrive ch, c => c.arrive ch
  | .update, c => c.update

def Event.step (e : Event) : EStateM Stop Console Unit := modify e.apply

/-- The receive interrupt is not turned off while the receiver has it requested. -/
def Keeps : Event → Console → Prop
  | .write 0 val, c => ¬(Disables val ∧ c.irqsPending.testBit 1 = true)
  | _, _ => True

theorem apply_follows_iff {e : Event} {c : Console} (h : c.Follows) :
    (e.apply c).Follows ↔ Keeps e c := by
  cases e with
  | tick => exact iff_of_true h.tick trivial
  | timerWrite val => exact iff_of_true (h.writeTimer val) trivial
  | read addr => exact iff_of_true (h.read addr) trivial
  | arrive ch => exact iff_of_true ⟨h.timer, h.uart⟩ trivial
  | update => exact iff_of_true h.update trivial
  | write addr val =>
    match addr with
    | 0 => exact h.control_iff val
    | 1 => exact iff_of_true ⟨h.timer, h.uart⟩ trivial
    | _ + 2 => exact iff_of_true h trivial

/-- From a start with no request, the lines follow the devices throughout a run exactly if the
receive interrupt is never turned off while it is requested. -/
theorem follows_throughout_iff {es : List Event} {c₀ : Console} (hpending : c₀.irqsPending = 0)
    (htimer : c₀.timer = 0) :
    (∀ es', es' <+: es → ∃ c, runAll Event.step es' c₀ = .ok () c ∧ c.Follows) ↔
      Along Event.step Keeps es c₀ := by
  have hstart : c₀.Follows := ⟨by rw [hpending, htimer]; rfl, fun h => by simp [hpending] at h⟩
  have hstep : ∀ e c, c.Follows → (Keeps e c ↔ OnReturn (Event.step e) c fun _ c' => c'.Follows) :=
    fun e c hc => (apply_follows_iff hc).symm
  rw [along_iff_prefixes hstep hstart]
  have hruns : ∀ es' : List Event, ∃ c, runAll Event.step es' c₀ = .ok () c := by
    intro es'
    have hone : ∀ e : Event, Triple (fun _ => True) e.step (fun _ _ => True) fun _ => False :=
      fun e => Triple.modify fun _ _ => trivial
    obtain ⟨_, c, hrun, -⟩ := (runAll_keeps hone es').total (s := c₀) trivial
    exact ⟨c, hrun⟩
  constructor
  · intro h es' hes'
    obtain ⟨c, hrun, hc⟩ := h es' hes'
    exact (onReturn_ok hrun).mpr hc
  · intro h es' hes'
    obtain ⟨c, hrun⟩ := hruns es'
    exact ⟨c, hrun, (onReturn_ok hrun).mp (h es' hes')⟩

/-- A character is typed and its interrupt requested; the driver reads it and only then turns the
interrupt off, between two ticks of the timer. -/
def session : List Event :=
  [.timerWrite 2, .tick, .write 0 0x80, .arrive 65, .update, .read 0, .read 1, .write 0 0,
    .timerWrite 0x82, .tick]

theorem follows_throughout_session :
    (∀ es', es' <+: session → ∃ c, runAll Event.step es' initial = .ok () c ∧ c.Follows) ↔
      Along Event.step Keeps session initial :=
  follows_throughout_iff rfl rfl

/-- Turning the interrupt off while it is requested leaves the line asserted. -/
theorem not_follows_disabled :
    ∃ c, runAll Event.step [.write 0 0x80, .arrive 65, .update, .write 0 0] initial = .ok () c ∧
      c.irqsPending.testBit 1 = true ∧ c.wrStatus.getLsbD 7 = false ∧ ¬c.Follows := by
  refine ⟨_, rfl, by decide, by decide, fun h => ?_⟩
  have hon := (h.uart (by decide)).2
  revert hon
  decide

end Lines

end Exec09.Multicomp
