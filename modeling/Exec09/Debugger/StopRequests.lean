import Exec09.Debugger.Lookup

/-! # Which requests to stop are lost

`monitor_on` is assigned by every entry that passes its tests, also by one that
only prints, which assigns zero. The ghost `stopRequested` remembers whether
anything has asked for the monitor, so a request is lost where it is set and
`monitor_on` is not.
-/
namespace Exec09.Debugger
open Foundation
variable {τ : Type} [Target τ]

/-- The tests of an entry: its thread, its condition and its ignore count. -/
def Breakpoint.Allows (br : Breakpoint) (threadId : BitVec 64) (u : Session τ) : Prop :=
  (br.threaded = true → threadId = br.tid.zeroExtend 64) ∧
    (br.conditional = true → ∃ val left v, eval br.condition { u with eflag := 0 } = .ok (val, left) v ∧
      val ≠ 0) ∧ br.ignoreCount = 0

def Allows (s : State τ) (n : Slot) : Prop := (s.breaktab n).Allows s.threadId s.session

instance (r : EStateM.Result Crash (Session τ) Evaluated) :
    Decidable (∃ val left v, r = .ok (val, left) v ∧ val ≠ 0) :=
  match r with
  | .ok (val, left) v => decidable_of_iff (val ≠ 0)
      ⟨fun h => ⟨val, left, v, rfl, h⟩, fun ⟨_, _, _, heq, h⟩ => by cases heq; exact h⟩
  | .error _ _ => isFalse nofun

instance (s : State τ) (n : Slot) : Decidable (Allows s n) := inferInstanceAs (Decidable (_ ∧ _))

section Hit
variable {s : State τ} {n : Slot}

omit [Target τ] in
theorem countedDown_run : countedDown n s =
    if (s.breaktab n).ignoreCount ≠ 0 then
      .ok false (finalState (setSlot n (fun br => { br with ignoreCount := br.ignoreCount - 1 }) s))
    else .ok true s := by
  unfold countedDown
  rw [run_bind_ok run_get]
  by_cases h : (s.breaktab n).ignoreCount ≠ 0
  · rw [if_pos h, if_pos h]
    rfl
  · rw [if_neg h, if_neg h]
    rfl

/-- An evaluation that returns gives the value and keeps the rest. -/
theorem conditionHolds_ok {val : BitVec 64} {left : Text} {u : Session τ}
    (h : eval (s.breaktab n).condition { s.session with eflag := 0 } = .ok (val, left) u) :
    conditionHolds n s = .ok (decide (val ≠ 0))
      (finalState (setSlot n (fun br => { br with condition := left }) { s with session := u })) := by
  have heval : evaluating (eval (s.breaktab n).condition) s =
      .ok ((val, left), u.eflag) { s with session := u } := by
    unfold evaluating
    rw [h]
  unfold conditionHolds
  rw [run_bind_ok run_get, run_bind_ok heval]
  rfl

theorem conditionHolds_error {e : Crash} {u : Session τ}
    (h : eval (s.breaktab n).condition { s.session with eflag := 0 } = .error e u) :
    conditionHolds n s = .error e { s with session := u } := by
  have heval : evaluating (eval (s.breaktab n).condition) s = .error e { s with session := u } := by
    unfold evaluating
    rw [h]
  unfold conditionHolds
  rw [run_bind_ok run_get, run_bind_error heval]

/-- What the tests of an entry leave as it was. -/
structure Undecided (s₀ : State τ) (n : Slot) (s : State τ) : Prop where
  monitorOn : s.monitorOn = s₀.monitorOn
  stopRequested : s.stopRequested = s₀.stopRequested
  keepRunning : (s.breaktab n).keepRunning = (s₀.breaktab n).keepRunning

omit [Target τ] in
theorem setSlot_entry (s : State τ) (n : Slot) (g : Breakpoint → Breakpoint) :
    (finalState (setSlot n g s)).breaktab n = g (s.breaktab n) :=
  Function.update_self n _ s.breaktab

omit [Target τ] in
theorem setSlot_undecided (s : State τ) {g : Breakpoint → Breakpoint}
    (hg : ∀ br, (g br).keepRunning = br.keepRunning) :
    Undecided s n (finalState (setSlot n g s)) := by
  refine ⟨rfl, rfl, ?_⟩
  rw [setSlot_entry, hg]

/-- `hitAllowed` returns whether the tests are passed. -/
def Decides (s : State τ) (n : Slot) : EStateM.Result Crash (State τ) Bool → Prop
  | .ok b s' => (b = true ↔ Allows s n) ∧ Undecided s n s'
  | .error _ s' => ¬Allows s n ∧ Undecided s n s'

theorem countedDown_decides (s₀ : State τ) (hs : Undecided s₀ n s)
    (hcount : (s.breaktab n).ignoreCount = (s₀.breaktab n).ignoreCount)
    (hother : Allows s₀ n ↔ (s₀.breaktab n).ignoreCount = 0) : Decides s₀ n (countedDown n s) := by
  rw [countedDown_run, hcount]
  by_cases h : (s₀.breaktab n).ignoreCount ≠ 0
  · rw [if_pos h]
    have hset := setSlot_undecided (n := n) s
      (g := fun br => { br with ignoreCount := br.ignoreCount - 1 }) fun _ => rfl
    exact ⟨iff_of_false Bool.false_ne_true (mt hother.mp h), hset.1.trans hs.1, hset.2.trans hs.2,
      hset.3.trans hs.3⟩
  · rw [if_neg h]
    exact ⟨iff_of_true rfl (hother.mpr (not_not.mp h)), hs⟩

theorem hitAllowed_decides : Decides s n (hitAllowed n s) := by
  have hsame : Undecided s n s := ⟨rfl, rfl, rfl⟩
  unfold hitAllowed
  rw [run_bind_ok run_get]
  by_cases hthread : (s.breaktab n).threaded = true ∧ s.threadId ≠ (s.breaktab n).tid.zeroExtend 64
  · rw [if_pos hthread]
    exact ⟨iff_of_false Bool.false_ne_true fun h => hthread.2 (h.1 hthread.1), hsame⟩
  · rw [if_neg hthread]
    have hmine : (s.breaktab n).threaded = true → s.threadId = (s.breaktab n).tid.zeroExtend 64 :=
      fun h => not_not.mp fun hne => hthread ⟨h, hne⟩
    by_cases hconditional : (s.breaktab n).conditional = true
    · rw [if_pos hconditional]
      cases heval : eval (s.breaktab n).condition { s.session with eflag := 0 } with
      | error e u =>
        rw [run_bind_error (conditionHolds_error heval)]
        refine ⟨fun h => ?_, rfl, rfl, rfl⟩
        obtain ⟨val, left, v, hok, -⟩ := h.2.1 hconditional
        rw [hok] at heval
        cases heval
      | ok r u =>
        obtain ⟨val, left⟩ := r
        rw [run_bind_ok (conditionHolds_ok heval)]
        have hset := setSlot_undecided (n := n) { s with session := u }
          (g := fun br => { br with condition := left }) fun _ => rfl
        by_cases hval : val = 0
        · rw [if_neg (by simp [hval])]
          refine ⟨iff_of_false Bool.false_ne_true fun h => ?_, hset.1, hset.2, hset.3⟩
          obtain ⟨val', left', v, hok, hne⟩ := h.2.1 hconditional
          rw [hok] at heval
          cases heval
          exact hne hval
        · rw [if_pos (decide_eq_true hval)]
          refine countedDown_decides s ⟨hset.1, hset.2, hset.3⟩ ?_ ?_
          · rw [setSlot_entry]
          · exact ⟨fun h => h.2.2, fun h => ⟨hmine, fun _ => ⟨val, left, u, heval, hval⟩, h⟩⟩
    · rw [if_neg hconditional]
      exact countedDown_decides s hsame rfl
        ⟨fun h => h.2.2, fun h => ⟨hmine, fun hc => absurd hc hconditional, h⟩⟩

/-! ## One step -/

/-- `monitor_on` is set exactly if something has asked for the monitor. -/
def Served (s : State τ) : Prop := s.stopRequested = s.monitorOn

/-- An entry that passes its tests clears a request exactly if it only prints. -/
theorem breakpointHit_served (hs : Served s) : Served (finalState (breakpointHit n s)) ↔
    (s.monitorOn = true → (s.breaktab n).keepRunning = true → ¬Allows s n) := by
  let t : State τ := { s with hits := n :: s.hits }
  have hcall : (modify fun s => { s with hits := n :: s.hits } : DebugM τ PUnit) s = .ok ⟨⟩ t := rfl
  have hdecides : Decides t n (hitAllowed n t) := hitAllowed_decides
  unfold breakpointHit
  rw [run_bind_ok hcall]
  cases hallowed : hitAllowed n t with
  | error e u =>
    rw [hallowed] at hdecides
    rw [run_bind_error hallowed]
    refine iff_of_true ?_ fun _ _ => hdecides.1
    exact hdecides.2.stopRequested.trans (hs.trans hdecides.2.monitorOn.symm)
  | ok b u =>
    rw [hallowed] at hdecides
    obtain ⟨hb, hu⟩ := hdecides
    rw [run_bind_ok hallowed]
    by_cases h : b = true
    · rw [if_pos h]
      have hkeep : (u.breaktab n).keepRunning = (s.breaktab n).keepRunning := hu.keepRunning
      have hstop : u.stopRequested = s.monitorOn := hu.stopRequested.trans hs
      have hallows : Allows s n := hb.mp h
      change (u.stopRequested || !(u.breaktab n).keepRunning) = !(u.breaktab n).keepRunning ↔ _
      rw [hkeep, hstop]
      cases s.monitorOn <;> cases (s.breaktab n).keepRunning <;> simp [hallows]
    · rw [if_neg h]
      refine iff_of_true ?_ fun _ _ hallows => h (hb.mpr hallows)
      exact hu.stopRequested.trans (hs.trans hu.monitorOn.symm)

end Hit

/-- The two flags are as given. -/
def FlagsAre (monitorOn stopRequested : Bool) (s : State τ) : Prop :=
  s.monitorOn = monitorOn ∧ s.stopRequested = stopRequested

omit [Target τ] in
instance (a b : Bool) : Blind (FlagsAre (τ := τ) a b) := ⟨fun _ _ _ _ _ hs => hs⟩

omit [Target τ] in
/-- A program that keeps the flags does not matter after another one. -/
theorem served_then {m rest : DebugM τ Unit} {s : State τ}
    (hrest : ∀ a b, Keeps (FlagsAre a b) rest) :
    Served (finalState ((do m; rest) s)) ↔ Served (finalState (m s)) := by
  cases hm : m s with
  | error e t => rw [run_bind_error hm]
  | ok u t =>
    rw [run_bind_ok hm]
    have hflags := (hrest t.monitorOn t.stopRequested).keeps t ⟨rfl, rfl⟩
    change (finalState (rest t)).stopRequested = (finalState (rest t)).monitorOn ↔ _
    rw [hflags.1, hflags.2]
    rfl

omit [Target τ] in
instance : Blind (Served (τ := τ)) := ⟨fun _ _ _ _ _ hs => hs⟩

namespace Access
variable {s : State τ}

/-- While a request is open, the access lets no entry through that only prints. -/
def SparesStop (acc : Access) (s : State τ) : Prop :=
  s.monitorOn = true → ∀ n, acc.found s = some n → acc.passes (s.breaktab n) = true →
    (s.breaktab n).keepRunning = true → ¬Allows s n

instance (acc : Access) (s : State τ) : Decidable (acc.SparesStop s) :=
  inferInstanceAs (Decidable (_ → _))

theorem onHit_served (acc : Access) (n : Slot) (hs : Served s) :
    Served (finalState (acc.onHit n s)) ↔ (s.monitorOn = true → acc.passes (s.breaktab n) = true →
      (s.breaktab n).keepRunning = true → ¬Allows s n) := by
  cases acc with
  | execute =>
    have hrest := served_then (m := breakpointHit n) (s := s) fun a b =>
      freeReached_blind (I := FlagsAre a b) n
    exact hrest.trans ((breakpointHit_served hs).trans (by simp [passes]))
  | read addr => exact (breakpointHit_served hs).trans (by simp [passes])
  | write addr val =>
    let t := finalState (rememberWrite n val s)
    have hentry : t.breaktab n = if (s.breaktab n).writeMask ≠ 0 then
        { s.breaktab n with lastWrite := val.zeroExtend 16 } else s.breaktab n := setSlot_entry s n _
    have hkeep : (t.breaktab n).keepRunning = (s.breaktab n).keepRunning := by
      rw [hentry]
      split <;> rfl
    have hallows : Allows t n ↔ Allows s n := by
      change (t.breaktab n).Allows s.threadId s.session ↔ _
      rw [hentry]
      split <;> rfl
    rw [onHit_write]
    by_cases hmask : maskOk (s.breaktab n) val = true
    · rw [if_pos hmask]
      have hrest := served_then (m := breakpointHit n) (s := t) fun a b =>
        threadHook_blind (I := FlagsAre a b) addr
      have hmonitor : t.monitorOn = s.monitorOn := rfl
      refine hrest.trans ?_
      rw [breakpointHit_served (s := t) hs, hkeep, hallows, hmonitor]
      simp [passes, hmask]
    · rw [if_neg hmask]
      exact iff_of_true hs fun _ hpasses => absurd hpasses hmask

theorem hook_served (acc : Access) (hs : Served s) :
    Served (finalState (acc.hook s)) ↔ acc.SparesStop s := by
  have hstart : Served (acc.start s) := by cases acc <;> exact hs
  rw [acc.hook_eq]
  unfold SparesStop
  cases hfound : acc.found s with
  | none =>
    refine iff_of_true ?_ fun _ n hn => nomatch hn
    cases acc with
    | write addr val => exact (threadHook_blind addr).keeps s hs
    | _ => exact hstart
  | some n =>
    have hhit := acc.onHit_served n hstart
    have hmonitor : (acc.start s).monitorOn = s.monitorOn := by cases acc <;> rfl
    have hallows : Allows (acc.start s) n ↔ Allows s n := by cases acc <;> rfl
    rw [acc.start_breaktab, hmonitor, hallows] at hhit
    simpa using hhit

end Access

/-! ## Runs -/

/-- No entry that only prints is let through while a request is open. -/
def Event.SparesStop : Event τ → State τ → Prop
  | insn => Access.execute.SparesStop
  | read addr => (Access.read addr).SparesStop
  | write addr val => (Access.write addr val).SparesStop
  | _ => fun _ => True

omit [Target τ] in
theorem requestStop_served : Keeps (Served (τ := τ)) requestStop := Keeps.modify fun _ _ => rfl

omit [Target τ] in
theorem commandPeriodic_served : Keeps (Served (τ := τ)) commandPeriodic := by
  have hless : Keeps (Served (τ := τ)) (modify fun s =>
      { s with stopAfterMs := s.stopAfterMs - 100 } : DebugM τ PUnit) := Keeps.modify fun _ hs => hs
  have hzero : Keeps (Served (τ := τ)) (modify fun s =>
      { s with stopAfterMs := 0 } : DebugM τ PUnit) := Keeps.modify fun _ hs => hs
  have hstop := requestStop_served (τ := τ)
  unfold commandPeriodic
  infer_instance

theorem event_served {s : State τ} (e : Event τ) (hs : Served s) :
    Served (finalState (e.perform s)) ↔ e.SparesStop s := by
  have hkeeps : ∀ {m : DebugM τ Unit}, Keeps Served m → (Served (finalState (m s)) ↔ True) :=
    fun hm => iff_true_intro (hm.keeps s hs)
  cases e with
  | command c =>
    exact hkeeps (command_keeps (fun _ => Keeps.modify fun _ hs => hs)
      (fun _ => Keeps.modify fun _ hs => hs) (fun _ => Keeps.modify fun _ hs => hs) c)
  | insn => exact Access.execute.hook_served hs
  | read addr => exact (Access.read addr).hook_served hs
  | write addr val => exact (Access.write addr val).hook_served hs
  | periodic => exact hkeeps commandPeriodic_served
  | interrupt => exact hkeeps requestStop_served
  | freeTemps => exact hkeeps brkfreeTemps_blind
  | guest m => exact hkeeps ((evaluating_blind (onTarget m)).seq fun _ => Keeps.pure _)

instance : ∀ (e : Event τ) (s : State τ), Decidable (e.SparesStop s)
  | .insn, s => inferInstanceAs (Decidable (Access.execute.SparesStop s))
  | .read addr, s => inferInstanceAs (Decidable ((Access.read addr).SparesStop s))
  | .write addr val, s => inferInstanceAs (Decidable ((Access.write addr val).SparesStop s))
  | .command _, _ | .periodic, _ | .interrupt, _ | .freeTemps, _ | .guest _, _ => isTrue trivial

/-- The debugger at the start of an instruction: a request is open if `monitor_on` is set. -/
def State.atInsn (s : State τ) : State τ := { s with stopRequested := s.monitorOn }

/-- A request that was made. -/
def Requested (s : State τ) : Prop := s.stopRequested = true

omit [Target τ] in
instance : Blind (Requested (τ := τ)) := ⟨fun _ _ _ _ _ hs => hs⟩

theorem hook_requested (acc : Access) : Keeps (Requested (τ := τ)) acc.hook := by
  refine Access.hook_keeps (fun _ => Keeps.modify fun _ hs => hs) (fun n => ?_) acc
  have hhits : Keeps (Requested (τ := τ)) (modify fun s => { s with hits := n :: s.hits } :
      DebugM τ PUnit) := Keeps.modify fun _ hs => hs
  have hstop : Keeps (Requested (τ := τ)) (modify fun s => { s with
      monitorOn := !(s.breaktab n).keepRunning
      stopRequested := s.stopRequested || !(s.breaktab n).keepRunning } : DebugM τ PUnit) :=
    Keeps.modify fun s hs => Bool.or_eq_true_iff.mpr (.inl hs)
  unfold breakpointHit
  infer_instance

theorem access_kept {s : State τ} (acc : Access) (hs : Served s) :
    acc.SparesStop s ↔ ((finalState (acc.hook s)).stopRequested = true →
      (finalState (acc.hook s)).monitorOn = true) := by
  rw [← acc.hook_served hs]
  constructor
  · intro h hrequested
    rwa [← h]
  · intro h
    by_cases hmonitor : s.monitorOn = true
    · have hrequested : (finalState (acc.hook s)).stopRequested = true :=
        (hook_requested acc).keeps s (hs.trans hmonitor)
      exact hrequested.trans (h hrequested).symm
    · exact (acc.hook_served hs).mpr fun hset => absurd hset hmonitor

theorem event_kept {s : State τ} (e : Event τ) (hs : Served s) :
    e.SparesStop s ↔ ((finalState (e.perform s)).stopRequested = true →
      (finalState (e.perform s)).monitorOn = true) := by
  have hother : (e.SparesStop s ↔ True) → (e.SparesStop s ↔
      ((finalState (e.perform s)).stopRequested = true →
        (finalState (e.perform s)).monitorOn = true)) := by
    intro h
    have hserved := (event_served e hs).mpr (h.mpr trivial)
    exact h.trans (iff_of_true trivial fun hrequested => by rwa [← hserved])
  cases e with
  | insn => exact access_kept .execute hs
  | read addr => exact access_kept (.read addr) hs
  | write addr val => exact access_kept (.write addr val) hs
  | _ => exact hother Iff.rfl

/-- `monitor_on` stays set whenever it was set at first or anything has asked for the monitor,
exactly if no entry that only prints is let through while a request is open. -/
theorem stop_kept_iff (s : State τ) (es : List (Event τ)) :
    Along Event.perform Event.SparesStop es s.atInsn ↔ ∀ es', es' <+: es →
      (finalState (runAll Event.perform es' s.atInsn)).stopRequested = true →
        (finalState (runAll Event.perform es' s.atInsn)).monitorOn = true :=
  along_iff_ends (I := Served) (P := fun s : State τ => s.stopRequested = true → s.monitorOn = true)
    (fun s hs hrequested => by rwa [← hs]) (fun e s hs => event_kept e hs)
    (fun e s hs hspares => (event_served e hs).mpr hspares) rfl

/-- `watch 0x200` and `watch 0x300 print`. -/
def twoWatchpoints : State FlatTarget :=
  finalState (runAll Event.perform [.command (.watch [Text.ofString "0x200"]),
    .command (.watch (["0x300", "print"].map Text.ofString))] (State.init ⟨0, fun _ => 0⟩))

/-- An instruction that writes to 0x200 and then to 0x300 does not stop. -/
theorem stop_lost :
    let s := finalState (runAll Event.perform [.write 0x200 1, .write 0x300 1] twoWatchpoints.atInsn)
    s.hits.length = 2 ∧ s.stopRequested = true ∧ s.monitorOn = false := by
  decide +kernel

end Exec09.Debugger
