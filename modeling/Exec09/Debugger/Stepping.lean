import Exec09.Debugger.StopRequests

/-! # Stepping through the program

A pass of the loop of `cpu_execute` calls the instruction hook and `check_break`,
enters the monitor if `monitor_on` is set, and executes an instruction. The step
count is counted down in `check_break` only and set by the step command only, so
a count that is left when the monitor is left by another command goes on.
-/
namespace Exec09.Debugger
open Foundation

/-- What happens between two calls of the instruction hook. -/
inductive Happening (τ : Type)
  | read (addr : BitVec 64)
  | write (addr : BitVec 64) (val : U8)
  | periodic
  | interrupt
  | guest (m : EStateM Stop τ Unit)

structure Stepping (τ : Type) where
  debug : State τ
  /-- The instructions executed since the monitor was left. -/
  executed : ℕ
  /-- The count of the step command by which it was left. -/
  goal : Option ℤ

abbrev SteppingM (τ : Type) := EStateM Crash (Stepping τ)

/-- One pass of the loop: the commands that are given if the monitor is entered, up to the end of
the input, and what happens until the next pass. -/
structure Pass (τ : Type) where
  commands : List Command
  body : List (Happening τ)

/-- The count of a step command. -/
def stepCount (args : List Text) : ℤ :=
  let count := (args.head?.map Text.atoi).getD 0
  if count ≠ 0 then count else 1

/-- The count that a command asks for, if it is at least one. -/
def Command.goal : Command → Option ℤ
  | step args => if 1 ≤ stepCount args then some (stepCount args) else none
  | _ => none

section Loop
variable {τ : Type}

def onDebug {α : Type} (m : DebugM τ α) : SteppingM τ α := fun s =>
  match m s.debug with
  | .ok a t => .ok a { s with debug := t }
  | .error e t => .error e { s with debug := t }

def checkBreak : DebugM τ Bool := do
  if (← get).autoBreakInsnCount > 0 then
    modify fun s => { s with autoBreakInsnCount := s.autoBreakInsnCount - 1 }
    return (← get).autoBreakInsnCount = 0
  else return false

variable [Target τ]

def Happening.event : Happening τ → Event τ
  | read addr => .read addr
  | write addr val => .write addr val
  | periodic => .periodic
  | interrupt => .interrupt
  | guest m => .guest m

/-- The start of a pass, up to the test of `monitor_on`. -/
def arrive : DebugM τ Unit := do
  commandInsnHook
  let stop ← checkBreak
  if stop then modify fun s => { s with monitorOn := true }

def runCommands : List Command → SteppingM τ Unit
  | [] => pure ()
  | c :: cs => do
    if (← get).debug.exitCommandLoop < 0 then
      onDebug c.perform
      modify fun s => { s with goal := c.goal }
      runCommands cs

def commandLoop (cs : List Command) : SteppingM τ ℤ := do
  onDebug brkfreeTemps
  onDebug (setExitCommandLoop (-1))
  modify fun s => { s with executed := 0, goal := none }
  runCommands cs
  return (← get).debug.exitCommandLoop

def monitor6809 (cs : List Command) : SteppingM τ ℤ := do
  let rc ← commandLoop cs
  onDebug (modify fun s => { s with monitorOn := false, stopRequested := false })
  return rc

def happen (body : List (Happening τ)) : DebugM τ Unit := runAll (fun h => h.event.perform) body

/-- A pass up to the instruction, which is not executed if the monitor was left by quitting. -/
def Pass.front (p : Pass τ) : SteppingM τ Unit := do
  onDebug arrive
  if (← get).debug.monitorOn then
    let rc ← monitor6809 p.commands
    if rc = 0 then modify fun s => { s with executed := s.executed + 1 }
  else modify fun s => { s with executed := s.executed + 1 }

def Pass.perform (p : Pass τ) : SteppingM τ Unit := do
  p.front
  onDebug (happen p.body)

/-- The program starts, in the monitor if `-d` is given. -/
def Stepping.start (target : τ) (debugEnabled : Bool) : Stepping τ where
  debug := { State.init target with monitorOn := debugEnabled, stopRequested := debugEnabled }
  executed := 0
  goal := none

end Loop

section Arrival
variable {τ : Type}

def CountIs (v : ℤ) (s : State τ) : Prop := s.autoBreakInsnCount = v

instance (v : ℤ) : Blind (CountIs (τ := τ) v) := ⟨fun _ _ _ _ _ hs => hs⟩

theorem checkBreak_run (s : State τ) : checkBreak s = if s.autoBreakInsnCount > 0 then
    .ok (decide (s.autoBreakInsnCount = 1))
      { s with autoBreakInsnCount := s.autoBreakInsnCount - 1 } else .ok false s := by
  unfold checkBreak
  rw [run_bind_ok run_get]
  by_cases h : s.autoBreakInsnCount > 0
  · rw [if_pos h, if_pos h, run_bind_ok (run_modify _), run_bind_ok run_get, run_pure]
    congr 1
    exact decide_eq_decide.mpr (by dsimp only; omega)
  · rw [if_neg h, if_neg h, run_pure]

variable [Target τ]

theorem hook_count (acc : Access) (v : ℤ) : Keeps (CountIs (τ := τ) v) acc.hook := by
  refine Access.hook_keeps (fun _ => Keeps.modify fun _ hs => hs) (fun n => ?_) acc
  have hhits : Keeps (CountIs (τ := τ) v) (modify fun s => { s with hits := n :: s.hits } :
      DebugM τ PUnit) := Keeps.modify fun _ hs => hs
  have hstop : Keeps (CountIs (τ := τ) v) (modify fun s => { s with
      monitorOn := !(s.breaktab n).keepRunning
      stopRequested := s.stopRequested || !(s.breaktab n).keepRunning } : DebugM τ PUnit) :=
    Keeps.modify fun s hs => hs
  unfold breakpointHit
  infer_instance

/-- The monitor is entered if it was asked for or the count goes from one to zero. -/
theorem arrive_ok {s t : State τ} (hs : Served s) (hspares : Access.execute.SparesStop s)
    (h : arrive s = .ok () t) :
    (t.monitorOn = true ↔ t.stopRequested = true ∨ s.autoBreakInsnCount = 1) ∧
      t.autoBreakInsnCount = if s.autoBreakInsnCount > 0 then s.autoBreakInsnCount - 1
        else s.autoBreakInsnCount := by
  obtain ⟨⟨⟩, u, hhook, h⟩ := of_run_bind_ok h
  have hserved : Served u := by
    have hend := (Access.execute.hook_served hs).mpr hspares
    rwa [show Access.execute.hook s = .ok () u from hhook] at hend
  have hcount : u.autoBreakInsnCount = s.autoBreakInsnCount := by
    have hend := (hook_count Access.execute s.autoBreakInsnCount).keeps s rfl
    rwa [show Access.execute.hook s = .ok () u from hhook] at hend
  rw [← hcount]
  obtain ⟨stop, v, hcheck, h⟩ := of_run_bind_ok h
  rw [checkBreak_run] at hcheck
  by_cases hpos : u.autoBreakInsnCount > 0
  · rw [if_pos hpos] at hcheck ⊢
    cases hcheck
    by_cases hone : u.autoBreakInsnCount = 1
    · rw [if_pos (decide_eq_true hone)] at h
      cases h
      exact ⟨iff_of_true rfl (.inr hone), rfl⟩
    · rw [if_neg (by simpa using hone)] at h
      cases h
      refine ⟨?_, rfl⟩
      change u.monitorOn = true ↔ u.stopRequested = true ∨ _
      rw [hserved, or_iff_left hone]
  · rw [if_neg hpos] at hcheck ⊢
    cases hcheck
    cases h
    refine ⟨?_, rfl⟩
    rw [hserved, or_iff_left (by omega)]

end Arrival

/-! ## The monitor -/

section Monitor
variable {τ : Type}

theorem onDebug_ok {α : Type} {m : DebugM τ α} {s s' : Stepping τ} {a : α}
    (h : onDebug m s = .ok a s') :
    ∃ t, m s.debug = .ok a t ∧ s' = { s with debug := t } := by
  unfold onDebug at h
  cases hm : m s.debug with
  | ok b t =>
    rw [hm] at h
    cases h
    exact ⟨t, rfl, rfl⟩
  | error e t =>
    rw [hm] at h
    cases h

/-- A count was asked for by the last command, which has left the monitor. -/
def Aimed (s : Stepping τ) : Prop :=
  ∀ n, s.goal = some n → 1 ≤ n ∧ s.debug.autoBreakInsnCount = n ∧ s.debug.exitCommandLoop = 0

theorem cmdStep_aimed {args : List Text} {n : ℤ} (hn : (Command.step args).goal = some n)
    {s t : State τ} (h : cmdStep args s = .ok () t) :
    1 ≤ n ∧ t.autoBreakInsnCount = n ∧ t.exitCommandLoop = 0 := by
  have hrun : t.autoBreakInsnCount = stepCount args ∧ t.exitCommandLoop = 0 := by
    cases h
    exact ⟨rfl, rfl⟩
  change (if 1 ≤ stepCount args then some (stepCount args) else none) = some n at hn
  by_cases hpos : 1 ≤ stepCount args
  · rw [if_pos hpos] at hn
    cases hn
    exact ⟨hpos, hrun⟩
  · rw [if_neg hpos] at hn
    cases hn

variable [Target τ]

theorem runCommands_aimed (cs : List Command) {s s' : Stepping τ} (hs : Aimed s)
    (h : runCommands cs s = .ok () s') : Aimed s' ∧ s'.executed = s.executed := by
  induction cs generalizing s with
  | nil =>
    cases h
    exact ⟨hs, rfl⟩
  | cons c cs ih =>
    unfold runCommands at h
    rw [run_bind_ok run_get] at h
    by_cases hexit : s.debug.exitCommandLoop < 0
    · rw [if_pos hexit] at h
      obtain ⟨⟨⟩, u, hc, h⟩ := of_run_bind_ok h
      obtain ⟨t, hperform, rfl⟩ := onDebug_ok hc
      refine ih (s := { s with debug := t, goal := c.goal }) (fun n hn => ?_) h
      cases c with
      | step args => exact cmdStep_aimed hn hperform
      | _ => cases hn
    · rw [if_neg hexit] at h
      cases h
      exact ⟨hs, rfl⟩

/-- What the monitor leaves: no request, and the count of the step command if that was the last. -/
theorem monitor6809_ok {cs : List Command} {s s' : Stepping τ} {rc : ℤ}
    (h : monitor6809 cs s = .ok rc s') :
    Served s'.debug ∧ s'.executed = 0 ∧
      ∀ n, s'.goal = some n → 1 ≤ n ∧ s'.debug.autoBreakInsnCount = n ∧ rc = 0 := by
  obtain ⟨rc', u, hloop, h⟩ := of_run_bind_ok h
  obtain ⟨⟨⟩, v, hleave, h⟩ := of_run_bind_ok h
  obtain ⟨w, hflags, rfl⟩ := onDebug_ok hleave
  cases hflags
  cases h
  obtain ⟨⟨⟩, t₁, -, hloop⟩ := of_run_bind_ok hloop
  obtain ⟨⟨⟩, t₂, -, hloop⟩ := of_run_bind_ok hloop
  rw [run_bind_ok (run_modify _)] at hloop
  obtain ⟨⟨⟩, t₃, hcommands, hloop⟩ := of_run_bind_ok hloop
  cases hloop
  obtain ⟨haimed, hexecuted⟩ := runCommands_aimed cs (s := { t₂ with executed := 0, goal := none })
    nofun hcommands
  exact ⟨rfl, hexecuted, haimed⟩

end Monitor

/-! ## Passes -/

section Passes
variable {τ : Type} [Target τ]

/-- At the start of a pass the count is what is left of the step command, or not positive. -/
structure Paced (s : Stepping τ) : Prop where
  served : Served s.debug
  counting : ∀ n, s.goal = some n →
    1 ≤ s.executed ∧ (s.executed : ℤ) ≤ n ∧ s.debug.autoBreakInsnCount = n - s.executed + 1
  idle : s.goal = none → s.debug.autoBreakInsnCount ≤ 0

/-- The monitor is entered where it was asked for or the steps are done. -/
def StopsRight (s : Stepping τ) (t : State τ) : Prop :=
  t.monitorOn = true ↔ t.stopRequested = true ∨ s.goal = some (s.executed : ℤ)

/-- No entry that only prints is let through while a request is open, and no count is left when
the monitor is left by another command than a step command. -/
def Pass.Clean (p : Pass τ) (s : Stepping τ) : Prop :=
  Access.execute.SparesStop s.debug ∧ OnReturn p.front s fun _ u =>
    (u.goal = none → u.debug.autoBreakInsnCount ≤ 0) ∧
      Along (fun h : Happening τ => h.event.perform) (fun h => h.event.SparesStop) p.body u.debug

instance (p : Pass τ) (s : Stepping τ) : Decidable (p.Clean s) := inferInstanceAs (Decidable (_ ∧ _))

theorem Paced.arrive {s : Stepping τ} {t : State τ} (hs : Paced s)
    (hspares : Access.execute.SparesStop s.debug) (h : arrive s.debug = .ok () t) :
    StopsRight s t ∧ (∀ n, s.goal = some n → t.autoBreakInsnCount = n - s.executed) ∧
      (s.goal = none → t.autoBreakInsnCount ≤ 0) := by
  obtain ⟨hstop, hcount⟩ := arrive_ok hs.served hspares h
  cases hgoal : s.goal with
  | none =>
    have hidle := hs.idle hgoal
    rw [if_neg (by omega)] at hcount
    refine ⟨hstop.trans ?_, nofun, fun _ => by omega⟩
    rw [hgoal, or_iff_left (by omega), or_iff_left nofun]
  | some n =>
    obtain ⟨-, hle, hauto⟩ := hs.counting n hgoal
    rw [if_pos (by omega)] at hcount
    refine ⟨hstop.trans (or_congr_right ?_), ?_, nofun⟩
    · rw [hgoal, Option.some_inj]
      omega
    · intro m hm
      cases hm
      omega

theorem Pass.front_paced {p : Pass τ} {s u : Stepping τ} (hs : Paced s)
    (hspares : Access.execute.SparesStop s.debug) (h : p.front s = .ok () u)
    (hleft : u.goal = none → u.debug.autoBreakInsnCount ≤ 0) : Paced u := by
  obtain ⟨⟨⟩, s₁, hfirst, h⟩ := of_run_bind_ok h
  obtain ⟨t, harrive, rfl⟩ := onDebug_ok hfirst
  obtain ⟨hstop, hcount, -⟩ := hs.arrive hspares harrive
  rw [run_bind_ok run_get] at h
  by_cases hmonitor : t.monitorOn = true
  · rw [if_pos hmonitor] at h
    obtain ⟨rc, s₂, hrun, h⟩ := of_run_bind_ok h
    obtain ⟨hserved, hzero, haimed⟩ := monitor6809_ok hrun
    by_cases hrc : rc = 0
    · rw [if_pos hrc] at h
      cases h
      refine ⟨hserved, fun n hn => ?_, hleft⟩
      obtain ⟨hn1, hauto, -⟩ := haimed n hn
      dsimp only
      omega
    · rw [if_neg hrc] at h
      cases h
      exact ⟨hserved, fun n hn => absurd (haimed n hn).2.2 hrc, hleft⟩
  · rw [if_neg hmonitor] at h
    cases h
    have hnone : t.stopRequested = false ∧ s.goal ≠ some (s.executed : ℤ) := by
      have hor := mt hstop.mpr hmonitor
      rw [not_or] at hor
      exact ⟨by simpa using hor.1, hor.2⟩
    refine ⟨?_, fun n hn => ?_, hleft⟩
    · exact hnone.1.trans (by simpa using hmonitor)
    · obtain ⟨-, hle, -⟩ := hs.counting n hn
      have hauto := hcount n hn
      have hne : (s.executed : ℤ) ≠ n := fun heq => hnone.2 (hn.trans (congrArg some heq.symm))
      dsimp only
      omega

theorem happening_count (h : Happening τ) (v : ℤ) : Keeps (CountIs v) h.event.perform := by
  have hless : Keeps (CountIs (τ := τ) v) (modify fun s =>
      { s with stopAfterMs := s.stopAfterMs - 100 } : DebugM τ PUnit) := Keeps.modify fun _ hs => hs
  have hzero : Keeps (CountIs (τ := τ) v) (modify fun s =>
      { s with stopAfterMs := 0 } : DebugM τ PUnit) := Keeps.modify fun _ hs => hs
  have hstop : Keeps (CountIs (τ := τ) v) requestStop := Keeps.modify fun _ hs => hs
  cases h with
  | read addr => exact hook_count (.read addr) v
  | write addr val => exact hook_count (.write addr val) v
  | periodic =>
    change Keeps (CountIs v) commandPeriodic
    unfold commandPeriodic
    infer_instance
  | interrupt => exact hstop
  | guest m => exact (evaluating_blind (onTarget m)).seq fun _ => Keeps.pure _

theorem Pass.perform_paced {p : Pass τ} {s s' : Stepping τ} (hs : Paced s) (hclean : p.Clean s)
    (h : p.perform s = .ok () s') : Paced s' := by
  obtain ⟨⟨⟩, u, hfront, h⟩ := of_run_bind_ok h
  obtain ⟨hspares, hclean⟩ := hclean
  obtain ⟨hleft, hbody⟩ := (onReturn_ok hfront).mp hclean
  have hpaced := p.front_paced hs hspares hfront hleft
  obtain ⟨t, hhappen, rfl⟩ := onDebug_ok h
  have hserved : Served t := by
    have hend := Triple.iff_final.mp (runAll_invariant (I := Served)
      (fun e => Triple.iff_final.mpr fun s hs => (event_served (Happening.event e) hs.1).mpr hs.2)
      p.body) _ ⟨hpaced.served, hbody⟩
    rwa [show runAll (fun h : Happening τ => h.event.perform) p.body u.debug = .ok () t from
      hhappen] at hend
  have hcount : t.autoBreakInsnCount = u.debug.autoBreakInsnCount := by
    have hend := Triple.iff_final.mp (runAll_keeps (fun e => Keeps.iff_triple.mp
      (happening_count e u.debug.autoBreakInsnCount)) p.body) u.debug rfl
    rwa [show runAll (fun h : Happening τ => h.event.perform) p.body u.debug = .ok () t from
      hhappen] at hend
  refine ⟨hserved, fun n hn => ?_, fun hn => ?_⟩
  · dsimp only
    rw [hcount]
    exact hpaced.counting n hn
  · dsimp only
    rw [hcount]
    exact hpaced.idle hn

omit [Target τ] in
theorem start_paced (target : τ) (debugEnabled : Bool) : Paced (Stepping.start target debugEnabled) :=
  ⟨rfl, nofun, fun _ => le_refl _⟩

/-- In a clean run the monitor is entered after exactly the instructions that a step command asked
for, or before where something has asked for it, and for no other reason. -/
theorem monitor_entered (target : τ) (debugEnabled : Bool) (ps : List (Pass τ))
    (hclean : Along Pass.perform Pass.Clean ps (Stepping.start target debugEnabled))
    (ps' : List (Pass τ)) (p : Pass τ) (hps : ps' ++ [p] <+: ps) :
    OnReturn (runAll Pass.perform ps') (Stepping.start target debugEnabled) fun _ s =>
      (∀ n, s.goal = some n → (s.executed : ℤ) ≤ n) ∧
        OnReturn arrive s.debug fun _ t =>
          (t.monitorOn = true ↔ t.stopRequested = true ∨ s.goal = some (s.executed : ℤ)) := by
  have hall := hclean.initial hps
  have hnext := hall.next
  have hpaced : Triple (fun s => Paced s ∧ Along Pass.perform Pass.Clean ps' s)
      (runAll Pass.perform ps') (fun _ => Paced) fun _ => True := by
    refine runAll_invariant (fun q s hs => ?_) ps'
    cases hrun : q.perform s with
    | ok a s' => exact q.perform_paced hs.1 hs.2 hrun
    | error e s' => trivial
  cases hrun : runAll Pass.perform ps' (Stepping.start target debugEnabled) with
  | error e s => exact onReturn_error hrun
  | ok a s =>
    have hs : Paced s :=
      hpaced.of_ok ⟨start_paced target debugEnabled, hall.initial (List.prefix_append _ _)⟩ hrun
    obtain ⟨hspares, -⟩ := (onReturn_ok hrun).mp hnext
    refine (onReturn_ok hrun).mpr ⟨fun n hn => (hs.counting n hn).2.1, ?_⟩
    cases harrive : arrive s.debug with
    | error e t => exact onReturn_error harrive
    | ok a t => exact (onReturn_ok harrive).mpr (hs.arrive hspares harrive).1

end Passes

section FlatTarget

/-- Give commands if the monitor is entered, and go on by one byte. -/
def passWith (commands : List Command) : Pass FlatTarget where
  commands := commands
  body := [.guest (modify fun t => { t with pc := t.pc + 1 })]

/-- `step 2` in the monitor. -/
@[irreducible] def stepTwo : Pass FlatTarget := passWith [.step [Text.ofString "2"]]

/-- The monitor is entered after the two instructions. -/
theorem monitor_entered_step :
    OnReturn (runAll Pass.perform [stepTwo, passWith []]) (Stepping.start ⟨0x100, fun _ => 0⟩ true)
      fun _ s => (∀ n, s.goal = some n → (s.executed : ℤ) ≤ n) ∧
        OnReturn arrive s.debug fun _ t =>
          (t.monitorOn = true ↔ t.stopRequested = true ∨ s.goal = some (s.executed : ℤ)) :=
  monitor_entered _ true [stepTwo, passWith [], passWith [.cont], passWith []] (by decide +kernel)
    [stepTwo, passWith []] (passWith [.cont]) ⟨[passWith []], rfl⟩

/-- `break 0x102` and `step 5`: the breakpoint is reached after two instructions, and `continue`
stops after three more, where nothing has asked for it. -/
theorem continue_stopped :
    let s := finalState (runAll Pass.perform
      [passWith [.brk [Text.ofString "0x102"], .step [Text.ofString "5"]], passWith [],
        passWith [.cont], passWith [], passWith []] (Stepping.start ⟨0x100, fun _ => 0⟩ true))
    let t := finalState (arrive s.debug)
    s.goal = none ∧ s.executed = 3 ∧ t.monitorOn = true ∧ t.stopRequested = false := by
  decide +kernel

end FlatTarget

end Exec09.Debugger
