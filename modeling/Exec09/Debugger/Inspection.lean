import Exec09.Debugger.CodeView
import Exec09.Debugger.StopRequests

/-! # Looking at the registers

`print_regs` shows the words that six registers point to. It reads them over the
bus map, as the program does, so it reaches the fault handler, the watchpoints
and the read functions of the devices. The machine is the same after each part
of it exactly if none of these does anything.
-/
namespace Exec09.Debugger
open Foundation
variable {σ : Type}

/-! ## The processor on its board, under the debugger -/

/-- A machine with the given value of `monitor_on`, and without the log of its bus. -/
def settle (monitorOn : Bool) (t : Cpu (Board σ)) : Cpu (Board σ) :=
  { t with bus := { t.bus with monitorOn := monitorOn, log := [] } }

/-- The processor, the devices with their input, the bus map and `monitor_on`. -/
def machine (s : State (Cpu (Board σ))) : Cpu (Board σ) := settle s.monitorOn s.session.target

/-- The counters of the breakpoints. -/
def counters (s : State (Cpu (Board σ))) : BitVec 32 × (Slot → BitVec 32) :=
  (s.activeBreakCount, fun n => (s.breaktab n).ignoreCount)

/-- The state after an operation of the board. The board has no log under the debugger, whose hooks
are called. -/
def withBoard (b : Board σ) (s : State (Cpu (Board σ))) : State (Cpu (Board σ)) :=
  { s with
    session := { s.session with target := { s.session.target with
      bus := { b with log := s.session.target.bus.log } } }
    monitorOn := b.monitorOn
    stopRequested := s.stopRequested || b.monitorOn }

/-- Run an operation of the board; `monitor_on` is one variable. -/
def onBoard {α : Type} (m : BoardM σ α) : DebugM (Cpu (Board σ)) α := fun s =>
  match m (machine s).bus with
  | .ok a b => .ok a (withBoard b s)
  | .error e b => .error (.emulator e) (withBoard b s)

/-- The state with the value of `monitor_on` on the board as well. -/
def shared (s : State (Cpu (Board σ))) : State (Cpu (Board σ)) :=
  { s with session := { s.session with target := { s.session.target with
    bus := { s.session.target.bus with monitorOn := s.monitorOn } } } }

/-- Run a part of the debugger that evaluates; a fault of it sets `monitor_on`. -/
def sharing {α : Type} (m : DebugM (Cpu (Board σ)) α) : DebugM (Cpu (Board σ)) α := do
  modify shared
  let a ← m
  modify fun s => { s with monitorOn := s.session.target.bus.monitorOn }
  return a

def readByte (hw : Hardware σ) (dev phyAddr : ℕ) : DebugM (Cpu (Board σ)) U8 := do
  onBoard (hw.read (getPc (← get).session.target) dev phyAddr)

/-- The absolute address that the watchpoints are told. -/
def watchAddress (addr : ℕ) (s : State (Cpu (Board σ))) : BitVec 64 :=
  BitVec.ofNat 64 (Exec09.Access.toAbsolute s.session.target.bus.busmaps addr)

section Source
variable [Target (Cpu (Board σ))] (hw : Hardware σ)

/-- `breakpoint_hit`. -/
def watchHit (n : Slot) : DebugM (Cpu (Board σ)) Unit := do
  modify fun s => { s with hits := n :: s.hits }
  let allowed ← sharing (hitAllowed n)
  if allowed then
    modify fun s => { s with
      monitorOn := !(s.breaktab n).keepRunning
      stopRequested := s.stopRequested || !(s.breaktab n).keepRunning }

/-- `command_read_hook`. -/
def readHook (addr : BitVec 64) : DebugM (Cpu (Board σ)) Unit := do
  match triggered Breakpoint.onRead addr (← get) with
  | some n => watchHit n
  | none => pure ()

/-- `cpu_read16`. -/
def readWord (addr : ℕ) : DebugM (Cpu (Board σ)) U16 := do
  let (dev, phyAddr) ← onBoard (Exec09.Access.readTarget addr)
  readHook (watchAddress addr (← get))
  let high ← readByte hw dev phyAddr
  let low ← readByte hw dev (Word.trunc 64 (phyAddr + 1))
  return high ++ low

/-- What `print_regs` prints. -/
structure RegsShown where
  flags : List Char
  X : ℕ
  wordX : U16
  Y : ℕ
  wordY : U16
  PC : ℕ
  wordPC : U16
  U : ℕ
  wordU : U16
  S : ℕ
  wordS : U16
  DP : ℕ
  A : ℕ
  B : ℕ
  wordD : U16

def flagLetters (cc : ℕ) : List Char :=
  [(C_FLAG, 'C'), (V_FLAG, 'V'), (Z_FLAG, 'Z'), (N_FLAG, 'N'), (I_FLAG, 'I'), (H_FLAG, 'H'),
    (F_FLAG, 'F'), (E_FLAG, 'E')].map fun (flag, letter) => if cc &&& flag ≠ 0 then letter else ' '

/-- C leaves the order of the reads in one line open. -/
def printRegs : DebugM (Cpu (Board σ)) RegsShown := do
  let c := (← get).session.target
  let wordX ← readWord hw (← get).session.target.X
  let wordY ← readWord hw (← get).session.target.Y
  let wordPC ← readWord hw (getPc (← get).session.target)
  let wordU ← readWord hw (← get).session.target.U
  let wordS ← readWord hw (← get).session.target.S
  let wordD ← readWord hw (getD (← get).session.target)
  return ⟨flagLetters (getCc c), c.X, wordX, c.Y, wordY, getPc c, wordPC, c.U, wordU, c.S, wordS,
    c.DP >>> 8, c.A, c.B, wordD⟩

/-! ## The parts of a display -/

/-- The pointers of `print_regs`, in order. -/
def pointers : List (Cpu (Board σ) → ℕ) := [Cpu.X, Cpu.Y, getPc, Cpu.U, Cpu.S, getD]

/-- Show the word that a pointer points to. -/
def inspect (pointer : Cpu (Board σ) → ℕ) : DebugM (Cpu (Board σ)) Unit := do
  let _ ← readWord hw (pointer (← get).session.target)

/-- The parts of reading a word. -/
inductive Part
  | mapped
  | hooked
  | high
  | low

/-- What comes after the look-up of the address, up to the given part. -/
def lookedUp (addr dev phyAddr : ℕ) : Part → DebugM (Cpu (Board σ)) Unit
  | .mapped => pure ()
  | .hooked => do readHook (watchAddress addr (← get))
  | .high => do
    readHook (watchAddress addr (← get))
    let _ ← readByte hw dev phyAddr
  | .low => do
    readHook (watchAddress addr (← get))
    let _ ← readByte hw dev phyAddr
    let _ ← readByte hw dev (Word.trunc 64 (phyAddr + 1))

/-- Read a word up to the given part. -/
def readPart (addr : ℕ) (part : Part) : DebugM (Cpu (Board σ)) Unit := do
  let (dev, phyAddr) ← onBoard (Exec09.Access.readTarget addr)
  lookedUp hw addr dev phyAddr part

def inspectPart (pointer : Cpu (Board σ) → ℕ) (part : Part) : DebugM (Cpu (Board σ)) Unit := do
  readPart hw (pointer (← get).session.target) part

end Source

/-- The program returns and leaves the machine and the counters as they were. -/
structure Untouched {α : Type} (m : DebugM (Cpu (Board σ)) α) (s : State (Cpu (Board σ))) :
    Prop where
  returns : returned (m s) = true
  sameMachine : machine (finalState (m s)) = machine s
  sameCounters : counters (finalState (m s)) = counters s

section Untouched
variable {α β : Type} {m : DebugM (Cpu (Board σ)) α} {f : α → DebugM (Cpu (Board σ)) β}
  {s t : State (Cpu (Board σ))} {a : α}

theorem untouched_ok (h : m s = .ok a t) :
    Untouched m s ↔ machine t = machine s ∧ counters t = counters s := by
  constructor
  · intro huntouched
    have hmachine := huntouched.sameMachine
    have hcounters := huntouched.sameCounters
    rw [h] at hmachine hcounters
    exact ⟨hmachine, hcounters⟩
  · rintro ⟨hmachine, hcounters⟩
    constructor <;> rw [h]
    · rfl
    · exact hmachine
    · exact hcounters

theorem not_untouched_error {e : Crash} (h : m s = .error e t) : ¬Untouched m s := by
  intro huntouched
  have hreturned := huntouched.returns
  rw [h] at hreturned
  cases hreturned

theorem Untouched.run (h : Untouched m s) :
    ∃ a t, m s = .ok a t ∧ machine t = machine s ∧ counters t = counters s := by
  cases hr : m s with
  | ok a t => exact ⟨a, t, rfl, (untouched_ok hr).mp h⟩
  | error e t => exact absurd h (not_untouched_error hr)

theorem untouched_bind_run {b : β} {u : State (Cpu (Board σ))} (h : m s = .ok a t)
    (hf : f a t = .ok b u) :
    Untouched (m >>= f) s ↔ machine u = machine s ∧ counters u = counters s :=
  untouched_ok ((run_bind_ok h).trans hf)

/-- After a part that changed nothing. -/
theorem untouched_bind_ok (h : m s = .ok a t) (hm : Untouched m s) :
    Untouched (m >>= f) s ↔ Untouched (f a) t := by
  obtain ⟨hmachine, hcounters⟩ := (untouched_ok h).mp hm
  cases hr : f a t with
  | ok b u => rw [untouched_bind_run h hr, untouched_ok hr, hmachine, hcounters]
  | error e u =>
    exact iff_of_false (not_untouched_error ((run_bind_ok h).trans hr)) (not_untouched_error hr)

/-- What is done with the value does not matter. -/
theorem untouched_bind_pure (g : α → β) :
    Untouched (m >>= fun a => pure (g a)) s ↔ Untouched m s := by
  cases hr : m s with
  | ok a t =>
    have hbind : (m >>= fun a => pure (g a)) s = .ok (g a) t := run_bind_ok hr
    rw [untouched_ok hbind, untouched_ok hr]
  | error e t =>
    exact iff_of_false (not_untouched_error (run_bind_error hr)) (not_untouched_error hr)

theorem untouched_get {f : State (Cpu (Board σ)) → DebugM (Cpu (Board σ)) β} :
    Untouched (get >>= f) s ↔ Untouched (f s) s :=
  untouched_bind_ok run_get ((untouched_ok run_get).mpr ⟨rfl, rfl⟩)

end Untouched

/-! ## When a part changes nothing -/

section Board
variable {s : State (Cpu (Board σ))}

theorem machine_withBoard (b : Board σ) (s : State (Cpu (Board σ))) :
    machine (withBoard b s) = { machine s with bus := { b with log := [] } } := rfl

theorem onBoard_ok {α : Type} {m : BoardM σ α} {a : α} {b : Board σ}
    (h : m (machine s).bus = .ok a b) : onBoard m s = .ok a (withBoard b s) := by
  rw [onBoard, h]

/-- An operation of the board changes nothing exactly if it returns on the same board. -/
theorem untouched_onBoard {α : Type} {m : BoardM σ α} : Untouched (onBoard m) s ↔
    ∃ a b, m (machine s).bus = .ok a b ∧ { b with log := [] } = (machine s).bus := by
  cases hr : m (machine s).bus with
  | error e b =>
    have hrun : onBoard m s = .error (.emulator e) (withBoard b s) := by rw [onBoard, hr]
    refine iff_of_false (not_untouched_error hrun) ?_
    rintro ⟨a, b', h, -⟩
    cases h
  | ok a b =>
    rw [untouched_ok (onBoard_ok hr), machine_withBoard]
    constructor
    · intro h
      exact ⟨a, b, rfl, congrArg Cpu.bus h.1⟩
    · rintro ⟨a', b', h, hb⟩
      cases h
      exact ⟨by rw [hb], rfl⟩

/-- The look-up of an address reports no fault, or one that finds `monitor_on` set. -/
def FaultQuiet (addr : ℕ) (b : Board σ) : Prop :=
  addr < 0x10000 ∧ (b.readReports addr = true → b.debugEnabled = true ∧ b.monitorOn = true)

theorem readTarget_outside {addr : ℕ} (h : ¬addr < 0x10000) (b : Board σ) :
    ∃ t, Exec09.Access.readTarget addr b = .error (.fatal .mapIndex) t := by
  have hentry : Exec09.Access.entry addr b = .error (.fatal .mapIndex) b := by
    rw [Exec09.Access.entry, run_bind_ok run_get, if_neg (by omega)]
    rfl
  exact ⟨b, run_bind_error hentry⟩

theorem readStops_eq (b : Board σ) (addr : ℕ) :
    b.readStops addr = (b.readReports addr && !b.debugEnabled) := by
  rw [Board.readStops, Board.readReports, Board.faultStops]
  cases b.cpuRunning <;> cases b.machineFault == .fault <;> simp [Bool.and_comm]

theorem untouched_readTarget {addr : ℕ} :
    Untouched (onBoard (Exec09.Access.readTarget addr)) s ↔ FaultQuiet addr (machine s).bus := by
  have hlog : (machine s).bus.log = [] := rfl
  rw [untouched_onBoard]
  generalize (machine s).bus = b at hlog
  by_cases ha : addr < 0x10000
  · cases hstops : b.readStops addr with
    | true =>
      obtain ⟨t, ht⟩ := Exec09.Access.readTarget_error ha hstops
      rw [readStops_eq, Bool.and_eq_true, Bool.not_eq_true'] at hstops
      refine iff_of_false ?_ ?_
      · rintro ⟨p, b', h, -⟩
        rw [ht] at h
        cases h
      · intro h
        have hdebug := (h.2 hstops.1).1
        rw [hstops.2] at hdebug
        cases hdebug
    | false =>
      have hrun := Exec09.Access.readTarget_run ha hstops
      rw [readStops_eq, Bool.and_eq_false_imp] at hstops
      have hmonitor : FaultQuiet addr b ↔ (b.monitorOn || b.readReports addr) = b.monitorOn := by
        rw [FaultQuiet]
        cases hreports : b.readReports addr <;> cases b.monitorOn <;> simp_all
      rw [hmonitor]
      constructor
      · rintro ⟨p, b', h, hb⟩
        rw [hrun] at h
        cases h
        exact congrArg Board.monitorOn hb
      · intro h
        refine ⟨_, _, hrun, ?_⟩
        rw [h, ← hlog]
  · obtain ⟨t, ht⟩ := readTarget_outside ha b
    refine iff_of_false ?_ fun h => ha h.1
    rintro ⟨p, b', h, -⟩
    rw [ht] at h
    cases h

/-- A read of a byte of the device changes nothing. -/
def QuietAt (hw : Hardware σ) (dev phyAddr : ℕ) (c : Cpu (Board σ)) : Prop :=
  ∃ v b, hw.read (getPc c) dev phyAddr c.bus = .ok v b ∧ { b with log := [] } = c.bus

theorem untouched_readByte {hw : Hardware σ} {dev phyAddr : ℕ} :
    Untouched (readByte hw dev phyAddr) s ↔ QuietAt hw dev phyAddr (machine s) :=
  untouched_get.trans untouched_onBoard

end Board

section Watch
variable [Target (Cpu (Board σ))] {s : State (Cpu (Board σ))} {n : Slot}

/-- Whether an entry lets a hit through to its ignore count, and the processor after the tests;
nothing if an evaluation ends the emulator. -/
def judged (n : Slot) (s : State (Cpu (Board σ))) : Option (Bool × Cpu (Board σ)) :=
  if (s.breaktab n).threaded ∧ s.threadId ≠ (s.breaktab n).tid.zeroExtend 64 then
    some (false, s.session.target)
  else if (s.breaktab n).conditional then
    match eval (s.breaktab n).condition { s.session with eflag := 0 } with
    | .ok (val, _) u => some (decide (val ≠ 0), u.target)
    | .error _ _ => none
  else some (true, s.session.target)

/-- An entry whose tests change nothing, and which is not let through or sets `monitor_on` to what
it is. -/
def WatchQuiet (n : Slot) (s : State (Cpu (Board σ))) : Prop :=
  match judged n (shared s) with
  | none => False
  | some (false, c) => settle c.bus.monitorOn c = machine s
  | some (true, c) =>
    (s.breaktab n).ignoreCount = 0 ∧ settle (!(s.breaktab n).keepRunning) c = machine s

/-- The tests of an entry have left the processor as `c`. -/
structure Tested (s : State (Cpu (Board σ))) (n : Slot) (c : Cpu (Board σ))
    (t : State (Cpu (Board σ))) : Prop where
  target : t.session.target = c
  counters : counters t = counters s
  ignoreCount : (t.breaktab n).ignoreCount = (s.breaktab n).ignoreCount
  keepRunning : (t.breaktab n).keepRunning = (s.breaktab n).keepRunning

omit [Target (Cpu (Board σ))] in
theorem setSlot_counters {g : Breakpoint → Breakpoint}
    (hg : (g (s.breaktab n)).ignoreCount = (s.breaktab n).ignoreCount) :
    counters (finalState (setSlot n g s)) = counters s := by
  refine Prod.ext rfl (funext fun k => ?_)
  by_cases h : k = n
  · rw [h]
    exact (congrArg Breakpoint.ignoreCount (setSlot_entry s n g)).trans hg
  · exact congrArg Breakpoint.ignoreCount (Function.update_of_ne h _ s.breaktab)

omit [Target (Cpu (Board σ))] in
theorem tested_condition (left : Text) (u : Session (Cpu (Board σ))) : Tested s n u.target
    (finalState (setSlot n (fun br => { br with condition := left }) { s with session := u })) where
  target := rfl
  counters := setSlot_counters (s := { s with session := u }) rfl
  ignoreCount := by rw [setSlot_entry]
  keepRunning := by rw [setSlot_entry]

theorem hitAllowed_none (h : judged n s = none) : ∃ e t, hitAllowed n s = .error e t := by
  unfold judged at h
  split_ifs at h with hthread hconditional
  cases heval : eval (s.breaktab n).condition { s.session with eflag := 0 } with
  | ok r u =>
    rw [heval] at h
    cases h
  | error e u =>
    refine ⟨e, { s with session := u }, ?_⟩
    unfold hitAllowed
    rw [run_bind_ok run_get, if_neg hthread, if_pos hconditional,
      run_bind_error (conditionHolds_error heval)]

theorem hitAllowed_some {passed : Bool} {c : Cpu (Board σ)} (h : judged n s = some (passed, c)) :
    ∃ t, Tested s n c t ∧ hitAllowed n s = if passed then countedDown n t else .ok false t := by
  unfold judged at h
  unfold hitAllowed
  rw [run_bind_ok run_get]
  split_ifs at h with hthread hconditional
  · cases h
    rw [if_pos hthread]
    exact ⟨s, ⟨rfl, rfl, rfl, rfl⟩, rfl⟩
  · cases heval : eval (s.breaktab n).condition { s.session with eflag := 0 } with
    | error e u =>
      rw [heval] at h
      cases h
    | ok r u =>
      obtain ⟨val, left⟩ := r
      rw [heval] at h
      cases h
      refine ⟨_, tested_condition left u, ?_⟩
      rw [if_neg hthread, if_pos hconditional, run_bind_ok (conditionHolds_ok heval)]
      split
      · rfl
      · rfl
  · cases h
    rw [if_neg hthread, if_neg hconditional]
    exact ⟨s, ⟨rfl, rfl, rfl, rfl⟩, rfl⟩

omit [Target (Cpu (Board σ))] in
theorem sharing_ok {α : Type} {m : DebugM (Cpu (Board σ)) α} {a : α} {t : State (Cpu (Board σ))}
    (h : m (shared s) = .ok a t) :
    sharing m s = .ok a { t with monitorOn := t.session.target.bus.monitorOn } := by
  rw [sharing, run_bind_ok (run_modify shared), run_bind_ok h]
  rfl

omit [Target (Cpu (Board σ))] in
theorem sharing_error {α : Type} {m : DebugM (Cpu (Board σ)) α} {e : Crash}
    {t : State (Cpu (Board σ))} (h : m (shared s) = .error e t) : sharing m s = .error e t := by
  rw [sharing, run_bind_ok (run_modify shared), run_bind_error h]

theorem untouched_watchHit : Untouched (watchHit n) s ↔ WatchQuiet n s := by
  let s₁ : State (Cpu (Board σ)) := { s with hits := n :: s.hits }
  have hcall : (modify fun s => { s with hits := n :: s.hits } :
      DebugM (Cpu (Board σ)) PUnit) s = .ok ⟨⟩ s₁ := rfl
  unfold watchHit WatchQuiet
  rw [untouched_bind_ok hcall ((untouched_ok hcall).mpr ⟨rfl, rfl⟩)]
  cases hjudged : judged n (shared s) with
  | none =>
    obtain ⟨e, t, ht⟩ := hitAllowed_none (s := shared s₁) hjudged
    exact iff_of_false (not_untouched_error (run_bind_error (sharing_error ht))) id
  | some r =>
    obtain ⟨passed, c⟩ := r
    obtain ⟨t, ht, hrun⟩ := hitAllowed_some (s := shared s₁) hjudged
    have hcounters : counters t = counters s := ht.counters
    have hcount : (t.breaktab n).ignoreCount = (s.breaktab n).ignoreCount := ht.ignoreCount
    have hkeep : (t.breaktab n).keepRunning = (s.breaktab n).keepRunning := ht.keepRunning
    cases passed with
    | false =>
      have hrefused : hitAllowed n (shared s₁) = .ok false t := hrun
      refine (untouched_bind_run (sharing_ok hrefused) (by rfl)).trans ?_
      change settle t.session.target.bus.monitorOn t.session.target = machine s ∧
        counters t = counters s ↔ _
      rw [ht.target]
      exact and_iff_left hcounters
    | true =>
      have hpassed : hitAllowed n (shared s₁) = countedDown n t := hrun
      rw [countedDown_run, hcount] at hpassed
      by_cases hzero : (s.breaktab n).ignoreCount = 0
      · rw [if_neg (not_not.mpr hzero)] at hpassed
        refine (untouched_bind_run (sharing_ok hpassed) (by rfl)).trans ?_
        change settle (!(t.breaktab n).keepRunning) t.session.target = machine s ∧
          counters t = counters s ↔ _
        rw [ht.target, hkeep, and_iff_left hcounters]
        exact (and_iff_right hzero).symm
      · rw [if_pos hzero] at hpassed
        refine (untouched_bind_run (sharing_ok hpassed) (by rfl)).trans ?_
        refine iff_of_false (fun h => ?_) fun h => hzero h.1
        have hless : ((finalState (setSlot n (fun br => { br with
            ignoreCount := br.ignoreCount - 1 }) t)).breaktab n).ignoreCount =
            (s.breaktab n).ignoreCount := congrFun (congrArg Prod.snd h.2) n
        rw [setSlot_entry, hcount] at hless
        bv_omega

theorem untouched_readHook {addr : BitVec 64} : Untouched (readHook addr) s ↔
    ∀ n, triggered Breakpoint.onRead addr s = some n → WatchQuiet n s := by
  unfold readHook
  rw [untouched_get]
  cases h : triggered Breakpoint.onRead addr s with
  | none =>
    refine iff_of_true ⟨rfl, rfl, rfl⟩ fun n hn => ?_
    cases hn
  | some n =>
    rw [untouched_watchHit]
    constructor
    · rintro hquiet _ ⟨⟩
      exact hquiet
    · intro hquiet
      exact hquiet n rfl

end Watch

/-! ## Reading a word -/

section Word
variable [Target (Cpu (Board σ))] {hw : Hardware σ} {s t : State (Cpu (Board σ))}
  {addr dev phyAddr : ℕ}

/-- The watchpoint of the address, if there is one, changes nothing. -/
def HookQuiet (addr : BitVec 64) (s : State (Cpu (Board σ))) : Prop :=
  ∀ n, triggered Breakpoint.onRead addr s = some n → WatchQuiet n s

/-- The word at the address is read without a fault, a watchpoint or a device doing anything. -/
structure HarmlessAt (hw : Hardware σ) (addr : ℕ) (s : State (Cpu (Board σ))) : Prop where
  fault : FaultQuiet addr (machine s).bus
  watch : HookQuiet (watchAddress addr s) s
  high : QuietAt hw ((machine s).bus.target addr).1 ((machine s).bus.target addr).2 (machine s)
  low : QuietAt hw ((machine s).bus.target addr).1
    (Word.trunc 64 (((machine s).bus.target addr).2 + 1)) (machine s)

omit [Target (Cpu (Board σ))] in
/-- A look-up that changes nothing gives the device and the place in it. -/
theorem readTarget_quiet (h : FaultQuiet addr (machine s).bus) :
    ∃ b, onBoard (Exec09.Access.readTarget addr) s =
      .ok ((machine s).bus.target addr) (withBoard b s) ∧ machine (withBoard b s) = machine s := by
  have hstops : (machine s).bus.readStops addr = false := by
    rw [readStops_eq, Bool.and_eq_false_imp, Bool.not_eq_false']
    exact fun hreports => (h.2 hreports).1
  have hrun := Exec09.Access.readTarget_run h.1 hstops
  exact ⟨_, onBoard_ok hrun, ((untouched_ok (onBoard_ok hrun)).mp (untouched_readTarget.mpr h)).1⟩

/-- The watchpoints see the same machine after such a look-up. -/
theorem hookQuiet_withBoard {b : Board σ} (h : machine (withBoard b s) = machine s) :
    HookQuiet (watchAddress addr (withBoard b s)) (withBoard b s) ↔
      HookQuiet (watchAddress addr s) s := by
  have hsession (u : State (Cpu (Board σ))) : (shared u).session = { u.session with
      target := { machine u with
        bus := { (machine u).bus with log := u.session.target.bus.log } } } := rfl
  have hsame : (shared (withBoard b s)).session = (shared s).session := by
    rw [hsession, h]
    rfl
  have hquiet (n : Slot) : WatchQuiet n (withBoard b s) ↔ WatchQuiet n s := by
    have hjudged : judged n (shared (withBoard b s)) = judged n (shared s) := by
      unfold judged
      rw [hsame]
      rfl
    unfold WatchQuiet
    rw [hjudged, h]
    rfl
  have hmaps : b.busmaps = s.session.target.bus.busmaps := congrArg (fun c => c.bus.busmaps) h
  have hwatch : watchAddress addr (withBoard b s) = watchAddress addr s := by
    change BitVec.ofNat 64 (Exec09.Access.toAbsolute b.busmaps addr) = _
    rw [hmaps]
    rfl
  rw [hwatch]
  exact forall_congr' fun n => imp_congr_right fun _ => hquiet n

theorem untouched_hooked :
    Untouched (lookedUp hw addr dev phyAddr .hooked) s ↔ HookQuiet (watchAddress addr s) s :=
  untouched_get.trans untouched_readHook

/-- A quiet hook leaves the machine to the device. -/
theorem untouched_high (h : HookQuiet (watchAddress addr s) s) :
    Untouched (lookedUp hw addr dev phyAddr .high) s ↔ QuietAt hw dev phyAddr (machine s) := by
  have hhook := untouched_readHook.mpr h
  obtain ⟨_, t, hrun, hmachine, -⟩ := hhook.run
  refine untouched_get.trans ?_
  rw [untouched_bind_ok hrun hhook, ← hmachine]
  exact (untouched_bind_pure fun _ => ()).trans untouched_readByte

theorem untouched_low (h : HookQuiet (watchAddress addr s) s)
    (hhigh : QuietAt hw dev phyAddr (machine s)) :
    Untouched (lookedUp hw addr dev phyAddr .low) s ↔
      QuietAt hw dev (Word.trunc 64 (phyAddr + 1)) (machine s) := by
  have hhook := untouched_readHook.mpr h
  obtain ⟨_, t, hrun, hmachine, -⟩ := hhook.run
  rw [← hmachine] at hhigh
  have hbyte := untouched_readByte.mpr hhigh
  obtain ⟨_, u, hrun', hmachine', -⟩ := hbyte.run
  refine untouched_get.trans ?_
  rw [untouched_bind_ok hrun hhook, untouched_bind_ok hrun' hbyte, ← hmachine, ← hmachine']
  exact (untouched_bind_pure fun _ => ()).trans untouched_readByte

/-- A word is read without a change exactly if every part of the read is. -/
theorem harmlessAt_iff : HarmlessAt hw addr s ↔ ∀ part, Untouched (readPart hw addr part) s := by
  have hmapped : Untouched (readPart hw addr .mapped) s ↔ FaultQuiet addr (machine s).bus :=
    (untouched_bind_pure fun _ => ()).trans untouched_readTarget
  by_cases hfault : FaultQuiet addr (machine s).bus
  · obtain ⟨b, hrun, hb⟩ := readTarget_quiet hfault
    have hpart (part : Part) : Untouched (readPart hw addr part) s ↔
        Untouched (lookedUp hw addr ((machine s).bus.target addr).1
          ((machine s).bus.target addr).2 part) (withBoard b s) := untouched_bind_ok hrun (untouched_readTarget.mpr hfault)
    have hhook : HookQuiet (watchAddress addr (withBoard b s)) (withBoard b s) ↔
        HookQuiet (watchAddress addr s) s := hookQuiet_withBoard hb
    constructor
    · rintro ⟨-, hwatch, hhigh, hlow⟩ part
      generalize (machine s).bus.target addr = place at hpart hhigh hlow
      rw [← hhook] at hwatch
      rw [← hb] at hhigh hlow
      rw [hpart]
      cases part with
      | mapped => exact ⟨rfl, rfl, rfl⟩
      | hooked => exact untouched_hooked.mpr hwatch
      | high => exact (untouched_high hwatch).mpr hhigh
      | low => exact (untouched_low hwatch hhigh).mpr hlow
    · intro h
      have hwatch := untouched_hooked.mp ((hpart _).mp (h .hooked))
      have hhigh := (untouched_high hwatch).mp ((hpart _).mp (h .high))
      have hlow := (untouched_low hwatch hhigh).mp ((hpart _).mp (h .low))
      rw [hb] at hhigh hlow
      exact ⟨hfault, hhook.mp hwatch, hhigh, hlow⟩
  · exact iff_of_false (fun h => hfault h.fault) fun h => hfault (hmapped.mp (h .mapped))

end Word

/-! ## Showing the registers -/

section Display
variable [Target (Cpu (Board σ))] {hw : Hardware σ} {s : State (Cpu (Board σ))}

/-- The word that a pointer points to is read without a change. -/
def Harmless (hw : Hardware σ) (pointer : Cpu (Board σ) → ℕ) (s : State (Cpu (Board σ))) : Prop :=
  HarmlessAt hw (pointer s.session.target) s

/-- Nothing changes, neither by the display nor by any part of it. -/
structure Transparent (hw : Hardware σ) (s : State (Cpu (Board σ))) : Prop where
  whole : Untouched (printRegs hw) s
  parts : ∀ front pointer part, front ++ [pointer] <+: pointers →
    Untouched (do runAll (inspect hw) front; inspectPart hw pointer part) s

theorem untouched_inspectPart {pointer : Cpu (Board σ) → ℕ} {part : Part} :
    Untouched (inspectPart hw pointer part) s ↔
      Untouched (readPart hw (pointer s.session.target) part) s :=
  untouched_get

theorem harmless_iff {pointer : Cpu (Board σ) → ℕ} :
    Harmless hw pointer s ↔ ∀ part, Untouched (inspectPart hw pointer part) s := by
  simp only [untouched_inspectPart]
  exact harmlessAt_iff

/-- The last part of a word is the whole of it. -/
theorem inspectPart_low (pointer : Cpu (Board σ) → ℕ) :
    inspectPart hw pointer .low = inspect hw pointer := by
  unfold inspectPart inspect readPart readWord lookedUp
  simp only [bind_assoc, pure_bind]

/-- The display of the pointers is free of changes so far as the words and their parts are. -/
theorem along_harmless_iff {ps : List (Cpu (Board σ) → ℕ)} :
    Along (inspect hw) (Harmless hw) ps s ↔ ∀ front pointer part, front ++ [pointer] <+: ps →
      Untouched (do runAll (inspect hw) front; inspectPart hw pointer part) s := by
  induction ps generalizing s with
  | nil => simp [Along]
  | cons p ps ih =>
    have hnext {t : State (Cpu (Board σ))} (hrun : inspect hw p s = .ok () t)
        (hp : Untouched (inspect hw p) s) (front : List (Cpu (Board σ) → ℕ)) (m : DebugM _ Unit) :
        Untouched (do runAll (inspect hw) (p :: front); m) s ↔
          Untouched (do runAll (inspect hw) front; m) t := by
      rw [runAll, bind_assoc, untouched_bind_ok hrun hp]
    constructor
    · rintro ⟨hp, hrest⟩ front pointer part hfront
      have hparts := harmless_iff.mp hp
      have hword := hparts .low
      rw [inspectPart_low] at hword
      obtain ⟨_, t, hrun, -⟩ := hword.run
      rw [onReturn_ok hrun] at hrest
      cases front with
      | nil =>
        obtain rfl : pointer = p := by simpa using hfront
        exact hparts part
      | cons q front =>
        obtain ⟨rfl, htail⟩ : q = p ∧ front ++ [pointer] <+: ps := by simpa using hfront
        exact (hnext hrun hword front _).mpr (ih.mp hrest front pointer part htail)
    · intro h
      have hparts (part : Part) : Untouched (inspectPart hw p part) s := h [] p part (by simp)
      have hword := hparts .low
      rw [inspectPart_low] at hword
      obtain ⟨_, t, hrun, -⟩ := hword.run
      refine ⟨harmless_iff.mpr hparts, ?_⟩
      rw [onReturn_ok hrun, ih]
      intro front pointer part hfront
      exact (hnext hrun hword front _).mp (h (p :: front) pointer part (by simpa using hfront))

/-- The display is the run over the pointers. -/
theorem untouched_printRegs :
    Untouched (printRegs hw) s ↔ Untouched (runAll (inspect hw) pointers) s := by
  refine untouched_get.trans (Iff.trans (untouched_bind_pure fun _ => ()).symm ?_)
  unfold pointers runAll inspect
  simp only [bind_assoc, pure_bind, runAll]

/-- No part of the display changes anything, and so the display does not, exactly if each word
is read without a fault, a watchpoint or a device doing anything. -/
theorem transparent_iff :
    Along (inspect hw) (Harmless hw) pointers s ↔ Transparent hw s := by
  constructor
  · intro h
    have hparts := along_harmless_iff.mp h
    refine ⟨untouched_printRegs.mpr ?_, hparts⟩
    have hlast := hparts [Cpu.X, Cpu.Y, getPc, Cpu.U, Cpu.S] getD .low (List.prefix_refl pointers)
    rwa [inspectPart_low, ← runAll_single (inspect hw) getD, ← runAll_append] at hlast
  · intro h
    exact along_harmless_iff.mpr h.parts

end Display

end Exec09.Debugger
