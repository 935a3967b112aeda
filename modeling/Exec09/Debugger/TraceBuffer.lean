import Exec09.Debugger.Frame
import Exec09.Foundation.Window
import Mathlib.Data.List.DropRight

/-! # The instruction trace

Each instruction hook stores the PC at the offset of the trace buffer and moves
the offset on, around the end of the buffer. The dump starts behind the offset
and ends in front of it. So it leaves out the cell at the offset, which is the
oldest of a full buffer, and it cannot tell a cell that nothing was stored in.
-/
namespace Exec09.Debugger
open Foundation
variable {τ : Type}

/-- The `do` loop of `cmd_trace_dump`: the cells from `off` up to the one in front of `stop`. -/
def traceFrom (buffer : ℕ → U16) (stop : ℕ) : (fuel off : ℕ) → Option (List U16)
  | 0, _ => none
  | fuel + 1, off =>
    let next := (off + 1) % MAX_TRACE
    if next = stop then some [buffer off]
    else (traceFrom buffer stop fuel next).map (buffer off :: ·)

/-- The PCs that `cmd_trace_dump` prints an instruction for, one for each turn of its loop. -/
def cmdTraceDump (s : State τ) : Option (List U16) :=
  traceFrom s.traceBuffer s.traceOffset MAX_TRACE ((s.traceOffset + 1) % MAX_TRACE)

/-- The loop ends after `count` turns. -/
theorem traceFrom_run (buffer : ℕ → U16) {stop fuel count off : ℕ} (hoff : off < MAX_TRACE)
    (hstop : stop = (off + count) % MAX_TRACE) (hpos : 0 < count) (hcount : count < MAX_TRACE)
    (hfuel : count ≤ fuel) : traceFrom buffer stop fuel off =
      some ((List.range count).map fun k => buffer ((off + k) % MAX_TRACE)) := by
  induction count generalizing fuel off with
  | zero => exact absurd hpos (lt_irrefl 0)
  | succ count ih =>
    obtain ⟨fuel, rfl⟩ : ∃ n, fuel = n + 1 := ⟨fuel - 1, by omega⟩
    have hcell : off % MAX_TRACE = off := Nat.mod_eq_of_lt hoff
    have hrange : (List.range (count + 1)).map (fun k => buffer ((off + k) % MAX_TRACE)) =
        buffer off ::
          (List.range count).map fun k => buffer (((off + 1) % MAX_TRACE + k) % MAX_TRACE) := by
      rw [List.range_succ_eq_map, List.map_cons, List.map_map, Nat.add_zero, hcell]
      congr 1
      apply List.map_congr_left
      intro k _
      simp only [Function.comp_apply, Nat.mod_add_mod]
      congr 2
      omega
    rw [traceFrom, hrange]
    cases count with
    | zero =>
      have hlast : (off + 1) % MAX_TRACE = stop := hstop.symm
      simp [hlast]
    | succ count =>
      have hnext : ¬(off + 1) % MAX_TRACE = stop := by
        rw [MAX_TRACE] at *
        omega
      have hrest : traceFrom buffer stop fuel ((off + 1) % MAX_TRACE) =
          some ((List.range (count + 1)).map fun k =>
            buffer (((off + 1) % MAX_TRACE + k) % MAX_TRACE)) := by
        apply ih (Nat.mod_lt _ (by decide)) _ (by omega) (by omega) (by omega)
        rw [hstop, Nat.mod_add_mod]
        congr 1
        omega
      simp only [if_neg hnext, hrest, Option.map_some]

/-- The dump has 255 lines, whatever has been recorded. -/
theorem cmdTraceDump_run (s : State τ) (hoffset : s.traceOffset < MAX_TRACE) : cmdTraceDump s =
    some ((List.range 255).map fun k => s.traceBuffer ((s.traceOffset + 1 + k) % MAX_TRACE)) := by
  have hrun : cmdTraceDump s = some ((List.range 255).map fun k =>
      s.traceBuffer (((s.traceOffset + 1) % MAX_TRACE + k) % MAX_TRACE)) := by
    apply traceFrom_run s.traceBuffer (Nat.mod_lt _ (by decide)) _ (by decide) (by decide)
    · decide
    rw [MAX_TRACE] at *
    omega
  simp only [Nat.mod_add_mod] at hrun
  exact hrun

/-! ## Runs -/

/-- The buffer and the offset after the instructions `log`. -/
structure Traced (log : List U16) (s : State τ) : Prop where
  window : Window MAX_TRACE (fun _ => 0) s.traceBuffer log
  offset : s.traceOffset = log.length % MAX_TRACE

instance (log : List U16) : Blind (Traced (τ := τ) log) where
  blind _ _ _ _ _ h := ⟨h.window, h.offset⟩

theorem init_traced (target : τ) : Traced [] (State.init target) := ⟨Window.start _ _, rfl⟩

variable {log : List U16} {s : State τ}

theorem commandTraceInsn_traced (h : Traced log s) (pc : U16) :
    Traced (log ++ [pc]) (finalState (commandTraceInsn pc s)) where
  window := by
    have hrecord := h.window.record pc
    rw [← h.offset] at hrecord
    exact hrecord
  offset := by
    rw [List.length_append, List.length_singleton, ← Nat.mod_add_mod, ← h.offset]
    rfl

theorem Traced.offset_lt (h : Traced log s) : s.traceOffset < MAX_TRACE := by
  rw [h.offset]
  exact Nat.mod_lt _ (by decide)

/-- From 255 instructions on the dump has the last 255 PCs. -/
theorem Traced.dump (h : Traced log s) (hfull : 255 ≤ log.length) :
    cmdTraceDump s = some (log.rtake 255) := by
  have hmax : MAX_TRACE = 256 := rfl
  have hread := h.window.read (n := log.length - 255) (by omega)
  have hcount : log.length - (log.length - 255) = 255 := by omega
  rw [hcount] at hread
  rw [cmdTraceDump_run s h.offset_lt, List.rtake, ← hread,
    Option.some_inj]
  apply List.map_congr_left
  intro k _
  have hcell : (s.traceOffset + 1 + k) % MAX_TRACE = (log.length - 255 + k) % MAX_TRACE := by
    rw [h.offset, hmax]
    omega
  rw [hcell]

variable [Target τ]

theorem breakpointHit_traced (n : Slot) : Keeps (Traced log) (breakpointHit (τ := τ) n) := by
  have hhit : Keeps (Traced log) (modify fun s => { s with hits := n :: s.hits } : DebugM τ PUnit) :=
    Keeps.modify fun s h => ⟨h.window, h.offset⟩
  have hmonitor : Keeps (Traced log) (modify fun s => { s with
      monitorOn := !(s.breaktab n).keepRunning
      stopRequested := s.stopRequested || !(s.breaktab n).keepRunning } : DebugM τ PUnit) :=
    Keeps.modify fun s h => ⟨h.window, h.offset⟩
  unfold breakpointHit
  infer_instance

/-- The instruction hook records the PC. -/
theorem commandInsnHook_traced (h : Traced log s) :
    Traced (log ++ [Target.getPc s.session.target]) (finalState (commandInsnHook s)) := by
  have hhit (n : Slot) : Keeps (Traced (log ++ [Target.getPc s.session.target]))
      (breakpointHit (τ := τ) n) := breakpointHit_traced n
  have hrecord := commandTraceInsn_traced h (Target.getPc s.session.target)
  have hrun : commandTraceInsn (Target.getPc s.session.target) s =
      .ok () (finalState (commandTraceInsn (Target.getPc s.session.target) s)) := rfl
  rw [commandInsnHook, run_bind_ok run_get, run_bind_ok hrun]
  refine (Keeps.get.seq fun t => ?_).keeps _ hrecord
  cases triggered Breakpoint.onExecute (absPc t) t <;> infer_instance

/-- Nothing else touches the buffer. -/
theorem event_traced {e : Event τ} (he : e ≠ .insn) : Keeps (Traced log) e.perform := by
  have hhit (n : Slot) : Keeps (Traced log) (breakpointHit (τ := τ) n) := breakpointHit_traced n
  have hstop : Keeps (Traced log) (requestStop : DebugM τ PUnit) :=
    Keeps.modify fun s h => ⟨h.window, h.offset⟩
  cases e with
  | command c =>
    refine command_keeps (fun v => ?_) (fun v => ?_) (fun v => ?_) c
    all_goals exact Keeps.modify fun s h => ⟨h.window, h.offset⟩
  | insn => exact absurd rfl he
  | read addr =>
    refine Keeps.get.seq fun s => ?_
    cases triggered Breakpoint.onRead addr s <;> infer_instance
  | write addr val =>
    refine Keeps.get.seq fun s => ?_
    cases triggered Breakpoint.onWrite addr s <;> infer_instance
  | periodic =>
    have hcount (v : State τ → ℤ) : Keeps (Traced log)
        (modify fun s => { s with stopAfterMs := v s } : DebugM τ PUnit) :=
      Keeps.modify fun s h => ⟨h.window, h.offset⟩
    have hless := hcount fun s => s.stopAfterMs - 100
    have hzero := hcount fun _ => 0
    change Keeps (Traced log) commandPeriodic
    unfold commandPeriodic
    infer_instance
  | interrupt => exact hstop
  | freeTemps => exact brkfreeTemps_blind
  | guest m =>
    change Keeps (Traced log) (do let _ ← evaluating (onTarget m))
    infer_instance

/-- The PC that the event records, if it is an instruction. -/
def Event.recorded (s : State τ) : Event τ → List U16
  | insn => [Target.getPc s.session.target]
  | _ => []

/-- The PCs of the instructions of a run, the newest last. -/
def pcsOf : List (Event τ) → State τ → List U16
  | [], _ => []
  | e :: es, s => e.recorded s ++ pcsOf es (finalState (e.perform s))

theorem Event.perform_traced (e : Event τ) (h : Traced log s) :
    Traced (log ++ e.recorded s) (finalState (e.perform s)) := by
  cases e with
  | insn => exact commandInsnHook_traced h
  | _ =>
    change Traced (log ++ []) _
    rw [List.append_nil]
    exact (event_traced fun h => by cases h).keeps s h

/-- By induction on the run: the buffer holds the end of what it has recorded. -/
theorem runAll_traced (es : List (Event τ)) {t : State τ} (h : Traced log s)
    (hrun : runAll Event.perform es s = .ok () t) : Traced (log ++ pcsOf es s) t := by
  induction es generalizing log s with
  | nil =>
    cases hrun
    rwa [pcsOf, List.append_nil]
  | cons e es ih =>
    obtain ⟨_, u, hfirst, hrest⟩ := of_run_bind_ok hrun
    have hu := e.perform_traced h
    rw [hfirst] at hu
    rw [pcsOf, hfirst, ← List.append_assoc]
    exact ih hu hrest

/-- In a run of `n` instructions the dump shows the PCs of the last `min(n, 256)` of them exactly
if there are 255. -/
theorem traceDump_iff (target : τ) (es : List (Event τ)) {s : State τ}
    (hrun : runAll Event.perform es (State.init target) = .ok () s) :
    cmdTraceDump s = some ((pcsOf es (State.init target)).rtake 256) ↔
      (pcsOf es (State.init target)).length = 255 := by
  have htraced := runAll_traced es (init_traced target) hrun
  rw [List.nil_append] at htraced
  generalize pcsOf es (State.init target) = log at htraced
  constructor
  · intro hdump
    rw [cmdTraceDump_run s htraced.offset_lt] at hdump
    have hlength := congrArg List.length (Option.some.inj hdump)
    rw [List.length_map, List.length_range, List.rtake, List.length_drop] at hlength
    omega
  · intro hlength
    rw [htraced.dump hlength.ge, List.rtake, List.rtake, hlength]

/-- Without breakpoints every instruction hook returns. -/
theorem insns_return (n : ℕ) (hidle : s.activeBreakCount = 0) :
    ∃ t, runAll Event.perform (List.replicate n (.insn : Event τ)) s = .ok () t ∧
      (pcsOf (List.replicate n .insn) s).length = n := by
  induction n generalizing s with
  | zero => exact ⟨s, rfl, rfl⟩
  | succ n ih =>
    obtain ⟨u, hu⟩ : ∃ u, u = finalState (commandTraceInsn (Target.getPc s.session.target) s) :=
      ⟨_, rfl⟩
    have hstill : u.activeBreakCount = 0 := by rw [hu]; exact hidle
    have hfirst : (Event.insn : Event τ).perform s = .ok () u := by
      change commandInsnHook s = _
      have hquiet : triggered Breakpoint.onExecute (absPc u) u = none := if_pos hstill
      have hrecord : commandTraceInsn (Target.getPc s.session.target) s = .ok () u := by
        rw [hu]
        rfl
      rw [commandInsnHook, run_bind_ok run_get, run_bind_ok hrecord, run_bind_ok run_get, hquiet]
      rfl
    obtain ⟨t, hrest, hlength⟩ := ih hstill
    refine ⟨t, (run_bind_ok hfirst).trans hrest, ?_⟩
    rw [List.replicate_succ, pcsOf, hfirst, List.length_append]
    exact (Nat.add_comm _ _).trans (congrArg (· + 1) hlength)

/-- With 255 instructions the dump is right. -/
theorem traceDump_255 : ∃ s : State FlatTarget,
    runAll Event.perform (List.replicate 255 .insn) (State.init ⟨0x100, fun _ => 0⟩) = .ok () s ∧
      cmdTraceDump s = some ((pcsOf (List.replicate 255 .insn)
        (State.init (⟨0x100, fun _ => 0⟩ : FlatTarget))).rtake 256) := by
  obtain ⟨s, hrun, hlength⟩ := insns_return (τ := FlatTarget) 255
    (s := State.init ⟨0x100, fun _ => 0⟩) rfl
  exact ⟨s, hrun, (traceDump_iff _ _ hrun).mpr hlength⟩

/-- After a single instruction the dump has 254 lines more. -/
theorem traceDump_unrecorded : ¬∀ (es : List (Event FlatTarget)) (s : State FlatTarget),
    runAll Event.perform es (State.init ⟨0x100, fun _ => 0⟩) = .ok () s →
      cmdTraceDump s = some ((pcsOf es (State.init ⟨0x100, fun _ => 0⟩)).rtake 256) := by
  intro h
  obtain ⟨s, hrun, hlength⟩ := insns_return (τ := FlatTarget) 1
    (s := State.init ⟨0x100, fun _ => 0⟩) rfl
  have htraced := runAll_traced _ (init_traced _) hrun
  have hdump := h _ s hrun
  rw [cmdTraceDump_run s htraced.offset_lt] at hdump
  have hcount := congrArg List.length (Option.some.inj hdump)
  rw [List.length_map, List.length_range, List.rtake, List.length_drop, hlength] at hcount
  omega

end Exec09.Debugger
