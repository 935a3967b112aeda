import Exec09.Debugger.CommandLine
import Exec09.Debugger.ExpressionTree

/-! # Why the debugger may stop

An evaluation runs the tree of its text, so that it never exceeds its depth.
It stops as the emulator does or by a division by zero, and so do the hooks and
whatever a command does with entries it has been given.
-/
namespace Exec09.Debugger
open Foundation

/-- The emulator stopped, or an expression divided by zero. The other reasons are an index outside
the table, a null pointer and a condition that is too long. -/
def Crash.tame : Crash → Bool
  | emulator _ => true
  | divisionByZero => true
  | _ => false

abbrev Tame {σ α : Type} (m : EStateM Crash σ α) : Prop := StopsFor (fun e => e.tame = true) m

section Evaluation
variable {τ : Type}

/-- The reasons of the emulator are among those in `X`. -/
class Permits (X : Crash → Prop) : Prop where
  emulator : ∀ stop, X (.emulator stop)

instance tame_permits : Permits fun e => e.tame = true := ⟨fun _ => rfl⟩

variable {X : Crash → Prop} [Permits X]

instance onTarget_stops {α : Type} (m : EStateM Stop τ α) : StopsFor X (onTarget m) where
  stops s e t h := by
    unfold onTarget at h
    cases hr : m s.target with
    | ok a u =>
      rw [hr] at h
      cases h
    | error d u =>
      rw [hr] at h
      cases h
      exact Permits.emulator d

instance flagError_stops (bit : ℕ) : StopsFor X (flagError (τ := τ) bit) := by
  unfold flagError
  infer_instance

instance evalHistorical_stops (id : BitVec 32) : StopsFor X (evalHistorical (τ := τ) id) := by
  unfold evalHistorical
  infer_instance

omit [Permits X] in
instance divide_tame (val1 val2 : BitVec 64) : Tame (divide (τ := τ) val1 val2) := by
  have hzero : Tame (throw .divisionByZero : EvalM τ (BitVec 64)) := StopsFor.throw rfl
  unfold divide
  infer_instance

variable [Target τ]

instance assignVirtual_stops (name : Text) (val : BitVec 64) :
    StopsFor X (assignVirtual (τ := τ) name val) := by
  unfold assignVirtual
  cases Target.writeVirtual (τ := τ) name <;> infer_instance

instance evalVirtual_stops (name : Text) : StopsFor X (evalVirtual (τ := τ) name) := by
  unfold evalVirtual
  cases Target.readVirtual (τ := τ) name <;> infer_instance

instance targetRead_stops (addr : BitVec 64) (size : ℕ) :
    StopsFor X (targetRead (τ := τ) addr size) := by
  unfold targetRead
  infer_instance

instance evalDollar_stops (name : Text) : StopsFor X (evalDollar (τ := τ) name) := by
  cases name <;> unfold evalDollar <;> infer_instance

instance Leaf.run_stops (l : Leaf) : StopsFor X (l.run (τ := τ)) := by
  cases l with
  | dollar name => exact evalDollar_stops name
  | symbol name =>
    refine StopsFor.get.seq fun s => ?_
    cases Target.symbol name s.target <;> infer_instance
  | literal val => exact StopsFor.pure val
  | invalid =>
    unfold Leaf.run
    infer_instance

instance Unary.apply_stops (u : Unary) (val : BitVec 64) : StopsFor X (u.apply (τ := τ) val) := by
  cases u <;> unfold Unary.apply <;> infer_instance

theorem Binary.apply_stops {b : Binary} (hb : b ≠ .div) (v w : BitVec 64) :
    StopsFor X (b.apply (τ := τ) v w) := by
  cases b with
  | div => exact absurd rfl hb
  | _ => unfold Binary.apply; infer_instance

instance Binary.apply_tame (b : Binary) (v w : BitVec 64) : Tame (b.apply (τ := τ) v w) := by
  by_cases hb : b = .div
  · subst hb
    exact divide_tame v w
  · exact Binary.apply_stops hb v w

instance Expr.run_tame (x : Expr) : Tame (x.run (τ := τ)) := by
  induction x with
  | leaf l => exact Leaf.run_stops l
  | unary u part ih => exact ih.seq fun v => Unary.apply_stops u v
  | binary b left right ihl ihr =>
    exact ihl.seq fun v => ihr.seq fun w => Binary.apply_tame b v w

theorem Runs.tame {m : EvalM τ Evaluated} {x : Expr} (h : Runs m x) : Tame m := by
  obtain ⟨left, rfl⟩ := h
  infer_instance

/-- An evaluation never exceeds its depth. -/
instance eval_tame (expr : Text) : Tame (eval (τ := τ) expr) := (eval_runs expr).tame

instance evalMem_eval_tame (expr : Text) : Tame (evalMem (τ := τ) eval expr .LVALUE) :=
  (evalMem_runs expr).tame

end Evaluation

/-! ## Work on the table that has no reason to stop -/

section Hooks
variable {τ : Type}

instance evaluating_tame {α : Type} (m : EvalM τ α) [hm : Tame m] : Tame (evaluating m) where
  stops s e t h := by
    unfold evaluating at h
    cases hr : m { s.session with eflag := 0 } with
    | ok a u =>
      rw [hr] at h
      cases h
    | error d u =>
      rw [hr] at h
      cases h
      exact hm.stops _ _ _ hr

instance setSlot_tame (n : Slot) (g : Breakpoint → Breakpoint) : Tame (setSlot (τ := τ) n g) := by
  unfold setSlot
  infer_instance

instance brkEnable_tame (n : Slot) (flag : Bool) : Tame (brkEnable (τ := τ) n flag) := by
  unfold brkEnable
  infer_instance

instance brkfree_tame (n : Slot) : Tame (brkfree (τ := τ) n) := by
  unfold brkfree
  infer_instance

instance freeEach_tame (p : Breakpoint → Bool) (ns : List Slot) :
    Tame (freeEach (τ := τ) p ns) := by
  induction ns with
  | nil => exact StopsFor.pure _
  | cons n ns ih =>
    unfold freeEach
    infer_instance

instance brkfreeTemps_tame : Tame (brkfreeTemps (τ := τ)) := freeEach_tame _ _

instance setExitCommandLoop_tame (v : ℤ) : Tame (setExitCommandLoop (τ := τ) v) := by
  unfold setExitCommandLoop
  infer_instance

instance setStopAfterMs_tame (v : ℤ) : Tame (setStopAfterMs (τ := τ) v) := by
  unfold setStopAfterMs
  infer_instance

instance requestStop_tame : Tame (requestStop (τ := τ)) := by
  unfold requestStop
  infer_instance

instance cmdRunfor_tame (args : List Text) : Tame (cmdRunfor (τ := τ) args) := by
  cases args <;> unfold cmdRunfor <;> infer_instance

instance cmdStep_tame (args : List Text) : Tame (cmdStep (τ := τ) args) := by
  unfold cmdStep
  infer_instance

instance countedDown_tame (n : Slot) : Tame (countedDown (τ := τ) n) := by
  unfold countedDown
  infer_instance

variable [Target τ]

instance conditionHolds_tame (n : Slot) : Tame (conditionHolds (τ := τ) n) := by
  unfold conditionHolds
  infer_instance

instance hitAllowed_tame (n : Slot) : Tame (hitAllowed (τ := τ) n) := by
  unfold hitAllowed
  infer_instance

instance breakpointHit_tame (n : Slot) : Tame (breakpointHit (τ := τ) n) := by
  unfold breakpointHit
  infer_instance

instance commandInsnHook_tame : Tame (commandInsnHook (τ := τ)) := by
  unfold commandInsnHook commandTraceInsn
  refine StopsFor.get.seq fun s => (StopsFor.modify _).seq fun _ => StopsFor.get.seq fun t => ?_
  cases triggered Breakpoint.onExecute (absPc t) t with
  | none => exact StopsFor.pure _
  | some n =>
    unfold freeReached
    infer_instance

instance threadHook_tame (addr : BitVec 64) : Tame (threadHook (τ := τ) addr) := by
  unfold threadHook commandChangeThread
  infer_instance

instance happening_tame (h : Happening τ) : Tame (Event.perform h.event) := by
  cases h with
  | read addr =>
    change Tame (commandReadHook addr)
    unfold commandReadHook
    refine StopsFor.get.seq fun s => ?_
    cases triggered Breakpoint.onRead addr s <;> infer_instance
  | write addr val =>
    change Tame (commandWriteHook addr val)
    unfold commandWriteHook rememberWrite
    refine StopsFor.get.seq fun s => ?_
    cases triggered Breakpoint.onWrite addr s <;> infer_instance
  | periodic =>
    change Tame commandPeriodic
    unfold commandPeriodic
    infer_instance
  | interrupt => exact requestStop_tame
  | guest m =>
    change Tame (do let _ ← evaluating (onTarget m) : DebugM τ Unit)
    infer_instance

end Hooks

end Exec09.Debugger
