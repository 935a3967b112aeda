import Exec09.Debugger.Breakpoints

/-! # What work on the table leaves alone

Evaluations, changes of entries and the commands that make and delete them keep
every fact about a state that does not look at the table, at the session or at
the thread. One instance for each program serves all such facts.
-/
namespace Exec09.Debugger
open Foundation
variable {τ : Type}

/-- The fact does not look at the table, at the session or at the thread. -/
class Blind (I : State τ → Prop) : Prop where
  blind : ∀ (s : State τ) (u : Session τ) (tab : Slot → Breakpoint) (count : BitVec 32)
    (id : BitVec 64), I s →
      I { s with session := u, breaktab := tab, activeBreakCount := count, threadId := id }

theorem evaluating_keeps {α : Type} {I : State τ → Prop} (m : EvalM τ α)
    (h : ∀ s t, I s → I { s with session := t }) : Keeps I (evaluating m) where
  keeps s hs := by
    unfold evaluating
    cases m { s.session with eflag := 0 } with
    | ok a t => exact h s t hs
    | error e t => exact h s t hs

instance deref_keeps {I : State τ → Prop} (o : Option Slot) : Keeps I (deref o) := by
  cases o <;> unfold deref <;> infer_instance

instance brkfindById_keeps {I : State τ → Prop} (id : ℕ) : Keeps I (brkfindById id) := by
  unfold brkfindById
  by_cases h : id < MAX_BREAKS
  · rw [dif_pos h]
    exact Keeps.pure _
  · rw [dif_neg h]
    exact Keeps.throw _

section Blind
variable {I : State τ → Prop} [Blind I]

instance evaluating_blind {α : Type} (m : EvalM τ α) : Keeps I (evaluating m) :=
  evaluating_keeps m fun s u hs => Blind.blind s u s.breaktab s.activeBreakCount s.threadId hs

instance setSlot_blind (n : Slot) (g : Breakpoint → Breakpoint) : Keeps I (setSlot n g) :=
  Keeps.modify fun s hs => Blind.blind s s.session _ s.activeBreakCount s.threadId hs

instance brkEnable_blind (n : Slot) (flag : Bool) : Keeps I (brkEnable n flag) := by
  have hcount : ∀ g : BitVec 32 → BitVec 32, Keeps I (modify fun s =>
      { s with activeBreakCount := g s.activeBreakCount } : DebugM τ PUnit) :=
    fun g => Keeps.modify fun s hs => Blind.blind s s.session s.breaktab _ s.threadId hs
  have hmore := hcount (· + 1)
  have hfewer := hcount (· - 1)
  unfold brkEnable
  infer_instance

instance brkfree_blind (n : Slot) : Keeps I (brkfree n) := by
  unfold brkfree
  infer_instance

instance freeEach_blind (p : Breakpoint → Bool) (ns : List Slot) : Keeps I (freeEach p ns) := by
  induction ns with
  | nil => exact Keeps.pure _
  | cons n ns ih =>
    unfold freeEach
    infer_instance

instance brkfreeTemps_blind : Keeps I brkfreeTemps := freeEach_blind _ _

instance brkalloc_blind : Keeps I brkalloc := by
  unfold brkalloc
  refine Keeps.get.seq fun s => ?_
  cases freeSlot s.breaktab <;> infer_instance

instance setCondition_blind (n : Slot) (o : Option Text) : Keeps I (setCondition n o) := by
  cases o <;> unfold setCondition <;> infer_instance

instance breakOptions_blind (n : Slot) (args : List Text) : Keeps I (breakOptions n args) := by
  cases args with
  | nil => exact Keeps.pure _
  | cons arg args =>
    unfold breakOptions
    cases args <;> infer_instance

instance watchOptions_blind (n : Slot) (args : List Text) : Keeps I (watchOptions n args) := by
  fun_induction watchOptions (τ := τ) n args <;> infer_instance

instance countedDown_blind (n : Slot) : Keeps I (countedDown n) := by
  unfold countedDown
  infer_instance

instance freeReached_blind (n : Slot) : Keeps I (freeReached n) := by
  unfold freeReached
  infer_instance

instance rememberWrite_blind (n : Slot) (val : U8) : Keeps I (rememberWrite n val) :=
  setSlot_blind n _

variable [Target τ]

instance cmdBreak_blind (args : List Text) : Keeps I (cmdBreak args) := by
  cases args <;> unfold cmdBreak <;> infer_instance

instance cmdWatch1_blind (onRead onWrite : Bool) (args : List Text) :
    Keeps I (cmdWatch1 onRead onWrite args) := by
  cases args <;> unfold cmdWatch1 <;> infer_instance

omit [Target τ] in
theorem cmdDelete_blind (args : List Text) : Keeps I (cmdDelete args) := by
  cases args <;> unfold cmdDelete <;> infer_instance

instance conditionHolds_blind (n : Slot) : Keeps I (conditionHolds n) := by
  unfold conditionHolds
  infer_instance

instance hitAllowed_blind (n : Slot) : Keeps I (hitAllowed n) := by
  unfold hitAllowed
  infer_instance

instance threadHook_blind (addr : BitVec 64) : Keeps I (threadHook addr) := by
  have hthread : ∀ word : BitVec 64, Keeps I (modify fun s => { s with
      threadId := Target.toAbsolute ((word.setWidth 16).zeroExtend 64) s.session.target } :
        DebugM τ PUnit) :=
    fun _ => Keeps.modify fun s hs =>
      Blind.blind s s.session s.breaktab s.activeBreakCount _ hs
  unfold threadHook commandChangeThread
  infer_instance

/-- A command keeps what looks neither at these nor at the counters that commands set. -/
theorem command_keeps (hexit : ∀ v, Keeps I (setExitCommandLoop v))
    (hcount : ∀ v, Keeps I (modify fun s => { s with autoBreakInsnCount := v } : DebugM τ PUnit))
    (hstop : ∀ v, Keeps I (setStopAfterMs v)) (c : Command) : Keeps I c.perform := by
  cases c with
  | brk args => exact cmdBreak_blind args
  | watch args => exact cmdWatch1_blind false true args
  | rwatch args => exact cmdWatch1_blind true false args
  | awatch args => exact cmdWatch1_blind true true args
  | delete args => exact cmdDelete_blind args
  | next =>
    change Keeps I cmdNext
    unfold cmdNext
    infer_instance
  | step args => exact (hcount _).seq fun _ => hexit 0
  | cont => exact hexit 0
  | runfor args =>
    change Keeps I (cmdRunfor args)
    cases args <;> unfold cmdRunfor <;> infer_instance
  | quit => exact hexit 1

end Blind

end Exec09.Debugger
