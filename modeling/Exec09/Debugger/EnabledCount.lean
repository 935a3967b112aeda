import Exec09.Debugger.CommandLine

/-! # The hooks miss no enabled entry

Every command line, every hook and every clean-up changes `active_break_count`
through `brk_enable` only. The count is that of the enabled entries after each
of them, so that leaving a hook early where it is zero changes nothing.
-/
namespace Exec09.Debugger
open Foundation
variable {τ : Type}

/-- `active_break_count` is the number of enabled entries, each of which is in use, and a hook
finds what it would find without its early exit. -/
structure Counted (s : State τ) : Prop where
  count : s.activeBreakCount.toNat = (enabledSlots s.breaktab).card
  used : ∀ n, (s.breaktab n).enabled = true → (s.breaktab n).used = true
  le : s.activeBreakCount.toNat ≤ MAX_BREAKS
  leaves : s.activeBreakCount = 0 → ∀ n, (s.breaktab n).enabled = false
  found : ∀ kind addr, triggered kind addr s =
    (brkfindByAddr s.breaktab addr).filter fun n => (s.breaktab n).enabled && kind (s.breaktab n)

theorem card_enabledSlots_le (tab : Slot → Breakpoint) : (enabledSlots tab).card ≤ MAX_BREAKS :=
  (Finset.card_le_univ _).trans_eq (Fintype.card_fin MAX_BREAKS)

theorem Consistent.counted {s : State τ} (h : Consistent s) : Counted s := by
  have hcount : s.activeBreakCount.toNat = (enabledSlots s.breaktab).card := by
    have hle := card_enabledSlots_le s.breaktab
    rw [h.count, BitVec.toNat_ofNat]
    exact Nat.mod_eq_of_lt (hle.trans_lt (by decide))
  have hleaves : s.activeBreakCount = 0 → ∀ n, (s.breaktab n).enabled = false := by
    intro hzero n
    by_contra hn
    exact h.count_ne_zero (by simpa using hn) hzero
  refine ⟨hcount, h.used, hcount.trans_le (card_enabledSlots_le _), hleaves, fun kind addr => ?_⟩
  unfold triggered
  by_cases hzero : s.activeBreakCount = 0
  · have hnone : (fun n => (s.breaktab n).enabled && kind (s.breaktab n)) = fun _ => false := by
      funext n
      rw [hleaves hzero n, Bool.false_and]
    rw [if_pos hzero, hnone]
    simp
  · rw [if_neg hzero]

section Commands
variable [Host τ]

omit [Host τ] in
theorem onDebugger_consistent {α : Type} {m : DebugM τ α} (h : Keeps Consistent m) :
    Keeps (fun s : Shell τ => Consistent s.debugger) (onDebugger m) where
  keeps s hs := by
    have hm := h.keeps s.debugger hs
    unfold onDebugger
    cases hr : m s.debugger <;> rw [hr] at hm <;> exact hm

instance onHost_consistent {α : Type} (m : EStateM Stop τ α) :
    Keeps (Consistent (τ := τ)) (onHost m) := by
  unfold onHost
  infer_instance

instance atAddress_consistent (arg : Text) (k : BitVec 64 → DebugM τ Unit)
    [∀ addr, Keeps Consistent (k addr)] : Keeps (Consistent (τ := τ)) (atAddress arg k) := by
  unfold atAddress
  infer_instance

instance cmdInspect_consistent (h : Handler) (args : List Text) :
    Keeps (Consistent (τ := τ)) (cmdInspect h args) := by
  cases args <;> unfold cmdInspect <;> infer_instance

theorem cmdPrint_consistent (args : List Text) : Keeps (Consistent (τ := τ)) (cmdPrint args) := by
  have hsave : ∀ val, Keeps (Consistent (τ := τ)) (saveValue val) :=
    fun _ => modify_consistent (fun _ => rfl) fun _ => rfl
  unfold cmdPrint doPrint
  infer_instance

theorem cmdSet_consistent (args : List Text) : Keeps (Consistent (τ := τ)) (cmdSet args) := by
  fun_cases cmdSet (τ := τ) args <;> infer_instance

theorem cmdPc_consistent (args : List Text) : Keeps (Consistent (τ := τ)) (cmdPc args) := by
  cases args with
  | nil => exact Keeps.pure _
  | cons arg args =>
    unfold cmdPc cmdList
    infer_instance

theorem cmdFile_consistent (h : Handler) (args : List Text) :
    Keeps (Consistent (τ := τ)) (cmdFile h args) := by
  cases args <;> unfold cmdFile <;> infer_instance

instance pushReturn_consistent (retaddr : U16) :
    Keeps (Consistent (τ := τ)) (pushReturn retaddr) := by
  unfold pushReturn
  infer_instance

instance startMeasure_consistent (retaddr : U16) (addr : BitVec 64) :
    Keeps (Consistent (τ := τ)) (startMeasure retaddr addr) := by
  have hset : ∀ (n : Slot) (back : BitVec 64), Keeps (Consistent (τ := τ))
      (setSlot n fun br => { br with addr := back, onExecute := true, temp := true }) :=
    fun n _ => setSlot_keeps_consistent n (fun _ => rfl) fun _ => rfl
  unfold startMeasure
  infer_instance

theorem cmdMeasure_consistent (args : List Text) : Keeps (Consistent (τ := τ)) (cmdMeasure args) := by
  cases args with
  | nil => exact Keeps.pure _
  | cons arg args => exact Keeps.get.seq fun s => atAddress_consistent arg _

omit [Host τ] in
/-- The displays are no part of the table. -/
theorem cmdDisplay_consistent (args : List Text) :
    Keeps (fun s : Shell τ => Consistent s.debugger) (cmdDisplay args) := by
  induction args with
  | nil => exact Keeps.pure _
  | cons arg args ih =>
    have hnew : Keeps (fun s : Shell τ => Consistent s.debugger) (modify fun s =>
        { s with displays := s.displays ++ [arg.take 127] } : ShellM τ PUnit) :=
      Keeps.modify fun _ hs => hs
    unfold cmdDisplay
    infer_instance

theorem handler_consistent (h : Handler) (args : List Text) :
    Keeps (fun s : Shell τ => Consistent s.debugger) (h.perform args) := by
  cases h with
  | «break» => exact onDebugger_consistent (cmdBreak_consistent args)
  | delete => exact onDebugger_consistent (cmdDelete_consistent args)
  | watch => exact onDebugger_consistent (cmdWatch1_consistent false true args)
  | rwatch => exact onDebugger_consistent (cmdWatch1_consistent true false args)
  | awatch => exact onDebugger_consistent (cmdWatch1_consistent true true args)
  | next => exact onDebugger_consistent cmdNext_consistent
  | measure => exact onDebugger_consistent (cmdMeasure_consistent args)
  | step => exact onDebugger_consistent (command_consistent (.step args))
  | runfor => exact onDebugger_consistent (command_consistent (.runfor args))
  | «continue» => exact onDebugger_consistent (setExitCommandLoop_consistent 0)
  | quit => exact onDebugger_consistent (setExitCommandLoop_consistent 1)
  | print => exact onDebugger_consistent (cmdPrint_consistent args)
  | set => exact onDebugger_consistent (cmdSet_consistent args)
  | pc => exact onDebugger_consistent (cmdPc_consistent args)
  | display => exact cmdDisplay_consistent args
  | examine => exact onDebugger_consistent (cmdInspect_consistent .examine args)
  | list => exact onDebugger_consistent (cmdInspect_consistent .list args)
  | symbolFile => exact onDebugger_consistent (cmdFile_consistent .symbolFile args)
  | source => exact onDebugger_consistent (cmdFile_consistent .source args)
  | _ => exact onDebugger_consistent (onHost_consistent _)

theorem commandExec_consistent (l : Line) :
    Keeps (fun s : Shell τ => Consistent s.debugger) (commandExec l) := by
  have hprev : ∀ cmd, Keeps (fun s : Shell τ => Consistent s.debugger)
      (modify fun s => { s with prevBuffer := cmd } : ShellM τ PUnit) :=
    fun _ => Keeps.modify fun _ hs => hs
  unfold commandExec
  refine Keeps.get.seq fun s => ?_
  cases parse (effective l.1 s.prevBuffer) with
  | none => exact Keeps.pure _
  | some p =>
    refine (hprev p.1).seq fun _ => ?_
    cases commandLookup p.1 with
    | none => exact Keeps.pure _
    | some h => exact handler_consistent h p.2

theorem moment_consistent (e : Moment τ) :
    Keeps (fun s : Shell τ => Consistent s.debugger) e.perform := by
  cases e with
  | line l => exact commandExec_consistent l
  | insn => exact onDebugger_consistent commandInsnHook_consistent
  | happening h => exact onDebugger_consistent (event_consistent h.event)
  | freeTemps => exact onDebugger_consistent (freeEach_consistent _ _)
  | displays =>
    have hall (exprs : List Text) : Keeps (fun s : Shell τ => Consistent s.debugger)
        (onDebugger do let _ ← evaluating (displayPrint exprs)) :=
      onDebugger_consistent inferInstance
    exact Keeps.get.seq fun s => hall s.displays

/-- In every state that a run from the start of the program reaches or stops in. -/
theorem counted_along_run (target : τ) (es : List (Moment τ)) :
    Counted (finalState (runAll Moment.perform es (Shell.start target))).debugger :=
  (Triple.iff_final.mp (runAll_keeps (fun e => Keeps.iff_triple.mp (moment_consistent e)) es) _
    (init_consistent target)).counted

end Commands

end Exec09.Debugger
