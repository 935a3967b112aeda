import Exec09.Debugger.CommandStops

/-! # Commands and the breakpoint table

A handler that wants a slot evaluates what it needs, allocates the slot without
a test of the result, and copies its options without a test for a missing word.
What it needs for this is stated as a condition on the line and on the table.
-/
namespace Exec09.Debugger
open Foundation

/-! ## What a handler asks for -/

section Conditions
variable {τ : Type}

/-- The table, as far as a command can change it. -/
def table (s : State τ) : (Slot → Breakpoint) × BitVec 32 := (s.breaktab, s.activeBreakCount)

/-- A slot is free. -/
def room (s : State τ) : Bool := (freeSlot s.breaktab).isSome

/-- The program returns, and with a value. -/
def gotTo {β : Type} (lead : DebugM τ (Option β)) (s : State τ) : Bool :=
  match lead s with
  | .ok (some _) _ => true
  | _ => false

/-- An `if` is followed by a condition that fits into its array, an `ignore` by a word. -/
def breakOptionsOk : List Text → Bool
  | [] => true
  | arg :: args =>
    if arg = Text.ofString "if" then args.head?.any (·.length < 128)
    else if arg = Text.ofString "ignore" then args ≠ []
    else true

/-- The same for each option in turn. -/
def watchOptionsOk : List Text → Bool
  | [] => true
  | arg :: args =>
    if arg = Text.ofString "print" then watchOptionsOk args
    else if arg = Text.ofString "mask" then
      match args with
      | [] => false
      | _ :: args => watchOptionsOk args
    else if arg = Text.ofString "if" then
      match args with
      | [] => false
      | cond :: args => cond.length < 128 && watchOptionsOk args
    else watchOptionsOk args

def setOk : List Text → Bool
  | [] => false
  | arg :: args => arg ≠ Text.ofString "var" || args ≠ []

/-- The number that `cmd_delete` makes of its argument. -/
def deleteId (arg : Text) : ℕ := (Text.atoi arg % 2 ^ 32).toNat

def deleteAdmits (arg : Text) (s : State τ) : Bool :=
  if h : deleteId arg < MAX_BREAKS then (s.breaktab ⟨deleteId arg, h⟩).used else false

end Conditions

section Leads
variable {τ : Type} [Host τ]

/-! What the handlers do before they ask for a slot. -/

def addressLead (arg : Text) : DebugM τ (Option (BitVec 64)) := do
  let ((val, _), eflag) ← evaluating (evalMem eval arg .LVALUE)
  return if eflag = 0 then some val else none

def nextLead : DebugM τ (Option (BitVec 64)) := do
  let addr := absPc (← get)
  let (size, _) ← evaluating (onTarget (Target.dasm addr))
  return some (addr + size.signExtend 64)

def measureLead (arg : Text) : DebugM τ (Option (U16 × BitVec 64)) := do
  let retaddr := Target.getPc (← get).session.target
  match ← addressLead arg with
  | some addr => do
    pushReturn retaddr
    return some (retaddr, addr)
  | none => return none

/-- The handler asks for a slot. -/
def Handler.asks : Handler → List Text → State τ → Bool
  | .break, arg :: _, s => gotTo (addressLead arg) s
  | watch, arg :: _, s => gotTo (addressLead arg) s
  | rwatch, arg :: _, s => gotTo (addressLead arg) s
  | awatch, arg :: _, s => gotTo (addressLead arg) s
  | next, _, s => gotTo nextLead s
  | measure, arg :: _, s => gotTo (measureLead arg) s
  | _, _, _ => false

def Handler.optionsOk : Handler → List Text → Bool
  | .break, args => breakOptionsOk args.tail
  | watch, args => watchOptionsOk args.tail
  | rwatch, args => watchOptionsOk args.tail
  | awatch, args => watchOptionsOk args.tail
  | _, _ => true

/-- The command is one that changes the table, and it can be carried out. -/
def Handler.admits (h : Handler) (args : List Text) (s : State τ) : Bool :=
  match h, args with
  | delete, [] => true
  | delete, arg :: _ => deleteAdmits arg s
  | h, args => h.asks args s && room s && h.optionsOk args

/-- A slot is free if one is asked for, the options are complete, `delete` names a slot, and `set`
is not left without its words. -/
def Handler.fits (h : Handler) (args : List Text) (s : State τ) : Bool :=
  match h, args with
  | delete, [] => true
  | delete, arg :: _ => deleteId arg < MAX_BREAKS
  | set, args => setOk args
  | h, args => !h.asks args s || room s && h.optionsOk args

end Leads

/-! ## Stops that are the fault of the table or the arguments -/

section Wild
variable {σ α β : Type}

/-- The program stops for such a reason. -/
def Wild (m : EStateM Crash σ α) (s : σ) : Prop := ∃ e t, m s = .error e t ∧ e.tame = false

theorem not_wild (m : EStateM Crash σ α) [hm : Tame m] (s : σ) : ¬Wild m s := by
  rintro ⟨e, t, he, hwild⟩
  rw [hm.stops s e t he] at hwild
  cases hwild

theorem wild_throw {e : Crash} (s : σ) : Wild (throw e : EStateM Crash σ α) s ↔ e.tame = false := by
  constructor
  · rintro ⟨d, t, hd, hwild⟩
    cases hd
    exact hwild
  · exact fun h => ⟨e, s, rfl, h⟩

theorem wild_bind {m : EStateM Crash σ α} {f : α → EStateM Crash σ β} {s t : σ} {a : α}
    (h : m s = .ok a t) : Wild (m >>= f) s ↔ Wild (f a) t := by
  rw [Wild, run_bind_ok h]
  rfl

end Wild

/-! ## Handlers that ask for a slot -/

section Asking
variable {τ β : Type}

/-- Go on with what the lead returns, if anything. -/
def follow (lead : DebugM τ (Option β)) (k : β → DebugM τ Unit) : DebugM τ Unit := do
  match ← lead with
  | some b => k b
  | none => pure ()

/-- Go on with a new slot. -/
def placed (k : Slot → DebugM τ Unit) : DebugM τ Unit := do
  let n ← deref (← brkalloc)
  k n

theorem placed_wild {k : Slot → DebugM τ Unit} {ok : Bool}
    (hk : ∀ n s, Wild (k n) s ↔ ok = false) (s : State τ) :
    Wild (placed k) s ↔ (room s && ok) = false := by
  cases hfree : freeSlot s.breaktab with
  | none =>
    have halloc : brkalloc s = .ok none s := by
      unfold brkalloc
      rw [run_bind_ok run_get, hfree]
      rfl
    have hroom : room s = false := by rw [room, hfree]; rfl
    rw [placed, wild_bind halloc, hroom]
    exact iff_of_true ⟨.nullBreakpoint, s, rfl, rfl⟩ rfl
  | some n =>
    have halloc : ∃ t, brkalloc s = .ok (some n) t := by
      unfold brkalloc
      rw [run_bind_ok run_get, hfree]
      have hset : setSlot n (Breakpoint.claim n) s = .ok ⟨⟩ _ := rfl
      have henable : StopsFor (fun _ => False) (brkEnable (τ := τ) n true) := by
        unfold brkEnable setSlot
        infer_instance
      rcases henable.total _ with ⟨_, t, ht⟩
      refine ⟨t, ?_⟩
      dsimp only
      rw [run_bind_ok hset, run_bind_ok ht]
      rfl
    have hroom : room s = true := by rw [room, hfree]; rfl
    rcases halloc with ⟨t, ht⟩
    rw [placed, wild_bind ht, wild_bind (m := deref (some n)) (a := n) rfl, hroom]
    exact hk n t

/-- The lead ends the handler with the table as it was, or the handler goes on with that table. -/
theorem follow_cases (lead : DebugM τ (Option β)) [hlead : Tame lead]
    [hkeep : ∀ x, Keeps (fun s => table s = x) lead] (k : β → DebugM τ Unit) (s : State τ) :
    (gotTo lead s = false ∧ ¬Wild (follow lead k) s ∧
        table (finalState (follow lead k s)) = table s) ∨
      gotTo lead s = true ∧ ∃ b t, table t = table s ∧ follow lead k s = k b t := by
  have hsame := (hkeep (table s)).keeps s rfl
  unfold gotTo follow
  cases hr : lead s with
  | error e t =>
    rw [hr] at hsame
    refine Or.inl ⟨rfl, ?_, ?_⟩
    · rintro ⟨d, u, hd, hwild⟩
      rw [run_bind_error hr] at hd
      cases hd
      rw [hlead.stops s e t hr] at hwild
      cases hwild
    · rw [run_bind_error hr]
      exact hsame
  | ok o t =>
    rw [hr] at hsame
    cases o with
    | none =>
      refine Or.inl ⟨rfl, ?_, ?_⟩
      · rw [wild_bind hr]
        exact not_wild (pure ()) t
      · rw [run_bind_ok hr]
        exact hsame
    | some b => exact Or.inr ⟨rfl, b, t, hsame, by rw [run_bind_ok hr]⟩

section Lead
variable {lead : DebugM τ (Option β)} [Tame lead] [∀ x, Keeps (fun s => table s = x) lead]
  {k : β → Slot → DebugM τ Unit} {ok : Bool}

theorem follow_wild (hk : ∀ b n s, Wild (k b n) s ↔ ok = false) (s : State τ) :
    Wild (follow lead fun b => placed (k b)) s ↔ (!gotTo lead s || room s && ok) = false := by
  rcases follow_cases lead (fun b => placed (k b)) s with
    ⟨hgot, hwild, -⟩ | ⟨hgot, b, t, htable, hgo⟩
  · simp [hgot, hwild]
  · have hroom : room t = room s := by
      rw [room, room, show t.breaktab = s.breaktab from congrArg Prod.fst htable]
    rw [Wild, hgo, hgot, ← hroom]
    exact placed_wild (hk b) t

theorem follow_table (s : State τ) (h : gotTo lead s = false) :
    table (finalState (follow lead (fun b => placed (k b)) s)) = table s := by
  rcases follow_cases lead (fun b => placed (k b)) s with ⟨-, -, htable⟩ | ⟨hgot, -⟩
  · exact htable
  · rw [h] at hgot
    cases hgot

end Lead

end Asking
section Options
variable {τ : Type}

theorem setSlot_wild {β : Type} (n : Slot) (g : Breakpoint → Breakpoint) (f : DebugM τ β)
    (s : State τ) : Wild (do setSlot n g; f) s ↔
      Wild f { s with breaktab := Function.update s.breaktab n (g (s.breaktab n)) } :=
  wild_bind rfl

theorem setCondition_wild (n : Slot) (o : Option Text) (s : State τ) :
    Wild (setCondition n o) s ↔ o.any (·.length < 128) = false := by
  cases o with
  | none => exact wild_throw s
  | some arg =>
    rw [setCondition, Option.any_some]
    by_cases hshort : arg.length < 128
    · simp [hshort, not_wild]
    · simp [hshort, wild_throw, Crash.tame]

theorem breakOptions_wild (n : Slot) (args : List Text) (s : State τ) :
    Wild (breakOptions n args) s ↔ breakOptionsOk args = false := by
  cases args with
  | nil => exact iff_of_false (not_wild (pure ()) s) (by simp [breakOptionsOk])
  | cons arg args =>
    unfold breakOptions breakOptionsOk
    dsimp only
    by_cases hif : arg = Text.ofString "if"
    · rw [if_pos hif, if_pos hif, setSlot_wild]
      exact setCondition_wild n args.head? _
    · rw [if_neg hif, if_neg hif]
      by_cases hignore : arg = Text.ofString "ignore"
      · rw [if_pos hignore, if_pos hignore]
        cases args with
        | nil => exact iff_of_true ⟨.nullArgument, s, rfl, rfl⟩ (by simp)
        | cons count args => exact iff_of_false (not_wild _ s) (by simp)
      · rw [if_neg hignore, if_neg hignore]
        exact iff_of_false (not_wild (pure ()) s) (by simp)

theorem watchOptions_wild (n : Slot) (args : List Text) (s : State τ) :
    Wild (watchOptions n args) s ↔ watchOptionsOk args = false := by
  fun_induction watchOptionsOk args generalizing s with
  | case1 => exact iff_of_false (not_wild (pure ()) s) (by simp)
  | case2 args ih =>
    unfold watchOptions
    rw [if_pos rfl, setSlot_wild]
    exact ih _
  | case3 hprint =>
    unfold watchOptions
    rw [if_neg hprint, if_pos rfl]
    exact iff_of_true ⟨.nullArgument, s, rfl, rfl⟩ rfl
  | case4 mask args hprint ih =>
    unfold watchOptions
    rw [if_neg hprint, if_pos rfl]
    exact (setSlot_wild n _ _ s).trans (ih _)
  | case5 hprint hmask =>
    unfold watchOptions
    rw [if_neg hprint, if_neg hmask, if_pos rfl]
    exact iff_of_true ⟨.nullArgument, s, rfl, rfl⟩ rfl
  | case6 cond args hprint hmask ih =>
    unfold watchOptions
    rw [if_neg hprint, if_neg hmask, if_pos rfl]
    refine (setSlot_wild n _ _ s).trans ?_
    by_cases hshort : cond.length < 128
    · rw [setCondition, if_pos hshort, setSlot_wild, ih]
      simp [hshort]
    · rw [setCondition, if_neg hshort]
      exact iff_of_true ⟨.conditionOverflow, _, rfl, rfl⟩ (by simp [hshort])
  | case7 arg args hprint hmask hif ih =>
    unfold watchOptions
    rw [if_neg hprint, if_neg hmask, if_neg hif]
    exact ih s

end Options

section Handlers
variable {τ : Type}

instance evaluating_table {α : Type} (m : EvalM τ α) (x : (Slot → Breakpoint) × BitVec 32) :
    Keeps (fun s => table s = x) (evaluating m) :=
  evaluating_keeps m fun _ _ hs => hs

variable [Host τ]

instance addressLead_tame (arg : Text) : Tame (addressLead (τ := τ) arg) := by
  unfold addressLead
  infer_instance

instance addressLead_table (arg : Text) (x : (Slot → Breakpoint) × BitVec 32) :
    Keeps (fun s : State τ => table s = x) (addressLead arg) := by
  unfold addressLead
  infer_instance

instance nextLead_tame : Tame (nextLead (τ := τ)) := by
  unfold nextLead
  infer_instance

instance nextLead_table (x : (Slot → Breakpoint) × BitVec 32) :
    Keeps (fun s : State τ => table s = x) nextLead := by
  unfold nextLead
  infer_instance

omit [Host τ] in
instance onHost_tame {α : Type} (m : EStateM Stop τ α) : Tame (onHost m) := by
  unfold onHost
  infer_instance

omit [Host τ] in
instance onHost_table {α : Type} (m : EStateM Stop τ α) (x : (Slot → Breakpoint) × BitVec 32) :
    Keeps (fun s => table s = x) (onHost m) := by
  unfold onHost
  infer_instance

instance measureLead_tame (arg : Text) : Tame (measureLead (τ := τ) arg) := by
  unfold measureLead pushReturn
  refine StopsFor.get.seq fun s => (addressLead_tame arg).seq fun o => ?_
  cases o <;> infer_instance

instance measureLead_table (arg : Text) (x : (Slot → Breakpoint) × BitVec 32) :
    Keeps (fun s : State τ => table s = x) (measureLead arg) := by
  unfold measureLead pushReturn
  refine Keeps.get.seq fun s => (addressLead_table arg x).seq fun o => ?_
  cases o <;> infer_instance

theorem atAddress_eq (arg : Text) (k : BitVec 64 → DebugM τ Unit) :
    atAddress arg k = follow (addressLead arg) k := by
  unfold atAddress follow addressLead
  rw [bind_assoc]
  congr 1
  funext r
  rcases r with ⟨⟨val, left⟩, eflag⟩
  by_cases h : eflag = 0 <;> simp [h]

theorem cmdBreak_eq (arg : Text) (args : List Text) :
    cmdBreak (τ := τ) (arg :: args) = follow (addressLead arg) fun val => placed fun n => (do
      setSlot n fun br => { br with addr := val, onExecute := true }
      breakOptions n args) := by
  rw [← atAddress_eq]
  rfl

theorem cmdWatch1_eq (onRead onWrite : Bool) (arg : Text) (args : List Text) :
    cmdWatch1 (τ := τ) onRead onWrite (arg :: args) =
      follow (addressLead arg) fun addr => placed fun n => (do
        setSlot n fun br => { br with addr := addr, onRead := onRead, onWrite := onWrite }
        watchOptions n args) := by
  rw [← atAddress_eq]
  rfl

theorem cmdNext_eq :
    cmdNext (τ := τ) = follow nextLead fun addr => placed fun n => (do
      setSlot n fun br => { br with addr := addr, onExecute := true, temp := true }
      setExitCommandLoop 0) := by
  unfold cmdNext follow nextLead
  simp only [bind_assoc, pure_bind]
  rfl

/-- What `cmd_measure` does with its slot. -/
def measureFrom (b : U16 × BitVec 64) (n : Slot) : DebugM τ Unit := do
  let back := Target.toAbsolute (b.1.zeroExtend 64) (← get).session.target
  setSlot n fun br => { br with addr := back, onExecute := true, temp := true }
  onHost (Host.setCc (Host.getCc (← get).session.target ||| 0x50))
  onHost (Host.setPc (b.2.setWidth 32))
  setExitCommandLoop 0

theorem cmdMeasure_eq (arg : Text) (args : List Text) :
    cmdMeasure (τ := τ) (arg :: args) =
      follow (measureLead arg) fun b => placed (measureFrom b) := by
  unfold follow measureLead
  rw [bind_assoc]
  refine congrArg (get >>= ·) (funext fun s => ?_)
  rw [atAddress_eq, bind_assoc]
  refine congrArg (addressLead arg >>= ·) (funext fun o => ?_)
  cases o with
  | none => rfl
  | some addr =>
    simp only [bind_assoc, pure_bind]
    rfl

end Handlers

section Counters
variable {τ : Type} (x : (Slot → Breakpoint) × BitVec 32)

theorem modify_table {g : State τ → State τ} (h : ∀ s, table (g s) = table s) :
    Keeps (fun s => table s = x) (modify g : DebugM τ PUnit) :=
  Keeps.modify fun s hs => (h s).trans hs

instance setExitCommandLoop_table (v : ℤ) :
    Keeps (fun s : State τ => table s = x) (setExitCommandLoop v) := modify_table x fun _ => rfl

instance setStopAfterMs_table (v : ℤ) :
    Keeps (fun s : State τ => table s = x) (setStopAfterMs v) := modify_table x fun _ => rfl

instance saveValue_table (val : BitVec 64) :
    Keeps (fun s : State τ => table s = x) (saveValue val) := modify_table x fun _ => rfl

instance cmdStep_table (args : List Text) :
    Keeps (fun s : State τ => table s = x) (cmdStep args) := by
  unfold cmdStep
  refine Keeps.seq ?_ fun _ => setExitCommandLoop_table x 0
  exact modify_table x fun _ => rfl

instance cmdRunfor_table (args : List Text) :
    Keeps (fun s : State τ => table s = x) (cmdRunfor args) := by
  cases args <;> unfold cmdRunfor <;> infer_instance

end Counters

/-! ## Every handler -/

/-- A program stops wildly exactly if it does not fit, and changes the table only if admitted. -/
structure Meets {τ : Type} (m : ShellM τ Unit) (fits admits : Bool) (s : Shell τ) : Prop where
  wild : Wild m s ↔ fits = false
  unchanged : fits = true → admits = false → table (finalState (m s)).debugger = table s.debugger

section Meets
variable {τ β : Type}

theorem onDebugger_wild {α : Type} (m : DebugM τ α) (s : Shell τ) :
    Wild (onDebugger m) s ↔ Wild m s.debugger := by
  unfold Wild onDebugger
  cases m s.debugger with
  | ok a t => simp
  | error e t => simp

theorem onDebugger_final {α : Type} (m : DebugM τ α) (s : Shell τ) :
    (finalState (onDebugger m s)).debugger = finalState (m s.debugger) := by
  unfold onDebugger
  cases m s.debugger <;> rfl

theorem Meets.lift {m : DebugM τ Unit} {fits admits : Bool} {s : Shell τ}
    (hwild : Wild m s.debugger ↔ fits = false)
    (htable : fits = true → admits = false → table (finalState (m s.debugger)) = table s.debugger) :
    Meets (onDebugger m) fits admits s where
  wild := (onDebugger_wild m s).trans hwild
  unchanged hfits hadmits := by rw [onDebugger_final, htable hfits hadmits]

/-- A handler that leaves the table alone and needs nothing. -/
theorem Meets.calm (m : DebugM τ Unit) [Tame m] [hkeep : ∀ x, Keeps (fun s => table s = x) m]
    (s : Shell τ) : Meets (onDebugger m) true false s :=
  Meets.lift (iff_of_false (not_wild m s.debugger) (by simp)) fun _ _ => (hkeep _).keeps _ rfl

theorem Meets.asking {lead : DebugM τ (Option β)} [Tame lead]
    [∀ x, Keeps (fun s => table s = x) lead] {k : β → Slot → DebugM τ Unit} {ok : Bool}
    (hk : ∀ b n s, Wild (k b n) s ↔ ok = false) (s : Shell τ) :
    Meets (onDebugger (follow lead fun b => placed (k b)))
      (!gotTo lead s.debugger || room s.debugger && ok)
      (gotTo lead s.debugger && room s.debugger && ok) s := by
  refine Meets.lift (follow_wild hk s.debugger) fun hfits hadmits => follow_table s.debugger ?_
  cases hgot : gotTo lead s.debugger with
  | false => rfl
  | true =>
    rw [hgot] at hfits hadmits
    simp_all

end Meets

section Every
variable {τ : Type} [Host τ]

instance doPrint_tame (expr : Text) : Tame (doPrint (τ := τ) expr) := by
  unfold doPrint saveValue
  infer_instance

instance doPrint_table (expr : Text) (x : (Slot → Breakpoint) × BitVec 32) :
    Keeps (fun s : State τ => table s = x) (doPrint expr) := by
  unfold doPrint
  infer_instance

instance atAddress_tame (arg : Text) (k : BitVec 64 → DebugM τ Unit) [∀ addr, Tame (k addr)] :
    Tame (atAddress arg k) := by
  unfold atAddress
  infer_instance

instance atAddress_table (arg : Text) (k : BitVec 64 → DebugM τ Unit)
    (x : (Slot → Breakpoint) × BitVec 32) [∀ addr, Keeps (fun s => table s = x) (k addr)] :
    Keeps (fun s : State τ => table s = x) (atAddress arg k) := by
  unfold atAddress
  infer_instance

instance cmdInspect_tame (h : Handler) (args : List Text) : Tame (cmdInspect (τ := τ) h args) := by
  cases args <;> unfold cmdInspect <;> infer_instance

instance cmdInspect_table (h : Handler) (args : List Text) (x : (Slot → Breakpoint) × BitVec 32) :
    Keeps (fun s : State τ => table s = x) (cmdInspect h args) := by
  cases args <;> unfold cmdInspect <;> infer_instance

instance cmdPc_tame (args : List Text) : Tame (cmdPc (τ := τ) args) := by
  cases args <;> unfold cmdPc cmdList <;> infer_instance

instance cmdPc_table (args : List Text) (x : (Slot → Breakpoint) × BitVec 32) :
    Keeps (fun s : State τ => table s = x) (cmdPc args) := by
  cases args <;> unfold cmdPc cmdList <;> infer_instance

instance cmdFile_tame (h : Handler) (args : List Text) : Tame (cmdFile (τ := τ) h args) := by
  cases args <;> unfold cmdFile <;> infer_instance

instance cmdFile_table (h : Handler) (args : List Text) (x : (Slot → Breakpoint) × BitVec 32) :
    Keeps (fun s : State τ => table s = x) (cmdFile h args) := by
  cases args <;> unfold cmdFile <;> infer_instance

theorem cmdBreak_meets (args : List Text) (s : Shell τ) :
    Meets (onDebugger (cmdBreak args)) (Handler.fits .break args s.debugger)
      (Handler.admits .break args s.debugger) s := by
  cases args with
  | nil => exact Meets.calm (pure ()) s
  | cons arg args =>
    rw [cmdBreak_eq]
    exact Meets.asking (fun _ n t => (setSlot_wild n _ _ t).trans (breakOptions_wild n args _)) s

theorem cmdWatch1_meets (onRead onWrite : Bool) (arg : Text) (args : List Text) (s : Shell τ) :
    Meets (onDebugger (cmdWatch1 onRead onWrite (arg :: args)))
      (!gotTo (addressLead arg) s.debugger || room s.debugger && watchOptionsOk args)
      (gotTo (addressLead arg) s.debugger && room s.debugger && watchOptionsOk args) s := by
  rw [cmdWatch1_eq]
  exact Meets.asking (fun _ n t => (setSlot_wild n _ _ t).trans (watchOptions_wild n args _)) s

theorem cmdNext_meets (args : List Text) (s : Shell τ) :
    Meets (onDebugger cmdNext) (Handler.fits .next args s.debugger)
      (Handler.admits .next args s.debugger) s := by
  rw [cmdNext_eq]
  exact Meets.asking (fun _ n t => iff_of_false (not_wild _ t) (by simp [Handler.optionsOk])) s

theorem cmdMeasure_meets (args : List Text) (s : Shell τ) :
    Meets (onDebugger (cmdMeasure args)) (Handler.fits .measure args s.debugger)
      (Handler.admits .measure args s.debugger) s := by
  cases args with
  | nil => exact Meets.calm (pure ()) s
  | cons arg args =>
    have htame : ∀ b n, Tame (measureFrom (τ := τ) b n) := by
      intro b n
      unfold measureFrom
      infer_instance
    rw [cmdMeasure_eq]
    exact Meets.asking (fun b n t => iff_of_false (not_wild _ t) (by simp [Handler.optionsOk])) s

theorem cmdDelete_meets (args : List Text) (s : Shell τ) :
    Meets (onDebugger (cmdDelete args)) (Handler.fits .delete args s.debugger)
      (Handler.admits .delete args s.debugger) s := by
  cases args with
  | nil =>
    refine Meets.lift (iff_of_false (not_wild (freeEach _ _) _) (by simp [Handler.fits])) ?_
    intro _ hadmits
    cases hadmits
  | cons arg args =>
    by_cases hid : deleteId arg < MAX_BREAKS
    · have hfind : brkfindById (deleteId arg) s.debugger = .ok ⟨deleteId arg, hid⟩ s.debugger := by
        rw [brkfindById, dif_pos hid]
        rfl
      have hrun : cmdDelete (arg :: args) s.debugger =
          (if (s.debugger.breaktab ⟨deleteId arg, hid⟩).used then brkfree ⟨deleteId arg, hid⟩
            else pure ()) s.debugger := by
        rw [cmdDelete]
        exact run_bind_ok hfind
      refine Meets.lift ?_ ?_
      · rw [Wild, hrun]
        exact iff_of_false (not_wild _ s.debugger) (by simp [Handler.fits, hid])
      · intro _ hadmits
        have hunused : (s.debugger.breaktab ⟨deleteId arg, hid⟩).used = false := by
          simpa [Handler.admits, deleteAdmits, hid] using hadmits
        rw [hrun, hunused]
        rfl
    · have hfind : brkfindById (deleteId arg) s.debugger = .error .tableIndex s.debugger := by
        rw [brkfindById, dif_neg hid]
        rfl
      have hfits : Handler.fits .delete (arg :: args) s.debugger = false := by
        simp [Handler.fits, hid]
      refine Meets.lift (iff_of_true ⟨.tableIndex, s.debugger, ?_, rfl⟩ hfits) ?_
      · rw [cmdDelete]
        exact run_bind_error hfind
      · intro h
        rw [hfits] at h
        cases h

theorem cmdSet_meets (args : List Text) (s : Shell τ) :
    Meets (onDebugger (cmdSet args)) (Handler.fits .set args s.debugger)
      (Handler.admits .set args s.debugger) s := by
  cases args with
  | nil =>
    refine Meets.lift (iff_of_true ⟨.nullArgument, _, rfl, rfl⟩ rfl) ?_
    intro h
    cases h
  | cons arg args =>
    by_cases hvar : arg = Text.ofString "var"
    · cases args with
      | nil =>
        have hfits : Handler.fits .set [arg] s.debugger = false := by
          simp [Handler.fits, setOk, hvar]
        rw [hfits, cmdSet, if_pos hvar]
        exact Meets.lift (iff_of_true ⟨.nullArgument, _, rfl, rfl⟩ rfl) fun h => by cases h
      | cons name args =>
        have hfits : Handler.fits .set (arg :: name :: args) s.debugger = true := by
          simp [Handler.fits, setOk]
        rw [hfits]
        unfold cmdSet
        dsimp only
        rw [if_pos hvar]
        cases Text.splitChar 61 name <;> exact Meets.calm _ s
    · have hfits : Handler.fits .set (arg :: args) s.debugger = true := by
        simp [Handler.fits, setOk, hvar]
      rw [hfits]
      unfold cmdSet
      dsimp only
      rw [if_neg hvar]
      exact Meets.calm _ s

omit [Host τ] in
instance cmdDisplay_tame (args : List Text) : Tame (cmdDisplay (τ := τ) args) := by
  induction args with
  | nil => exact StopsFor.pure _
  | cons arg args ih =>
    unfold cmdDisplay
    infer_instance

omit [Host τ] in
theorem cmdDisplay_debugger (t : State τ) (args : List Text) :
    Keeps (fun s => s.debugger = t) (cmdDisplay args) := by
  have hnew : ∀ arg : Text, Keeps (fun s : Shell τ => s.debugger = t) (modify fun s =>
      { s with displays := s.displays ++ [arg.take 127] } : ShellM τ PUnit) :=
    fun _ => Keeps.modify fun _ hs => hs
  induction args with
  | nil => exact Keeps.pure _
  | cons arg args ih =>
    unfold cmdDisplay
    infer_instance

omit [Host τ] in
theorem cmdDisplay_meets (args : List Text) (s : Shell τ) :
    Meets (cmdDisplay args) true false s where
  wild := iff_of_false (not_wild _ s) (by simp)
  unchanged _ _ := congrArg table ((cmdDisplay_debugger s.debugger args).keeps s rfl)

theorem handler_meets (h : Handler) (args : List Text) (s : Shell τ) :
    Meets (h.perform args) (h.fits args s.debugger) (h.admits args s.debugger) s := by
  cases h with
  | «break» => exact cmdBreak_meets args s
  | delete => exact cmdDelete_meets args s
  | set => exact cmdSet_meets args s
  | next => exact cmdNext_meets args s
  | measure => exact cmdMeasure_meets args s
  | display => exact cmdDisplay_meets args s
  | watch | rwatch | awatch =>
    cases args with
    | nil => exact Meets.calm (pure ()) s
    | cons arg args => exact cmdWatch1_meets _ _ arg args s
  | print => exact Meets.calm (doPrint _) s
  | examine => exact Meets.calm (cmdInspect .examine args) s
  | list => exact Meets.calm (cmdInspect .list args) s
  | pc => exact Meets.calm (cmdPc args) s
  | symbolFile => exact Meets.calm (cmdFile .symbolFile args) s
  | source => exact Meets.calm (cmdFile .source args) s
  | step => exact Meets.calm (cmdStep args) s
  | runfor => exact Meets.calm (cmdRunfor args) s
  | «continue» => exact Meets.calm (setExitCommandLoop 0) s
  | quit => exact Meets.calm (setExitCommandLoop 1) s
  | _ => exact Meets.calm (onHost _) s

/-! ## Whole runs -/

/-- The handler that a line calls, with its words. -/
def invoked (l : Line) (s : Shell τ) : Option (Handler × List Text) :=
  match parse (effective l.1 s.prevBuffer) with
  | some (cmd, args) => (commandLookup cmd).map fun h => (h, args)
  | none => none

/-- A line that is typed calls no handler, or one that fits. -/
def Moment.fits (e : Moment τ) (s : Shell τ) : Bool :=
  match e with
  | line l => (invoked l s).all fun c => c.1.fits c.2 s.debugger
  | _ => true

/-- A line that is typed calls a handler that may change the table. -/
def Moment.admits (e : Moment τ) (s : Shell τ) : Bool :=
  match e with
  | line l => (invoked l s).any fun c => c.1.admits c.2 s.debugger
  | _ => true

/-- No table index is out of range, no null pointer is used and no condition is too long, and a
command that cannot be carried out leaves the table as it is. -/
structure Safe (e : Moment τ) (s : Shell τ) : Prop where
  stops : ∀ c t, e.perform s = .error c t → c.tame = true
  unchanged : e.admits s = false → table (finalState (e.perform s)).debugger = table s.debugger

/-- A line runs the handler that it calls, after the command is remembered. -/
theorem commandExec_cases (l : Line) (s : Shell τ) :
    (invoked l s = none ∧ ∃ prev, commandExec l s = .ok () { s with prevBuffer := prev }) ∨
      ∃ h args cmd, invoked l s = some (h, args) ∧
        commandExec l s = h.perform args { s with prevBuffer := cmd } := by
  unfold commandExec invoked
  rw [run_bind_ok run_get]
  cases parse (effective l.1 s.prevBuffer) with
  | none => exact Or.inl ⟨rfl, s.prevBuffer, rfl⟩
  | some p =>
    rcases p with ⟨cmd, args⟩
    have hprev : (modify fun s => { s with prevBuffer := cmd } : ShellM τ PUnit) s =
      .ok ⟨⟩ { s with prevBuffer := cmd } := rfl
    dsimp only
    rw [run_bind_ok hprev]
    cases commandLookup cmd with
    | none => exact Or.inl ⟨rfl, cmd, rfl⟩
    | some h => exact Or.inr ⟨h, args, cmd, rfl, rfl⟩

theorem line_meets (l : Line) (s : Shell τ) :
    Meets (commandExec l) (Moment.fits (.line l) s) (Moment.admits (.line l) s) s := by
  change Meets (commandExec l) ((invoked l s).all fun c => c.1.fits c.2 s.debugger)
    ((invoked l s).any fun c => c.1.admits c.2 s.debugger) s
  rcases commandExec_cases l s with ⟨hnone, prev, hrun⟩ | ⟨h, args, cmd, hsome, hrun⟩
  · have hcalm : ¬Wild (commandExec l) s := by
      rintro ⟨c, t, hc, -⟩
      rw [hrun] at hc
      cases hc
    rw [hnone]
    exact ⟨iff_of_false hcalm (by simp), fun _ _ => by rw [hrun]; rfl⟩
  · have hmeets := handler_meets h args { s with prevBuffer := cmd }
    rw [hsome]
    refine ⟨?_, fun hfits hadmits => ?_⟩
    · rw [Wild, hrun]
      exact hmeets.wild
    · rw [hrun]
      exact hmeets.unchanged hfits hadmits

theorem displayPrint_tame (exprs : List Text) : Tame (displayPrint (τ := τ) exprs) := by
  induction exprs with
  | nil => exact StopsFor.pure _
  | cons expr exprs ih =>
    unfold displayPrint
    infer_instance

/-- An event is safe exactly if the line that is typed, if any, fits. -/
theorem safe_iff_fits (e : Moment τ) (s : Shell τ) : Safe e s ↔ e.fits s = true := by
  have hunlifted {m : DebugM τ Unit} [Tame m] : ¬Wild (onDebugger m) s := fun h =>
    not_wild m _ ((onDebugger_wild m s).mp h)
  have hmeets : Meets e.perform (e.fits s) (e.admits s) s := by
    cases e with
    | line l => exact line_meets l s
    | insn => exact ⟨iff_of_false hunlifted (by simp [Moment.fits]), fun _ h => by cases h⟩
    | happening h => exact ⟨iff_of_false hunlifted (by simp [Moment.fits]), fun _ h => by cases h⟩
    | freeTemps => exact ⟨iff_of_false hunlifted (by simp [Moment.fits]), fun _ h => by cases h⟩
    | displays =>
      have htame := displayPrint_tame (τ := τ) s.displays
      exact ⟨iff_of_false (hunlifted (m := do let _ ← evaluating (displayPrint s.displays)))
        (by simp [Moment.fits]), fun _ h => by cases h⟩
  constructor
  · intro hsafe
    by_contra hfits
    rcases hmeets.wild.mpr (by simpa using hfits) with ⟨c, t, hc, hwild⟩
    rw [hsafe.stops c t hc] at hwild
    cases hwild
  · intro hfits
    refine ⟨fun c t hc => ?_, hmeets.unchanged hfits⟩
    by_contra htame
    have hwild := hmeets.wild.mp ⟨c, t, hc, by simpa using htame⟩
    rw [hfits] at hwild
    cases hwild

/-- Over a run, every event is safe exactly if each line that is typed fits when it is typed. -/
theorem table_safe_iff (target : τ) (es : List (Moment τ)) :
    Along Moment.perform (fun e s => e.fits s = true) es (Shell.start target) ↔
      ∀ front e, front ++ [e] <+: es →
        OnReturn (runAll Moment.perform front) (Shell.start target) fun _ s => Safe e s := by
  simp only [along_iff_next, safe_iff_fits]

end Every

/-! ## Lines that do not fit -/

def flatHost : FlatHost := ⟨⟨0x1000, fun _ => 0⟩, 0x8000, 0⟩

def typed (s : String) (h : (Text.ofString s).length < 255) : Moment FlatHost :=
  .line ⟨Text.ofString s, h⟩

/-- A table without a free slot. -/
def fill : List (Moment FlatHost) := List.replicate MAX_BREAKS (typed "next\n" (by decide))

theorem lines_unsafe :
    (¬Safe (typed "delete 32\n" (by decide)) (Shell.start flatHost)) ∧
    (¬Safe (typed "set\n" (by decide)) (Shell.start flatHost)) ∧
    (¬Safe (typed "break 0x100 if\n" (by decide)) (Shell.start flatHost)) ∧
    ¬OnReturn (runAll Moment.perform fill) (Shell.start flatHost) fun _ s =>
      Safe (typed "next\n" (by decide)) s := by
  simp only [safe_iff_fits]
  exact ⟨by decide +kernel, by decide +kernel, by decide +kernel, by decide +kernel⟩

end Exec09.Debugger
