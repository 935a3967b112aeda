import Exec09.Debugger.Lookup
import Exec09.Foundation.Pairs

/-! # What a slot keeps of its earlier entries

`brkalloc` and the commands assign most fields of a new entry. Four are left as
the last entry of the slot had them unless the command assigns them itself: the
two flags of a watchpoint, the mask and the last value written. The command is
compared with the same command in an empty table.
-/
namespace Exec09.Debugger
open Foundation

/-- The fields that `brkalloc` leaves alone. -/
structure Leftover where
  onRead : Bool
  onWrite : Bool
  writeMask : BitVec 16
  lastWrite : BitVec 16
  deriving DecidableEq

namespace Breakpoint

def leftover (br : Breakpoint) : Leftover := ⟨br.onRead, br.onWrite, br.writeMask, br.lastWrite⟩

/-- The fields that count: not the number, nor a condition or a thread that is not asked for. -/
def essence (br : Breakpoint) : Breakpoint :=
  { br with
    id := 0
    condition := if br.conditional then br.condition else []
    tid := if br.threaded then br.tid else 0 }

/-- The essence without the fields that `brkalloc` leaves alone. -/
def settled (br : Breakpoint) : Breakpoint :=
  { br.essence with onRead := false, onWrite := false, writeMask := 0, lastWrite := 0 }

/-- The entries behave alike. -/
def Alike (br br' : Breakpoint) : Prop := br.essence = br'.essence

instance (br br' : Breakpoint) : Decidable (br.Alike br') := inferInstanceAs (Decidable (_ = _))

theorem Alike.apply {α : Type} {br br' : Breakpoint} (h : br.Alike br') (f : Breakpoint → α) :
    f br.essence = f br'.essence := congrArg f h

theorem Alike.condition_eq {br br' : Breakpoint} (h : br.Alike br') (hc : br.conditional = true) :
    br.condition = br'.condition := by
  have hc' : br'.conditional = true := by
    rw [← hc]
    exact (h.apply conditional).symm
  have heq := h.apply condition
  simpa [essence, hc, hc'] using heq

theorem Alike.tid_eq {br br' : Breakpoint} (h : br.Alike br') (ht : br.threaded = true) :
    br.tid = br'.tid := by
  have ht' : br'.threaded = true := by
    rw [← ht]
    exact (h.apply threaded).symm
  have heq := h.apply tid
  simpa [essence, ht, ht'] using heq

theorem alike_iff (br br' : Breakpoint) :
    br.Alike br' ↔ br.settled = br'.settled ∧ br.leftover = br'.leftover := by
  cases br
  cases br'
  simp only [Alike, settled, essence, leftover, Breakpoint.mk.injEq, Leftover.mk.injEq]
  tauto

end Breakpoint

variable {τ : Type}

/-- What the slots `n` and `n'` of two debuggers hold is related, and what the entries are
tested against is the same. -/
structure Beside (n n' : Slot) (E : Breakpoint → Breakpoint → Prop) (s t : State τ) : Prop where
  session : s.session = t.session
  threadIdSize : s.threadIdSize = t.threadIdSize
  threadId : s.threadId = t.threadId
  monitorOn : s.monitorOn = t.monitorOn
  entries : E (s.breaktab n) (t.breaktab n')

section Beside
variable {n n' : Slot} {E E' : Breakpoint → Breakpoint → Prop}

theorem Beside.evaluating {α : Type} (m : EvalM τ α) :
    Paired (Beside n n' E) (evaluating m) (evaluating m)
      fun a b s t => a = b ∧ Beside n n' E s t := by
  intro s t h
  unfold Debugger.evaluating
  rw [← h.session]
  cases m { s.session with eflag := 0 } with
  | ok a u => exact ⟨rfl, rfl, h.threadIdSize, h.threadId, h.monitorOn, h.entries⟩
  | error e u => rfl

theorem Beside.setSlot {g g' : Breakpoint → Breakpoint} (hg : ∀ b b', E b b' → E' (g b) (g' b')) :
    Paired (Beside (τ := τ) n n' E) (setSlot n g) (setSlot n' g') fun _ _ => Beside n n' E' := by
  refine Paired.modify fun s t h => ⟨h.session, h.threadIdSize, h.threadId, h.monitorOn, ?_⟩
  dsimp only
  rw [Function.update_self, Function.update_self]
  exact hg _ _ h.entries

end Beside

/-! ## Making an entry -/

/-- Entries that agree where `brkalloc` or a command assigns, with related leftovers. -/
def Grown (K : Leftover → Leftover → Prop) (b b' : Breakpoint) : Prop :=
  b.settled = b'.settled ∧ K b.leftover b'.leftover

/-- The same before the condition is copied. -/
def Pending (K : Leftover → Leftover → Prop) (b b' : Breakpoint) : Prop :=
  { b.settled with condition := [] } = { b'.settled with condition := [] } ∧ K b.leftover b'.leftover

section Options
variable {n n' : Slot} {K : Leftover → Leftover → Prop}

theorem pair_condition (o : Option Text) :
    Paired (Beside (τ := τ) n n' (Grown K))
      (do setSlot n fun br => { br with conditional := true }
          setCondition n o)
      (do setSlot n' fun br => { br with conditional := true }
          setCondition n' o) fun _ _ => Beside n n' (Grown K) := by
  have hflag : Paired (Beside (τ := τ) n n' (Grown K))
      (setSlot n fun br => { br with conditional := true })
      (setSlot n' fun br => { br with conditional := true }) fun _ _ => Beside n n' (Pending K) :=
    Beside.setSlot fun b b' h => ⟨congrArg (fun e : Breakpoint =>
      { e with conditional := true, condition := [] }) h.1, h.2⟩
  refine hflag.bind fun _ _ => ?_
  cases o with
  | none => exact Paired.throw _
  | some arg =>
    have hcopy : Paired (Beside (τ := τ) n n' (Pending K))
        (setSlot n fun br => { br with condition := arg })
        (setSlot n' fun br => { br with condition := arg }) fun _ _ => Beside n n' (Grown K) :=
      Beside.setSlot fun b b' h => ⟨congrArg (fun e : Breakpoint =>
        { e with condition := if e.conditional then arg else [] }) h.1, h.2⟩
    exact Paired.ite Iff.rfl (fun _ => hcopy) fun _ => Paired.throw _

theorem pair_breakOptions (args : List Text) :
    Paired (Beside (τ := τ) n n' (Grown K)) (breakOptions n args) (breakOptions n' args)
      fun _ _ => Beside n n' (Grown K) := by
  have hcount : ∀ c : BitVec 32, Paired (Beside (τ := τ) n n' (Grown K))
      (setSlot n fun br => { br with ignoreCount := c })
      (setSlot n' fun br => { br with ignoreCount := c }) fun _ _ => Beside n n' (Grown K) :=
    fun c => Beside.setSlot fun b b' h =>
      ⟨congrArg (fun e : Breakpoint => { e with ignoreCount := c }) h.1, h.2⟩
  cases args with
  | nil => exact Paired.pure _ _ fun _ _ h => h
  | cons arg args =>
    unfold breakOptions
    refine Paired.ite Iff.rfl (fun _ => pair_condition args.head?) fun _ =>
      Paired.ite Iff.rfl (fun _ => ?_) fun _ => Paired.pure _ _ fun _ _ h => h
    cases args with
    | nil => exact Paired.throw _
    | cons count rest => exact hcount _

/-- The words of a watch command set a mask. -/
def setsMask : List Text → Bool
  | [] => false
  | arg :: args =>
    if arg = Text.ofString "print" then setsMask args
    else if arg = Text.ofString "mask" then true
    else if arg = Text.ofString "if" then
      match args with
      | [] => false
      | _ :: args => setsMask args
    else setsMask args

/-- The leftovers of a new watchpoint beside those of one in an empty table, after its mask has
been set or not. -/
def Masked (old : Leftover) (set : Bool) (p q : Leftover) : Prop :=
  p.onRead = q.onRead ∧ p.onWrite = q.onWrite ∧ (p.lastWrite = old.lastWrite ∧ q.lastWrite = 0) ∧
    if set then p.writeMask = q.writeMask else p.writeMask = old.writeMask ∧ q.writeMask = 0

theorem pair_print {old : Leftover} {set : Bool} :
    Paired (Beside (τ := τ) n n' (Grown (Masked old set)))
      (setSlot n fun br => { br with keepRunning := true })
      (setSlot n' fun br => { br with keepRunning := true })
      fun _ _ => Beside n n' (Grown (Masked old set)) :=
  Beside.setSlot fun _ _ h =>
    ⟨congrArg (fun e : Breakpoint => { e with keepRunning := true }) h.1, h.2⟩

theorem pair_mask {old : Leftover} {set : Bool} (v : BitVec 16) :
    Paired (Beside (τ := τ) n n' (Grown (Masked old set)))
      (setSlot n fun br => { br with writeMask := v })
      (setSlot n' fun br => { br with writeMask := v })
      fun _ _ => Beside n n' (Grown (Masked old true)) :=
  Beside.setSlot fun _ _ h => ⟨h.1, h.2.1, h.2.2.1, h.2.2.2.1, rfl⟩

theorem pair_watchOptions {old : Leftover} (args : List Text) (set : Bool) :
    Paired (Beside (τ := τ) n n' (Grown (Masked old set))) (watchOptions n args)
      (watchOptions n' args) fun _ _ => Beside n n' (Grown (Masked old (set || setsMask args))) := by
  induction hlen : args.length using Nat.strong_induction_on generalizing args set with
  | _ len ih =>
  have hrest : ∀ (rest : List Text) (set : Bool), rest.length < len →
      Paired (Beside (τ := τ) n n' (Grown (Masked old set))) (watchOptions n rest)
        (watchOptions n' rest) fun _ _ => Beside n n' (Grown (Masked old (set || setsMask rest))) :=
    fun rest set hlt => ih rest.length hlt rest set rfl
  cases args with
  | nil =>
    rw [setsMask, Bool.or_false]
    exact Paired.pure _ _ fun _ _ h => h
  | cons arg args =>
    have hargs : args.length < len := by simp [← hlen]
    unfold watchOptions setsMask
    by_cases hprint : arg = Text.ofString "print"
    · simp only [if_pos hprint]
      exact pair_print.bind fun _ _ => hrest args set hargs
    · by_cases hmask : arg = Text.ofString "mask"
      · simp only [if_neg hprint, if_pos hmask]
        cases args with
        | nil => exact Paired.throw _
        | cons mask rest =>
          refine (pair_mask _).bind fun _ _ => ?_
          simpa using hrest rest true (by simp at hargs; omega)
      · by_cases hif : arg = Text.ofString "if"
        · simp only [if_neg hprint, if_neg hmask, if_pos hif]
          cases args with
          | nil => exact Paired.throw _
          | cons cond rest =>
            have hcond : Paired (Beside (τ := τ) n n' (Grown (Masked old set)))
                (do setSlot n fun br => { br with conditional := true }
                    setCondition n (some cond))
                (do setSlot n' fun br => { br with conditional := true }
                    setCondition n' (some cond))
                fun _ _ => Beside n n' (Grown (Masked old set)) := pair_condition (some cond)
            have htwo := hcond.bind fun _ _ => hrest rest set (by simp at hargs; omega)
            simpa only [bind_assoc] using htwo
        · simp only [if_neg hprint, if_neg hmask, if_neg hif]
          exact hrest args set hargs

end Options

/-! ## The two tables -/

/-- The debugger with a table in which no slot was used yet. -/
def State.fresh (s : State τ) : State τ :=
  { s with breaktab := fun _ => .blank, activeBreakCount := 0 }

/-- The second debugger has a fresh table, and the first one the table `tab`. -/
structure BesideFresh (tab : Slot → Breakpoint) (s t : State τ) : Prop where
  session : s.session = t.session
  threadIdSize : s.threadIdSize = t.threadIdSize
  threadId : s.threadId = t.threadId
  monitorOn : s.monitorOn = t.monitorOn
  table : s.breaktab = tab
  fresh : t.breaktab = fun _ => .blank

theorem BesideFresh.evaluating {tab : Slot → Breakpoint} {α : Type} (m : EvalM τ α) :
    Paired (BesideFresh tab) (evaluating m) (evaluating m)
      fun a b s t => a = b ∧ BesideFresh tab s t := by
  intro s t h
  unfold Debugger.evaluating
  rw [← h.session]
  cases m { s.session with eflag := 0 } with
  | ok a u => exact ⟨rfl, rfl, h.threadIdSize, h.threadId, h.monitorOn, h.table, h.fresh⟩
  | error e u => rfl

theorem brkEnable_true_run {s : State τ} {n : Slot} :
    ∃ c, brkEnable n true s = .ok ⟨⟩ { s with
      breaktab := Function.update s.breaktab n { s.breaktab n with enabled := true }
      activeBreakCount := c } := by
  by_cases h : (s.breaktab n).enabled = true
  · refine ⟨s.activeBreakCount, ?_⟩
    have hsame : { s.breaktab n with enabled := true } = s.breaktab n := by rw [← h]
    unfold brkEnable
    rw [run_bind_ok run_get, if_neg (not_not_intro h), run_pure, hsame, Function.update_eq_self]
  · refine ⟨s.activeBreakCount + 1, ?_⟩
    unfold brkEnable
    rw [run_bind_ok run_get, if_pos h]
    rfl

/-- The entry as `brkalloc` hands it out. -/
def Breakpoint.allocated (n : Slot) (br : Breakpoint) : Breakpoint :=
  { br.claim n with enabled := true }

theorem brkalloc_run {s : State τ} {n : Slot} (hn : freeSlot s.breaktab = some n) :
    ∃ c, brkalloc s = .ok (some n) { s with
      breaktab := Function.update s.breaktab n ((s.breaktab n).allocated n)
      activeBreakCount := c } := by
  let t : State τ := { s with breaktab := Function.update s.breaktab n ((s.breaktab n).claim n) }
  have hset : setSlot n (Breakpoint.claim n) s = .ok ⟨⟩ t := rfl
  obtain ⟨c, hc⟩ := brkEnable_true_run (s := t) (n := n)
  refine ⟨c, ?_⟩
  unfold brkalloc
  rw [run_bind_ok run_get, hn]
  dsimp only
  rw [run_bind_ok hset, run_bind_ok hc, run_pure]
  simp only [t, Function.update_self, Function.update_idem, Breakpoint.allocated]

def firstSlot : Slot := ⟨0, by decide⟩

theorem freeSlot_blank : freeSlot (fun _ => .blank) = some firstSlot :=
  Fin.find?_eq_some_iff.mpr ⟨rfl, fun _ hm => absurd hm (Nat.not_lt_zero _)⟩

theorem pair_brkalloc {tab : Slot → Breakpoint} {n : Slot} (hn : freeSlot tab = some n) :
    Paired (BesideFresh (τ := τ) tab) (do deref (← brkalloc)) (do deref (← brkalloc))
      fun a b s t => (a = n ∧ b = firstSlot) ∧ Beside n firstSlot (fun b b' =>
        b = (tab n).allocated n ∧ b' = Breakpoint.blank.allocated firstSlot) s t := by
  intro s t h
  have hs : freeSlot s.breaktab = some n := by rw [h.table, hn]
  have ht : freeSlot t.breaktab = some firstSlot := by rw [h.fresh, freeSlot_blank]
  obtain ⟨c, hc⟩ := brkalloc_run hs
  obtain ⟨d, hd⟩ := brkalloc_run ht
  rw [run_bind_ok hc, run_bind_ok hd]
  refine ⟨⟨rfl, rfl⟩, h.session, h.threadIdSize, h.threadId, h.monitorOn, ?_, ?_⟩
  · dsimp only
    rw [Function.update_self, h.table]
  · dsimp only
    rw [Function.update_self, h.fresh]

/-! ## The commands -/

/-- What is left of the slot's last entry, beside a slot that was never used. -/
def Kept (old : Leftover) (p q : Leftover) : Prop := p = old ∧ q = Breakpoint.blank.leftover

/-- Either no entry was made, or the entries are related. -/
def Made (n : Slot) (K : Leftover → Leftover → Prop) (s t : State τ) : Prop :=
  (s.breaktab n).used = true → Beside n firstSlot (Grown K) s t

variable {tab : Slot → Breakpoint} {n : Slot} {K : Leftover → Leftover → Prop}

theorem BesideFresh.made (hn : freeSlot tab = some n) {s t : State τ} (h : BesideFresh tab s t) :
    Made n K s t := by
  have hunused : (tab n).used = false := by simpa using (Fin.find?_eq_some_iff.mp hn).1
  intro hused
  rw [h.table, hunused] at hused
  cases hused

/-- A command that allocates an entry, assigns to it with `g` and goes on with `rest`. -/
theorem pair_entry {K' : Leftover → Leftover → Prop} (g : Breakpoint → Breakpoint)
    (rest : Slot → DebugM τ Unit) (hn : freeSlot tab = some n)
    (hg : Grown K (g ((tab n).allocated n)) (g (Breakpoint.blank.allocated firstSlot)))
    (hrest : Paired (Beside n firstSlot (Grown K)) (rest n) (rest firstSlot)
      fun _ _ => Beside n firstSlot (Grown K')) :
    Paired (BesideFresh tab) (do let n ← deref (← brkalloc); setSlot n g; rest n)
      (do let n ← deref (← brkalloc); setSlot n g; rest n) fun _ _ => Made n K' := by
  have hset : Paired (Beside (τ := τ) n firstSlot fun b b' =>
      b = (tab n).allocated n ∧ b' = Breakpoint.blank.allocated firstSlot)
      (setSlot n g) (setSlot firstSlot g) fun _ _ => Beside n firstSlot (Grown K) :=
    Beside.setSlot fun b b' h => by rwa [h.1, h.2]
  have hall := (pair_brkalloc (τ := τ) hn).bind (R := fun _ _ => Made n K')
    (f := fun n => do setSlot n g; rest n) (g := fun n => do setSlot n g; rest n) fun a b => ?_
  · simpa only [bind_assoc] using hall
  · rintro s t ⟨⟨rfl, rfl⟩, h⟩
    have hend : Paired (Beside (τ := τ) a firstSlot fun b b' =>
        b = (tab a).allocated a ∧ b' = Breakpoint.blank.allocated firstSlot)
        (do setSlot a g; rest a) (do setSlot firstSlot g; rest firstSlot)
        fun _ _ => Made a K' :=
      (hset.bind fun _ _ => hrest).mono (fun _ _ h => h) fun _ _ _ _ h _ => h
    exact hend s t h

/-- An evaluation, and then an entry if there was no error. -/
theorem pair_evaluated (hn : freeSlot tab = some n) (m : EvalM τ Evaluated)
    (f : BitVec 64 → DebugM τ Unit)
    (hf : ∀ val, Paired (BesideFresh tab) (f val) (f val) fun _ _ => Made n K) :
    Paired (BesideFresh tab)
      (do let ((val, _), eflag) ← evaluating m
          if eflag = 0 then f val)
      (do let ((val, _), eflag) ← evaluating m
          if eflag = 0 then f val) fun _ _ => Made n K := by
  refine (BesideFresh.evaluating m).bind ?_
  rintro ⟨⟨val, left⟩, eflag⟩ b s t ⟨rfl, h⟩
  exact Paired.ite Iff.rfl (fun _ => hf val) (fun _ => Paired.pure _ _ fun s t h => h.made hn) s t h

section Commands
variable [Target τ]

theorem pair_cmdBreak (args : List Text) (hn : freeSlot tab = some n) :
    Paired (BesideFresh (τ := τ) tab) (cmdBreak args) (cmdBreak args)
      fun _ _ => Made n (Kept (tab n).leftover) := by
  cases args with
  | nil => exact Paired.pure _ _ fun s t h => h.made hn
  | cons arg args =>
    exact pair_evaluated hn _ _ fun val =>
      pair_entry (fun br => { br with addr := val, onExecute := true }) (fun n => breakOptions n args)
        hn ⟨rfl, rfl, rfl⟩ (pair_breakOptions args)

theorem pair_cmdWatch1 (onRead onWrite : Bool) (args : List Text) (hn : freeSlot tab = some n) :
    Paired (BesideFresh (τ := τ) tab) (cmdWatch1 onRead onWrite args) (cmdWatch1 onRead onWrite args)
      fun _ _ => Made n (Masked (tab n).leftover (setsMask args.tail)) := by
  cases args with
  | nil => exact Paired.pure _ _ fun s t h => h.made hn
  | cons arg args =>
    exact pair_evaluated hn _ _ fun addr =>
      pair_entry (fun br => { br with addr := addr, onRead := onRead, onWrite := onWrite })
        (fun n => watchOptions n args) hn ⟨rfl, rfl, rfl, ⟨rfl, rfl⟩, rfl, rfl⟩
        (pair_watchOptions args false)

theorem pair_cmdNext (hn : freeSlot tab = some n) :
    Paired (BesideFresh (τ := τ) tab) cmdNext cmdNext
      fun _ _ => Made n (Kept (tab n).leftover) := by
  have hexit : Paired (Beside (τ := τ) n firstSlot (Grown (Kept (tab n).leftover)))
      (setExitCommandLoop 0) (setExitCommandLoop 0)
      fun _ _ => Beside n firstSlot (Grown (Kept (tab n).leftover)) :=
    Paired.modify fun _ _ h => ⟨h.1, h.2, h.3, h.4, h.5⟩
  unfold cmdNext
  refine Paired.get fun u v h => ?_
  have haddr : absPc u = absPc v := by rw [absPc, absPc, h.session]
  rw [← haddr]
  refine (BesideFresh.evaluating _).bind ?_
  rintro ⟨size, eflag⟩ b s t ⟨rfl, h⟩
  exact pair_entry (fun br =>
      { br with addr := absPc u + size.signExtend 64, onExecute := true, temp := true })
    (fun _ => setExitCommandLoop 0) hn ⟨rfl, rfl, rfl⟩ hexit s t h

end Commands

/-- The commands that make an entry. -/
inductive EntryCommand
  | brk (args : List Text)
  | watch1 (onRead onWrite : Bool) (args : List Text)
  | next

namespace EntryCommand

/-- Nothing that the command does not assign itself is left in the slot. -/
def Spotless (old : Leftover) : EntryCommand → Prop
  | brk _ | next => old = Breakpoint.blank.leftover
  | watch1 _ _ args => old.lastWrite = 0 ∧ (old.writeMask = 0 ∨ setsMask args.tail = true)

/-- The leftovers after the command, beside those in an empty table. -/
def Left (old : Leftover) : EntryCommand → Leftover → Leftover → Prop
  | brk _ | next => Kept old
  | watch1 _ _ args => Masked old (setsMask args.tail)

theorem left_eq_iff {c : EntryCommand} {old p q : Leftover} (h : c.Left old p q) :
    p = q ↔ c.Spotless old := by
  have hkept : Kept old p q → (p = q ↔ old = Breakpoint.blank.leftover) := by
    rintro ⟨rfl, rfl⟩
    rfl
  cases c with
  | brk args => exact hkept h
  | next => exact hkept h
  | watch1 onRead onWrite args =>
    obtain ⟨hread, hwrite, ⟨hp, hq⟩, hmask⟩ := h
    have hsplit : p = q ↔ p.lastWrite = q.lastWrite ∧ p.writeMask = q.writeMask := by
      constructor
      · rintro rfl
        exact ⟨rfl, rfl⟩
      · rintro ⟨hlast, hmask⟩
        cases p
        cases q
        simp_all
    rw [hsplit, hp, hq, Spotless]
    refine and_congr_right fun _ => ?_
    by_cases hset : setsMask args.tail = true
    · rw [if_pos hset] at hmask
      simp [hmask, hset]
    · rw [if_neg hset] at hmask
      simp [hmask.1, hmask.2, hset]

variable [Target τ]

def perform : EntryCommand → DebugM τ Unit
  | brk args => cmdBreak args
  | watch1 onRead onWrite args => cmdWatch1 onRead onWrite args
  | next => cmdNext

theorem pair_perform (c : EntryCommand) (hn : freeSlot tab = some n) :
    Paired (BesideFresh (τ := τ) tab) c.perform c.perform
      fun _ _ => Made n (c.Left (tab n).leftover) := by
  cases c with
  | brk args => exact pair_cmdBreak args hn
  | watch1 onRead onWrite args => exact pair_cmdWatch1 onRead onWrite args hn
  | next => exact pair_cmdNext hn

end EntryCommand

/-! ## Entries that are alike act alike -/

section Reactions
variable [Target τ]

/-- What it does with a slot it has found. -/
def Access.reaction (n : Slot) (acc : Access) : DebugM τ Unit := do
  let s ← get
  if (s.breaktab n).enabled && acc.flag (s.breaktab n) then acc.onHit n else acc.onMiss

theorem Access.hook_of_found {s : State τ} {n : Slot} (acc : Access)
    (hcount : s.activeBreakCount ≠ 0) (hfind : brkfindByAddr s.breaktab (acc.addr s) = some n) :
    acc.hook s = acc.reaction n (acc.start s) := by
  have hfound : acc.found s =
      if (s.breaktab n).enabled && acc.flag (s.breaktab n) then some n else none := by
    unfold found triggered
    rw [if_neg hcount, hfind, Option.filter_some]
  rw [acc.hook_eq, hfound, reaction, run_bind_ok run_get, acc.start_breaktab]
  by_cases hactive : ((s.breaktab n).enabled && acc.flag (s.breaktab n)) = true
  · simp only [if_pos hactive]
  · simp only [if_neg hactive]

section Alike
variable {n n' : Slot}

omit [Target τ] in
theorem alike_setSlot (n n' : Slot) (f g : Breakpoint → Breakpoint)
    (hf : ∀ br, (g br).essence = f br.essence) :
    Paired (Beside (τ := τ) n n' Breakpoint.Alike) (setSlot n g) (setSlot n' g)
      fun _ _ => Beside n n' Breakpoint.Alike :=
  Beside.setSlot fun b b' h => ((hf b).trans (h.apply f)).trans (hf b').symm

omit [Target τ] in
theorem alike_countedDown : Paired (Beside (τ := τ) n n' Breakpoint.Alike) (countedDown n)
    (countedDown n') fun a b s t => a = b ∧ Beside n n' Breakpoint.Alike s t := by
  unfold countedDown
  refine Paired.get fun s t h => ?_
  have hcount : (s.breaktab n).ignoreCount = (t.breaktab n').ignoreCount :=
    h.entries.apply Breakpoint.ignoreCount
  rw [hcount]
  refine Paired.ite Iff.rfl (fun _ => ?_) fun _ => Paired.pure _ _ fun _ _ h => ⟨rfl, h⟩
  exact (alike_setSlot n n' (fun br => { br with ignoreCount := br.ignoreCount - 1 }) _ fun _ => rfl).bind
    fun _ _ => Paired.pure _ _ fun _ _ h => ⟨rfl, h⟩

theorem alike_conditionHolds :
    Paired (Beside (τ := τ) n n' fun b b' => b.Alike b' ∧ b.conditional = true) (conditionHolds n)
      (conditionHolds n') fun a b s t => a = b ∧ Beside n n' Breakpoint.Alike s t := by
  unfold conditionHolds
  refine Paired.get fun s t h => ?_
  rw [h.entries.1.condition_eq h.entries.2]
  refine (Beside.evaluating _).bind ?_
  rintro ⟨⟨val, left⟩, eflag⟩ b s t ⟨rfl, h⟩
  have hset := alike_setSlot (τ := τ) n n'
    (fun e => { e with condition := if e.conditional then left else [] })
    (fun br => { br with condition := left }) fun _ => rfl
  exact (hset.bind fun _ _ => Paired.pure _ _ fun _ _ h => ⟨rfl, h⟩) s t
    ⟨h.1, h.2, h.3, h.4, h.5.1⟩

theorem alike_hitAllowed : Paired (Beside (τ := τ) n n' Breakpoint.Alike) (hitAllowed n)
    (hitAllowed n') fun a b s t => a = b ∧ Beside n n' Breakpoint.Alike s t := by
  intro s t h
  have hthreaded : (s.breaktab n).threaded = (t.breaktab n').threaded :=
    h.entries.apply Breakpoint.threaded
  have hconditional : (s.breaktab n).conditional = (t.breaktab n').conditional :=
    h.entries.apply Breakpoint.conditional
  unfold hitAllowed
  rw [run_bind_ok run_get, run_bind_ok run_get]
  refine Paired.ite (P := fun s' t' => s' = s ∧ t' = t) ?_ (fun _ => ?_) (fun _ => ?_) s t ⟨rfl, rfl⟩
  · rw [← hthreaded, ← h.threadId]
    exact and_congr_right fun hth => by rw [h.entries.tid_eq hth]
  · rintro _ _ ⟨rfl, rfl⟩
    exact ⟨rfl, h⟩
  · refine Paired.ite (by rw [hconditional]) (fun hc => ?_) fun _ => ?_
    · have hholds : Paired (fun s' t' => s' = s ∧ t' = t) (conditionHolds n) (conditionHolds n')
          fun a b s t => a = b ∧ Beside n n' Breakpoint.Alike s t := by
        refine alike_conditionHolds.mono ?_ fun _ _ _ _ h => h
        rintro _ _ ⟨rfl, rfl⟩
        exact ⟨h.1, h.2, h.3, h.4, h.5, hc⟩
      refine hholds.bind ?_
      rintro a b u v ⟨rfl, huv⟩
      exact Paired.ite Iff.rfl (fun _ => alike_countedDown)
        (fun _ => Paired.pure _ _ fun _ _ h => ⟨rfl, h⟩) u v huv
    · rintro _ _ ⟨rfl, rfl⟩
      exact alike_countedDown _ _ h

theorem alike_breakpointHit : Paired (Beside (τ := τ) n n' Breakpoint.Alike) (breakpointHit n)
    (breakpointHit n') fun _ _ => Beside n n' Breakpoint.Alike := by
  have hhits : Paired (ε := Crash) (Beside (τ := τ) n n' Breakpoint.Alike)
      (modify fun s => { s with hits := n :: s.hits }) (modify fun s => { s with hits := n' :: s.hits })
      fun _ _ => Beside n n' Breakpoint.Alike :=
    Paired.modify fun _ _ h => ⟨h.1, h.2, h.3, h.4, h.5⟩
  unfold breakpointHit
  refine hhits.bind fun _ _ => alike_hitAllowed.bind ?_
  rintro a b s t ⟨rfl, h⟩
  refine Paired.ite (P := Beside (τ := τ) n n' Breakpoint.Alike) Iff.rfl
    (fun _ => Paired.modify fun s t h => ?_) (fun _ => Paired.pure _ _ fun _ _ h => h) s t h
  have hkeep : (s.breaktab n).keepRunning = (t.breaktab n').keepRunning :=
    h.entries.apply Breakpoint.keepRunning
  exact ⟨h.1, h.2, h.3, congrArg (!·) hkeep, h.5⟩

omit [Target τ] in
theorem alike_brkfree : Paired (Beside (τ := τ) n n' Breakpoint.Alike) (brkfree n) (brkfree n')
    fun _ _ => Beside n n' Breakpoint.Alike := by
  have hdisable := alike_setSlot (τ := τ) n n'
    (fun br => { br with enabled := false }) (fun br => { br with enabled := false }) fun _ => rfl
  have hfree := alike_setSlot (τ := τ) n n'
    (fun br => { br with used := false }) (fun br => { br with used := false }) fun _ => rfl
  have hfewer : Paired (ε := Crash) (Beside (τ := τ) n n' Breakpoint.Alike)
      (modify fun s => { s with activeBreakCount := s.activeBreakCount - 1 })
      (modify fun s => { s with activeBreakCount := s.activeBreakCount - 1 })
      fun _ _ => Beside n n' Breakpoint.Alike :=
    Paired.modify fun _ _ h => ⟨h.1, h.2, h.3, h.4, h.5⟩
  unfold brkfree brkEnable
  refine Paired.bind (Paired.get fun s t h => ?_) fun _ _ => hfree
  have henabled : (s.breaktab n).enabled = (t.breaktab n').enabled :=
    h.entries.apply Breakpoint.enabled
  exact Paired.ite (by rw [henabled]) (fun _ => hdisable.bind fun _ _ => hfewer)
    fun _ => Paired.pure _ _ fun _ _ h => h

omit [Target τ] in
theorem alike_freeReached : Paired (Beside (τ := τ) n n' Breakpoint.Alike) (freeReached n)
    (freeReached n') fun _ _ => Beside n n' Breakpoint.Alike := by
  unfold freeReached
  refine Paired.get fun s t h => ?_
  have htemp : (s.breaktab n).temp = (t.breaktab n').temp := h.entries.apply Breakpoint.temp
  rw [htemp, h.monitorOn]
  exact Paired.ite Iff.rfl (fun _ => alike_brkfree) fun _ => Paired.pure _ _ fun _ _ h => h

theorem alike_threadHook (addr : BitVec 64) :
    Paired (Beside (τ := τ) n n' Breakpoint.Alike) (threadHook addr) (threadHook addr)
      fun _ _ => Beside n n' Breakpoint.Alike := by
  unfold threadHook commandChangeThread
  refine Paired.get fun s t h => ?_
  rw [h.threadIdSize, h.session]
  refine Paired.ite Iff.rfl (fun _ => Paired.get fun u v huv => ?_)
    fun _ => Paired.pure _ _ fun _ _ h => h
  rw [huv.threadIdSize, huv.session]
  refine (Beside.evaluating _).bind ?_
  rintro ⟨word, eflag⟩ b s t ⟨rfl, h⟩
  have hid := congrArg (fun u : Session τ =>
    Target.toAbsolute ((word.setWidth 16).zeroExtend 64) u.target) h.session
  exact ⟨h.1, h.2, hid, h.4, h.5⟩

theorem alike_onHit (acc : Access) :
    Paired (Beside (τ := τ) n n' Breakpoint.Alike) (acc.onHit n) (acc.onHit n')
      fun _ _ => Beside n n' Breakpoint.Alike := by
  cases acc with
  | execute => exact alike_breakpointHit.bind fun _ _ => alike_freeReached
  | read addr => exact alike_breakpointHit
  | write addr val =>
    unfold Access.onHit
    refine Paired.get fun s t h => ?_
    have hmask : maskOk (s.breaktab n) val = maskOk (t.breaktab n') val :=
      h.entries.apply fun br => maskOk br val
    have hremember := alike_setSlot (τ := τ) n n'
      (fun br => if br.writeMask ≠ 0 then { br with lastWrite := val.zeroExtend 16 } else br)
      (fun br => if br.writeMask ≠ 0 then { br with lastWrite := val.zeroExtend 16 } else br)
      fun br => apply_ite Breakpoint.essence _ _ _
    rw [hmask]
    exact hremember.bind fun _ _ => Paired.ite Iff.rfl
      (fun _ => alike_breakpointHit.bind fun _ _ => alike_threadHook addr)
      fun _ => Paired.pure _ _ fun _ _ h => h

theorem alike_reaction (acc : Access) :
    Paired (Beside (τ := τ) n n' Breakpoint.Alike) (acc.reaction n) (acc.reaction n')
      fun _ _ => Beside n n' Breakpoint.Alike := by
  have hmiss : Paired (Beside (τ := τ) n n' Breakpoint.Alike) acc.onMiss acc.onMiss
      fun _ _ => Beside n n' Breakpoint.Alike := by
    cases acc with
    | write addr val => exact alike_threadHook addr
    | _ => exact Paired.pure _ _ fun _ _ h => h
  unfold Access.reaction
  refine Paired.get fun s t h => ?_
  have hactive : ((s.breaktab n).enabled && acc.flag (s.breaktab n)) =
      ((t.breaktab n').enabled && acc.flag (t.breaktab n')) := by
    cases acc
    · exact h.entries.apply fun br => br.enabled && br.onExecute
    · exact h.entries.apply fun br => br.enabled && br.onRead
    · exact h.entries.apply fun br => br.enabled && br.onWrite
  rw [hactive]
  exact Paired.ite Iff.rfl (fun _ => alike_onHit acc) fun _ => hmiss

end Alike

/-- What comes to an entry after it was made. -/
inductive Later (τ : Type)
  | access (acc : Access)
  | guest (m : EStateM Stop τ Unit)
  /-- The monitor is left. -/
  | resume

def Later.perform (n : Slot) : Later τ → DebugM τ Unit
  | access acc => acc.reaction n
  | guest m => do let _ ← evaluating (onTarget m)
  | resume => modify fun s => { s with monitorOn := false }

/-- Entries that are alike decide alike on all later accesses. -/
theorem alike_run (n n' : Slot) (es : List (Later τ)) :
    Paired (Beside (τ := τ) n n' Breakpoint.Alike) (runAll (Later.perform n) es)
      (runAll (Later.perform n') es) fun _ _ => Beside n n' Breakpoint.Alike := by
  have hguest : ∀ m : EStateM Stop τ Unit, Paired (Beside (τ := τ) n n' Breakpoint.Alike)
      (do let _ ← evaluating (onTarget m)) (do let _ ← evaluating (onTarget m))
      fun _ _ => Beside n n' Breakpoint.Alike :=
    fun m => (Beside.evaluating _).bind fun _ _ => Paired.pure _ _ fun _ _ h => h.2
  refine Paired.runAll (fun e => ?_) es
  cases e with
  | access acc => exact alike_reaction acc
  | guest m => exact hguest m
  | resume => exact Paired.modify fun _ _ h => ⟨h.1, h.2, h.3, rfl, h.5⟩

end Reactions

/-- In a slot with any history a command makes the entry that it makes in an empty table exactly
if nothing that it does not assign is left in the slot. Then both entries act alike for ever. -/
theorem entry_alike_iff [Target τ] (c : EntryCommand) (s s₁ : State τ) (n : Slot)
    (hn : freeSlot s.breaktab = some n) (hc : c.perform s = .ok () s₁)
    (hused : (s₁.breaktab n).used = true) :
    ∃ s₂, c.perform s.fresh = .ok () s₂ ∧
      ((s₁.breaktab n).Alike (s₂.breaktab firstSlot) ↔ c.Spotless (s.breaktab n).leftover) ∧
      (c.Spotless (s.breaktab n).leftover → ∀ es,
        BothEnd (fun _ _ => Beside n firstSlot Breakpoint.Alike) (runAll (Later.perform n) es s₁)
          (runAll (Later.perform firstSlot) es s₂)) := by
  have hstart : BesideFresh s.breaktab s s.fresh := ⟨rfl, rfl, rfl, rfl, rfl, rfl⟩
  obtain ⟨⟨⟩, s₂, hfresh, hmade⟩ := (c.pair_perform hn).of_ok hstart hc
  have hbeside := hmade hused
  obtain ⟨hsettled, hleft⟩ := hbeside.entries
  have halike : (s₁.breaktab n).Alike (s₂.breaktab firstSlot) ↔
      c.Spotless (s.breaktab n).leftover := by
    rw [Breakpoint.alike_iff, EntryCommand.left_eq_iff hleft]
    exact and_iff_right hsettled
  refine ⟨s₂, hfresh, halike, fun hspotless es => alike_run n firstSlot es s₁ s₂ ?_⟩
  exact ⟨hbeside.1, hbeside.2, hbeside.3, hbeside.4, halike.mpr hspotless⟩

/-- `awatch 0x200` and `delete 0`. -/
def awatchDeleted : State FlatTarget :=
  finalState (runAll Event.perform [.command (.awatch [Text.ofString "0x200"]),
    .command (.delete [Text.ofString "0"])] (State.init ⟨0, fun _ => 0⟩))

/-- A watchpoint assigns the flags that the last one has left. -/
theorem entry_alike_watch :
    ∃ s₂, cmdWatch1 true false [Text.ofString "0x300"] awatchDeleted.fresh = .ok () s₂ ∧
      ((finalState (cmdWatch1 true false [Text.ofString "0x300"] awatchDeleted)).breaktab
        firstSlot).Alike (s₂.breaktab firstSlot) := by
  obtain ⟨s₂, hfresh, halike, -⟩ := entry_alike_iff (.watch1 true false [Text.ofString "0x300"])
    awatchDeleted _ firstSlot (by decide +kernel) (eq_ok_finalState (by decide +kernel))
    (by decide +kernel)
  exact ⟨s₂, hfresh, halike.mpr ⟨by decide +kernel, .inl (by decide +kernel)⟩⟩

/-- After them `break 0x300` makes an entry that also stops at a read of 0x300. -/
theorem entry_stale :
    let s₁ := finalState (cmdBreak [Text.ofString "0x300"] awatchDeleted)
    let s₂ := finalState (cmdBreak [Text.ofString "0x300"] awatchDeleted.fresh)
    ¬(s₁.breaktab firstSlot).Alike (s₂.breaktab firstSlot) ∧
      (finalState (commandReadHook 0x300 s₁)).monitorOn = true ∧
      (finalState (commandReadHook 0x300 s₂)).monitorOn = false := by
  decide +kernel

end Exec09.Debugger
