import Exec09.Debugger.Table

/-! # Which accesses reach a breakpoint

A hook looks for the first slot with the address of the access. It reports the
access if that slot is enabled and of the right kind, so a slot with the same
address in front of it hides an entry. In a consistent table a slot that is
enabled is in use.
-/
namespace Exec09.Debugger
open Foundation
variable {τ : Type}

/-- What the processor reports to the debugger. -/
inductive Access
  | execute
  | read (addr : BitVec 64)
  | write (addr : BitVec 64) (val : U8)

namespace Access

/-- The flag of an entry that asks for the access. -/
def flag : Access → Breakpoint → Bool
  | execute => Breakpoint.onExecute
  | read _ => Breakpoint.onRead
  | write _ _ => Breakpoint.onWrite

/-- A write is compared with the last one if the entry has a mask. -/
def passes : Access → Breakpoint → Bool
  | write _ val, br => maskOk br val
  | _, _ => true

variable [Target τ]

def hook : Access → DebugM τ Unit
  | execute => commandInsnHook
  | read addr => commandReadHook addr
  | write addr val => commandWriteHook addr val

def addr (s : State τ) : Access → BitVec 64
  | execute => absPc s
  | read addr => addr
  | write addr _ => addr

/-- The hook calls `breakpoint_hit`. -/
def Reported (acc : Access) (s : State τ) : Prop := (finalState (acc.hook s)).hits ≠ s.hits

/-- The slot holds an active entry for the access. -/
def Covers (acc : Access) (s : State τ) (n : Slot) : Prop :=
  (s.breaktab n).used = true ∧ (s.breaktab n).enabled = true ∧
    (s.breaktab n).addr = acc.addr s ∧ acc.flag (s.breaktab n) = true

/-- If there is an active entry, then there is one at or before every slot with its address. -/
def Unhidden (acc : Access) (s : State τ) : Prop :=
  ∀ n, acc.Covers s n → ∀ m, (s.breaktab m).addr = acc.addr s → ∃ k ≤ m, acc.Covers s k

instance (acc : Access) (s : State τ) : Decidable (acc.Reported s) := inferInstanceAs (Decidable (_ ≠ _))
instance (acc : Access) (s : State τ) (n : Slot) : Decidable (acc.Covers s n) :=
  inferInstanceAs (Decidable (_ ∧ _))
instance (acc : Access) (s : State τ) : Decidable (acc.Unhidden s) :=
  inferInstanceAs (Decidable (∀ n, acc.Covers s n → ∀ _, _ → _))

end Access

/-! ## The calls of `breakpoint_hit` -/

def HitsAre (h : List Slot) (s : State τ) : Prop := s.hits = h

instance (h : List Slot) : Blind (HitsAre (τ := τ) h) := ⟨fun _ _ _ _ _ hs => hs⟩

section Hits
variable {h : List Slot}

section Target
variable [Target τ]

theorem breakpointHit_hits (n : Slot) :
    Triple (HitsAre (τ := τ) h) (breakpointHit n) (fun _ => HitsAre (n :: h)) (HitsAre (n :: h)) := by
  have hstop : Keeps (HitsAre (τ := τ) (n :: h)) (modify fun s => { s with
      monitorOn := !(s.breaktab n).keepRunning
      stopRequested := s.stopRequested || !(s.breaktab n).keepRunning } : DebugM τ PUnit) :=
    Keeps.modify fun _ hs => hs
  have hcall : Triple (HitsAre (τ := τ) h) (modify fun s => { s with hits := n :: s.hits } : DebugM τ PUnit)
      (fun _ => HitsAre (n :: h)) (HitsAre (n :: h)) :=
    Triple.modify fun _ hs => congrArg (n :: ·) hs
  unfold breakpointHit
  exact hcall.bind fun _ => Keeps.rule

/-- Where a hook goes on after `breakpoint_hit`, the call is still the last one. -/
theorem hit_then_hits (n : Slot) (m : DebugM τ Unit) [Keeps (HitsAre (n :: h)) m] :
    Triple (HitsAre (τ := τ) h) (do breakpointHit n; m) (fun _ => HitsAre (n :: h))
      (HitsAre (n :: h)) :=
  (breakpointHit_hits n).bind fun _ => Keeps.rule

end Target

theorem reported_of_hit {m : DebugM τ Unit} {s : State τ} {n : Slot}
    (hm : Triple (HitsAre s.hits) m (fun _ => HitsAre (n :: s.hits)) (HitsAre (n :: s.hits))) :
    (finalState (m s)).hits ≠ s.hits := by
  have hhits : (finalState (m s)).hits = n :: s.hits := Triple.iff_final.mp hm s rfl
  rw [hhits]
  exact List.cons_ne_self _ _

end Hits

namespace Access
variable [Target τ] {s : State τ}

/-- The slot that the hook of an access looks at. -/
def found (acc : Access) (s : State τ) : Option Slot := triggered acc.flag (acc.addr s) s

/-- What the hook does if the slot it has found is active. -/
def onHit (n : Slot) : Access → DebugM τ Unit
  | execute => do
    breakpointHit n
    freeReached n
  | read _ => breakpointHit n
  | write addr val => do
    let s ← get
    rememberWrite n val
    if maskOk (s.breaktab n) val then
      breakpointHit n
      threadHook addr

/-- What it does if there is no active slot. -/
def onMiss : Access → DebugM τ Unit
  | write addr _ => threadHook addr
  | _ => pure ()

/-- The state in which the hook looks for a slot. -/
def start (s : State τ) : Access → State τ
  | execute => finalState (commandTraceInsn (Target.getPc s.session.target) s)
  | _ => s

theorem start_breaktab (acc : Access) : (acc.start s).breaktab = s.breaktab := by
  cases acc <;> rfl

theorem hook_eq (acc : Access) : acc.hook s =
    (match acc.found s with
      | some n => acc.onHit n
      | none => acc.onMiss) (acc.start s) := by
  cases acc with
  | execute => rfl
  | read addr => rfl
  | write addr val =>
    change (match (write addr val).found s with
      | some n => (do
        rememberWrite n val
        if maskOk (s.breaktab n) val then
          breakpointHit n
          threadHook addr)
      | none => threadHook addr) s = _
    cases (write addr val).found s <;> rfl

theorem onHit_write {addr : BitVec 64} {val : U8} {n : Slot} :
    (write addr val).onHit n s =
      (if maskOk (s.breaktab n) val then (do
        breakpointHit n
        threadHook addr)
      else pure ()) (finalState (rememberWrite n val s)) := rfl

/-- A hook keeps what its parts keep. -/
theorem hook_keeps {I : State τ → Prop} [∀ n, Keeps I (freeReached n)]
    [∀ n val, Keeps I (rememberWrite n val)] [hthread : ∀ a, Keeps I (threadHook a)]
    (htrace : ∀ pc, Keeps I (commandTraceInsn pc)) (hhit : ∀ n, Keeps I (breakpointHit n))
    (acc : Access) : Keeps I acc.hook := by
  cases acc with
  | execute =>
    change Keeps I commandInsnHook
    unfold commandInsnHook
    refine Keeps.get.seq fun s => (htrace _).seq fun _ => Keeps.get.seq fun t => ?_
    cases triggered Breakpoint.onExecute (absPc t) t with
    | none => exact Keeps.pure _
    | some n => infer_instance
  | read addr =>
    change Keeps I (commandReadHook addr)
    unfold commandReadHook
    refine Keeps.get.seq fun s => ?_
    cases triggered Breakpoint.onRead addr s with
    | none => exact Keeps.pure _
    | some n => exact hhit n
  | write addr val =>
    change Keeps I (commandWriteHook addr val)
    unfold commandWriteHook
    refine Keeps.get.seq fun s => ?_
    cases triggered Breakpoint.onWrite addr s with
    | none => exact hthread addr
    | some n => infer_instance

theorem onMiss_hits (acc : Access) : (finalState (acc.onMiss s)).hits = s.hits := by
  cases acc with
  | write addr val => exact Keeps.keeps (I := HitsAre s.hits) (m := threadHook addr) s rfl
  | _ => rfl

theorem onHit_hits_ne_iff (acc : Access) (n : Slot) :
    (finalState (acc.onHit n s)).hits ≠ s.hits ↔ acc.passes (s.breaktab n) = true := by
  cases acc with
  | execute => exact iff_of_true (reported_of_hit (hit_then_hits n (freeReached n))) rfl
  | read addr => exact iff_of_true (reported_of_hit (breakpointHit_hits n)) rfl
  | write addr val =>
    rw [onHit_write]
    by_cases hmask : maskOk (s.breaktab n) val = true
    · rw [if_pos hmask]
      exact iff_of_true (reported_of_hit (s := finalState (rememberWrite n val s))
        (hit_then_hits n (threadHook addr))) hmask
    · rw [if_neg hmask]
      exact iff_of_false (fun h => h rfl) hmask

/-- The hook reports an access if the first slot with its address is active, of its kind, and
passes the mask. -/
theorem reported_iff (acc : Access) :
    acc.Reported s ↔ ∃ n, acc.found s = some n ∧ acc.passes (s.breaktab n) = true := by
  have hhits : (acc.start s).hits = s.hits := by cases acc <;> rfl
  unfold Reported
  rw [acc.hook_eq]
  cases hfound : acc.found s with
  | none =>
    refine iff_of_false (fun h => h ?_) nofun
    exact acc.onMiss_hits.trans hhits
  | some n =>
    have hpasses := acc.onHit_hits_ne_iff (s := acc.start s) n
    rw [acc.start_breaktab, hhits] at hpasses
    simpa using hpasses

theorem found_eq_some_iff (hs : Consistent s) {acc : Access} {n : Slot} :
    acc.found s = some n ↔ acc.Covers s n ∧ ∀ m < n, (s.breaktab m).addr ≠ acc.addr s := by
  unfold found triggered
  by_cases hcount : s.activeBreakCount = 0
  · rw [if_pos hcount]
    exact iff_of_false nofun fun h => hs.count_ne_zero h.1.2.1 hcount
  · rw [if_neg hcount, Option.filter_eq_some_iff, brkfindByAddr, Fin.find?_eq_some_iff]
    constructor
    · rintro ⟨⟨haddr, hfirst⟩, hactive⟩
      rw [Bool.and_eq_true] at hactive
      exact ⟨⟨hs.used n hactive.1, hactive.1, of_decide_eq_true haddr, hactive.2⟩,
        fun m hm => of_decide_eq_false (hfirst m hm)⟩
    · rintro ⟨⟨-, henabled, haddr, hflag⟩, hfirst⟩
      exact ⟨⟨decide_eq_true haddr, fun m hm => decide_eq_false (hfirst m hm)⟩,
        by rw [henabled, hflag]; rfl⟩

/-- Where no entry is hidden, the slot that the hook looks at is the first active entry. -/
theorem found_iff_first (hs : Consistent s) {acc : Access} (hopen : acc.Unhidden s) {n : Slot} :
    acc.found s = some n ↔ acc.Covers s n ∧ ∀ m < n, ¬acc.Covers s m := by
  rw [found_eq_some_iff hs]
  refine and_congr_right fun hn => ⟨fun h m hm hcovers => h m hm hcovers.2.2.1, fun h m hm haddr => ?_⟩
  obtain ⟨k, hk, hcovers⟩ := hopen n hn m haddr
  exact h k (lt_of_le_of_lt hk hm) hcovers

end Access

/-- In every run, where no entry is hidden, an access is reported exactly if there is an active
entry for it, and for a write the first one passes its mask. -/
theorem reported_iff_active [Target τ] (target : τ) (es : List (Event τ)) (s : State τ)
    (hrun : runAll Event.perform es (State.init target) = .ok () s) (acc : Access)
    (hopen : acc.Unhidden s) :
    acc.Reported s ↔
      ∃ n, (acc.Covers s n ∧ ∀ m < n, ¬acc.Covers s m) ∧ acc.passes (s.breaktab n) = true := by
  have hs : Consistent s := by
    have hfinal := run_consistent target es
    rwa [hrun] at hfinal
  rw [acc.reported_iff]
  exact exists_congr fun n => and_congr_left fun _ => acc.found_iff_first hs hopen

/-- `watch 0x100 mask 0x0f` and `break 0x100`, then the program comes to 0x100. -/
def watchThenBreak : List (Event FlatTarget) :=
  [.command (.watch (["0x100", "mask", "0x0f"].map Text.ofString)),
    .command (.brk [Text.ofString "0x100"]), .guest (modify fun t => { t with pc := 0x100 })]

/-- The watchpoint hides the breakpoint, and its mask lets no write of 0x10 through. -/
theorem active_unreported :
    let s := finalState (runAll Event.perform watchThenBreak (State.init ⟨0, fun _ => 0⟩))
    ¬(Access.execute.Reported s ↔ ∃ n, Access.execute.Covers s n) ∧
      ¬((Access.write 0x100 0x10).Reported s ↔ ∃ n, (Access.write 0x100 0x10).Covers s n) := by
  decide +kernel

/-- A breakpoint without anything in front of it. -/
theorem reported_iff_active_break :
    let s := finalState (runAll Event.perform (watchThenBreak.drop 1) (State.init ⟨0, fun _ => 0⟩))
    Access.execute.Reported s ↔
      ∃ n, (Access.execute.Covers s n ∧ ∀ m < n, ¬Access.execute.Covers s m) ∧
        Access.execute.passes (s.breaktab n) = true :=
  reported_iff_active _ _ _ (eq_ok_finalState (by decide +kernel)) Access.execute (by decide +kernel)

end Exec09.Debugger
