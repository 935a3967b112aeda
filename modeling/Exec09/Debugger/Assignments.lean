import Exec09.Debugger.Incidents

/-! # Assignments and errors

`eval_assign` stores into memory only while there is no error, and assigns a
register in any case. Either way an error may follow later. So an expression
that ends with an error has left registers and memory alone exactly if no
assignment in it is carried out.
-/
namespace Exec09.Debugger
open Foundation

inductive Write
  | register (name : Text) (val : BitVec 64)
  | memory (addr : BitVec 64) (val : U8)
  deriving DecidableEq, Repr

/-- A target with the writes to its registers and its memory so far. -/
structure Logged (τ : Type) where
  target : τ
  writes : List Write

namespace Logged
variable {τ : Type}

def lift {α : Type} (m : EStateM Stop τ α) : EStateM Stop (Logged τ) α := fun s =>
  match m s.target with
  | .ok a t => .ok a { s with target := t }
  | .error e t => .error e { s with target := t }

def log (w : Write) : EStateM Stop (Logged τ) Unit :=
  modify fun s => { s with writes := s.writes ++ [w] }

instance [Target τ] : Target (Logged τ) where
  absRead8 addr := lift (Target.absRead8 addr)
  absRead16 addr := lift (Target.absRead16 addr)
  absWrite8 addr val := do
    log (.memory addr val)
    lift (Target.absWrite8 addr val)
  toAbsolute addr s := Target.toAbsolute addr s.target
  getPc s := Target.getPc s.target
  dasm addr := lift (Target.dasm addr)
  readVirtual name := (Target.readVirtual (τ := τ) name).map lift
  writeVirtual name := (Target.writeVirtual (τ := τ) name).map fun virtual val => do
    log (.register name val)
    lift (virtual val)
  symbol name s := Target.symbol name s.target

end Logged

variable {τ : Type}

/-- The start of `do_set`. -/
def Session.logged (s : Session τ) : Session (Logged τ) where
  target := ⟨s.target, []⟩
  historyCount := s.historyCount
  historytab := s.historytab
  threadCurrent := s.threadCurrent
  eflag := 0

section Incidents
variable [Target τ]

def Leaf.Unknown (s : Session τ) : Leaf → Prop
  | dollar [] => False
  | dollar (c :: rest) =>
    c ≠ 36 ∧ Text.isDigit c = false ∧ (Target.readVirtual (τ := τ) (c :: rest)).isNone
  | symbol name => (Target.symbol name s.target).isNone
  | literal _ => False
  | invalid => True

/-- An unknown symbol or variable, or a literal that is none. -/
def fault : Incident τ where
  leaf l s := l.Unknown s
  unary u _ _ := ∃ name, u = .setVirtual name ∧ (Target.writeVirtual (τ := τ) name).isNone ∧
    name ≠ Text.ofString "thread_current"
  binary _ _ _ _ := False

/-- An assignment that is carried out. -/
def assignment : Incident τ where
  leaf _ _ := False
  unary u _ _ := ∃ name, u = .setVirtual name ∧ (Target.writeVirtual (τ := τ) name).isSome
  binary b _ _ s := b = .setMemory ∧ s.eflag = 0

omit [Target τ] in
theorem shows_final {α : Type} {R : Session τ → Prop} (r : EStateM.Result Crash (Session τ) α) :
    Shows R (fun _ => False) r ↔ R (finalState r) := by
  cases r with
  | ok a t => exact Iff.rfl
  | error e t => exact or_iff_right id

omit [Target τ] in
/-- A program that leaves `f` alone shows nothing new about it. -/
theorem shows_steady {α β : Type} {f : Session τ → β} {P : β → Prop} {m : EvalM τ α}
    (h : ∀ b, Keeps (fun s => f s = b) m) {p : Prop} (hp : ¬p) (s : Session τ) :
    Shows (fun t => P (f t)) (fun _ => False) (m s) ↔ P (f s) ∨ p := by
  rw [shows_final, (h (f s)).keeps s rfl, or_iff_left hp]

omit [Target τ] in
theorem finalState_onTarget {α : Type} (m : EStateM Stop τ α) (s : Session τ) :
    (finalState (onTarget m s)).target = finalState (m s.target) := by
  rw [onTarget]
  cases m s.target <;> rfl

omit [Target τ] in
/-- The value that was assigned is returned, if the assignment returns. -/
theorem finalState_bind_pure {α β : Type} (m : EvalM τ α) (b : β) (s : Session τ) :
    finalState ((do let _ ← m; return b : EvalM τ β) s) = finalState (m s) := by
  cases hr : m s with
  | ok a t => rw [run_bind_ok hr]; rfl
  | error e t => rw [run_bind_error hr]; rfl

end Incidents

/-! ## Facts about the target -/

section Steady
variable {I : τ → Prop}

instance onTarget_keeps {α : Type} (m : EStateM Stop τ α) [h : Keeps I m] :
    Keeps (fun s : Session τ => I s.target) (onTarget m) where
  keeps s hs := by
    rw [finalState_onTarget]
    exact h.keeps s.target hs

instance flagError_keeps (bit : ℕ) : Keeps (fun s : Session τ => I s.target) (flagError bit) :=
  Keeps.modify fun _ hs => hs

instance evalHistorical_keeps (id : BitVec 32) :
    Keeps (fun s : Session τ => I s.target) (evalHistorical id) := by
  unfold evalHistorical
  infer_instance

/-- Reads keep the fact. -/
class Steady [Target τ] (I : τ → Prop) : Prop where
  absRead8 : ∀ addr, Keeps I (Target.absRead8 (τ := τ) addr)
  absRead16 : ∀ addr, Keeps I (Target.absRead16 (τ := τ) addr)
  readVirtual : ∀ name m, Target.readVirtual (τ := τ) name = some m → Keeps I m

variable [Target τ] [Steady I]

instance targetRead_steady (addr : BitVec 64) (size : ℕ) :
    Keeps (fun s : Session τ => I s.target) (targetRead addr size) := by
  have hbyte : Keeps I (Target.absRead8 (τ := τ) addr) := Steady.absRead8 addr
  have hword : Keeps I (Target.absRead16 (τ := τ) addr) := Steady.absRead16 addr
  unfold targetRead
  infer_instance

instance evalDollar_steady (name : Text) :
    Keeps (fun s : Session τ => I s.target) (evalDollar name) := by
  have hvirtual : Keeps (fun s : Session τ => I s.target) (evalVirtual name) := by
    unfold evalVirtual
    cases hread : Target.readVirtual (τ := τ) name with
    | some virtual =>
      have hkeeps : Keeps I virtual := Steady.readVirtual name virtual hread
      infer_instance
    | none => infer_instance
  unfold evalDollar
  cases name <;> infer_instance

instance Leaf.run_steady (l : Leaf) : Keeps (fun s : Session τ => I s.target) (l.run) := by
  cases l with
  | dollar name => exact evalDollar_steady name
  | symbol name =>
    refine Keeps.get.seq fun t => ?_
    cases Target.symbol name t.target <;> infer_instance
  | literal val => exact Keeps.pure val
  | invalid => exact (flagError_keeps 0x20).seq fun _ => Keeps.pure 0

omit [Steady I] in
theorem assignVirtual_keeps (name : Text) (val : BitVec 64)
    (h : ∀ virtual, Target.writeVirtual (τ := τ) name = some virtual → Keeps I (virtual val)) :
    Keeps (fun s : Session τ => I s.target) (assignVirtual name val) := by
  unfold assignVirtual
  cases hwrite : Target.writeVirtual (τ := τ) name with
  | some virtual =>
    have hkeeps := h virtual hwrite
    exact onTarget_keeps (virtual val)
  | none =>
    have hthread : Keeps (fun s : Session τ => I s.target)
        (modify fun s => { s with threadCurrent := val } : EvalM τ PUnit) := Keeps.modify fun _ hs => hs
    infer_instance

theorem Unary.apply_steady (u : Unary) (val : BitVec 64)
    (h : ∀ name virtual, u = .setVirtual name →
      Target.writeVirtual (τ := τ) name = some virtual → Keeps I (virtual val)) :
    Keeps (fun s : Session τ => I s.target) (u.apply val) := by
  cases u with
  | setVirtual name => exact (assignVirtual_keeps name val fun v => h name v rfl).seq fun _ => Keeps.pure val
  | memory => exact targetRead_steady val 1
  | absolute => exact Keeps.get.seq fun t => Keeps.pure _

omit [Steady I] in
theorem Binary.apply_keeps {b : Binary} (hb : b ≠ .setMemory) (v w : BitVec 64) :
    Keeps (fun s : Session τ => I s.target) (b.apply v w) := by
  cases b with
  | setMemory => exact absurd rfl hb
  | div =>
    unfold Binary.apply divide
    infer_instance
  | _ => exact Keeps.pure _

end Steady

/-! ## Errors -/

section Faults
variable {e : ℕ}

instance onTarget_eflag {α : Type} (m : EStateM Stop τ α) :
    Keeps (fun s : Session τ => s.eflag = e) (onTarget m) where
  keeps s hs := by
    unfold onTarget
    cases m s.target <;> exact hs

instance evalHistorical_eflag (id : BitVec 32) :
    Keeps (fun s : Session τ => s.eflag = e) (evalHistorical id) := by
  unfold evalHistorical
  infer_instance

theorem shows_flagError {bit : ℕ} (hbit : bit ≠ 0) {α : Type} (a : α) (s : Session τ) :
    Shows (fun t => t.eflag ≠ 0) (fun _ => False) ((do flagError bit; return a : EvalM τ α) s) :=
  fun hzero => hbit (Nat.or_eq_zero_iff.mp hzero).2

variable [Target τ]

instance targetRead_eflag (addr : BitVec 64) (size : ℕ) :
    Keeps (fun s : Session τ => s.eflag = e) (targetRead addr size) := by
  unfold targetRead
  infer_instance

omit [Target τ] in
theorem shows_eflag {α : Type} {m : EvalM τ α} (h : ∀ e, Keeps (fun s : Session τ => s.eflag = e) m)
    {p : Prop} (hp : ¬p) (s : Session τ) :
    Shows (fun t => t.eflag ≠ 0) (fun _ => False) (m s) ↔ s.eflag ≠ 0 ∨ p :=
  shows_steady (P := (· ≠ 0)) h hp s

theorem evalDollar_fault (name : Text) (s : Session τ) :
    Shows (fun t => t.eflag ≠ 0) (fun _ => False) (evalDollar name s) ↔
      s.eflag ≠ 0 ∨ (Leaf.dollar name).Unknown s := by
  cases name with
  | nil => exact shows_eflag (fun e => Keeps.get.seq fun t => evalHistorical_eflag _) id s
  | cons c rest =>
    rw [evalDollar]
    by_cases hlast : c = 36
    · rw [if_pos hlast]
      exact shows_eflag (fun e => Keeps.get.seq fun t => evalHistorical_eflag _) (fun h => h.1 hlast) s
    · rw [if_neg hlast]
      by_cases hdigit : Text.isDigit c = true
      · rw [if_pos hdigit]
        refine shows_eflag (fun e => evalHistorical_eflag _) (fun h => ?_) s
        rw [h.2.1] at hdigit
        cases hdigit
      · rw [if_neg hdigit, evalVirtual]
        cases hread : Target.readVirtual (τ := τ) (c :: rest) with
        | some virtual =>
          refine shows_eflag (fun e => onTarget_eflag virtual) (fun h => ?_) s
          rw [Leaf.Unknown, hread] at h
          cases h.2.2
        | none =>
          refine iff_of_true (shows_flagError (by decide) 0 s) (.inr ⟨hlast, by simpa using hdigit, ?_⟩)
          rw [hread]
          rfl

theorem Leaf.run_fault (l : Leaf) (s : Session τ) :
    Shows (fun t => t.eflag ≠ 0) (fun _ => False) (l.run s) ↔ s.eflag ≠ 0 ∨ l.Unknown s := by
  cases l with
  | dollar name => exact evalDollar_fault name s
  | symbol name =>
    rw [Leaf.run, run_bind_ok run_get, Leaf.Unknown]
    cases Target.symbol name s.target with
    | some val => exact shows_eflag (fun e => Keeps.pure val) (by simp) s
    | none => exact iff_of_true (shows_flagError (by decide) 0 s) (.inr rfl)
  | literal val => exact shows_eflag (fun e => Keeps.pure val) id s
  | invalid => exact iff_of_true (shows_flagError (by decide) 0 s) (.inr trivial)

theorem Unary.apply_fault (u : Unary) (val : BitVec 64) (s : Session τ) :
    Shows (fun t => t.eflag ≠ 0) (fun _ => False) (u.apply val s) ↔
      s.eflag ≠ 0 ∨ fault.unary u val s := by
  cases u with
  | setVirtual name =>
    simp only [Unary.apply, assignVirtual, fault, Unary.setVirtual.injEq, exists_eq_left']
    cases Target.writeVirtual (τ := τ) name with
    | some virtual =>
      exact shows_eflag (fun e => (onTarget_eflag (virtual val)).seq fun _ => Keeps.pure val) (by simp) s
    | none =>
      by_cases hthread : name = Text.ofString "thread_current"
      · simp only [if_pos hthread]
        refine shows_eflag (fun e => Keeps.seq ?_ fun _ => Keeps.pure val) (by simp [hthread]) s
        exact Keeps.modify fun t ht => ht
      · simp only [if_neg hthread]
        exact iff_of_true (shows_flagError (by decide) val s) (.inr ⟨rfl, hthread⟩)
  | memory => exact shows_eflag (fun e => targetRead_eflag val 1) (by simp [fault]) s
  | absolute =>
    exact shows_eflag (fun e => Keeps.get.seq fun t => Keeps.pure _) (by simp [fault]) s

instance Binary.apply_eflag (b : Binary) (v w : BitVec 64) :
    Keeps (fun s : Session τ => s.eflag = e) (b.apply v w) := by
  cases b <;> unfold Binary.apply
  case div =>
    unfold divide
    infer_instance
  all_goals infer_instance

theorem fault_shown : (fault (τ := τ)).Shown (fun s => s.eflag ≠ 0) fun _ => False where
  leaf := Leaf.run_fault
  unary := Unary.apply_fault
  binary b v w := shows_eflag (fun _ => Binary.apply_eflag b v w) id

end Faults

/-! ## Writes -/

section Writes
variable {ws : List Write}

instance lift_writes {α : Type} (m : EStateM Stop τ α) :
    Keeps (fun t : Logged τ => t.writes = ws) (Logged.lift m) where
  keeps t ht := by
    unfold Logged.lift
    cases m t.target <;> exact ht

/-- What is logged before an operation stays. -/
theorem log_writes {α : Type} (w : Write) (m : EStateM Stop τ α) (s : Session (Logged τ)) :
    (finalState (onTarget (do Logged.log w; Logged.lift m) s)).target.writes =
      s.target.writes ++ [w] := by
  have hlog : (do Logged.log w; Logged.lift m : EStateM Stop (Logged τ) α) s.target =
      Logged.lift m { s.target with writes := s.target.writes ++ [w] } := run_bind_ok rfl
  rw [finalState_onTarget, hlog]
  exact (lift_writes m).keeps _ rfl

variable [Target τ]

instance writes_steady : Steady fun t : Logged τ => t.writes = ws where
  absRead8 addr := lift_writes _
  absRead16 addr := lift_writes _
  readVirtual name m hread := by
    obtain ⟨virtual, -, rfl⟩ := Option.map_eq_some_iff.mp hread
    exact lift_writes virtual

omit [Target τ] in
theorem shows_writes {α : Type} {m : EvalM (Logged τ) α}
    (h : ∀ ws, Keeps (fun s : Session (Logged τ) => s.target.writes = ws) m) {p : Prop} (hp : ¬p)
    (s : Session (Logged τ)) :
    Shows (fun t => t.target.writes ≠ []) (fun _ => False) (m s) ↔ s.target.writes ≠ [] ∨ p :=
  shows_steady (f := fun s : Session (Logged τ) => s.target.writes) (P := (· ≠ [])) h hp s

omit [Target τ] in
/-- A logged write is shown. -/
theorem shows_logged {α β : Type} (w : Write) (m : EStateM Stop τ α) (b : β)
    (s : Session (Logged τ)) :
    Shows (fun t => t.target.writes ≠ []) (fun _ => False)
      ((do let _ ← onTarget (do Logged.log w; Logged.lift m); return b : EvalM (Logged τ) β) s) := by
  rw [shows_final, finalState_bind_pure, log_writes]
  simp

theorem Unary.apply_assignment (u : Unary) (val : BitVec 64) (s : Session (Logged τ)) :
    Shows (fun t => t.target.writes ≠ []) (fun _ => False) (u.apply val s) ↔
      s.target.writes ≠ [] ∨ assignment.unary u val s := by
  by_cases hset : ∃ name, u = .setVirtual name ∧ (Target.writeVirtual (τ := Logged τ) name).isSome
  · obtain ⟨name, rfl, hwrite⟩ := hset
    refine iff_of_true ?_ (.inr ⟨name, rfl, hwrite⟩)
    obtain ⟨virtual, hwrite⟩ := Option.isSome_iff_exists.mp hwrite
    rw [Unary.apply, assignVirtual, hwrite]
    obtain ⟨handler, -, rfl⟩ := Option.map_eq_some_iff.mp hwrite
    exact shows_logged _ (handler val) val s
  · refine shows_writes (fun ws => u.apply_steady (I := fun t : Logged τ => t.writes = ws) val ?_) hset s
    intro name virtual hname hwrite
    exact absurd ⟨name, hname, Option.isSome_iff_exists.mpr ⟨virtual, hwrite⟩⟩ hset

theorem Binary.apply_assignment (b : Binary) (v w : BitVec 64) (s : Session (Logged τ)) :
    Shows (fun t => t.target.writes ≠ []) (fun _ => False) (b.apply v w s) ↔
      s.target.writes ≠ [] ∨ assignment.binary b v w s := by
  by_cases hset : b = .setMemory
  · subst hset
    rw [Binary.apply, run_bind_ok run_get]
    by_cases hflag : s.eflag = 0
    · rw [if_pos hflag]
      exact iff_of_true (shows_logged _ (Target.absWrite8 w (v.setWidth 8)) v s) (.inr ⟨rfl, hflag⟩)
    · rw [if_neg hflag]
      exact shows_writes (fun ws => Keeps.pure v) (fun h => hflag h.2) s
  · exact shows_writes (fun ws => Binary.apply_keeps (I := fun t : Logged τ => t.writes = ws) hset v w)
      (fun h => hset h.1) s

theorem assignment_shown :
    (assignment (τ := Logged τ)).Shown (fun s => s.target.writes ≠ []) fun _ => False where
  leaf l s := shows_writes (fun ws => l.run_steady (I := fun t : Logged τ => t.writes = ws)) id s
  unary := Unary.apply_assignment
  binary := Binary.apply_assignment

end Writes

/-! ## `do_set` -/

/-- An expression that ends with an error has written nothing, exactly if it does not come both to
an error and to an assignment that is carried out. -/
theorem unwritten_iff [Target τ] {text : Text} {s : Session τ} {r : Evaluated}
    {t : Session (Logged τ)} (h : eval text s.logged = .ok r t) :
    (t.eflag ≠ 0 → t.target.writes = []) ↔
      ¬((exprOf text).Meets fault s.logged ∧ (exprOf text).Meets assignment s.logged) := by
  have hfault := eval_shows_iff fault_shown text s.logged
  have hwrite := eval_shows_iff assignment_shown text s.logged
  rw [h] at hfault hwrite
  have hflag : s.logged.eflag = 0 := rfl
  have hempty : s.logged.target.writes = [] := rfl
  simp only [Shows, hflag, hempty, ne_eq, not_true, false_or] at hfault hwrite
  rw [← hfault, ← hwrite, ne_eq, not_and_not_right]

theorem unwritten_pc : ∃ r t, eval (Text.ofString "$pc=5") blankSession.logged = .ok r t ∧
    ((t.eflag ≠ 0 → t.target.writes = []) ↔
      ¬((exprOf (Text.ofString "$pc=5")).Meets fault blankSession.logged ∧
        (exprOf (Text.ofString "$pc=5")).Meets assignment blankSession.logged)) :=
  ⟨_, _, rfl, unwritten_iff rfl⟩

/-- `set $pc=zz` for an unknown symbol. -/
theorem register_written : ¬∀ (text : Text) (s : Session FlatTarget) (r : Evaluated)
    (t : Session (Logged FlatTarget)), eval text s.logged = .ok r t → t.eflag ≠ 0 →
      t.target.writes = [] := by
  intro h
  have hrun : ∃ r t, eval (Text.ofString "$pc=zz") blankSession.logged = .ok r t ∧ t.eflag = 8 ∧
      t.target.writes = [.register (Text.ofString "pc") 0] := ⟨_, _, rfl, rfl, rfl⟩
  obtain ⟨r, t, hrun, hflag, hwrites⟩ := hrun
  rw [h _ _ r t hrun (by rw [hflag]; decide)] at hwrites
  cases hwrites

end Exec09.Debugger
