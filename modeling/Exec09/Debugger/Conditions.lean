import Exec09.Debugger.SlotHistory
import Exec09.Debugger.Stepping

/-! # Conditions that survive their evaluation

A condition is evaluated in place, and every binary operator, assignment and
device number writes a zero into it. So exactly the conditions without such a
split are still there at the next hit.
-/
namespace Exec09.Debugger
open Foundation
variable {τ : Type}

/-- No operator splits the text. -/
def unsplit (e : Text) : Bool :=
  (Text.splitText (Text.ofString "==") e).isNone && (Text.splitText (Text.ofString "!=") e).isNone &&
    (Text.splitChar 61 e).isNone && (binarySides 43 e).isNone && (binarySides 45 e).isNone &&
    (binarySides 42 e).isNone && (binarySides 47 e).isNone

/-- The text is split neither by an operator nor, where it is an address, by a device number. -/
def intact : Text → Bool
  | [] => true
  | c :: t => unsplit (c :: t) &&
    if c = 36 then true
    else if c = 38 then (Text.splitChar 58 t).isNone && (startsName t || intact t)
    else !startsName (c :: t) || (Text.splitChar 58 (c :: t)).isNone

def memIntact (e : Text) : Bool := (Text.splitChar 58 e).isNone && (startsName e || intact e)

/-- What is left of the text `e`: all of it, or less if it is not intact. -/
def Leaves (e left : Text) : Prop := left.length ≤ e.length ∧ (left = e ↔ intact e = true)

/-- A program that returns leaves a text that satisfies `P`. -/
def Leaving (m : EvalM τ Evaluated) (P : Text → Prop) : Prop :=
  Triple (fun _ => True) m (fun r _ => P r.2) fun _ => True

theorem Leaving.bind {α : Type} {m : EvalM τ α} {f : α → EvalM τ Evaluated} {P : Text → Prop}
    (hf : ∀ a, Leaving (f a) P) : Leaving (m >>= f) P :=
  Triple.bind Triple.trivial fun a => hf a

theorem Leaving.pure {P : Text → Prop} (r : Evaluated) (h : P r.2) :
    Leaving (pure r : EvalM τ Evaluated) P := Triple.pure r fun _ _ => h

/-- Go on with what the first part has left. -/
theorem Leaving.after {m : EvalM τ Evaluated} {f : Evaluated → EvalM τ Evaluated}
    {Q P : Text → Prop} (hm : Leaving m Q) (hf : ∀ r, Q r.2 → Leaving (f r) P) :
    Leaving (m >>= f) P :=
  Triple.bind hm fun r s hs => hf r hs s trivial

theorem Leaving.mono {m : EvalM τ Evaluated} {Q P : Text → Prop} (hm : Leaving m Q)
    (h : ∀ l, Q l → P l) : Leaving m P :=
  Triple.mono hm (fun _ hs => hs) (fun r _ hr => h r.2 hr) fun _ hs => hs

theorem leaves_of_shorter {e l : Text} (he : intact e = false) (h : l.length < e.length) :
    Leaves e l := by
  refine ⟨h.le, iff_of_false ?_ (by simp [he])⟩
  rintro rfl
  exact lt_irrefl _ h

theorem intact_of_split {e : Text} (hne : e ≠ []) (h : unsplit e = false) : intact e = false := by
  cases e with
  | nil => exact absurd rfl hne
  | cons c t => rw [intact, h, Bool.false_and]

theorem intact_of_unsplit {c : BitVec 8} {t : Text} (h : unsplit (c :: t) = true) :
    intact (c :: t) = if c = 36 then true
      else if c = 38 then memIntact t
      else !startsName (c :: t) || (Text.splitChar 58 (c :: t)).isNone := by
  rw [intact, h, Bool.true_and]
  rfl

theorem memIntact_of_split {e : Text} {sides : Text × Text} (h : Text.splitChar 58 e = some sides) :
    memIntact e = false := by
  rw [memIntact, h]
  rfl

theorem memIntact_of_none {e : Text} (h : Text.splitChar 58 e = none) :
    memIntact e = (startsName e || intact e) := by
  rw [memIntact, h]
  rfl

section Eval
variable [Target τ] {rec : Text → EvalM τ Evaluated}

omit [Target τ] in
theorem foldSides_leaving {op : BitVec 64 → BitVec 64 → EvalM τ (BitVec 64)} {sides : Text × Text}
    {P : Text → Prop} (h : Leaving (rec sides.1) P) : Leaving (foldSides rec op sides) P :=
  h.after fun _ hr => Leaving.bind fun _ => Leaving.bind fun _ => Leaving.pure _ hr

theorem evalAddress_leaving (hrec : ∀ e, Leaving (rec e) (Leaves e)) (e : Text) :
    Leaving (evalAddress rec e) fun l => l.length ≤ e.length ∧ (l = e ↔ memIntact e = true) := by
  unfold evalAddress
  cases hsplit : Text.splitChar 58 e with
  | some sides =>
    obtain ⟨device, offset⟩ := sides
    have hlt := (Text.splitChar_lt hsplit).1
    refine (hrec device).after fun r hr => Leaving.bind fun _ => Leaving.pure _ ?_
    have hshort : r.2.length < e.length := lt_of_le_of_lt hr.1 hlt
    refine ⟨hshort.le, iff_of_false ?_ (by simp [memIntact_of_split hsplit])⟩
    intro heq
    rw [heq] at hshort
    exact lt_irrefl _ hshort
  | none =>
    by_cases hname : startsName e = true
    · have hself : e.length ≤ e.length ∧ (e = e ↔ memIntact e = true) :=
        ⟨le_rfl, by simp [memIntact_of_none hsplit, hname]⟩
      simp only [if_pos hname]
      refine Leaving.bind fun s => ?_
      cases Target.symbol e s.target with
      | some val => exact Leaving.pure _ hself
      | none => exact Leaving.bind fun _ => Leaving.pure _ hself
    · simp only [if_neg hname]
      refine (hrec e).after fun r hr => Leaving.bind fun _ => Leaving.pure _ ?_
      refine ⟨hr.1, hr.2.trans ?_⟩
      simp [memIntact_of_none hsplit, hname]

theorem evalMem_leaving (hrec : ∀ e, Leaving (rec e) (Leaves e)) (e : Text) (mode : EvalMode) :
    Leaving (evalMem rec e mode) fun l => l.length ≤ e.length ∧ (l = e ↔ memIntact e = true) := by
  refine (evalAddress_leaving hrec e).after fun r hr => ?_
  cases mode with
  | LVALUE => exact Leaving.pure _ hr
  | RVALUE => exact Leaving.bind fun _ => Leaving.pure _ hr

theorem evalPrimary_leaving (hrec : ∀ e, Leaving (rec e) (Leaves e)) {e : Text}
    (he : unsplit e = true) : Leaving (evalPrimary rec e) (Leaves e) := by
  have hself : intact e = true → Leaves e e := fun h => ⟨le_rfl, iff_of_true rfl h⟩
  cases e with
  | nil => exact Leaving.bind fun _ => Leaving.pure _ (hself rfl)
  | cons c t =>
    have hintact := intact_of_unsplit he
    by_cases hdollar : c = 36
    · subst hdollar
      exact Leaving.bind fun _ => Leaving.pure _ (hself hintact)
    · rw [if_neg hdollar] at hintact
      by_cases hplace : c = 38
      · subst hplace
        rw [if_pos rfl] at hintact
        refine (evalMem_leaving hrec t .LVALUE).after fun r hr => Leaving.pure _ ?_
        refine ⟨Nat.succ_le_succ hr.1, ?_⟩
        rw [hintact, ← hr.2]
        exact List.cons_inj_right _
      · rw [if_neg hplace] at hintact
        unfold evalPrimary
        split
        · next heq => exact absurd (List.cons.inj heq).1 hdollar
        · next heq => exact absurd (List.cons.inj heq).1 hplace
        · by_cases hname : startsName (c :: t) = true
          · rw [if_pos hname]
            refine (evalMem_leaving hrec (c :: t) .RVALUE).mono fun l hl => ⟨hl.1, hl.2.trans ?_⟩
            rw [hintact, hname]
            simp [memIntact, hname]
          · rw [if_neg hname]
            have hall : intact (c :: t) = true := by rw [hintact]; simp [hname]
            cases Text.strtoul 0 (c :: t) with
            | some val => exact Leaving.pure _ (hself hall)
            | none => exact Leaving.bind fun _ => Leaving.pure _ (hself hall)

theorem evalAssign_leaving (hrec : ∀ e, Leaving (rec e) (Leaves e)) (e : Text) (val : BitVec 64) :
    Triple (fun _ => True) (evalAssign rec e val) (fun l _ => l.length ≤ e.length)
      fun _ => True := by
  unfold evalAssign
  split
  · exact Triple.bind Triple.trivial fun _ => Triple.pure _ fun _ _ => le_rfl
  · refine Triple.bind (evalMem_leaving hrec e .LVALUE) fun r s hs => ?_
    have hleft : Triple (fun _ => True) (do
        if (← get).eflag = 0 then onTarget (Target.absWrite8 r.1 (val.setWidth 8))
        return r.2 : EvalM τ Text) (fun l _ => l.length ≤ e.length) fun _ => True := by
      have hret : ∀ P : Session τ → Prop, Triple P (pure r.2 : EvalM τ Text)
          (fun l _ => l.length ≤ e.length) fun _ => True := fun _ => Triple.pure _ fun _ _ => hs.1
      refine Triple.bind Triple.trivial fun u => Triple.ite (fun _ => ?_) fun _ => hret _
      exact Triple.bind Triple.trivial fun _ => hret _
    exact hleft s trivial

theorem evalBody_leaving (hrec : ∀ e, Leaving (rec e) (Leaves e)) (e : Text) :
    Leaving (evalBody rec e) (Leaves e) := by
  have hcut : ∀ {a : Text} {m : EvalM τ Evaluated}, a.length < e.length → unsplit e = false →
      Leaving m (fun l => l.length ≤ a.length) → Leaving m (Leaves e) := by
    intro a m hlt hsplit hm
    have hne : e ≠ [] := List.length_pos_iff.mp (Nat.zero_lt_of_lt hlt)
    exact hm.mono fun l hl =>
      leaves_of_shorter (intact_of_split hne hsplit) (lt_of_le_of_lt hl hlt)
  have hsides : ∀ {sides : Text × Text} {op : BitVec 64 → BitVec 64 → EvalM τ (BitVec 64)},
      sides.1.length < e.length → unsplit e = false → Leaving (foldSides rec op sides) (Leaves e) :=
    fun hlt hsplit => hcut hlt hsplit (foldSides_leaving ((hrec _).mono fun _ hl => hl.1))
  unfold evalBody
  cases heq : Text.splitText (Text.ofString "==") e with
  | some sides =>
    exact hsides (Text.splitText_lt (by decide) heq).1 (by rw [unsplit, heq]; rfl)
  | none =>
  cases hne : Text.splitText (Text.ofString "!=") e with
  | some sides =>
    exact hsides (Text.splitText_lt (by decide) hne).1 (by rw [unsplit, hne]; simp)
  | none =>
  cases hassign : Text.splitChar 61 e with
  | some sides =>
    refine hcut (Text.splitChar_lt hassign).1 (by rw [unsplit, hassign]; simp) ?_
    refine Leaving.bind fun r => ?_
    exact Triple.bind (evalAssign_leaving hrec sides.1 r.1) fun l s hs => hs
  | none =>
  cases hadd : binarySides 43 e with
  | some sides => exact hsides (binarySides_lt hadd).1 (by rw [unsplit, hadd]; simp)
  | none =>
  cases hsub : binarySides 45 e with
  | some sides => exact hsides (binarySides_lt hsub).1 (by rw [unsplit, hsub]; simp)
  | none =>
  cases hmul : binarySides 42 e with
  | some sides => exact hsides (binarySides_lt hmul).1 (by rw [unsplit, hmul]; simp)
  | none =>
  cases hdiv : binarySides 47 e with
  | some sides => exact hsides (binarySides_lt hdiv).1 (by rw [unsplit, hdiv]; simp)
  | none =>
    exact evalPrimary_leaving hrec (by rw [unsplit, heq, hne, hassign, hadd, hsub, hmul, hdiv]; rfl)

end Eval

theorem eval_leaving [Target τ] (e : Text) : Leaving (τ := τ) (eval e) (Leaves e) := by
  have hdepth : ∀ n e, Leaving (τ := τ) (evalDepth n e) (Leaves e) := by
    intro n
    induction n with
    | zero => exact fun _ => Triple.throw fun _ _ => trivial
    | succ n ih => exact evalBody_leaving ih
  exact hdepth _ e

/-! ## One hit -/

section Hit
variable [Target τ] {s t : State τ} {n : Slot} {e : Text} {b : Bool}

theorem conditionHolds_left (h : conditionHolds n s = .ok b t) :
    Leaves (s.breaktab n).condition (t.breaktab n).condition := by
  cases heval : eval (s.breaktab n).condition { s.session with eflag := 0 } with
  | error c u =>
    rw [conditionHolds_error heval] at h
    cases h
  | ok r u =>
    obtain ⟨val, left⟩ := r
    have hleaves : Leaves (s.breaktab n).condition left := by
      have hend := eval_leaving (s.breaktab n).condition { s.session with eflag := 0 } trivial
      rwa [heval] at hend
    rw [conditionHolds_ok heval] at h
    cases h
    rw [setSlot_entry]
    exact hleaves

/-- An evaluation that returns leaves the condition as it was exactly if it is intact. -/
theorem conditionHolds_kept_iff (hs : (s.breaktab n).condition = e)
    (h : conditionHolds n s = .ok b t) : (t.breaktab n).condition = e ↔ intact e = true := by
  have hleft := (conditionHolds_left h).2
  rwa [hs] at hleft

omit [Target τ] in
/-- What `break ... if` enters. -/
theorem breakOptions_if {args : List Text}
    (h : breakOptions n (Text.ofString "if" :: e :: args) s = .ok () t) :
    (t.breaktab n).conditional = true ∧ (t.breaktab n).condition = e := by
  have hbody : breakOptions (τ := τ) n (Text.ofString "if" :: e :: args) = (do
      setSlot n fun br => { br with conditional := true }
      if e.length < 128 then setSlot n fun br => { br with condition := e }
      else throw .conditionOverflow) := by
    rw [breakOptions, if_pos rfl]
    rfl
  rw [hbody] at h
  obtain ⟨⟨⟩, u, hflag, h⟩ := of_run_bind_ok h
  cases hflag
  by_cases hlen : e.length < 128
  · rw [if_pos hlen] at h
    cases h
    simp
  · rw [if_neg hlen] at h
    cases h

end Hit

/-! ## Runs -/

/-- If the slot is in use, then for an entry with the condition `e`. -/
def Conditioned (e : Text) (n : Slot) (s : State τ) : Prop :=
  (s.breaktab n).used = true → (s.breaktab n).conditional = true ∧ (s.breaktab n).condition = e

/-- The slot holds the entry `br`. -/
def EntryIs (br : Breakpoint) (n : Slot) (s : State τ) : Prop := s.breaktab n = br

section Steps
variable {e : Text} {n : Slot}

instance evaluating_conditioned {α : Type} (m : EvalM τ α) : Keeps (Conditioned e n) (evaluating m) :=
  evaluating_keeps m fun _ _ hs => hs

theorem modify_conditioned {g : State τ → State τ} (hg : ∀ s, (g s).breaktab = s.breaktab) :
    Keeps (Conditioned e n) (modify g : DebugM τ PUnit) := by
  refine Keeps.modify fun s hs => ?_
  unfold Conditioned
  rw [hg]
  exact hs

theorem setSlot_conditioned (m : Slot) {g : Breakpoint → Breakpoint}
    (hg : ∀ br, (g br).used = true → br.used = true ∧ (g br).conditional = br.conditional ∧
      (g br).condition = br.condition) : Keeps (Conditioned (τ := τ) e n) (setSlot m g) := by
  refine Keeps.modify fun s hs => ?_
  unfold Conditioned
  by_cases hmn : n = m
  · subst hmn
    simp only [Function.update_self]
    intro hused
    obtain ⟨hold, hconditional, hcondition⟩ := hg _ hused
    rw [hconditional, hcondition]
    exact hs hold
  · simp only [Function.update_of_ne hmn]
    exact hs

instance brkfree_conditioned (m : Slot) : Keeps (Conditioned (τ := τ) e n) (brkfree m) := by
  have henable : ∀ flag, Keeps (Conditioned (τ := τ) e n)
      (setSlot m fun br => { br with enabled := flag }) :=
    fun _ => setSlot_conditioned m fun _ hused => ⟨hused, rfl, rfl⟩
  have hfree : Keeps (Conditioned (τ := τ) e n) (setSlot m fun br => { br with used := false }) :=
    setSlot_conditioned m fun _ hused => nomatch hused
  have hcount : ∀ g : BitVec 32 → BitVec 32, Keeps (Conditioned (τ := τ) e n) (modify fun s =>
      { s with activeBreakCount := g s.activeBreakCount } : DebugM τ PUnit) :=
    fun _ => modify_conditioned fun _ => rfl
  have hmore := hcount (· + 1)
  have hfewer := hcount (· - 1)
  unfold brkfree brkEnable
  infer_instance

instance freeEach_conditioned (p : Breakpoint → Bool) (ms : List Slot) :
    Keeps (Conditioned (τ := τ) e n) (freeEach p ms) := by
  induction ms with
  | nil => exact Keeps.pure _
  | cons m ms ih =>
    unfold freeEach
    infer_instance

variable [Target τ]

theorem conditionHolds_conditioned (hintact : intact e = true) (m : Slot) :
    Keeps (Conditioned (τ := τ) e n) (conditionHolds m) where
  keeps s hs := by
    cases heval : eval (s.breaktab m).condition { s.session with eflag := 0 } with
    | error c u =>
      rw [conditionHolds_error heval]
      exact hs
    | ok r u =>
      obtain ⟨val, left⟩ := r
      have hleft := conditionHolds_left (conditionHolds_ok heval)
      rw [setSlot_entry] at hleft
      let t : State τ := finalState (setSlot m (fun br => { br with condition := left })
        { s with session := u })
      rw [show finalState (conditionHolds m s) = t from congrArg finalState (conditionHolds_ok heval)]
      by_cases hmn : n = m
      · subst hmn
        have hentry : t.breaktab n = { s.breaktab n with condition := left } := setSlot_entry _ _ _
        intro hused
        rw [hentry] at hused ⊢
        obtain ⟨hconditional, hcondition⟩ := hs hused
        refine ⟨hconditional, (hleft.2.mpr ?_).trans hcondition⟩
        rwa [hcondition]
      · have hentry : t.breaktab n = s.breaktab n := Function.update_of_ne hmn _ _
        intro hused
        rw [hentry] at hused ⊢
        exact hs hused

omit [Target τ] in
instance rememberWrite_conditioned (m : Slot) (val : U8) :
    Keeps (Conditioned (τ := τ) e n) (rememberWrite m val) := by
  refine setSlot_conditioned m fun br h => ?_
  by_cases hmask : br.writeMask ≠ 0
  · rw [if_pos hmask] at h ⊢
    exact ⟨h, rfl, rfl⟩
  · rw [if_neg hmask] at h ⊢
    exact ⟨h, rfl, rfl⟩

instance threadHook_conditioned (addr : BitVec 64) :
    Keeps (Conditioned (τ := τ) e n) (threadHook addr) := by
  have hid : ∀ word : BitVec 64, Keeps (Conditioned (τ := τ) e n) (modify fun s => { s with
      threadId := Target.toAbsolute ((word.setWidth 16).zeroExtend 64) s.session.target } :
        DebugM τ PUnit) :=
    fun _ => modify_conditioned fun _ => rfl
  unfold threadHook commandChangeThread
  infer_instance

omit [Target τ] in
instance freeReached_conditioned (m : Slot) :
    Keeps (Conditioned (τ := τ) e n) (freeReached m) := by
  unfold freeReached
  infer_instance

theorem breakpointHit_conditioned (hintact : intact e = true) (m : Slot) :
    Keeps (Conditioned (τ := τ) e n) (breakpointHit m) := by
  have hcond := conditionHolds_conditioned (τ := τ) (n := n) hintact m
  have hset : Keeps (Conditioned (τ := τ) e n)
      (setSlot m fun br => { br with ignoreCount := br.ignoreCount - 1 }) :=
    setSlot_conditioned m fun _ h => ⟨h, rfl, rfl⟩
  have hhits : Keeps (Conditioned (τ := τ) e n) (modify fun s => { s with hits := m :: s.hits } :
      DebugM τ PUnit) := modify_conditioned fun _ => rfl
  have hstop : Keeps (Conditioned (τ := τ) e n) (modify fun s => { s with
      monitorOn := !(s.breaktab m).keepRunning
      stopRequested := s.stopRequested || !(s.breaktab m).keepRunning } : DebugM τ PUnit) :=
    modify_conditioned fun _ => rfl
  have hcount : Keeps (Conditioned (τ := τ) e n) (countedDown m) := by
    unfold countedDown
    infer_instance
  have hallowed : Keeps (Conditioned (τ := τ) e n) (hitAllowed m) := by
    unfold hitAllowed
    infer_instance
  unfold breakpointHit
  infer_instance

theorem hook_conditioned (hintact : intact e = true) (acc : Access) :
    Keeps (Conditioned (τ := τ) e n) acc.hook :=
  Access.hook_keeps (fun _ => modify_conditioned fun _ => rfl)
    (fun m => breakpointHit_conditioned hintact m) acc

end Steps

/-! ## Commands -/

section Commands
variable {n : Slot} {br : Breakpoint}

theorem keeps_entry {α : Type} {p : DebugM τ α} {m : Slot} (hmn : m ≠ n)
    (h : ∀ s₀, Keeps (Around s₀ m) p) : Keeps (EntryIs br n) p where
  keeps s hs := (((h s).keeps s (Around.refl s m)).other n hmn.symm).trans hs

theorem setSlot_entryIs {m : Slot} (hmn : m ≠ n) (g : Breakpoint → Breakpoint) :
    Keeps (EntryIs (τ := τ) br n) (setSlot m g) :=
  Keeps.modify fun _ hs => (Function.update_of_ne hmn.symm _ _).trans hs

theorem modify_entryIs {g : State τ → State τ} (hg : ∀ s, (g s).breaktab = s.breaktab) :
    Keeps (EntryIs br n) (modify g : DebugM τ PUnit) :=
  Keeps.modify fun s hs => (congrFun (hg s) n).trans hs

instance evaluating_entryIs {α : Type} (p : EvalM τ α) : Keeps (EntryIs br n) (evaluating p) :=
  evaluating_keeps p fun _ _ hs => hs

/-- An allocation leaves an entry in use alone, and gives another slot. -/
theorem brkalloc_other (hused : br.used = true) :
    Triple (EntryIs (τ := τ) br n) (do deref (← brkalloc)) (fun m s => m ≠ n ∧ EntryIs br n s)
      (EntryIs br n) := by
  intro s hs
  unfold brkalloc
  simp only [bind_assoc]
  rw [run_bind_ok run_get]
  cases hfree : freeSlot s.breaktab with
  | none => exact hs
  | some m =>
    have hunused : (s.breaktab m).used = false := by
      simpa using (Fin.find?_eq_some_iff.mp hfree).1
    have hmn : m ≠ n := by
      rintro rfl
      rw [hs, hused] at hunused
      cases hunused
    have hother : ∀ g : Breakpoint → Breakpoint, Keeps (EntryIs (τ := τ) br n) (setSlot m g) :=
      fun g => setSlot_entryIs hmn g
    have hclaim := hother (Breakpoint.claim m)
    have henable : Keeps (EntryIs (τ := τ) br n) (brkEnable m true) := by
      have hset := hother fun br => { br with enabled := true }
      have hcount : ∀ g : BitVec 32 → BitVec 32, Keeps (EntryIs (τ := τ) br n) (modify fun s =>
          { s with activeBreakCount := g s.activeBreakCount } : DebugM τ PUnit) :=
        fun _ => modify_entryIs fun _ => rfl
      have hmore := hcount (· + 1)
      have hfewer := hcount (· - 1)
      unfold brkEnable
      infer_instance
    have hboth : Triple (EntryIs (τ := τ) br n) (do
        setSlot m (Breakpoint.claim m)
        brkEnable m true
        pure m) (fun k s => k ≠ n ∧ EntryIs br n s) (EntryIs br n) :=
      hclaim.rule.bind fun _ => henable.rule.bind fun _ => Triple.pure _ fun _ hs => ⟨hmn, hs⟩
    have hsame : (do
        let o ← (do
          setSlot m (Breakpoint.claim m)
          brkEnable m true
          pure (some m) : DebugM τ (Option Slot))
        deref o) = (do
        setSlot m (Breakpoint.claim m)
        brkEnable m true
        pure m) := by
      simp only [bind_assoc, pure_bind, deref]
    exact hsame ▸ hboth s hs

/-- A new entry is made in another slot. -/
theorem keeps_of_entry (hused : br.used = true) {rest : Slot → DebugM τ Unit}
    (hrest : ∀ m, m ≠ n → Keeps (EntryIs br n) (rest m)) :
    Keeps (EntryIs br n) (do let m ← deref (← brkalloc); rest m) := by
  refine Keeps.iff_triple.mpr ?_
  have hall := (brkalloc_other (τ := τ) (n := n) hused).bind (f := rest) fun m s hs =>
    Keeps.iff_triple.mp (hrest m hs.1) s hs.2
  simpa only [bind_assoc] using hall

variable [Target τ]

theorem cmdBreak_entryIs (hused : br.used = true) (args : List Text) :
    Keeps (EntryIs (τ := τ) br n) (cmdBreak args) := by
  cases args with
  | nil => exact Keeps.pure _
  | cons arg args =>
    refine (evaluating_entryIs _).seq fun r => @Keeps.ite _ _ _ _ _ _ _ _ ?_ (Keeps.pure _)
    exact keeps_of_entry hused fun m hmn => (setSlot_entryIs hmn _).seq fun _ =>
      keeps_entry hmn fun _ => breakOptions_around args

theorem cmdWatch1_entryIs (hused : br.used = true) (onRead onWrite : Bool) (args : List Text) :
    Keeps (EntryIs (τ := τ) br n) (cmdWatch1 onRead onWrite args) := by
  cases args with
  | nil => exact Keeps.pure _
  | cons arg args =>
    refine (evaluating_entryIs _).seq fun r => @Keeps.ite _ _ _ _ _ _ _ _ ?_ (Keeps.pure _)
    exact keeps_of_entry hused fun m hmn => (setSlot_entryIs hmn _).seq fun _ =>
      keeps_entry hmn fun _ => watchOptions_around args

omit [Target τ] in
theorem setExitCommandLoop_entryIs (v : ℤ) :
    Keeps (EntryIs (τ := τ) br n) (setExitCommandLoop v) := modify_entryIs fun _ => rfl

theorem cmdNext_entryIs (hused : br.used = true) : Keeps (EntryIs (τ := τ) br n) cmdNext :=
  Keeps.get.seq fun _ => (evaluating_entryIs _).seq fun _ => keeps_of_entry hused fun _ hmn =>
    (setSlot_entryIs hmn _).seq fun _ => setExitCommandLoop_entryIs 0

end Commands

section Run
variable [Target τ] {e : Text} {n : Slot}

omit [Target τ] in
theorem cmdDelete_conditioned (args : List Text) :
    Keeps (Conditioned (τ := τ) e n) (cmdDelete args) := by
  cases args with
  | nil => exact freeEach_conditioned _ _
  | cons arg args =>
    unfold cmdDelete
    infer_instance

omit [Target τ] in
theorem cmdRunfor_conditioned (args : List Text) :
    Keeps (Conditioned (τ := τ) e n) (cmdRunfor args) := by
  have hexit : ∀ v, Keeps (Conditioned (τ := τ) e n) (setExitCommandLoop v) :=
    fun _ => modify_conditioned fun _ => rfl
  have hstop : ∀ v, Keeps (Conditioned (τ := τ) e n) (setStopAfterMs v) :=
    fun _ => modify_conditioned fun _ => rfl
  cases args <;> unfold cmdRunfor <;> infer_instance

omit [Target τ] in
theorem commandPeriodic_conditioned : Keeps (Conditioned (τ := τ) e n) commandPeriodic := by
  have hless : Keeps (Conditioned (τ := τ) e n) (modify fun s =>
      { s with stopAfterMs := s.stopAfterMs - 100 } : DebugM τ PUnit) :=
    modify_conditioned fun _ => rfl
  have hzero : Keeps (Conditioned (τ := τ) e n) (modify fun s =>
      { s with stopAfterMs := 0 } : DebugM τ PUnit) := modify_conditioned fun _ => rfl
  have hstop : Keeps (Conditioned (τ := τ) e n) requestStop := modify_conditioned fun _ => rfl
  unfold commandPeriodic
  infer_instance

/-- The slot is in use with the condition `e`. -/
def Entered (e : Text) (n : Slot) (s : State τ) : Prop :=
  (s.breaktab n).used = true ∧ (s.breaktab n).conditional = true ∧ (s.breaktab n).condition = e

theorem event_conditioned (hintact : intact e = true) (ev : Event τ) :
    Triple (Entered e n) ev.perform (fun _ => Conditioned e n) fun _ => True := by
  have hold : ∀ {p : DebugM τ Unit}, Keeps (Conditioned e n) p →
      Triple (Entered e n) p (fun _ => Conditioned e n) fun _ => True :=
    fun hp => (Keeps.iff_triple.mp hp).mono (fun _ hs _ => hs.2) (fun _ _ hs => hs) fun _ _ => trivial
  have hnew : ∀ {p : DebugM τ Unit},
      (∀ br : Breakpoint, br.used = true → Keeps (EntryIs br n) p) →
      Triple (Entered e n) p (fun _ => Conditioned e n) fun _ => True := by
    intro p hp s hs
    have hend := Keeps.iff_triple.mp (hp _ hs.1) s rfl
    cases hr : p s with
    | ok a t =>
      rw [hr] at hend
      intro _
      rw [show t.breaktab n = s.breaktab n from hend]
      exact hs.2
    | error c t => trivial
  have hexit : ∀ v, Keeps (Conditioned (τ := τ) e n) (setExitCommandLoop v) :=
    fun _ => modify_conditioned fun _ => rfl
  cases ev with
  | command c =>
    cases c with
    | brk args => exact hnew fun br hused => cmdBreak_entryIs hused args
    | watch args => exact hnew fun br hused => cmdWatch1_entryIs hused false true args
    | rwatch args => exact hnew fun br hused => cmdWatch1_entryIs hused true false args
    | awatch args => exact hnew fun br hused => cmdWatch1_entryIs hused true true args
    | delete args => exact hold (cmdDelete_conditioned args)
    | next => exact hnew fun br hused => cmdNext_entryIs hused
    | step args =>
      have hcount : Keeps (Conditioned (τ := τ) e n) (modify fun s =>
          { s with autoBreakInsnCount := stepCount args } : DebugM τ PUnit) :=
        modify_conditioned fun _ => rfl
      exact hold (hcount.seq fun _ => hexit 0)
    | cont => exact hold (hexit 0)
    | runfor args => exact hold (cmdRunfor_conditioned args)
    | quit => exact hold (hexit 1)
  | insn => exact hold (hook_conditioned hintact .execute)
  | read addr => exact hold (hook_conditioned hintact (.read addr))
  | write addr val => exact hold (hook_conditioned hintact (.write addr val))
  | periodic => exact hold commandPeriodic_conditioned
  | interrupt => exact hold (modify_conditioned fun _ => rfl)
  | freeTemps => exact hold (freeEach_conditioned _ _)
  | guest m => exact hold ((evaluating_conditioned _).seq fun _ => Keeps.pure _)

/-- The entry in the slot is not freed by the event. -/
def Stays (n : Slot) (ev : Event τ) (s : State τ) : Prop :=
  ((finalState (ev.perform s)).breaktab n).used = true

instance (ev : Event τ) (s : State τ) : Decidable (Stays n ev s) := inferInstanceAs (Decidable (_ = _))

/-- The tests of an entry with the condition `e`, in the state of the hit. -/
def AllowedBy (e : Text) (n : Slot) (s : State τ) : Prop :=
  ((s.breaktab n).threaded = true → s.threadId = (s.breaktab n).tid.zeroExtend 64) ∧
    (∃ val left v, eval e { s.session with eflag := 0 } = .ok (val, left) v ∧ val ≠ 0) ∧
    (s.breaktab n).ignoreCount = 0

/-- While an entry with an intact condition is not freed, its condition stays what it was, and every
hit decides as the condition says in the state of the hit. -/
theorem condition_kept (e : Text) (hintact : intact e = true) (n : Slot) (s₁ : State τ)
    (hentered : Entered e n s₁) (es : List (Event τ)) (hstays : Along Event.perform (Stays n) es s₁)
    (es' : List (Event τ)) (hes : es' <+: es) :
    OnReturn (runAll Event.perform es') s₁ fun _ s => (s.breaktab n).condition = e ∧
      ∀ b t, hitAllowed n s = .ok b t → (b = true ↔ AllowedBy e n s) := by
  have hstep : ∀ ev : Event τ, Triple (fun s => Entered e n s ∧ Stays n ev s) ev.perform
      (fun _ => Entered e n) fun _ => True := by
    rintro ev s ⟨hs, hstays⟩
    have hend := event_conditioned hintact ev s hs
    unfold Stays at hstays
    cases hr : ev.perform s with
    | ok a t =>
      rw [hr] at hend hstays
      exact ⟨hstays, hend hstays⟩
    | error c t => trivial
  cases hrun : runAll Event.perform es' s₁ with
  | error c s => exact onReturn_error hrun
  | ok a s =>
    have hs : Entered e n s :=
      (runAll_invariant hstep es').of_ok ⟨hentered, hstays.initial hes⟩ hrun
    refine (onReturn_ok hrun).mpr ⟨hs.2.2, fun b t hallowed => ?_⟩
    have hdecides : Decides s n (hitAllowed n s) := hitAllowed_decides
    rw [hallowed] at hdecides
    refine hdecides.1.trans (and_congr_right fun _ => and_congr_left fun _ => ?_)
    rw [hs.2.2]
    exact forall_prop_of_true hs.2.1

end Run

section FlatTarget

/-- `break 0x100 if` with a condition, and then the program comes to 0x100. -/
def breakIf (condition : String) : State FlatTarget :=
  finalState (runAll Event.perform
    [.command (.brk (["0x100", "if", condition].map Text.ofString)),
      .guest (modify fun t => { t with pc := 0x100 })] (State.init ⟨0, fun _ => 0⟩))

/-- The condition `$pc` is intact, so a second hit decides as the first. -/
theorem condition_kept_pc :
    OnReturn (runAll Event.perform [.insn]) (breakIf "$pc") fun _ s =>
      (s.breaktab firstSlot).condition = Text.ofString "$pc" ∧
        ∀ b t, hitAllowed firstSlot s = .ok b t →
          (b = true ↔ AllowedBy (Text.ofString "$pc") firstSlot s) :=
  condition_kept (Text.ofString "$pc") (by decide +kernel) firstSlot (breakIf "$pc")
    (by unfold Entered; decide +kernel) [.insn, .insn] (by decide +kernel) [.insn]
    ⟨[.insn], rfl⟩

/-- The condition `$pc==1` is false at the first hit. Then `$pc` is left of it, and the second hit in
the same state of the target stops. -/
theorem condition_lost :
    let s := breakIf "$pc==1"
    let s₁ := finalState (commandInsnHook s)
    let s₂ := finalState (commandInsnHook s₁)
    (s.breaktab firstSlot).condition = Text.ofString "$pc==1" ∧
      s₁.session.target.pc = s.session.target.pc ∧ s₁.monitorOn = false ∧
      (s₁.breaktab firstSlot).condition = Text.ofString "$pc" ∧ s₂.monitorOn = true := by
  decide +kernel

end FlatTarget

end Exec09.Debugger
