import Mathlib.Data.Fintype.Card
import Mathlib.Data.Fintype.Fin
import Exec09.Debugger.Frame

/-! # The breakpoint table stays consistent

Every enabled slot is in use, and `active_break_count` counts the enabled
slots, so that the hooks are not left early while one of them is enabled.
-/
namespace Exec09.Debugger
open Foundation
variable {τ : Type}

def enabledSlots (tab : Slot → Breakpoint) : Finset Slot :=
  Finset.univ.filter fun n => (tab n).enabled = true

structure Consistent (s : State τ) : Prop where
  used : ∀ n, (s.breaktab n).enabled = true → (s.breaktab n).used = true
  count : s.activeBreakCount = BitVec.ofNat 32 (enabledSlots s.breaktab).card

theorem mem_enabledSlots {tab : Slot → Breakpoint} {n : Slot} :
    n ∈ enabledSlots tab ↔ (tab n).enabled = true := by simp [enabledSlots]

theorem enabledSlots_update {tab : Slot → Breakpoint} {n : Slot} {br : Breakpoint}
    (h : br.enabled = (tab n).enabled) :
    enabledSlots (Function.update tab n br) = enabledSlots tab := by
  ext m
  rw [mem_enabledSlots, mem_enabledSlots]
  by_cases hm : m = n
  · rw [hm, Function.update_self, h]
  · rw [Function.update_of_ne hm]

theorem enabledSlots_enable {tab : Slot → Breakpoint} {n : Slot} {br : Breakpoint}
    (h : br.enabled = true) :
    enabledSlots (Function.update tab n br) = insert n (enabledSlots tab) := by
  ext m
  rw [Finset.mem_insert, mem_enabledSlots, mem_enabledSlots]
  by_cases hm : m = n
  · simp [hm, h]
  · simp [hm]

theorem enabledSlots_disable {tab : Slot → Breakpoint} {n : Slot} {br : Breakpoint}
    (h : br.enabled = false) :
    enabledSlots (Function.update tab n br) = (enabledSlots tab).erase n := by
  ext m
  rw [Finset.mem_erase, mem_enabledSlots, mem_enabledSlots]
  by_cases hm : m = n
  · simp [hm, h]
  · simp [hm]

/-- The count is zero only if no slot is enabled. -/
theorem Consistent.count_ne_zero {s : State τ} (h : Consistent s) {n : Slot}
    (hn : (s.breaktab n).enabled = true) : s.activeBreakCount ≠ 0 := by
  have hpos : 0 < (enabledSlots s.breaktab).card := Finset.card_pos.mpr ⟨n, mem_enabledSlots.mpr hn⟩
  have hle : (enabledSlots s.breaktab).card ≤ 32 := Finset.card_le_univ _
  rw [h.count]
  intro hzero
  have hnat := congrArg BitVec.toNat hzero
  rw [BitVec.toNat_ofNat] at hnat
  change (enabledSlots s.breaktab).card % 2 ^ 32 = 0 at hnat
  omega

/-! ## Changes inside one slot -/

/-- Only the slot `n` has changed since `s₀`, and it is enabled and in use as it was. -/
structure Around (s₀ : State τ) (n : Slot) (s : State τ) : Prop where
  other : ∀ m, m ≠ n → s.breaktab m = s₀.breaktab m
  enabled : (s.breaktab n).enabled = (s₀.breaktab n).enabled
  used : (s.breaktab n).used = (s₀.breaktab n).used
  count : s.activeBreakCount = s₀.activeBreakCount

theorem Around.refl (s : State τ) (n : Slot) : Around s n s := ⟨fun _ _ => rfl, rfl, rfl, rfl⟩

theorem Around.enabled_eq {s₀ s : State τ} {n : Slot} (h : Around s₀ n s) (m : Slot) :
    (s.breaktab m).enabled = (s₀.breaktab m).enabled := by
  by_cases hm : m = n
  · rw [hm, h.enabled]
  · rw [h.other m hm]

theorem Around.used_eq {s₀ s : State τ} {n : Slot} (h : Around s₀ n s) (m : Slot) :
    (s.breaktab m).used = (s₀.breaktab m).used := by
  by_cases hm : m = n
  · rw [hm, h.used]
  · rw [h.other m hm]

theorem Around.consistent {s₀ s : State τ} {n : Slot} (h : Around s₀ n s) (hs : Consistent s₀) :
    Consistent s where
  used m hm := by
    rw [h.enabled_eq] at hm
    rw [h.used_eq, hs.used m hm]
  count := by
    have hslots : enabledSlots s.breaktab = enabledSlots s₀.breaktab := by
      ext m
      rw [mem_enabledSlots, mem_enabledSlots, h.enabled_eq]
    rw [h.count, hs.count, hslots]

section Around
variable {s₀ : State τ} {n : Slot}

theorem setSlot_around {g : Breakpoint → Breakpoint} (henabled : ∀ br, (g br).enabled = br.enabled)
    (hused : ∀ br, (g br).used = br.used) : Keeps (Around s₀ n) (setSlot (τ := τ) n g) := by
  apply Keeps.modify
  intro s hs
  refine ⟨fun m hm => ?_, ?_, ?_, hs.count⟩
  · dsimp only
    rw [Function.update_of_ne hm, hs.other m hm]
  · dsimp only
    rw [Function.update_self, henabled, hs.enabled]
  · dsimp only
    rw [Function.update_self, hused, hs.used]

instance setCondition_around (o : Option Text) : Keeps (Around s₀ n) (setCondition (τ := τ) n o) := by
  cases o with
  | none => exact Keeps.throw _
  | some arg =>
    have hset : Keeps (Around s₀ n) (setSlot (τ := τ) n fun br => { br with condition := arg }) :=
      setSlot_around (fun _ => rfl) fun _ => rfl
    unfold setCondition
    infer_instance

instance breakOptions_around (args : List Text) :
    Keeps (Around s₀ n) (breakOptions (τ := τ) n args) := by
  cases args with
  | nil => exact Keeps.pure _
  | cons arg args =>
    have hcond : Keeps (Around s₀ n) (setSlot (τ := τ) n fun br => { br with conditional := true }) :=
      setSlot_around (fun _ => rfl) fun _ => rfl
    have hignore : ∀ c : BitVec 32,
        Keeps (Around s₀ n) (setSlot (τ := τ) n fun br => { br with ignoreCount := c }) :=
      fun _ => setSlot_around (fun _ => rfl) fun _ => rfl
    unfold breakOptions
    cases args <;> infer_instance

instance watchOptions_around (args : List Text) :
    Keeps (Around s₀ n) (watchOptions (τ := τ) n args) := by
  have hcond : Keeps (Around s₀ n) (setSlot (τ := τ) n fun br => { br with conditional := true }) :=
    setSlot_around (fun _ => rfl) fun _ => rfl
  have hprint : Keeps (Around s₀ n) (setSlot (τ := τ) n fun br => { br with keepRunning := true }) :=
    setSlot_around (fun _ => rfl) fun _ => rfl
  have hmask : ∀ v : BitVec 16,
      Keeps (Around s₀ n) (setSlot (τ := τ) n fun br => { br with writeMask := v }) :=
    fun _ => setSlot_around (fun _ => rfl) fun _ => rfl
  fun_induction watchOptions (τ := τ) n args <;> infer_instance

end Around

/-! ## Allocation and release -/

theorem brkEnable_consistent (n : Slot) (flag : Bool) :
    Triple (fun s : State τ => Consistent s ∧ (flag = true → (s.breaktab n).used = true))
      (brkEnable n flag)
      (fun _ s => Consistent s ∧ (s.breaktab n).enabled = flag) Consistent := by
  rintro s ⟨hs, hflag⟩
  unfold brkEnable
  rw [run_bind_ok run_get]
  by_cases h : (s.breaktab n).enabled = flag
  · rw [if_neg (not_not_intro h)]
    exact ⟨hs, h⟩
  · rw [if_pos h]
    have hused : ∀ m, (Function.update s.breaktab n { s.breaktab n with enabled := flag } m).enabled =
        true → (Function.update s.breaktab n { s.breaktab n with enabled := flag } m).used = true := by
      intro m hm
      by_cases hmn : m = n
      · subst hmn
        rw [Function.update_self] at hm ⊢
        exact hflag hm
      · rw [Function.update_of_ne hmn] at hm ⊢
        exact hs.used m hm
    cases flag with
    | true =>
      have hn : n ∉ enabledSlots s.breaktab := fun hn => h (mem_enabledSlots.mp hn)
      refine ⟨⟨hused, ?_⟩, ?_⟩
      · change s.activeBreakCount + 1 = _
        rw [enabledSlots_enable rfl, Finset.card_insert_of_notMem hn, hs.count, BitVec.ofNat_add]
        rfl
      · exact congrArg Breakpoint.enabled (Function.update_self n _ s.breaktab)
    | false =>
      have hn : n ∈ enabledSlots s.breaktab := mem_enabledSlots.mpr (by simpa using h)
      obtain ⟨k, hk⟩ := Nat.exists_eq_add_one.mpr (Finset.card_pos.mpr ⟨n, hn⟩)
      refine ⟨⟨hused, ?_⟩, ?_⟩
      · change s.activeBreakCount - 1 = _
        rw [enabledSlots_disable rfl, Finset.card_erase_of_mem hn, hs.count, hk, BitVec.ofNat_add,
          Nat.add_sub_cancel]
        exact BitVec.add_sub_cancel _ _
      · exact congrArg Breakpoint.enabled (Function.update_self n _ s.breaktab)

theorem setSlot_consistent {n : Slot} {g : Breakpoint → Breakpoint} {s : State τ}
    (hs : Consistent s) (henabled : (g (s.breaktab n)).enabled = (s.breaktab n).enabled)
    (hused : (s.breaktab n).enabled = true → (g (s.breaktab n)).used = true) :
    Consistent { s with breaktab := Function.update s.breaktab n (g (s.breaktab n)) } where
  used m hm := by
    dsimp only at hm ⊢
    by_cases hmn : m = n
    · subst hmn
      rw [Function.update_self] at hm ⊢
      exact hused (henabled ▸ hm)
    · rw [Function.update_of_ne hmn] at hm ⊢
      exact hs.used m hm
  count := by
    rw [hs.count]
    exact congrArg (fun t : Finset Slot => BitVec.ofNat 32 t.card) (enabledSlots_update henabled).symm

instance brkfree_consistent (n : Slot) : Keeps (Consistent (τ := τ)) (brkfree n) := by
  have hused : Triple (fun s : State τ => Consistent s ∧ (s.breaktab n).enabled = false)
      (setSlot n fun br => { br with used := false }) (fun _ => Consistent) Consistent :=
    Triple.modify fun s hs =>
      setSlot_consistent (g := fun br => { br with used := false }) hs.1 rfl (by simp [hs.2])
  unfold brkfree
  refine Keeps.iff_triple.mpr (Triple.bind ?_ fun _ => hused)
  exact (brkEnable_consistent n false).mono (fun s hs => ⟨hs, nofun⟩) (fun _ _ hs => hs) fun _ hs => hs

instance freeEach_consistent (p : Breakpoint → Bool) (ns : List Slot) :
    Keeps (Consistent (τ := τ)) (freeEach p ns) := by
  induction ns with
  | nil => exact Keeps.pure _
  | cons n ns ih =>
    unfold freeEach
    infer_instance

instance brkalloc_consistent : Keeps (Consistent (τ := τ)) brkalloc := by
  unfold brkalloc
  refine Keeps.get.seq fun t => ?_
  cases freeSlot t.breaktab with
  | none => infer_instance
  | some n =>
    have hclaim : Triple (Consistent (τ := τ)) (setSlot n (Breakpoint.claim n))
        (fun _ s => Consistent s ∧ (true = true → (s.breaktab n).used = true)) Consistent :=
      Triple.modify fun s hs => ⟨setSlot_consistent hs rfl fun _ => rfl,
        fun _ => congrArg Breakpoint.used (Function.update_self n _ s.breaktab)⟩
    have henable := (brkEnable_consistent (τ := τ) n true).mono (fun _ hs => hs)
      (fun _ _ hs => hs.1) fun _ hs => hs
    exact Keeps.iff_triple.mpr ((hclaim.bind fun _ => henable).bind fun _ => Triple.pure _ fun _ hs => hs)

/-! ## Every event -/

theorem keeps_of_around {α : Type} {m : DebugM τ α} {n : Slot}
    (h : ∀ s₀, Keeps (Around s₀ n) m) : Keeps Consistent m where
  keeps s hs := ((h s).keeps s (Around.refl s n)).consistent hs

instance evaluating_consistent {α : Type} (m : EvalM τ α) : Keeps Consistent (evaluating m) :=
  evaluating_keeps m fun _ _ hs => ⟨hs.1, hs.2⟩

theorem modify_consistent {g : State τ → State τ} (htab : ∀ s, (g s).breaktab = s.breaktab)
    (hcount : ∀ s, (g s).activeBreakCount = s.activeBreakCount) :
    Keeps Consistent (modify g : DebugM τ PUnit) := by
  apply Keeps.modify
  intro s hs
  exact ⟨by rw [htab]; exact hs.used, by rw [htab, hcount]; exact hs.count⟩

section Events
variable [Target τ]

instance breakOptions_consistent (n : Slot) (args : List Text) :
    Keeps (Consistent (τ := τ)) (breakOptions n args) :=
  keeps_of_around fun _ => breakOptions_around args

instance watchOptions_consistent (n : Slot) (args : List Text) :
    Keeps (Consistent (τ := τ)) (watchOptions n args) :=
  keeps_of_around fun _ => watchOptions_around args

omit [Target τ] in
theorem setSlot_keeps_consistent (n : Slot) {g : Breakpoint → Breakpoint}
    (henabled : ∀ br, (g br).enabled = br.enabled) (hused : ∀ br, (g br).used = br.used) :
    Keeps (Consistent (τ := τ)) (setSlot n g) :=
  keeps_of_around fun _ => setSlot_around henabled hused

instance setExitCommandLoop_consistent (v : ℤ) : Keeps (Consistent (τ := τ)) (setExitCommandLoop v) :=
  modify_consistent (fun _ => rfl) fun _ => rfl

theorem cmdBreak_consistent (args : List Text) : Keeps (Consistent (τ := τ)) (cmdBreak args) := by
  have hset : ∀ (n : Slot) (val : BitVec 64), Keeps (Consistent (τ := τ))
      (setSlot n fun br => { br with addr := val, onExecute := true }) :=
    fun n _ => setSlot_keeps_consistent n (fun _ => rfl) fun _ => rfl
  cases args with
  | nil => exact Keeps.pure _
  | cons arg args =>
    unfold cmdBreak
    infer_instance

theorem cmdWatch1_consistent (onRead onWrite : Bool) (args : List Text) :
    Keeps (Consistent (τ := τ)) (cmdWatch1 onRead onWrite args) := by
  have hset : ∀ (n : Slot) (addr : BitVec 64), Keeps (Consistent (τ := τ))
      (setSlot n fun br => { br with addr := addr, onRead := onRead, onWrite := onWrite }) :=
    fun n _ => setSlot_keeps_consistent n (fun _ => rfl) fun _ => rfl
  cases args with
  | nil => exact Keeps.pure _
  | cons arg args =>
    unfold cmdWatch1
    infer_instance

theorem cmdNext_consistent : Keeps (Consistent (τ := τ)) cmdNext := by
  have hset : ∀ (n : Slot) (addr : BitVec 64), Keeps (Consistent (τ := τ))
      (setSlot n fun br => { br with addr := addr, onExecute := true, temp := true }) :=
    fun n _ => setSlot_keeps_consistent n (fun _ => rfl) fun _ => rfl
  unfold cmdNext
  infer_instance

omit [Target τ] in
theorem cmdDelete_consistent (args : List Text) : Keeps (Consistent (τ := τ)) (cmdDelete args) := by
  cases args with
  | nil => exact freeEach_consistent _ _
  | cons arg args =>
    unfold cmdDelete
    infer_instance

instance command_consistent (c : Command) : Keeps (Consistent (τ := τ)) c.perform := by
  cases c with
  | brk args => exact cmdBreak_consistent args
  | watch args => exact cmdWatch1_consistent false true args
  | rwatch args => exact cmdWatch1_consistent true false args
  | awatch args => exact cmdWatch1_consistent true true args
  | delete args => exact cmdDelete_consistent args
  | next => exact cmdNext_consistent
  | step args =>
    have hcount := modify_consistent (τ := τ)
      (g := fun s => { s with autoBreakInsnCount := if (args.head?.map Text.atoi).getD 0 ≠ 0 then
        (args.head?.map Text.atoi).getD 0 else 1 }) (fun _ => rfl) fun _ => rfl
    exact hcount.seq fun _ => setExitCommandLoop_consistent 0
  | cont => exact setExitCommandLoop_consistent 0
  | runfor args =>
    have hstop : ∀ v, Keeps (Consistent (τ := τ)) (setStopAfterMs v) :=
      fun _ => modify_consistent (fun _ => rfl) fun _ => rfl
    change Keeps Consistent (cmdRunfor args)
    cases args <;> unfold cmdRunfor <;> infer_instance
  | quit => exact setExitCommandLoop_consistent 1

instance countedDown_consistent (n : Slot) : Keeps (Consistent (τ := τ)) (countedDown n) := by
  have hcount : Keeps (Consistent (τ := τ))
      (setSlot n fun br => { br with ignoreCount := br.ignoreCount - 1 }) :=
    setSlot_keeps_consistent n (fun _ => rfl) fun _ => rfl
  unfold countedDown
  infer_instance

instance conditionHolds_consistent (n : Slot) : Keeps (Consistent (τ := τ)) (conditionHolds n) := by
  have hcond : ∀ left : Text, Keeps (Consistent (τ := τ))
      (setSlot n fun br => { br with condition := left }) :=
    fun _ => setSlot_keeps_consistent n (fun _ => rfl) fun _ => rfl
  unfold conditionHolds
  infer_instance

instance hitAllowed_consistent (n : Slot) : Keeps (Consistent (τ := τ)) (hitAllowed n) := by
  unfold hitAllowed
  infer_instance

instance breakpointHit_consistent (n : Slot) : Keeps (Consistent (τ := τ)) (breakpointHit n) := by
  have hhits : Keeps (Consistent (τ := τ)) (modify fun s => { s with hits := n :: s.hits }) :=
    modify_consistent (fun _ => rfl) fun _ => rfl
  have hstop : Keeps (Consistent (τ := τ)) (modify fun s => { s with
      monitorOn := !(s.breaktab n).keepRunning
      stopRequested := s.stopRequested || !(s.breaktab n).keepRunning }) :=
    modify_consistent (fun _ => rfl) fun _ => rfl
  unfold breakpointHit
  infer_instance

theorem commandInsnHook_consistent : Keeps (Consistent (τ := τ)) commandInsnHook := by
  have htrace : ∀ pc, Keeps (Consistent (τ := τ)) (commandTraceInsn pc) :=
    fun _ => modify_consistent (fun _ => rfl) fun _ => rfl
  unfold commandInsnHook
  refine Keeps.get.seq fun s => (htrace _).seq fun _ => Keeps.get.seq fun t => ?_
  cases triggered Breakpoint.onExecute (absPc t) t with
  | none => exact Keeps.pure _
  | some n =>
    unfold freeReached
    infer_instance

theorem commandReadHook_consistent (addr : BitVec 64) :
    Keeps (Consistent (τ := τ)) (commandReadHook addr) := by
  unfold commandReadHook
  refine Keeps.get.seq fun s => ?_
  cases triggered Breakpoint.onRead addr s with
  | none => exact Keeps.pure _
  | some n => exact breakpointHit_consistent n

instance threadHook_consistent (addr : BitVec 64) :
    Keeps (Consistent (τ := τ)) (threadHook addr) := by
  have hthread : ∀ word : BitVec 64, Keeps (Consistent (τ := τ)) (modify fun s => { s with
      threadId := Target.toAbsolute ((word.setWidth 16).zeroExtend 64) s.session.target }) :=
    fun _ => modify_consistent (fun _ => rfl) fun _ => rfl
  unfold threadHook commandChangeThread
  infer_instance

theorem commandWriteHook_consistent (addr : BitVec 64) (val : U8) :
    Keeps (Consistent (τ := τ)) (commandWriteHook addr val) := by
  have hwrite : ∀ n, Keeps (Consistent (τ := τ)) (rememberWrite n val) := by
    intro n
    apply setSlot_keeps_consistent n
    · intro br
      split <;> rfl
    · intro br
      split <;> rfl
  unfold commandWriteHook
  refine Keeps.get.seq fun s => ?_
  cases triggered Breakpoint.onWrite addr s with
  | none => exact threadHook_consistent addr
  | some n => infer_instance

omit [Target τ] in
theorem commandPeriodic_consistent : Keeps (Consistent (τ := τ)) commandPeriodic := by
  have hms := modify_consistent (τ := τ) (g := fun s => { s with stopAfterMs := s.stopAfterMs - 100 })
    (fun _ => rfl) fun _ => rfl
  have hzero := modify_consistent (τ := τ) (g := fun s => { s with stopAfterMs := 0 })
    (fun _ => rfl) fun _ => rfl
  have hstop : Keeps (Consistent (τ := τ)) requestStop :=
    modify_consistent (fun _ => rfl) fun _ => rfl
  unfold commandPeriodic
  infer_instance

theorem event_consistent (e : Event τ) : Keeps Consistent e.perform := by
  cases e with
  | command c => exact command_consistent c
  | insn => exact commandInsnHook_consistent
  | read addr => exact commandReadHook_consistent addr
  | write addr val => exact commandWriteHook_consistent addr val
  | periodic => exact commandPeriodic_consistent
  | interrupt => exact modify_consistent (fun _ => rfl) fun _ => rfl
  | freeTemps => exact freeEach_consistent _ _
  | guest m => exact (evaluating_consistent _).seq fun _ => Keeps.pure _

end Events

theorem init_consistent (target : τ) : Consistent (State.init target) where
  used n hn := by cases hn
  count := by
    have hnone : enabledSlots (fun _ => Breakpoint.blank) = ∅ :=
      Finset.filter_eq_empty_iff.mpr fun _ _ => by simp [Breakpoint.blank]
    change (0 : BitVec 32) = BitVec.ofNat 32 (enabledSlots fun _ => Breakpoint.blank).card
    rw [hnone]
    rfl

/-- The table is consistent after every run from the start of the program. -/
theorem run_consistent [Target τ] (target : τ) (es : List (Event τ)) :
    Consistent (finalState (runAll Event.perform es (State.init target))) :=
  Triple.iff_final.mp (runAll_keeps (fun e => Keeps.iff_triple.mp (event_consistent e)) es) _
    (init_consistent target)

end Exec09.Debugger
