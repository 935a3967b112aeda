import Exec09.Cpu.NextInsn
import Exec09.Cpu.PushPull

/-! # The memory an instruction writes

Most programs of the processor only read. An instruction that writes does so at
the end of a program that reads: at the effective address, or on the stack from
the stack pointer down. `Wrote` collects the addresses written since a point of
the trace, and `Insn.footprint` says which these are for each instruction.
-/
namespace Exec09
open Foundation Foundation.Stack
variable {β : Type}

set_option synthInstance.maxSize 100000

/-- The accesses since `t` write exactly the bytes of `W`. -/
def Wrote (t : List Access) (W : ℕ → Prop) (s : Cpu β) : Prop :=
  ∃ l, s.trace = l ++ t ∧ ∀ a, (∃ e ∈ l, e.Writes a) ↔ W a

section Wrote
variable {t : List Access} {W V : ℕ → Prop} {s : Cpu β}

theorem Wrote.start (s : Cpu β) : Wrote s.trace (fun _ => False) s := ⟨[], rfl, by simp⟩

theorem Wrote.congr (h : Wrote t W s) (hWV : ∀ a, W a ↔ V a) : Wrote t V s := by
  rcases h with ⟨l, htrace, hl⟩
  exact ⟨l, htrace, fun a => (hl a).trans (hWV a)⟩

/-- Accesses after those that are known. -/
theorem Wrote.append {s' : Cpu β} (h : Wrote t W s) (h' : Wrote s.trace V s') :
    Wrote t (fun a => V a ∨ W a) s' := by
  rcases h with ⟨l, htrace, hl⟩
  rcases h' with ⟨l', htrace', hl'⟩
  refine ⟨l' ++ l, by rw [htrace', htrace, List.append_assoc], fun a => ?_⟩
  simp only [← hl, ← hl', List.mem_append, or_and_right, exists_or]

theorem Wrote.read {s' : Cpu β} {e : Access} (h : Wrote t W s) (htrace : s'.trace = e :: s.trace)
    (he : ∀ a, ¬e.Writes a) : Wrote t W s' := by
  have hnext : Wrote s.trace (fun _ => False) s' := ⟨[e], htrace, fun a => by simp [he a]⟩
  exact (h.append hnext).congr fun a => by rw [false_or]

/-! ## Programs that only read -/

theorem modify_wrote {g : Cpu β → Cpu β} (hg : ∀ s, (g s).trace = s.trace) :
    Keeps (Wrote t W) (modify g : CpuM β Unit) := by
  apply Keeps.modify
  intro s hs
  rw [Wrote, hg s]
  exact hs

instance onBus_wrote {α : Type} (m : EStateM Stop β α) : Keeps (Wrote t W) (onBus m) where
  keeps s h := by
    unfold onBus
    cases m s.bus <;> exact h

instance noteRead8_wrote (a : ℕ) : Keeps (Wrote (β := β) t W) (note (.read8 a)) :=
  Keeps.modify fun _ h => h.read rfl fun _ => id
instance noteRead16_wrote (a : ℕ) : Keeps (Wrote (β := β) t W) (note (.read16 a)) :=
  Keeps.modify fun _ h => h.read rfl fun _ => id
instance charge_wrote (n : ℤ) : Keeps (Wrote (β := β) t W) (charge n) := modify_wrote fun _ => rfl
instance charges_wrote : Charges (Wrote (β := β) t W) := ⟨fun n _ => charge_wrote n⟩
instance setEa_wrote (a : ℕ) : Keeps (Wrote (β := β) t W) (setEa a) := modify_wrote fun _ => rfl
instance withFlags_wrote {α : Type} (op : Flags → α × Flags) :
    Keeps (Wrote (β := β) t W) (withFlags op) := ⟨fun _ h => h⟩
instance changePc_wrote (a : ℕ) : Keeps (Wrote (β := β) t W) (changePc a) :=
  modify_wrote fun _ => rfl
instance advancePc_wrote (n : ℕ) : Keeps (Wrote (β := β) t W) (advancePc n) :=
  modify_wrote fun _ => rfl
instance setPc_wrote (v : ℕ) : Keeps (Wrote (β := β) t W) (setPc v) := modify_wrote fun _ => rfl
instance setA_wrote (v : ℕ) : Keeps (Wrote (β := β) t W) (setA v) := modify_wrote fun _ => rfl
instance setB_wrote (v : ℕ) : Keeps (Wrote (β := β) t W) (setB v) := modify_wrote fun _ => rfl
instance setDp_wrote (v : ℕ) : Keeps (Wrote (β := β) t W) (setDp v) := modify_wrote fun _ => rfl
instance setX_wrote (v : ℕ) : Keeps (Wrote (β := β) t W) (setX v) := modify_wrote fun _ => rfl
instance setY_wrote (v : ℕ) : Keeps (Wrote (β := β) t W) (setY v) := modify_wrote fun _ => rfl
instance setEfi_wrote (v : ℕ) : Keeps (Wrote (β := β) t W) (setEfi v) := modify_wrote fun _ => rfl
instance setCc_wrote (v : ℕ) : Keeps (Wrote (β := β) t W) (setCc v) := modify_wrote fun _ => rfl
instance setCwaiState_wrote (c : CwaiState) : Keeps (Wrote (β := β) t W) (setCwaiState c) :=
  modify_wrote fun _ => rfl
instance hook_wrote (c : Cpu β → ℕ) : Keeps (Wrote t W) (commandExitIrqHook c) :=
  modify_wrote fun _ => rfl
instance setIndexReg_wrote (R : IndexReg) (v : ℕ) : Keeps (Wrote (β := β) t W) (setIndexReg R v) :=
  modify_wrote fun _ => by cases R <;> rfl
instance setStackReg_wrote (sp : StackReg) (v : ℕ) :
    Keeps (Wrote (β := β) t W) (setStackReg sp v) := modify_wrote fun s => sp.set_trace v s

variable [Bus β]

end Wrote

/-! ## Stores at the effective address -/

section Stores
variable {α : Type} {t : List Access} {W : ℕ → Prop} {e : ℕ}

instance withFlags_ea (op : Flags → α × Flags) : Keeps (EaIs (β := β) e) (withFlags op) :=
  ⟨fun _ h => h⟩

/-- The bytes of `W` have been written since `t`, and the effective address is `e`. -/
def Directed (t : List Access) (W : ℕ → Prop) (e : ℕ) (s : Cpu β) : Prop := Wrote t W s ∧ EaIs e s

theorem directed_keeps {m : CpuM β α} [Keeps (Wrote t W) m] [Keeps (EaIs e) m] :
    Triple (Directed t W e) m (fun _ => Directed t W e) Anywhere :=
  (Keeps.anywhere.and Keeps.anywhere).mono (fun _ h => h) (fun _ _ h => h) fun _ _ => trivial

theorem lookEa_directed {Q : α → Cpu β → Prop} {f : ℕ → CpuM β α}
    (h : Triple (Directed t W e) (f e) Q Anywhere) :
    Triple (Directed t W e) (look Cpu.ea >>= f) Q Anywhere :=
  Triple.value (look_triple fun _ hs => ⟨hs.2, hs⟩) h

variable [Bus β]

theorem write8_wrote (a v : ℕ) : Triple (Wrote (β := β) t W) (write8 a v)
    (fun _ => Wrote t fun b => b = a ∨ W b) Anywhere := by
  intro s hs
  have hnext (b : β) : Wrote s.trace (· = a)
      ({ s with trace := .write8 a v :: s.trace, bus := b } : Cpu β) :=
    ⟨[.write8 a v], rfl, fun b => by simp [Access.Writes, eq_comm]⟩
  rw [write8_run]
  cases Bus.cpuWrite8 (getPc s) a (BitVec.ofNat 8 v) s.bus with
  | ok u b => exact hs.append (hnext b)
  | error e b => trivial

theorem store8_wrote (v : ℕ) :
    Triple (Directed (β := β) t (fun _ => False) e) (do write8 (← look Cpu.ea) v)
      (fun _ => Wrote t (· = e)) Anywhere := by
  apply lookEa_directed
  apply (write8_wrote e v).mono (fun _ h => h.1) _ fun _ h => h
  exact fun _ s h => h.congr fun a => by rw [or_false]

theorem store16_wrote (v : ℕ) :
    Triple (Directed (β := β) t (fun _ => False) e) (do wrmem16 (← look Cpu.ea) v)
      (fun _ => Wrote t fun a => a = e ∨ a = (e + 1) % 65536) Anywhere := by
  apply lookEa_directed
  unfold wrmem16
  refine Triple.bind (Q := fun _ => Wrote t (· = e)) ?_ fun _ => ?_
  · apply (write8_wrote e (v >>> 8)).mono (fun _ h => h.1) _ fun _ h => h
    exact fun _ s h => h.congr fun a => by rw [or_false]
  · refine Keeps.anywhere.bind fun _ => ?_
    apply (write8_wrote _ _).mono (fun _ h => h) _ fun _ h => h
    intro _ s h
    refine h.congr fun a => ?_
    rw [Word.and_65535, or_comm]

end Stores

/-! ## Frames on the stack -/

section Frames
variable {α : Type} {t : List Access} {top v : ℕ}

/-- The stack pointer is `v`. -/
def SIs (v : ℕ) (s : Cpu β) : Prop := s.S = v

theorem modify_sIs {g : Cpu β → Cpu β} (hg : ∀ s, (g s).S = s.S) :
    Keeps (SIs v) (modify g : CpuM β Unit) := Keeps.modify fun s h => (hg s).trans h

instance note_sIs (e : Access) : Keeps (SIs (β := β) v) (note e) := modify_sIs fun _ => rfl
instance onBus_sIs (m : EStateM Stop β α) : Keeps (SIs v) (onBus m) where
  keeps s h := by
    unfold onBus
    cases m s.bus <;> exact h
instance charge_sIs (n : ℤ) : Keeps (SIs (β := β) v) (charge n) := modify_sIs fun _ => rfl
instance setEa_sIs (a : ℕ) : Keeps (SIs (β := β) v) (setEa a) := modify_sIs fun _ => rfl
instance setEfi_sIs (m : ℕ) : Keeps (SIs (β := β) v) (setEfi m) := modify_sIs fun _ => rfl
instance changePc_sIs (a : ℕ) : Keeps (SIs (β := β) v) (changePc a) := modify_sIs fun _ => rfl
instance advancePc_sIs (n : ℕ) : Keeps (SIs (β := β) v) (advancePc n) := modify_sIs fun _ => rfl
instance setCwaiState_sIs (c : CwaiState) : Keeps (SIs (β := β) v) (setCwaiState c) :=
  modify_sIs fun _ => rfl

/-- Nothing has been written since `t`, and the stack pointer is `top`. -/
def AtTop (t : List Access) (top : ℕ) (s : Cpu β) : Prop := Wrote t (fun _ => False) s ∧ SIs top s

/-- The bytes written since `t` are those from the stack pointer up to `top`. -/
def Lowered (t : List Access) (top : ℕ) (s : Cpu β) : Prop := Wrote t (Span s.S top) s

theorem atTop_keeps {m : CpuM β α} [Keeps (Wrote t fun _ => False) m] [Keeps (SIs top) m] :
    Triple (AtTop t top) m (fun _ => AtTop t top) Anywhere :=
  (Keeps.anywhere.and Keeps.anywhere).mono (fun _ h => h) (fun _ _ h => h) fun _ _ => trivial

theorem lowered_keeps {m : CpuM β α} (hw : ∀ W, Keeps (Wrote t W) m) (hs : ∀ v, Keeps (SIs v) m) :
    Triple (Lowered t top) m (fun _ => Lowered t top) Anywhere := by
  intro s h
  have hboth := (Keeps.anywhere (h := hw (Span s.S top))).and (Keeps.anywhere (h := hs s.S)) s
    ⟨h, rfl⟩
  cases hr : m s with
  | error e s' => trivial
  | ok a s' =>
    rw [hr] at hboth
    obtain ⟨hwrote, hS⟩ := hboth
    change Wrote t (Span s'.S top) s'
    rwa [hS]

/-- A push of `n` bytes leaves the stack pointer that far below. -/
theorem span_depth {low n a : ℕ} (hn : n ≤ 12) (h : (low + n) % 65536 = top % 65536)
    (hlow : 0 < n → low < 65536) :
    Span low top a ↔ ∃ k, 1 ≤ k ∧ k ≤ n ∧ a = (top + (65536 - k)) % 65536 := by
  constructor
  · rintro ⟨i, hi, ha⟩
    exact ⟨n - i, by omega, by omega, by omega⟩
  · rintro ⟨k, hpos, hk, ha⟩
    exact ⟨n - k, by omega, by omega⟩

theorem stackWrites_only {bytes : List ℕ} {e : Access} {a : ℕ} (he : e ∈ stackWrites top bytes) :
    e.Writes a ↔ e.addr = a := by
  induction bytes with
  | nil => cases he
  | cons v bytes ih =>
    rcases List.mem_cons.mp he with rfl | he
    · exact Iff.rfl
    · exact ih he

theorem stackWrites_writes {bytes : List ℕ} {a : ℕ} :
    (∃ e ∈ stackWrites top bytes, e.Writes a) ↔
      ∃ k, 1 ≤ k ∧ k ≤ bytes.length ∧ a = (top + (65536 - k)) % 65536 := by
  rw [← stackWrites_addr]
  exact exists_congr fun e => and_congr_right stackWrites_only

theorem Pushing.wrote {sp : StackReg} {s₀ s : Cpu β} {bytes : List ℕ}
    (h : Pushing sp s₀ bytes s) (hb : bytes.length ≤ 12) (h₀ : Wrote t (fun _ => False) s₀) :
    Wrote t (Span (sp.get s) (sp.get s₀)) s := by
  have hnext : Wrote s₀.trace (Span (sp.get s) (sp.get s₀)) s := by
    refine ⟨_, h.trace, fun a => ?_⟩
    rw [span_depth hb h.depth fun hpos => h.lt (List.ne_nil_of_length_pos hpos)]
    exact stackWrites_writes
  exact (h₀.append hnext).congr fun a => by rw [or_false]

end Frames

section Calls
variable [Bus β] {t : List Access} {top : ℕ}

theorem psh_wrote {sp : StackReg} {s s' : Cpu β} (h : psh sp s = .ok () s') :
    Wrote s.trace (Span (sp.get s') (sp.get s)) s' := by
  rw [psh_eq] at h
  obtain ⟨post, s₁, hpost, hrun⟩ := of_run_bind_ok h
  obtain ⟨hfetch, -⟩ := immByte_fetched hpost
  have hget : sp.get s₁ = sp.get s := by
    rw [hfetch]
    cases sp <;> rfl
  have hread : Wrote s.trace (fun _ => False) s₁ :=
    Keeps.anywhere.of_ok (Wrote.start s) hpost
  have hpushed : Pushed sp s₁ (pushedBytes sp post s₁) s' :=
    (pushed_pushes.all (pushSize_le post)).of_ok (Pushing.start sp s₁) hrun
  have hlen := pushedBytes_length sp post s₁
  have hle := pushSize_le post
  have hwrote := Pushing.wrote hpushed (by omega) hread
  rw [← hget]
  cases sp <;> exact hwrote

theorem push16_lowered (v : ℕ) :
    Triple (AtTop (β := β) t top) (push16 .S v) (fun _ => Lowered t top) Anywhere := by
  rintro s ⟨hs, rfl⟩
  have hpush := push16_pushing (by simp) v s (Pushing.start .S s)
  cases hr : push16 .S v s with
  | error e s' => trivial
  | ok u s' =>
    rw [hr] at hpush
    exact hpush.wrote (by simp) hs

theorem stackMachineState_lowered :
    Triple (AtTop (β := β) t top) (stackMachineState true) (fun _ => Lowered t top) Anywhere := by
  rintro s ⟨hs, rfl⟩
  have hpush := stackMachineState_pushing s rfl
  cases hr : stackMachineState true s with
  | error e s' => trivial
  | ok u s' =>
    rw [hr] at hpush
    exact hpush.wrote (by simp [fullFrame]) hs

theorem vector_lowered (a : ℕ) : Triple (Lowered (β := β) t top) (do changePc (← read16 a))
    (fun _ => Lowered t top) Anywhere := by
  refine (lowered_keeps (fun _ => inferInstance) fun _ => ?_).bind fun _ =>
    lowered_keeps (fun _ => inferInstance) fun _ => inferInstance
  unfold read16
  infer_instance

omit [Bus β] in
theorem jump_lowered : Triple (Lowered (β := β) t top) (do changePc (← look Cpu.ea); monitorCall)
    (fun _ => Lowered t top) Anywhere :=
  lowered_keeps (fun _ => inferInstance) fun _ => inferInstance

theorem jsr_lowered : Triple (AtTop (β := β) t top) jsr (fun _ => Lowered t top) Anywhere := by
  unfold jsr
  refine atTop_keeps.bind fun pc => (push16_lowered _).bind fun _ => jump_lowered

theorem bsr_lowered : Triple (AtTop (β := β) t top) bsr (fun _ => Lowered t top) Anywhere := by
  have hbyte : Keeps (SIs (β := β) top) immByte := by unfold immByte read8; infer_instance
  unfold bsr
  refine atTop_keeps.bind fun n => atTop_keeps.bind fun pc => atTop_keeps.bind fun _ =>
    atTop_keeps.bind fun pc => (push16_lowered _).bind fun _ => ?_
  exact (lowered_keeps (fun _ => inferInstance) fun _ => inferInstance).bind fun _ => jump_lowered

theorem longBsr_lowered :
    Triple (AtTop (β := β) t top) longBsr (fun _ => Lowered t top) Anywhere := by
  have hword : Keeps (SIs (β := β) top) immWord := by unfold immWord read16; infer_instance
  unfold longBsr
  refine atTop_keeps.bind fun n => atTop_keeps.bind fun pc => atTop_keeps.bind fun _ =>
    atTop_keeps.bind fun pc => (push16_lowered _).bind fun _ => ?_
  exact (lowered_keeps (fun _ => inferInstance) fun _ => inferInstance).bind fun _ => jump_lowered

theorem swi_lowered : Triple (AtTop (β := β) t top) swi (fun _ => Lowered t top) Anywhere := by
  unfold swi
  refine stackMachineState_lowered.bind fun _ => ?_
  exact (lowered_keeps (fun _ => inferInstance) fun _ => inferInstance).bind fun _ =>
    vector_lowered _

theorem swi2_lowered : Triple (AtTop (β := β) t top) swi2 (fun _ => Lowered t top) Anywhere := by
  unfold swi2
  exact atTop_keeps.bind fun _ => stackMachineState_lowered.bind fun _ => vector_lowered _

theorem swi3_lowered : Triple (AtTop (β := β) t top) swi3 (fun _ => Lowered t top) Anywhere := by
  unfold swi3
  exact atTop_keeps.bind fun _ => stackMachineState_lowered.bind fun _ => vector_lowered _

/-- The first pass of CWAI stacks the state, the others read only. -/
theorem cwai_wrote {s s' : Cpu β} (h : cwai s = .ok () s') : Wrote s.trace
    (fun a => s.cwaiState = .idle ∧ Span s'.S s.S a) s' := by
  rw [cwai, run_bind_ok (run_look _ s)] at h
  cases hstate : s.cwaiState with
  | idle =>
    rw [hstate] at h
    have hbyte : Keeps (SIs (β := β) s.S) immByte := by unfold immByte read8; infer_instance
    have hframe : Triple (AtTop (β := β) s.trace s.S) (do
        let n ← immByte
        setEfi ((← look Cpu.EFI) &&& int8 n)
        charge 1
        stackMachineState true
        setCwaiState .wait
        changePc (usub (← look Cpu.PC) 2)) (fun _ => Lowered s.trace s.S) Anywhere := by
      refine atTop_keeps.bind fun n => atTop_keeps.bind fun efi => atTop_keeps.bind fun _ =>
        atTop_keeps.bind fun _ => stackMachineState_lowered.bind fun _ => ?_
      exact lowered_keeps (fun _ => inferInstance) fun _ => inferInstance
    have hwrote : Wrote s.trace (Span s'.S s.S) s' := hframe.of_ok ⟨Wrote.start s, rfl⟩ h
    exact hwrote.congr fun a => by simp
  | wait =>
    rw [hstate] at h
    have hwait : Keeps (Wrote (β := β) s.trace fun _ => False)
        (do charge 1; changePc (usub (← look Cpu.PC) 1)) := inferInstance
    have hwrote : Wrote s.trace (fun _ => False) s' := Keeps.anywhere.of_ok (Wrote.start s) h
    exact hwrote.congr fun a => by simp

end Calls

/-! ## The footprint of an instruction -/

section Footprint
variable [Bus β]

/-- The mode is evaluated in `s` to a state that satisfies `P`. -/
def Mode.Leaves (m : Mode) (s : Cpu β) (P : Cpu β → Prop) : Prop :=
  ∃ s₁, m.address s = .ok () s₁ ∧ P s₁

/-- The bytes that an instruction may write from `s`, the state after its opcode, to the end of
the instruction in `s'`. -/
def Insn.footprint (s s' : Cpu β) : Insn → ℕ → Prop
  | .rmw _ m | .st _ m => fun a => m.Leaves s fun s₁ => a = s₁.ea
  | .std m | .st16 _ m => fun a => m.Leaves s fun s₁ => a = s₁.ea ∨ a = (s₁.ea + 1) % 65536
  | .psh sp => Span (sp.get s') (sp.get s)
  | .jsr m => fun a => m.Leaves s fun s₁ => Span s'.S s₁.S a
  | .bsr | .longBsr | .swi | .swi2 | .swi3 => Span s'.S s.S
  | .cwai => fun a => s.cwaiState = .idle ∧ Span s'.S s.S a
  | _ => fun _ => False

/-- The instructions that may write. -/
def Insn.writes : Insn → Bool
  | .rmw .. | .st .. | .std _ | .st16 .. | .psh _ | .jsr _ | .bsr | .longBsr => true
  | .swi | .swi2 | .swi3 | .cwai => true
  | _ => false

theorem exec_reads {i : Insn} (hi : i.writes = false) (t : List Access) (W : ℕ → Prop) :
    Keeps (Wrote (β := β) t W) i.exec := by
  cases i <;> first | (unfold Insn.exec; infer_instance) | cases hi

/-- What follows an addressing mode starts with nothing written and the effective address in
`ea`. -/
theorem wrote_of_address {m : Mode} {rest : CpuM β Unit} {W : Cpu β → ℕ → Prop} {s s' : Cpu β}
    (h : (do m.address; rest) s = .ok () s')
    (hrest : ∀ s₁ : Cpu β, Wrote s.trace (fun _ => False) s₁ → rest s₁ = .ok () s' →
      Wrote s.trace (W s₁) s') :
    Wrote s.trace (fun a => m.Leaves s fun s₁ => W s₁ a) s' := by
  obtain ⟨_, s₁, haddress, hrun⟩ := of_run_bind_ok h
  have hread : Wrote s.trace (fun _ => False) s₁ := Keeps.anywhere.of_ok (Wrote.start s) haddress
  refine (hrest s₁ hread hrun).congr fun a => ⟨fun ha => ⟨s₁, haddress, ha⟩, ?_⟩
  rintro ⟨s₂, haddress₂, ha⟩
  rw [haddress] at haddress₂
  cases haddress₂
  exact ha

theorem insn_wrote {i : Insn} {s s' : Cpu β} (h : i.exec s = .ok () s') :
    Wrote s.trace (i.footprint s s') s' := by
  cases i
  case rmw op m =>
    refine wrote_of_address h fun s₁ hs₁ hrun => ?_
    have hstore : Triple (Directed (β := β) s.trace (fun _ => False) s₁.ea) (do
        let arg ← read8 (← look Cpu.ea)
        let res ← unaryOp op arg
        write8 (← look Cpu.ea) res) (fun _ => Wrote s.trace (· = s₁.ea)) Anywhere :=
      lookEa_directed (directed_keeps.bind fun arg => directed_keeps.bind fun res =>
        store8_wrote res)
    exact hstore.of_ok ⟨hs₁, rfl⟩ hrun
  case st r m =>
    refine wrote_of_address h fun s₁ hs₁ hrun => ?_
    have hstore : Triple (Directed (β := β) s.trace (fun _ => False) s₁.ea) (do
        let arg ← look r.get
        updateFlags (stFlags · arg)
        write8 (← look Cpu.ea) arg) (fun _ => Wrote s.trace (· = s₁.ea)) Anywhere :=
      Triple.bind (look_triple fun _ hs => hs) fun arg => directed_keeps.bind fun _ =>
        store8_wrote arg
    exact hstore.of_ok ⟨hs₁, rfl⟩ hrun
  case std m =>
    refine wrote_of_address h fun s₁ hs₁ hrun => ?_
    have hstore : Triple (Directed (β := β) s.trace (fun _ => False) s₁.ea) (do
        let A ← look Cpu.A
        let D ← look getD
        updateFlags fun f => { f with N := A, Z := D, OV := 0 }
        wrmem16 (← look Cpu.ea) D)
        (fun _ => Wrote s.trace fun a => a = s₁.ea ∨ a = (s₁.ea + 1) % 65536) Anywhere :=
      Triple.bind (look_triple fun _ hs => hs) fun A => Triple.bind (look_triple fun _ hs => hs)
        fun D => directed_keeps.bind fun _ => store16_wrote D
    exact hstore.of_ok ⟨hs₁, rfl⟩ hrun
  case st16 r m =>
    refine wrote_of_address h fun s₁ hs₁ hrun => ?_
    have hstore : Triple (Directed (β := β) s.trace (fun _ => False) s₁.ea) (do
        let arg ← look r.get
        updateFlags (st16Flags · arg)
        wrmem16 (← look Cpu.ea) arg)
        (fun _ => Wrote s.trace fun a => a = s₁.ea ∨ a = (s₁.ea + 1) % 65536) Anywhere :=
      Triple.bind (look_triple fun _ hs => hs) fun arg => directed_keeps.bind fun _ =>
        store16_wrote arg
    exact hstore.of_ok ⟨hs₁, rfl⟩ hrun
  case jsr m => exact wrote_of_address h fun s₁ hs₁ hrun => jsr_lowered.of_ok ⟨hs₁, rfl⟩ hrun
  case psh sp => exact psh_wrote h
  case bsr => exact bsr_lowered.of_ok ⟨Wrote.start s, rfl⟩ h
  case longBsr => exact longBsr_lowered.of_ok ⟨Wrote.start s, rfl⟩ h
  case swi => exact swi_lowered.of_ok ⟨Wrote.start s, rfl⟩ h
  case swi2 => exact swi2_lowered.of_ok ⟨Wrote.start s, rfl⟩ h
  case swi3 => exact swi3_lowered.of_ok ⟨Wrote.start s, rfl⟩ h
  case cwai => exact cwai_wrote h
  -- the others only read
  all_goals exact (Keeps.anywhere (h := exec_reads rfl s.trace _)).of_ok (Wrote.start s) h

/-- The bytes one instruction writes, unless an interrupt is taken after it. -/
theorem step_footprint {s s₁ s₂ s' : Cpu β} {i : Insn}
    (hsel : fetchOpcode (latchPc s) = .ok (.insn i) s₁) (hexec : i.exec s₁ = .ok () s₂)
    (hquiet : s₂.ccChanged = true → firqDeliverable s₂ = false ∧ irqDeliverable s₂ = false)
    (hstep : cpuStep s = .ok () s') : Wrote s.trace (i.footprint s₁ s') s' := by
  have hread : Wrote s.trace (fun _ => False) s₁ :=
    Keeps.anywhere.of_ok (Wrote.start (latchPc s)) hsel
  have hwrote : Wrote s.trace (i.footprint s₁ s₂) s₂ :=
    (hread.append (insn_wrote hexec)).congr fun a => by rw [or_false]
  have hfetch : fetchExecute s = .ok () s₂ := by
    rw [fetchExecute, run_bind_ok (run_modify latchPc), run_bind_ok hsel]
    exact hexec
  rw [cpuStep, run_bind_ok hfetch, run_bind_ok (run_look _ _)] at hstep
  by_cases hc : s₂.ccChanged = true
  · rw [if_pos hc, ccModified_idle (hquiet hc).1 (hquiet hc).2] at hstep
    cases hstep
    cases i <;> try exact hwrote
    case psh sp => cases sp <;> exact hwrote
  · rw [if_neg hc] at hstep
    cases hstep
    exact hwrote

end Footprint

/-! `STD ,--X` around the end of the memory, and `JSR ,S++`, which returns to the stack pointer
that it started with. -/

section FlatRam

def storeAround : Cpu FlatRam :=
  { Cpu.powerOn (.image [(0x1000, [0xed, 0x83])]) with PC := 0x1000, X := 1, A := 0x12, B := 0x34 }

def storeFetched : Cpu FlatRam := finalState (fetchOpcode (latchPc storeAround))

theorem step_footprint_around :
    Wrote storeAround.trace (fun a => a = 0xffff ∨ a = 0) (finalState (cpuStep storeAround)) := by
  have hsel : fetchOpcode (latchPc storeAround) = .ok (.insn (.std (.indexed 0 0))) storeFetched :=
    rfl
  have hexec : returned ((Insn.std (.indexed 0 0)).exec storeFetched) = true := by decide +kernel
  have hquiet : (finalState ((Insn.std (.indexed 0 0)).exec storeFetched)).ccChanged = false := by
    decide +kernel
  have hstep : returned (cpuStep storeAround) = true := by decide +kernel
  have haddress : returned ((Mode.indexed 0 0).address storeFetched) = true := by decide +kernel
  have hea : (finalState ((Mode.indexed 0 0).address storeFetched)).ea = 0xffff := by
    decide +kernel
  refine (step_footprint hsel (eq_ok_finalState hexec) (fun h => ?_)
    (eq_ok_finalState hstep)).congr fun a => ?_
  · rw [hquiet] at h
    cases h
  · constructor
    · rintro ⟨s₁, hs₁, ha⟩
      rw [eq_ok_finalState haddress] at hs₁
      cases hs₁
      rwa [hea] at ha
    · intro ha
      refine ⟨_, eq_ok_finalState haddress, ?_⟩
      change a = Cpu.ea _ ∨ a = (Cpu.ea _ + 1) % 65536
      rwa [hea]

def jsrPulled : Cpu FlatRam :=
  { Cpu.powerOn (.image [(0x1000, [0xad, 0xe1])]) with PC := 0x1000, S := 0x8000 }

theorem jsr_stack_footprint :
    ¬∀ (m : Mode) (s s₁ s₂ s' : Cpu FlatRam), fetchOpcode (latchPc s) = .ok (.insn (.jsr m)) s₁ →
      (Insn.jsr m).exec s₁ = .ok () s₂ → s₂.ccChanged = false → cpuStep s = .ok () s' →
      Wrote s.trace (Span s'.S s.S) s' := by
  intro h
  have hsel : fetchOpcode (latchPc jsrPulled) = .ok (.insn (.jsr (.indexed 0 3))) _ := rfl
  have hexec : returned ((Insn.jsr (.indexed 0 3)).exec
      (finalState (fetchOpcode (latchPc jsrPulled)))) = true := by decide +kernel
  have hstep : returned (cpuStep jsrPulled) = true := by decide +kernel
  obtain ⟨l, htrace, hl⟩ := h _ _ _ _ _ hsel (eq_ok_finalState hexec) (by decide +kernel)
    (eq_ok_finalState hstep)
  have hS : (finalState (cpuStep jsrPulled)).S = 0x8000 := by decide +kernel
  have hwrite : .write8 0x8000 0x10 ∈ (finalState (cpuStep jsrPulled)).trace := by decide +kernel
  have hmem : .write8 0x8000 0x10 ∈ l := by
    rw [htrace] at hwrite
    exact (List.mem_append.mp hwrite).resolve_right List.not_mem_nil
  obtain ⟨i, hi, -⟩ := (hl 0x8000).mp ⟨_, hmem, rfl⟩
  rw [hS] at hi
  exact absurd hi (Nat.not_lt_zero i)

end FlatRam
end Exec09
