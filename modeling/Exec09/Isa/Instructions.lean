import Exec09.Isa.Refinement
import Exec09.Cpu.Run

/-! # Each instruction of the emulator refines that of the programming model -/
namespace Exec09.Isa
open Foundation
variable {β α α' : Type}

set_option synthInstance.maxSize 100000

/-! ## Condition codes -/

section Codes
variable [Bus β] {L : Storage} {M : Backing β L} {c₀ : ℤ}

theorem updateCc_refines {op : Flags → Flags} {spec : Cc → Cc} (h : ∀ f, (op f).cc = spec f.cc) :
    Refines (Shows M c₀) id (updateFlags op) (updateCc spec) := by
  have hop : Computes id (fun f => ((), op f)) (fun c => ((), spec c)) := ⟨fun f => ⟨rfl, h f⟩⟩
  exact withCc_refines

instance tst_refines (v : U8) : Refines (Shows M c₀) id (updateFlags (tst · v.toNat))
    (updateCc fun c => (logical c v).2) :=
  updateCc_refines fun f => logical_cc f v

instance st_refines (v : U8) : Refines (Shows M c₀) id (updateFlags (stFlags · v.toNat))
    (updateCc fun c => (logical c v).2) :=
  updateCc_refines fun f => logical_cc f v

instance st16_refines (v : U16) : Refines (Shows M c₀) id (updateFlags (st16Flags · v.toNat))
    (updateCc fun c => (logical c v).2) :=
  updateCc_refines fun f => logical_wide_cc f v

instance cmp16_refines (a b : U16) :
    Refines (Shows M c₀) id (updateFlags (cmp16 · a.toNat b.toNat))
      (updateCc fun c => (difference c a b false).2) :=
  updateCc_refines fun f => (subd_difference f a b).2

instance lea_refines (a : U16) : Refines (Shows M c₀) id
    (updateFlags fun f => { f with Z := a.toNat }) (updateCc fun c => { c with Z := a = 0 }) :=
  updateCc_refines fun f => congrArg (fun b => { f.cc with Z := b })
    (decide_eq_decide.mpr (toNat_eq_zero a))

instance onlyIf_refines (c : Prop) [Decidable c] {m : CpuM β Unit} {n : MpuM Unit}
    [hm : Refines (Shows M c₀) id m n] :
    Refines (Shows M c₀) id (Exec09.onlyIf c m) (onlyIf c n) := by
  unfold Exec09.onlyIf onlyIf
  exact Refines.ite decide_eq_true_iff.symm (fun _ => hm) fun _ => Refines.pure rfl

instance setD_refines (w : U16) : Refines (Shows M c₀) id (Exec09.setD w.toNat) (setD w) := by
  unfold Exec09.setD setD
  infer_instance

instance unaryOp_refines (op : Unary) (v : U8) :
    Refines (Shows M c₀) BitVec.toNat (Exec09.unaryOp op v.toNat) (unaryOp op v) := by
  unfold Exec09.unaryOp unaryOp
  infer_instance

instance tstOp_refines (v : U8) : Refines (Shows M c₀) id (Exec09.tstOp v.toNat) (tstOp v) := by
  unfold Exec09.tstOp tstOp
  infer_instance

instance decimal_refines (v : U8) :
    Refines (Shows M c₀) BitVec.toNat (withFlags (Exec09.daa · v.toNat)) (decimal v) where
  run s g h := by
    have hlook : look Mpu.cc g = .ok g.cc g := rfl
    by_cases hv : Adjustable g.cc v
    · obtain ⟨hfst, hcc⟩ := daa_adjusted s.flags v (by rwa [h.cc])
      rw [h.cc] at hfst hcc
      rw [OnReturn, decimal, run_bind_ok hlook, if_pos hv]
      exact h.withFlags (Exec09.daa · v.toNat) (adjusted · v) hfst hcc
    · have hrun : decimal v g = .error () g := by
        rw [decimal, run_bind_ok hlook, if_neg hv]
        rfl
      exact onReturn_error hrun

end Codes

/-! ## Frames and calls -/

section Frames
variable [Bus β] {L : Storage} {M : Backing β L} {c₀ : ℤ}

theorem mask_refines {m : ℕ} {op : Masks → Masks}
    (h : ∀ k : Masks, (op k).byte = k.byte ||| (m &&& (E_FLAG ||| F_FLAG ||| I_FLAG))) :
    Refines (Shows M c₀) id (mask m) (updateMasks op) where
  run s g hs := by
    refine ⟨{ s with EFI := s.EFI ||| m }, rfl, { hs with masks := ?_ }⟩
    change (s.EFI ||| m) &&& (E_FLAG ||| F_FLAG ||| I_FLAG) = (op g.masks).byte
    rw [Nat.and_or_distrib_right, hs.masks, h]

instance entire_refines : Refines (Shows M c₀) id (mask E_FLAG)
    (updateMasks fun m => { m with E := true }) :=
  mask_refines fun ⟨E, F, I⟩ => by cases E <;> cases F <;> cases I <;> rfl

instance masked_refines : Refines (Shows M c₀) id (mask (I_FLAG ||| F_FLAG))
    (updateMasks fun m => { m with F := true, I := true }) :=
  mask_refines fun ⟨E, F, I⟩ => by cases E <;> cases F <;> cases I <;> rfl

instance pushRegisters_refines :
    Refines (Shows M c₀) id pushRegisters L.pushRegisters := by
  unfold pushRegisters Storage.pushRegisters
  infer_instance

theorem stackMachineState_eq : stackMachineState (β := β) true = (do
    Exec09.charge 19
    mask E_FLAG
    push16 .S ((← Exec09.look Cpu.PC) &&& 0xffff)
    pushRegisters
    push8 .S (← Exec09.look getCc)) := by
  simp only [stackMachineState, beginFrame, if_true, Exec09.onlyIf, mask, bind_assoc]

instance stackMachineState_refines :
    Refines (Shows M c₀) id (stackMachineState true) L.stackMachineState := by
  rw [stackMachineState_eq]
  unfold Storage.stackMachineState
  infer_instance

instance pullRegisters_refines : Refines (Shows M c₀) id pullRegisters L.pullRegisters := by
  unfold pullRegisters Storage.pullRegisters
  infer_instance

/-- The frame has all registers where its CC says so. -/
theorem whenE_refines {m k : CpuM β Unit} {n l : MpuM Unit} (hm : Refines (Shows M c₀) id m n)
    (hk : Refines (Shows M c₀) id k l) :
    Refines (Shows M c₀) id (do Exec09.onlyIf ((← Exec09.look Cpu.EFI) &&& E_FLAG ≠ 0) m; k)
      (do onlyIf (← look Mpu.masks).E n; l) where
  run s g h := by
    have hE : s.EFI &&& E_FLAG ≠ 0 ↔ g.masks.E = true := by
      have hpart : E_FLAG = (E_FLAG ||| F_FLAG ||| I_FLAG) &&& E_FLAG := rfl
      rw [hpart, ← Nat.and_assoc, h.masks]
      rcases g.masks with ⟨_ | _, _ | _, _ | _⟩ <;> decide
    have hframe : Refines (Shows M c₀) id (Exec09.onlyIf (s.EFI &&& E_FLAG ≠ 0) m)
        (onlyIf g.masks.E n) := Refines.ite hE (fun _ => hm) fun _ => Refines.pure rfl
    exact (hframe.seq fun _ => hk).run s g h

theorem hook_refines {n : MpuM Unit} {m : CpuM β Unit} (v : Cpu β → ℕ)
    (hm : Refines (Shows M c₀) id m n) :
    Refines (Shows M c₀) id (do commandExitIrqHook v; m) n :=
  Refines.unseen (b := ⟨⟩) (fun s _ h => ⟨{ s with irqLoad := v s :: s.irqLoad }, rfl, { h with }⟩) hm

instance rti_refines : Refines (Shows M c₀) id rti L.rti := by
  unfold rti Storage.rti monitorReturn
  rw [pure_bind]
  refine (charge_refines 6).seq fun _ => hook_refines _ ?_
  have hframe : Refines (Shows M c₀) id (do Exec09.charge 9; pullRegisters)
      (do charge 9; L.pullRegisters) := inferInstance
  have hend : Refines (Shows M c₀) id (do Exec09.setPc (← pull16 .S)) (do setPc (← L.pull16 .S)) :=
    inferInstance
  exact (pull8_refines .S).seq fun v => setCC_refines.seq fun _ => whenE_refines hframe hend

instance jsr_refines : Refines (Shows M c₀) id jsr L.jsr := by
  unfold jsr Storage.jsr monitorCall
  simp only [bind_pure_unit]
  infer_instance

omit [Bus β] in
/-- A part of the state that is known is not looked at. -/
theorem look_kept {p : Cpu β → α} {a : α} {k : CpuM β Unit} (hk : Keeps (fun s => p s = a) k)
    (f : α → CpuM β α') {s : Cpu β} (hs : p s = a) :
    (k >>= fun _ => Exec09.look p >>= f) s = (k >>= fun _ => f a) s := by
  have hkept := hk.keeps s hs
  cases hrun : k s with
  | ok u t =>
    rw [hrun] at hkept
    rw [run_bind_ok hrun, run_bind_ok hrun, run_bind_ok (run_look p t)]
    exact congrArg (f · t) hkept
  | error e t => rw [run_bind_error hrun, run_bind_error hrun]

/-- What a call has formed as its address is where it goes to. -/
theorem call_eq (clk : ℤ) (e : ℕ) : (do
      Exec09.setEa e
      push16 .S ((← Exec09.look Cpu.PC) &&& 0xffff)
      Exec09.charge clk
      changePc (← Exec09.look Cpu.ea)
      monitorCall : CpuM β Unit) = (do
      Exec09.setEa e
      push16 .S ((← Exec09.look Cpu.PC) &&& 0xffff)
      Exec09.charge clk
      changePc e) := by
  simp only [monitorCall, bind_pure_unit]
  funext s
  have hpush : Keeps (EaIs (β := β) e) (do push16 .S (s.PC &&& 0xffff); Exec09.charge clk) :=
    inferInstance
  have hknown := look_kept hpush changePc (s := { s with ea := e }) rfl
  simp only [bind_assoc] at hknown
  exact hknown

theorem call_refines (clk : ℤ) {e : ℕ} {a : U16} [hn : Num (e &&& 0xffff) a] :
    Refines (Shows M c₀) id (do
      Exec09.setEa e
      push16 .S ((← Exec09.look Cpu.PC) &&& 0xffff)
      Exec09.charge clk
      changePc (← Exec09.look Cpu.ea)
      monitorCall) (L.call clk a) := by
  have hea : Refines (Shows M c₀) id (Exec09.setEa e) clearEa := clearEa_refines e
  rw [call_eq]
  unfold Storage.call
  infer_instance

theorem bsr_refines : Refines (Shows M c₀) id bsr (L.exec .bsr) := by
  unfold bsr Storage.exec
  exact immByte_refines.seq fun n => look_PC.seq fun pc => call_refines 7

theorem longBsr_refines : Refines (Shows M c₀) id longBsr (L.exec .longBsr) := by
  unfold longBsr Storage.exec
  exact immWord_refines.seq fun n => look_PC.seq fun pc => call_refines 9

end Frames

/-! ## Transfers -/

section Transfers
variable [Bus β] {L : Storage} {M : Backing β L} {c₀ : ℤ}

theorem wide_get {n : ℕ} {a : Wide} (ha : wide n = some a) {s : Cpu β} {g : Mpu}
    (h : Shows M c₀ s g) : getReg s n = (a.get g).toNat := by
  unfold wide at ha
  split at ha
  all_goals cases ha
  · exact h.D
  · exact h.X
  · exact h.Y
  · exact h.U
  · exact h.S
  · rw [getReg, h.PC]
    exact (num_masked g.PC).eq

theorem narrow_get {n : ℕ} {a : Narrow} (ha : narrow n = some a) {s : Cpu β} {g : Mpu}
    (h : Shows M c₀ s g) : getReg s n = (a.get g).toNat := by
  unfold narrow at ha
  split at ha
  all_goals cases ha
  · exact h.A
  · exact h.B
  · exact h.CC
  · rw [getReg, h.DP]
    exact (num_page g.DP).eq

theorem wide_set {n : ℕ} {a : Wide} (ha : wide n = some a) (v : U16) :
    Refines (Shows M c₀) id (setReg n v.toNat) (a.set v) := by
  unfold wide at ha
  split at ha
  all_goals cases ha
  · exact ⟨fun s g h => ⟨_, rfl, { h with A := (num_high v).eq, B := (num_low v).eq }⟩⟩
  · exact setIndex_refines .X
  · exact setIndex_refines .Y
  · exact setIndex_refines .U
  · exact setIndex_refines .S
  · exact setPc_refines

theorem narrow_set {n : ℕ} {a : Narrow} (ha : narrow n = some a) (v : U8) :
    Refines (Shows M c₀) id (setReg n v.toNat) (a.set v) := by
  have hpage : ∀ v : U8, uint (v.toNat <<< 8) = v.toNat <<< 8 := by decide
  unfold narrow at ha
  split at ha
  all_goals cases ha
  · exact setAcc_refines .A
  · exact setAcc_refines .B
  · exact setCC_refines
  · exact Refines.modify fun _ _ h => { h with DP := hpage v }

/-- A postbyte of registers of one size. -/
theorem ofPost_same : ∀ post : U8, (Pair.ofPost post).isSome →
    (post.toNat ^^^ (post.toNat <<< 4)) &&& 0x80 = 0 := by
  decide

theorem ofPost_wide {post : U8} {a b : Wide} (h : Pair.ofPost post = some (.wide a b)) :
    wide (post.toNat >>> 4) = some a ∧ wide (post.toNat &&& 15) = some b := by
  unfold Pair.ofPost at h
  split at h
  · rename_i ha hb
    cases h
    exact ⟨ha, hb⟩
  · split at h <;> cases h

theorem ofPost_narrow {post : U8} {a b : Narrow} (h : Pair.ofPost post = some (.narrow a b)) :
    narrow (post.toNat >>> 4) = some a ∧ narrow (post.toNat &&& 15) = some b := by
  unfold Pair.ofPost at h
  split at h
  · cases h
  · split at h
    · rename_i ha hb
      cases h
      exact ⟨ha, hb⟩
    · cases h

theorem look_transferred {w : ℕ} {post : U8} {p : Pair} {q : Mpu → BitVec w} (nro : ℕ)
    (hp : Pair.ofPost post = some p)
    (hq : ∀ s g, Shows M c₀ s g → getReg s nro = (q g).toNat) :
    Refines (Shows M c₀) BitVec.toNat (Exec09.look fun s => transferred s post.toNat nro)
      (look q) := by
  have hsame := ofPost_same post (by rw [hp]; rfl)
  refine look_refines fun s g h => ?_
  rw [transferred, if_pos hsame, hq s g h]

theorem exchange_refines {post : U8} {p : Pair} (hp : Pair.ofPost post = some p) :
    Refines (Shows M c₀) id (do
      let tmp1 ← Exec09.look fun s : Cpu β => transferred s post.toNat (post.toNat >>> 4)
      let tmp2 ← Exec09.look fun s => transferred s post.toNat (post.toNat &&& 15)
      setReg (post.toNat &&& 15) tmp1
      setReg (post.toNat >>> 4) tmp2) p.exchange := by
  cases p with
  | wide a b =>
    obtain ⟨ha, hb⟩ := ofPost_wide hp
    exact (look_transferred _ hp fun _ _ => wide_get ha).seq fun v =>
      (look_transferred _ hp fun _ _ => wide_get hb).seq fun w =>
        (wide_set hb v).seq fun _ => wide_set ha w
  | narrow a b =>
    obtain ⟨ha, hb⟩ := ofPost_narrow hp
    exact (look_transferred _ hp fun _ _ => narrow_get ha).seq fun v =>
      (look_transferred _ hp fun _ _ => narrow_get hb).seq fun w =>
        (narrow_set hb v).seq fun _ => narrow_set ha w

theorem transfer_refines {post : U8} {p : Pair} (hp : Pair.ofPost post = some p) :
    Refines (Shows M c₀) id (do
      let tmp1 ← Exec09.look fun s : Cpu β => transferred s post.toNat (post.toNat >>> 4)
      setReg (post.toNat &&& 15) tmp1) p.transfer := by
  cases p with
  | wide a b =>
    obtain ⟨ha, hb⟩ := ofPost_wide hp
    exact (look_transferred _ hp fun _ _ => wide_get ha).seq fun v => wide_set hb v
  | narrow a b =>
    obtain ⟨ha, hb⟩ := ofPost_narrow hp
    exact (look_transferred _ hp fun _ _ => narrow_get ha).seq fun v => narrow_set hb v

theorem exg_refines : Refines (Shows M c₀) id exg (L.exec .exg) := by
  unfold exg Storage.exec
  refine immByte_refines.seq fun post => ?_
  cases hp : Pair.ofPost post with
  | none => exact Refines.throw
  | some p =>
    have hall : Refines (Shows M c₀) id _ (do p.exchange; charge 8) :=
      (exchange_refines hp).seq (f := fun _ => Exec09.charge 8) fun _ => charge_refines 8
    simpa only [bind_assoc] using hall

theorem tfr_refines : Refines (Shows M c₀) id tfr (L.exec .tfr) := by
  unfold tfr Storage.exec
  refine immByte_refines.seq fun post => ?_
  cases hp : Pair.ofPost post with
  | none => exact Refines.throw
  | some p =>
    have hall : Refines (Shows M c₀) id _ (do p.transfer; charge 6) :=
      (transfer_refines hp).seq (f := fun _ => Exec09.charge 6) fun _ => charge_refines 6
    simpa only [bind_assoc] using hall

end Transfers

/-! ## The table of instructions -/

section Instructions
variable [Bus β] {L : Storage} {M : Backing β L} {c₀ : ℤ}

omit [Bus β] in
theorem high_D (g : Mpu) : g.D.toNat >>> 8 = g.A.toNat := by
  have hB := g.B.isLt
  rw [Mpu.D, append_toNat, Nat.shiftRight_eq_div_pow]
  omega

theorem std_refines (m : Mode) :
    Refines (Shows M c₀) id (Insn.std m).exec (L.exec (.std m)) := by
  unfold Insn.exec Storage.exec
  refine (address_refines m).seq fun _ => ⟨fun s g h => ?_⟩
  have hstore : Refines (Shows M c₀) id (do
        updateFlags (st16Flags · g.D.toNat)
        wrmem16 (← Exec09.look Cpu.ea) g.D.toNat)
      (do
        updateCc fun c => (logical c g.D).2
        L.store16 (← effective) g.D) := inferInstance
  -- The negative flag is that of `A`, the high byte of the word.
  have hN : s.A = g.D.toNat >>> 8 := h.A.trans (high_D g).symm
  have hrun := hstore.run s g h
  unfold st16Flags at hrun
  rw [← hN, ← h.D] at hrun
  exact hrun

instance bra_refines : Refines (Shows M c₀) id bra L.bra := by
  unfold bra Storage.bra
  infer_instance

instance takeBranch_refines (c : Bool) :
    Refines (Shows M c₀) id (takeBranch c) (L.takeBranch c) := by
  unfold takeBranch Storage.takeBranch
  exact Refines.ite Iff.rfl (fun _ => bra_refines) fun _ => inferInstance

instance longBra_refines : Refines (Shows M c₀) id longBra L.longBra := by
  unfold longBra Storage.longBra
  infer_instance

theorem branch_refines (c : Cond) :
    Refines (Shows M c₀) id (Insn.branch c).exec (L.exec (.branch c)) := by
  unfold Insn.exec Storage.exec branch
  infer_instance

theorem longBranch_refines (c : Cond) :
    Refines (Shows M c₀) id (Insn.longBranch c).exec (L.exec (.longBranch c)) := by
  unfold Insn.exec Storage.exec longBranch
  exact (look_taken c).seq fun cc => Refines.ite Iff.rfl (fun _ => inferInstance)
    fun _ => inferInstance

instance exec_refines (i : Insn) : Refines (Shows M c₀) id i.exec (L.exec i) := by
  cases i with
  | std m => exact std_refines m
  | jmp m =>
    unfold Insn.exec Storage.exec monitorCall
    simp only [bind_pure_unit]
    infer_instance
  | branch c => exact branch_refines c
  | longBranch c => exact longBranch_refines c
  | bsr => exact bsr_refines
  | longBsr => exact longBsr_refines
  | exg => exact exg_refines
  | tfr => exact tfr_refines
  | sync => exact Refines.throw
  | cwai => exact Refines.throw
  | rts =>
    unfold Insn.exec Storage.exec rts monitorReturn
    simp only [pure_bind]
    infer_instance
  | daa =>
    unfold Insn.exec Storage.exec daa
    infer_instance
  | orcc =>
    unfold Insn.exec Storage.exec orcc
    infer_instance
  | andcc =>
    unfold Insn.exec Storage.exec andcc
    infer_instance
  | swi =>
    unfold Insn.exec Storage.exec swi
    infer_instance
  | swi2 =>
    unfold Insn.exec Storage.exec swi2
    infer_instance
  | swi3 =>
    unfold Insn.exec Storage.exec swi3
    infer_instance
  | _ =>
    unfold Insn.exec Storage.exec
    infer_instance

theorem fetch_refines : Refines (Shows M c₀) Selected.insn fetchOpcode L.fetch := by
  unfold fetchOpcode Storage.fetch
  have hten (b : U8) : b.toNat = 0x10 ↔ b = 0x10 := BitVec.toNat_inj (y := 0x10)
  have heleven (b : U8) : b.toNat = 0x11 ↔ b = 0x11 := BitVec.toNat_inj (y := 0x11)
  have hsel {o : Option Insn} {sel : Selected} : Refines (Shows M c₀) Selected.insn
      (pure (o.elim sel .insn) : CpuM β Selected) (assigned o) := by
    cases o with
    | none => exact Refines.throw
    | some i => exact Refines.pure rfl
  exact immByte_refines.seq fun b => Refines.ite (hten b) (fun _ => immByte_refines.seq fun _ => hsel)
    fun _ => Refines.ite (heleven b) (fun _ => immByte_refines.seq fun _ => hsel) fun _ => hsel

/-- No interrupt waits for a change of CC. -/
theorem poll_refines :
    Refines (Shows M c₀) id (do if ← Exec09.look Cpu.ccChanged then ccModified) clearEa where
  run s g h := by
    have hpoll : ccModified s = .ok () { s with ccChanged := false } := by
      have hfirq : firqDeliverable s = false := by simp [firqDeliverable, h.firqs]
      have hirq : irqDeliverable s = false := by simp [irqDeliverable, h.irqs]
      have hcheck : checkPending s = .ok () s := by
        rw [checkPending, run_bind_ok (run_look _ s), hfirq, if_neg Bool.false_ne_true,
          run_bind_ok (run_look _ s), hirq, if_neg Bool.false_ne_true]
        rfl
      rw [ccModified, run_bind_ok hcheck]
      rfl
    change ∃ s', (Exec09.look Cpu.ccChanged >>= fun b => if b then ccModified else pure ()) s = _ ∧ _
    rw [run_bind_ok (run_look _ s)]
    cases hb : s.ccChanged with
    | true => exact ⟨_, hpoll, { h with ea := fun a ha => by cases ha }⟩
    | false => exact ⟨s, rfl, { h with ea := fun a ha => by cases ha }⟩

/-- What one iteration of the loop of `cpu_execute` does is an instruction of the programming
model. -/
instance cpuStep_refines : Refines (Shows M c₀) id cpuStep L.step := by
  have hlatch {m : CpuM β Unit} {n : MpuM Unit} (hm : Refines (Shows M c₀) id m n) :
      Refines (Shows M c₀) id (do modify latchPc; m) n :=
    Refines.unseen (b := ⟨⟩) (fun s _ h => ⟨latchPc s, rfl, { h with }⟩) hm
  unfold cpuStep fetchExecute Storage.step
  simp only [bind_assoc]
  exact hlatch (fetch_refines.seq fun i => (exec_refines i).seq fun _ => poll_refines)

theorem run_refines (n : ℕ) :
    Refines (Shows M c₀) id (runAll Event.perform (List.replicate n Event.insn)) (L.run n) := by
  induction n with
  | zero => exact Refines.pure rfl
  | succ n ih => exact cpuStep_refines.seq fun _ => ih

end Instructions

end Exec09.Isa
