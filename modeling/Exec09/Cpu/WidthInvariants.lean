import Exec09.Cpu.Compounds

/-! # Invariants with the register widths

The registers are plain unsigned words that every instruction masks for itself.
What the operations do to the widths is said once here, for any invariant that
has them among its parts and depends on little else of the processor.
-/
namespace Exec09
open Foundation
variable {β : Type}

/-- The registers have the widths of the processor. -/
structure Widths (s : Cpu β) : Prop where
  A : s.A < 0x100
  B : s.B < 0x100
  X : s.X < 0x10000
  Y : s.Y < 0x10000
  U : s.U < 0x10000
  S : s.S < 0x10000
  DP : s.DP < 0x10000
  page : s.DP % 0x100 = 0

/-- No bits outside E, F and I. -/
def EfiBits (v : ℕ) : Prop := v &&& (E_FLAG ||| F_FLAG ||| I_FLAG) = v

/-! ## Bounds of the values an instruction computes -/

section Bounds

instance fact_and_ffff (n : ℕ) : Fact (n &&& 0xffff < 0x10000) :=
  ⟨Nat.lt_of_le_of_lt Nat.and_le_right (by decide)⟩
instance fact_and_ff (n : ℕ) : Fact (n &&& 0xff < 0x100) :=
  ⟨Nat.lt_of_le_of_lt Nat.and_le_right (by decide)⟩
instance fact_shiftLeft (v : ℕ) [h : Fact (v < 0x100)] : Fact (v <<< 8 < 0x10000) :=
  ⟨by rw [Nat.shiftLeft_eq]; have := h.out; omega⟩
instance fact_shiftRight (v : ℕ) [h : Fact (v < 0x10000)] : Fact (v >>> 8 < 0x100) :=
  ⟨by rw [Nat.shiftRight_eq_div_pow]; have := h.out; omega⟩

instance fact_page (v : ℕ) : Fact (v <<< 8 % 0x100 = 0) :=
  ⟨by rw [Nat.shiftLeft_eq]; omega⟩

instance fact_zero : Fact (0 < 0x10000) := ⟨by decide⟩
instance fact_val (n : ℕ) (v : { v : ℕ // v < n }) : Fact (v.1 < n) := ⟨v.2⟩

instance fact_or (v d : ℕ) [hv : Fact (v < 0x100)] [hd : Fact (d < 0x10000)] :
    Fact (v ||| d < 0x10000) :=
  ⟨Nat.or_lt_two_pow (n := 16) (hv.out.trans (by decide)) hd.out⟩

theorem word_lt {hi lo : ℕ} (hhi : hi < 0x100) (hlo : lo < 0x100) : (hi <<< 8) ||| lo < 0x10000 :=
  Nat.or_lt_two_pow (n := 16) (by rw [Nat.shiftLeft_eq]; omega) (by omega)

instance fact_efi_or (v m : ℕ) [hv : Fact (EfiBits v)] [hm : Fact (EfiBits m)] :
    Fact (EfiBits (v ||| m)) :=
  ⟨by rw [EfiBits, Nat.and_or_distrib_right, hv.out, hm.out]⟩

instance fact_efi_and (v n : ℕ) [hv : Fact (EfiBits v)] : Fact (EfiBits (v &&& n)) :=
  ⟨by rw [EfiBits, Nat.and_right_comm, hv.out]⟩

instance fact_efi_val (v : { v : ℕ // EfiBits v }) : Fact (EfiBits v.1) := ⟨v.2⟩
instance fact_E : Fact (EfiBits E_FLAG) := ⟨rfl⟩
instance fact_F : Fact (EfiBits F_FLAG) := ⟨rfl⟩
instance fact_I : Fact (EfiBits I_FLAG) := ⟨rfl⟩

variable {f : Flags} {a v : ℕ}

instance fact_alu (op : Alu8) [ha : Fact (a < 0x100)] [hv : Fact (v < 0x100)] :
    Fact ((op.eval f a v).1 < 0x100) := by
  have hff (n : ℕ) : n &&& 0xff < 0x100 := (fact_and_ff n).out
  cases op
  case cmp | bit => exact ha
  case ld => exact hv
  case and => exact ⟨Nat.and_lt_two_pow (n := 8) a hv.out⟩
  case eor => exact ⟨Nat.xor_lt_two_pow (n := 8) ha.out hv.out⟩
  case or => exact ⟨Nat.or_lt_two_pow (n := 8) ha.out hv.out⟩
  all_goals exact ⟨hff _⟩

instance fact_unary (op : Unary) [ha : Fact (a < 0x100)] : Fact ((op.eval f a).1 < 0x100) := by
  have hff (n : ℕ) : n &&& 0xff < 0x100 := (fact_and_ff n).out
  have ha := ha.out
  cases op
  case clr => exact ⟨show 0 < 0x100 by decide⟩
  case com => exact ⟨Nat.xor_lt_two_pow (n := 8) ha (by decide)⟩
  case lsr => exact ⟨show a >>> 1 < 0x100 by rw [Nat.shiftRight_eq_div_pow]; omega⟩
  case ror =>
    have h : (if f.C ≠ 0 then a ||| 0x100 else a) < 2 ^ 9 := by
      split
      · exact Nat.or_lt_two_pow (ha.trans (by decide)) (by decide)
      · exact ha.trans (by decide)
    exact ⟨show (if f.C ≠ 0 then a ||| 0x100 else a) >>> 1 < 0x100 by
      rw [Nat.shiftRight_eq_div_pow]; omega⟩
  all_goals exact ⟨hff _⟩

theorem getCc_lt (s : Cpu β) : getCc s < 0x100 := by
  have hbit (c : Prop) [Decidable c] {m : ℕ} (hm : m < 2 ^ 8) : (if c then m else 0) < 2 ^ 8 := by
    split
    · exact hm
    · decide
  have hefi : s.EFI &&& (E_FLAG ||| F_FLAG ||| I_FLAG) < 2 ^ 8 :=
    Nat.and_lt_two_pow _ (by decide)
  unfold getCc
  refine Nat.or_lt_two_pow (Nat.or_lt_two_pow (Nat.or_lt_two_pow (Nat.or_lt_two_pow
    (Nat.or_lt_two_pow hefi ?_) ?_) ?_) ?_) ?_ <;> exact hbit _ (by decide)

end Bounds

/-! ## Registers by number -/

/-- The numbers from 8 on name byte registers. -/
def RegFits (nro v : ℕ) : Prop := v < 0x10000 ∧ (8 ≤ nro → v < 0x100)

theorem getReg_fits {s : Cpu β} (hs : Widths s) (nro : ℕ) : RegFits nro (getReg s nro) := by
  have hbyte {v : ℕ} (h : v < 0x100) : RegFits nro v := ⟨h.trans (by decide), fun _ => h⟩
  have hword {v : ℕ} (hn : nro < 8) (h : v < 0x10000) : RegFits nro v := ⟨h, fun _ => by omega⟩
  unfold getReg
  split
  · exact hword (by decide) (word_lt hs.A hs.B)
  · exact hword (by decide) hs.X
  · exact hword (by decide) hs.Y
  · exact hword (by decide) hs.U
  · exact hword (by decide) hs.S
  · exact hword (by decide) (fact_and_ffff _).out
  · exact hbyte hs.A
  · exact hbyte hs.B
  · exact hbyte (getCc_lt s)
  · exact hbyte (by rw [Nat.shiftRight_eq_div_pow]; have := hs.DP; omega)
  · exact hbyte (by decide)

/-- `exg` and `tfr` only move between registers of one width. -/
theorem same_width : ∀ post < 0x100, (post ^^^ (post <<< 4)) &&& 0x80 = 0 →
    (8 ≤ post >>> 4 ↔ 8 ≤ post &&& 15) := by
  decide +kernel

theorem transferred_fits {s : Cpu β} (hs : Widths s) {post src dst : ℕ}
    (hw : (post ^^^ (post <<< 4)) &&& 0x80 = 0 → (8 ≤ dst → 8 ≤ src)) :
    RegFits dst (transferred s post src) := by
  unfold transferred
  split
  · rename_i h
    exact ⟨(getReg_fits hs src).1, fun hd => (getReg_fits hs src).2 (hw h hd)⟩
  · exact ⟨by decide, fun _ => by decide⟩

/-- The two values that EXG and TFR move fit the registers they are moved to. -/
theorem exchanged_fits {s : Cpu β} (hs : Widths s) {post : ℕ} (hpost : post < 0x100) :
    RegFits (post &&& 15) (transferred s post (post >>> 4)) ∧
      RegFits (post >>> 4) (transferred s post (post &&& 15)) :=
  ⟨transferred_fits hs fun h => (same_width post hpost h).mpr,
    transferred_fits hs fun h => (same_width post hpost h).mp⟩

/-! ## Operations that keep the widths -/

/-- The registers have their widths by `I`, which depends on them, on the effective address and on
the accesses so far, and wants no more of EFI than its bits. -/
class HasWidths (I : Cpu β → Prop) : Prop where
  widths : ∀ {s}, I s → Widths s
  congr : ∀ {s s'}, I s → Widths s' → (EfiBits s.EFI → EfiBits s'.EFI) → s'.ea = s.ea →
    s'.trace = s.trace → I s'

section Operations
variable {I : Cpu β → Prop}

/-- The value of a part of the state, as the invariant knows it. -/
theorem look_gives {α : Type} {p : Cpu β → α} {V : α → Prop} (h : ∀ s, I s → V (p s)) :
    Gives I (look p) V :=
  ⟨look_triple fun s hs => ⟨h s hs, hs⟩⟩

instance look_Cc : Gives I (look getCc) (· < 0x100) := look_gives fun s _ => getCc_lt s

variable [hI : HasWidths I]

instance look_A : Gives I (look Cpu.A) (· < 0x100) := look_gives fun _ h => (hI.widths h).A
instance look_B : Gives I (look Cpu.B) (· < 0x100) := look_gives fun _ h => (hI.widths h).B
instance look_X : Gives I (look Cpu.X) (· < 0x10000) := look_gives fun _ h => (hI.widths h).X
instance look_Y : Gives I (look Cpu.Y) (· < 0x10000) := look_gives fun _ h => (hI.widths h).Y
instance look_U : Gives I (look Cpu.U) (· < 0x10000) := look_gives fun _ h => (hI.widths h).U
instance look_DP : Gives I (look Cpu.DP) (· < 0x10000) := look_gives fun _ h => (hI.widths h).DP
instance look_D : Gives I (look getD) (· < 0x10000) :=
  look_gives fun _ h => word_lt (hI.widths h).A (hI.widths h).B

instance look_index (R : IndexReg) : Gives I (look R.get) (· < 0x10000) := by
  refine look_gives fun s h => ?_
  have hw := hI.widths h
  cases R
  exacts [hw.X, hw.Y, hw.U, hw.S]

instance look_stack (sp : StackReg) : Gives I (look sp.get) (· < 0x10000) := by
  refine look_gives fun s h => ?_
  have hw := hI.widths h
  cases sp
  exacts [hw.S, hw.U]

instance look_acc (r : Acc) : Gives I (look r.get) (· < 0x100) := by
  refine look_gives fun s h => ?_
  have hw := hI.widths h
  cases r
  exacts [hw.A, hw.B]

instance look_reg16 (r : Reg16) : Gives I (look r.get) (· < 0x10000) := by
  cases r with
  | D => exact look_D
  | index R => exact look_index R

instance (priority := low) keeps_of_gives {α : Type} {m : CpuM β α} {V : α → Prop}
    [h : Gives I m V] : Keeps I m :=
  Keeps.iff_triple.mpr (h.gives.mono (fun _ hs => hs) (fun _ _ hs => hs.2) fun _ hs => hs)

/-- A change of the registers that fit, or of what the invariant does not depend on. -/
theorem modify_keeps {g : Cpu β → Cpu β} (hw : ∀ s, Widths s → Widths (g s))
    (hrest : ∀ s, (EfiBits s.EFI → EfiBits (g s).EFI) ∧ (g s).ea = s.ea ∧ (g s).trace = s.trace) :
    Keeps I (modify g : CpuM β PUnit) :=
  Keeps.modify fun s h =>
    hI.congr h (hw s (hI.widths h)) (hrest s).1 (hrest s).2.1 (hrest s).2.2

instance onBus_keeps {α : Type} (m : EStateM Stop β α) : Keeps I (onBus m) where
  keeps s h := by
    unfold onBus
    cases m s.bus <;> exact hI.congr h { hI.widths h with } id rfl rfl

variable (v : ℕ)

instance charge_keeps (n : ℤ) : Keeps I (charge n) :=
  modify_keeps (fun _ h => { h with }) fun _ => ⟨id, rfl, rfl⟩
instance charges_of_widths : Charges I := ⟨fun n _ => charge_keeps n⟩
instance changePc_keeps : Keeps I (changePc v) :=
  modify_keeps (fun _ h => { h with }) fun _ => ⟨id, rfl, rfl⟩
instance advancePc_keeps : Keeps I (advancePc v) :=
  modify_keeps (fun _ h => { h with }) fun _ => ⟨id, rfl, rfl⟩
instance setPc_keeps : Keeps I (setPc v) :=
  modify_keeps (fun _ h => { h with }) fun _ => ⟨id, rfl, rfl⟩
instance hook_keeps (c : Cpu β → ℕ) : Keeps I (commandExitIrqHook c) :=
  modify_keeps (fun _ h => { h with }) fun _ => ⟨id, rfl, rfl⟩
instance latchPc_keeps : Keeps I (modify latchPc : CpuM β Unit) :=
  modify_keeps (fun _ h => { h with }) fun _ => ⟨id, rfl, rfl⟩
instance clearCcChanged_keeps : Keeps I clearCcChanged :=
  modify_keeps (fun _ h => { h with }) fun _ => ⟨id, rfl, rfl⟩
instance setCwaiState_keeps (c : CwaiState) : Keeps I (setCwaiState c) :=
  modify_keeps (fun _ h => { h with }) fun _ => ⟨id, rfl, rfl⟩
instance setIrqStartTime_keeps (f : Cpu β → ℕ) : Keeps I (setIrqStartTime f) :=
  modify_keeps (fun _ h => { h with }) fun _ => ⟨id, rfl, rfl⟩
instance releaseIrq_keeps : Keeps I (releaseIrq v) :=
  modify_keeps (fun _ h => { h with }) fun _ => ⟨id, rfl, rfl⟩
instance releaseFirq_keeps : Keeps I (releaseFirq v) :=
  modify_keeps (fun _ h => { h with }) fun _ => ⟨id, rfl, rfl⟩
instance beginSlice_keeps (c : ℤ) : Keeps I (beginSlice c) :=
  modify_keeps (fun _ h => { h with }) fun _ => ⟨id, rfl, rfl⟩
instance endSlice_keeps : Keeps I endSlice :=
  modify_keeps (fun _ h => { h with }) fun _ => ⟨id, rfl, rfl⟩

instance setEfi_keeps [hv : Fact (EfiBits v)] : Keeps I (setEfi v) :=
  modify_keeps (fun _ h => { h with }) fun _ => ⟨fun _ => hv.out, rfl, rfl⟩

instance setCc_keeps : Keeps I (setCc v) := by
  refine modify_keeps (fun _ h => { h with }) fun _ => ⟨fun _ => ?_, rfl, rfl⟩
  rw [EfiBits, Nat.and_assoc, Nat.and_self]

theorem changeEfi_keeps {f : ℕ → ℕ} (hf : ∀ e : { e // EfiBits e }, EfiBits (f e.1)) :
    Keeps I (do setEfi (f (← look Cpu.EFI)) : CpuM β Unit) := by
  have h : Keeps I (modify fun s => { s with EFI := f s.EFI } : CpuM β Unit) :=
    modify_keeps (fun _ h => { h with }) fun s => ⟨fun hs => hf ⟨s.EFI, hs⟩, rfl, rfl⟩
  exact h

instance mask_keeps (m : ℕ) [Fact (EfiBits m)] : Keeps I (mask m) :=
  changeEfi_keeps fun e => (fact_efi_or e.1 m).out

instance beginFrame_keeps (full : Bool) : Keeps I (beginFrame full) := by
  cases full
  · refine (charge_keeps 6).seq fun _ => ?_
    exact changeEfi_keeps fun e => (fact_efi_and e.1 (unot E_FLAG)).out
  · refine (charge_keeps 19).seq fun _ => ?_
    exact changeEfi_keeps fun e => (fact_efi_or e.1 E_FLAG).out

instance setA_keeps [hv : Fact (v < 0x100)] : Keeps I (setA v) :=
  modify_keeps (fun _ h => { h with A := hv.out }) fun _ => ⟨id, rfl, rfl⟩
instance setB_keeps [hv : Fact (v < 0x100)] : Keeps I (setB v) :=
  modify_keeps (fun _ h => { h with B := hv.out }) fun _ => ⟨id, rfl, rfl⟩
instance setX_keeps [hv : Fact (v < 0x10000)] : Keeps I (setX v) :=
  modify_keeps (fun _ h => { h with X := hv.out }) fun _ => ⟨id, rfl, rfl⟩
instance setY_keeps [hv : Fact (v < 0x10000)] : Keeps I (setY v) :=
  modify_keeps (fun _ h => { h with Y := hv.out }) fun _ => ⟨id, rfl, rfl⟩
instance setDp_keeps [hv : Fact (v < 0x10000)] [hp : Fact (v % 0x100 = 0)] : Keeps I (setDp v) :=
  modify_keeps (fun _ h => { h with DP := hv.out, page := hp.out }) fun _ => ⟨id, rfl, rfl⟩

instance setIndexReg_keeps (R : IndexReg) [hv : Fact (v < 0x10000)] : Keeps I (setIndexReg R v) := by
  refine modify_keeps (fun _ h => ?_) fun _ => ?_ <;> cases R
  exacts [{ h with X := hv.out }, { h with Y := hv.out }, { h with U := hv.out },
    { h with S := hv.out }, ⟨id, rfl, rfl⟩, ⟨id, rfl, rfl⟩, ⟨id, rfl, rfl⟩, ⟨id, rfl, rfl⟩]

instance setStackReg_keeps (sp : StackReg) [hv : Fact (v < 0x10000)] :
    Keeps I (setStackReg sp v) := by
  refine modify_keeps (fun _ h => ?_) fun _ => ?_ <;> cases sp
  exacts [{ h with S := hv.out }, { h with U := hv.out }, ⟨id, rfl, rfl⟩, ⟨id, rfl, rfl⟩]

theorem setReg_keeps {nro v : ℕ} (h : RegFits nro v) : Keeps I (setReg nro v) := by
  have hword : Fact (v < 0x10000) := ⟨h.1⟩
  have hset {g : Cpu β → Cpu β} (hw : ∀ s, Widths s → Widths (g s))
      (hrest : ∀ s, (g s).EFI = s.EFI ∧ (g s).ea = s.ea ∧ (g s).trace = s.trace) :
      Keeps I (modify g : CpuM β PUnit) :=
    modify_keeps hw fun s => ⟨fun hs => (hrest s).1 ▸ hs, (hrest s).2⟩
  unfold setReg
  split
  · exact hset (fun _ hs => { hs with A := (fact_shiftRight v).out, B := (fact_and_ff v).out })
      fun _ => ⟨rfl, rfl, rfl⟩
  · exact hset (fun _ hs => { hs with X := h.1 }) fun _ => ⟨rfl, rfl, rfl⟩
  · exact hset (fun _ hs => { hs with Y := h.1 }) fun _ => ⟨rfl, rfl, rfl⟩
  · exact hset (fun _ hs => { hs with U := h.1 }) fun _ => ⟨rfl, rfl, rfl⟩
  · exact hset (fun _ hs => { hs with S := h.1 }) fun _ => ⟨rfl, rfl, rfl⟩
  · exact hset (fun _ hs => { hs with }) fun _ => ⟨rfl, rfl, rfl⟩
  · exact hset (fun _ hs => { hs with A := h.2 (by decide) }) fun _ => ⟨rfl, rfl, rfl⟩
  · exact hset (fun _ hs => { hs with B := h.2 (by decide) }) fun _ => ⟨rfl, rfl, rfl⟩
  · infer_instance
  · have hbyte : Fact (v < 0x100) := ⟨h.2 (by decide)⟩
    have hshift : uint (v <<< 8) = v <<< 8 :=
      Nat.mod_eq_of_lt ((fact_shiftLeft v).out.trans (by decide))
    rw [hshift]
    exact setDp_keeps (v <<< 8)
  · infer_instance

instance requestIrq_keeps [Bus β] [Keeps I irq] : Keeps I (requestIrq v) := by
  have hset : Keeps I
      (modify fun s => { s with irqsPending := s.irqsPending ||| (1 <<< v) } : CpuM β Unit) :=
    modify_keeps (fun _ h => { h with }) fun _ => ⟨id, rfl, rfl⟩
  unfold requestIrq
  infer_instance

instance requestFirq_keeps [Bus β] [Keeps I firq] : Keeps I (requestFirq v) := by
  have hset : Keeps I
      (modify fun s => { s with firqsPending := s.firqsPending ||| (1 <<< v) } : CpuM β Unit) :=
    modify_keeps (fun _ h => { h with }) fun _ => ⟨id, rfl, rfl⟩
  unfold requestFirq
  infer_instance

/-! ### Results -/

instance withFlags_keeps {α : Type} (op : Flags → α × Flags) : Keeps I (withFlags op) :=
  ⟨fun _ h => hI.congr h { hI.widths h with } id rfl rfl⟩

/-- An operation whose result is below `n` whatever the flags are. -/
theorem withFlags_gives {op : Flags → ℕ × Flags} {n : ℕ} (h : ∀ f, (op f).1 < n) :
    Gives I (withFlags op) (· < n) :=
  ⟨fun s hs => ⟨h s.flags, hI.congr hs { hI.widths hs with } id rfl rfl⟩⟩

instance alu_gives (op : Alu8) (a v : ℕ) [Fact (a < 0x100)] [Fact (v < 0x100)] :
    Gives I (withFlags (op.eval · a v)) (· < 0x100) :=
  withFlags_gives fun _ => (fact_alu op).out
instance addd_gives (a v : ℕ) : Gives I (withFlags (Exec09.addd · a v)) (· < 0x10000) :=
  withFlags_gives fun _ => (fact_and_ffff _).out
instance subd_gives (a v : ℕ) : Gives I (withFlags (Exec09.subd · a v)) (· < 0x10000) :=
  withFlags_gives fun _ => (fact_and_ffff _).out
instance mul_gives (a v : ℕ) : Gives I (withFlags (Exec09.mul · a v)) (· < 0x10000) :=
  withFlags_gives fun _ => (fact_and_ffff _).out
instance ld16_gives [hv : Fact (v < 0x10000)] :
    Gives I (withFlags (Exec09.ld16 · v)) (· < 0x10000) :=
  withFlags_gives fun _ => hv.out
instance daa_gives (a : ℕ) : Gives I (withFlags (Exec09.daa · a)) (· < 0x100) :=
  withFlags_gives fun _ => (fact_and_ff _).out
instance sex_gives : Gives I (withFlags (Exec09.sex · v)) (· < 0x100) :=
  withFlags_gives fun _ => by unfold Exec09.sex; dsimp only; split <;> omega

instance unaryOp_gives (op : Unary) (a : ℕ) [Fact (a < 0x100)] :
    Gives I (unaryOp op a) (· < 0x100) where
  gives := by
    unfold unaryOp
    exact ((withFlags_gives fun _ => (fact_unary op).out).after fun _ => inferInstance).gives

end Operations

end Exec09
