import Exec09.Cpu.WidthInvariants

/-! # Every bus access of the processor lies in the address space

Register values and the addresses computed from them fit their widths, which
makes all data accesses harmless. The program counter is the exception: the
source increments it without a mask, so fetches are in range only while an
instruction ends at `0xffff` or before. `FetchFits` states this for the
instruction at `PC`; it is the only condition on a step.
-/
namespace Exec09
open Foundation
variable {β : Type}

set_option synthInstance.maxSize 100000

/-- The bytes an access touches have addresses below `0x10000`. -/
def Access.InRange : Access → Prop
  | .read8 a => a < 0x10000
  | .read16 a => a + 1 < 0x10000
  | .write8 a _ => a < 0x10000

instance : DecidablePred Access.InRange
  | .read8 a => inferInstanceAs (Decidable (a < 0x10000))
  | .read16 a => inferInstanceAs (Decidable (a + 1 < 0x10000))
  | .write8 a _ => inferInstanceAs (Decidable (a < 0x10000))

/-- The register widths, and the accesses so far. The effective address is tracked only
between an addressing mode and the accesses it is for. -/
structure Fit (tracked : Bool) (s : Cpu β) : Prop where
  A : s.A < 0x100
  B : s.B < 0x100
  X : s.X < 0x10000
  Y : s.Y < 0x10000
  U : s.U < 0x10000
  S : s.S < 0x10000
  DP : s.DP < 0x10000
  page : s.DP % 0x100 = 0
  ea : tracked = true → s.ea < 0x10000
  trace : ∀ x ∈ s.trace, x.InRange

theorem Fit.untracked {t : Bool} {s : Cpu β} (h : Fit t s) : Fit false s :=
  { h with ea := nofun }

theorem Fit.widths {t : Bool} {s : Cpu β} (h : Fit t s) : Widths s := { h with }

instance fit_hasWidths (t : Bool) : HasWidths (Fit (β := β) t) where
  widths := Fit.widths
  congr h hw _ hea htrace := { hw with ea := fun ht => hea ▸ h.ea ht, trace := htrace ▸ h.trace }

/-! ## Functions that fetch nothing -/

section Data
variable {t : Bool}

instance look_ea : Gives (Fit (β := β) true) (look Cpu.ea) (· < 0x10000) :=
  look_gives fun _ h => h.ea rfl

theorem note_fit {e : Access} (he : e.InRange) : Keeps (Fit (β := β) t) (note e) :=
  Keeps.modify fun _ hs => { hs with trace := List.forall_mem_cons.mpr ⟨he, hs.trace⟩ }

instance setEa_fit (a : ℕ) : Keeps (Fit (β := β) false) (setEa a) :=
  Keeps.modify fun _ h => { h with ea := nofun }
instance setEfi_fit (v : ℕ) : Keeps (Fit (β := β) t) (setEfi v) := Keeps.modify fun _ h => { h with }

variable [Bus β]

instance read8_gives (a : ℕ) [h : Fact (a < 0x10000)] :
    Gives (Fit (β := β) t) (read8 a) (· < 0x100) where
  gives := by
    unfold read8
    refine (Keeps.iff_triple.mp (note_fit (e := .read8 a) h.out)).bind fun _ => ?_
    exact Keeps.rule.bind fun _ => Keeps.rule.bind fun v => Triple.pure _ fun _ hs => ⟨v.isLt, hs⟩

instance read16_gives (a : ℕ) [h : Fact (a + 1 < 0x10000)] :
    Gives (Fit (β := β) t) (read16 a) (· < 0x10000) where
  gives := by
    unfold read16
    refine (Keeps.iff_triple.mp (note_fit (e := .read16 a) h.out)).bind fun _ => ?_
    exact Keeps.rule.bind fun _ => Keeps.rule.bind fun v => Triple.pure _ fun _ hs => ⟨v.isLt, hs⟩

instance write8_fit (a v : ℕ) [h : Fact (a < 0x10000)] : Keeps (Fit (β := β) t) (write8 a v) := by
  have : Keeps (Fit (β := β) t) (note (.write8 a v)) := note_fit h.out
  unfold write8
  infer_instance

instance rdmem16_gives (a : ℕ) [Fact (a < 0x10000)] :
    Gives (Fit (β := β) t) (rdmem16 a) (· < 0x10000) where
  gives := by
    unfold rdmem16
    refine (read8_gives a).gives.bind fun hi s hs => ?_
    refine (Keeps.rule.bind fun _ => (read8_gives _).gives.bind fun lo => Triple.pure _ ?_) s hs.2
    exact fun _ h => ⟨word_lt hs.1 h.1, h.2⟩

instance readStack16_gives (a : ℕ) [Fact (a < 0x10000)] :
    Gives (Fit (β := β) t) (readStack16 a) (· < 0x10000) where
  gives := by
    unfold readStack16
    refine (read8_gives a).gives.bind fun hi s hs => ?_
    refine ((read8_gives _).gives.bind fun lo => Triple.pure _ ?_) s hs.2
    exact fun _ h => ⟨word_lt hs.1 h.1, h.2⟩

instance push8_fit (sp : StackReg) (v : ℕ) : Keeps (Fit (β := β) t) (push8 sp v) := by
  unfold push8
  infer_instance

instance push16_fit (sp : StackReg) (v : ℕ) : Keeps (Fit (β := β) t) (push16 sp v) := by
  unfold push16
  infer_instance

instance pull8_gives (sp : StackReg) : Gives (Fit (β := β) t) (pull8 sp) (· < 0x100) where
  gives := by
    unfold pull8
    refine (look_stack sp).gives.bind fun a s hs => ?_
    have : Fact (a < 0x10000) := ⟨hs.1⟩
    exact ((read8_gives a).after fun _ => inferInstance).gives s hs.2

instance pull16_gives (sp : StackReg) : Gives (Fit (β := β) t) (pull16 sp) (· < 0x10000) where
  gives := by
    unfold pull16
    refine (look_stack sp).gives.bind fun a s hs => ?_
    have : Fact (a < 0x10000) := ⟨hs.1⟩
    exact ((readStack16_gives a).after fun _ => inferInstance).gives s hs.2

instance pullRegisters_fit : Keeps (Fit (β := β) t) pullRegisters := by
  unfold pullRegisters
  infer_instance

/-! The vectors. -/

instance fact_irq : Fact (0xfff8 + 1 < 0x10000) := ⟨by decide⟩
instance fact_firq : Fact (0xfff6 + 1 < 0x10000) := ⟨by decide⟩
instance fact_swi : Fact (0xfffa + 1 < 0x10000) := ⟨by decide⟩
instance fact_swi2 : Fact (0xfff4 + 1 < 0x10000) := ⟨by decide⟩
instance fact_swi3 : Fact (0xfff2 + 1 < 0x10000) := ⟨by decide⟩

end Data

/-! ## Fetches -/

section Fetch
variable [Bus β] {α : Type}

/-- The byte that a fetch at `PC` would return, zero if the bus stops the emulator. -/
def peek (s : Cpu β) : ℕ :=
  match Bus.cpuRead8 (getPc s) s.PC s.bus with
  | .ok v _ => v.toNat
  | .error _ _ => 0

variable {Q : α → Cpu β → Prop}

/-- A fetched byte; `g` of it are the bytes still to be fetched. -/
theorem immByte_fit (g : ℕ → ℕ) :
    Triple (fun s : Cpu β => Fit false s ∧ s.PC + 1 + g (peek s) ≤ 0x10000) immByte
      (fun v s => v < 0x100 ∧ Fit false s ∧ s.PC + g v ≤ 0x10000) (Fit false) := by
  rintro s ⟨hs, hpc⟩
  have htrace : ∀ x ∈ Access.read8 s.PC :: s.trace, x.InRange :=
    List.forall_mem_cons.mpr ⟨show s.PC < 0x10000 by omega, hs.trace⟩
  rw [immByte_run]
  unfold peek at hpc
  cases hr : Bus.cpuRead8 (getPc s) s.PC s.bus with
  | ok v b =>
    rw [hr] at hpc
    have hadv : uint (s.PC + 1) = s.PC + 1 := Nat.mod_eq_of_lt (by omega)
    refine ⟨v.isLt, { hs with ea := nofun, trace := htrace }, ?_⟩
    simpa only [hadv] using hpc
  | error e b => exact { hs with ea := nofun, trace := htrace }

theorem fetchByte_then {f : ℕ → CpuM β α} (g : ℕ → ℕ)
    (hf : ∀ v : { v : ℕ // v < 0x100 },
      Triple (fun s => Fit false s ∧ s.PC + g v.1 ≤ 0x10000) (f v.1) Q (Fit false)) :
    Triple (fun s => Fit false s ∧ s.PC + 1 + g (peek s) ≤ 0x10000) (immByte >>= f) Q
      (Fit false) :=
  (immByte_fit g).bind fun v s hs => hf ⟨v, hs.1⟩ s hs.2

theorem fetchByte_keeps {f : ℕ → CpuM β Unit} [hf : ∀ v : { v : ℕ // v < 0x100 }, Keeps (Fit false) (f v.1)] :
    Triple (fun s => Fit false s ∧ s.PC + 1 ≤ 0x10000) (immByte >>= f) (fun _ => Fit false)
      (Fit false) :=
  fetchByte_then (fun _ => 0) fun v => (hf v).rule.mono (fun _ h => h.1) (fun _ _ h => h) fun _ h => h

theorem immWord_fit :
    Triple (fun s : Cpu β => Fit false s ∧ s.PC + 2 ≤ 0x10000) immWord
      (fun v s => v < 0x10000 ∧ Fit false s) (Fit false) := by
  unfold immWord
  refine Triple.bind (Q := fun pc s => pc + 2 ≤ 0x10000 ∧ Fit false s)
    (look_triple fun s h => ⟨h.2, h.1⟩) fun pc s hs => ?_
  have : Fact (pc + 1 < 0x10000) := ⟨by omega⟩
  exact ((read16_gives pc).after fun _ => inferInstance).gives s hs.2

theorem fetchWord_then {f : ℕ → CpuM β α}
    (hf : ∀ v : { v : ℕ // v < 0x10000 }, Triple (Fit false) (f v.1) Q (Fit false)) :
    Triple (fun s => Fit false s ∧ s.PC + 2 ≤ 0x10000) (immWord >>= f) Q (Fit false) :=
  immWord_fit.bind fun v s hs => hf ⟨v, hs.1⟩ s hs.2

theorem fetchWord_keeps {f : ℕ → CpuM β Unit}
    [hf : ∀ v : { v : ℕ // v < 0x10000 }, Keeps (Fit false) (f v.1)] :
    Triple (fun s => Fit false s ∧ s.PC + 2 ≤ 0x10000) (immWord >>= f) (fun _ => Fit false)
      (Fit false) :=
  fetchWord_then fun v => (hf v).rule

/-! ### Effective addresses -/

/-- `m` computes an effective address and fetches nothing. -/
class Addresses (m : CpuM β α) : Prop where
  rule : Triple (Fit false) m (fun _ => Fit true) (Fit false)

namespace Addresses
variable {γ : Type} {k : α → CpuM β γ} {m : CpuM β α}

instance setEa (a : ℕ) [h : Fact (a < 0x10000)] : Addresses (setEa (β := β) a) :=
  ⟨Triple.modify fun _ hs => { hs with ea := fun _ => h.out }⟩

instance keeps [hm : Addresses m] [hk : ∀ a, Keeps (Fit true) (k a)] : Addresses (m >>= k) :=
  ⟨hm.rule.bind fun a => (hk a).rule.mono (fun _ h => h) (fun _ _ h => h) fun _ h => h.untracked⟩

instance seq [hm : Keeps (Fit false) m] [hk : ∀ a, Addresses (k a)] : Addresses (m >>= k) :=
  ⟨hm.rule.bind fun a => (hk a).rule⟩

instance given {V : α → Prop} [hm : Gives (Fit false) m V]
    [hk : ∀ a : { a // V a }, Addresses (k a.1)] : Addresses (m >>= k) :=
  ⟨hm.gives.bind fun a s hs => (hk ⟨a, hs.1⟩).rule s hs.2⟩

end Addresses

/-- The bytes a postbyte is followed by. -/
def postbyteTail (post : ℕ) : ℕ :=
  if post &&& 0x80 = 0 then 0
  else match post &&& 0x1f with
    | 0x08 | 0x18 | 0x0c | 0x1c => 1
    | 0x09 | 0x19 | 0x0d | 0x1d | 0x1f => 2
    | _ => 0

theorem fetchByte_addresses {f : ℕ → CpuM β α} [hf : ∀ v : { v : ℕ // v < 0x100 }, Addresses (f v.1)] :
    Triple (fun s => Fit false s ∧ s.PC + 1 ≤ 0x10000) (immByte >>= f) (fun _ => Fit true)
      (Fit false) :=
  fetchByte_then (fun _ => 0) fun v =>
    (hf v).rule.mono (fun _ h => h.1) (fun _ _ h => h) fun _ h => h

theorem fetchWord_addresses {f : ℕ → CpuM β α}
    [hf : ∀ v : { v : ℕ // v < 0x10000 }, Addresses (f v.1)] :
    Triple (fun s => Fit false s ∧ s.PC + 2 ≤ 0x10000) (immWord >>= f) (fun _ => Fit true)
      (Fit false) :=
  fetchWord_then fun v => (hf v).rule

theorem indexedEa_fit {post : ℕ} (R : IndexReg) (hpost : post &&& 0x80 ≠ 0) :
    Triple (fun s => Fit false s ∧ s.PC + postbyteTail post ≤ 0x10000) (indexedEa (β := β) post R)
      (fun _ => Fit true) (Fit false) := by
  have hnone {m : CpuM β Bool} (h : Addresses m) :
      Triple (fun s => Fit false s ∧ s.PC + postbyteTail post ≤ 0x10000) m (fun _ => Fit true)
        (Fit false) := h.rule.mono (fun _ hs => hs.1) (fun _ _ hs => hs) fun _ hs => hs
  have hsome {m : CpuM β Bool} {n : ℕ} (hn : postbyteTail post = n)
      (h : Triple (fun s => Fit false s ∧ s.PC + n ≤ 0x10000) m (fun _ => Fit true) (Fit false)) :
      Triple (fun s => Fit false s ∧ s.PC + postbyteTail post ≤ 0x10000) m (fun _ => Fit true)
        (Fit false) := by rwa [hn]
  unfold indexedEa
  split
  case h_13 h | h_14 h | h_19 h | h_20 h =>
    exact hsome (by simp [postbyteTail, hpost, h]) fetchByte_addresses
  case h_15 h | h_16 h | h_21 h | h_22 h | h_23 h =>
    exact hsome (by simp [postbyteTail, hpost, h]) fetchWord_addresses
  all_goals exact hnone inferInstance

theorem indirect_fit : Triple (Fit (β := β) true) indirect (fun _ => Fit true) (Fit false) := by
  unfold indirect
  refine Triple.bind (Q := fun a s => a < 0x10000 ∧ Fit false s)
    (look_triple fun s h => ⟨h.ea rfl, h.untracked⟩) fun a s hs => ?_
  have : Fact (a < 0x10000) := ⟨hs.1⟩
  have h : Addresses (β := β) (do setEa (← rdmem16 a); charge 2) := inferInstance
  exact h.rule s hs.2

theorem indexed_fit : Triple (fun s : Cpu β => Fit false s ∧ s.PC + 1 + postbyteTail (peek s) ≤ 0x10000)
    indexed (fun _ => Fit true) (Fit false) := by
  unfold indexed
  refine fetchByte_then postbyteTail fun post => ?_
  refine Triple.ite (fun h => ?_) fun _ => ?_
  · refine (indexedEa_fit (indexReg post.1) h).bind fun b => ?_
    exact Triple.ite (fun _ => indirect_fit) fun _ => Triple.pure _ fun _ h => h
  · have h : Addresses (β := β) (do
        setEa (uint ((← look (indexReg post.1).get) +
          if post.1 &&& 0x10 ≠ 0 then post.1 ||| 0xfff0 else post.1 &&& 0x000f) &&& 0xffff)
        charge 5) := inferInstance
    exact h.rule.mono (fun _ h => h.1) (fun _ _ h => h) fun _ h => h

/-- The bytes of an operand, its postbyte included. -/
def Mode.bytes (s : Cpu β) : Mode → ℕ
  | .direct _ => 1
  | .indexed _ _ => 1 + postbyteTail (peek s)
  | .extended _ => 2

theorem address_fit (m : Mode) : Triple (fun s : Cpu β => Fit false s ∧ s.PC + m.bytes s ≤ 0x10000)
    m.address (fun _ => Fit true) (Fit false) := by
  have hafter {m : CpuM β Unit} {P : Cpu β → Prop} (clk : ℤ)
      (h : Triple P m (fun _ => Fit true) (Fit false)) :
      Triple P (do m; charge clk) (fun _ => Fit true) (Fit false) :=
    h.bind fun _ => Keeps.rule.mono (fun _ h => h) (fun _ _ h => h) fun _ h => h.untracked
  cases m with
  | direct clk =>
    refine hafter clk (Triple.bind (Q := fun pc s => pc + 1 ≤ 0x10000 ∧ Fit false s)
      (look_triple fun s h => ⟨h.2, h.1⟩) fun pc s hs => ?_)
    have : Fact (pc < 0x10000) := ⟨hs.1⟩
    have h : Addresses (β := β)
        (do let val ← read8 pc; advancePc 1; setEa (val ||| (← look Cpu.DP))) := inferInstance
    exact h.rule s hs.2
  | indexed pre post =>
    refine Triple.bind (Q := fun _ s => Fit false s ∧ s.PC + 1 + postbyteTail (peek s) ≤ 0x10000)
      (Triple.modify fun s hs => ⟨{ hs.1 with }, ?_⟩) fun _ => hafter post indexed_fit
    exact Nat.add_assoc s.PC 1 _ ▸ hs.2
  | extended clk =>
    refine hafter clk (Triple.bind (Q := fun pc s => pc + 2 ≤ 0x10000 ∧ Fit false s)
      (look_triple fun s h => ⟨h.2, h.1⟩) fun pc s hs => ?_)
    have : Fact (pc + 1 < 0x10000) := ⟨by omega⟩
    have h : Addresses (β := β) (do let val ← read16 pc; advancePc 2; setEa val) := inferInstance
    exact h.rule s hs.2

/-- An addressing mode followed by the accesses to its address. -/
theorem address_then {m : Mode} {k : CpuM β α} (hk : Triple (Fit true) k Q (Fit false)) :
    Triple (fun s : Cpu β => Fit false s ∧ s.PC + m.bytes s ≤ 0x10000) (do m.address; k) Q
      (Fit false) :=
  (address_fit m).bind fun _ => hk

theorem address_keeps {m : Mode} {k : CpuM β Unit} [hk : Keeps (Fit true) k] :
    Triple (fun s : Cpu β => Fit false s ∧ s.PC + m.bytes s ≤ 0x10000) (do m.address; k)
      (fun _ => Fit false) (Fit false) :=
  address_then (hk.rule.mono (fun _ h => h) (fun _ _ h => h.untracked) fun _ h => h.untracked)

def Operand.bytes8 (s : Cpu β) : Operand → ℕ
  | .imm _ => 1
  | .mem m => m.bytes s

def Operand.bytes16 (s : Cpu β) : Operand → ℕ
  | .imm _ => 2
  | .mem m => m.bytes s

theorem load8_fit (src : Operand) :
    Triple (fun s : Cpu β => Fit false s ∧ s.PC + src.bytes8 s ≤ 0x10000) src.load8
      (fun v s => v < 0x100 ∧ Fit false s) (Fit false) := by
  cases src with
  | imm clk =>
    refine Triple.bind (Q := fun _ s => Fit false s ∧ s.PC + 1 ≤ 0x10000)
      (Triple.modify fun s hs => ⟨{ hs.1 with }, hs.2⟩) fun _ => ?_
    exact (immByte_fit fun _ => 0).mono (fun _ h => h) (fun _ _ h => ⟨h.1, h.2.1⟩) fun _ h => h
  | mem m =>
    refine address_then (Triple.bind (Q := fun a s => a < 0x10000 ∧ Fit false s)
      (look_triple fun s h => ⟨h.ea rfl, h.untracked⟩) fun a s hs => ?_)
    have : Fact (a < 0x10000) := ⟨hs.1⟩
    exact (read8_gives a).gives s hs.2

theorem load16_fit (src : Operand) :
    Triple (fun s : Cpu β => Fit false s ∧ s.PC + src.bytes16 s ≤ 0x10000) src.load16
      (fun v s => v < 0x10000 ∧ Fit false s) (Fit false) := by
  cases src with
  | imm clk =>
    refine Triple.bind (Q := fun _ s => Fit false s ∧ s.PC + 2 ≤ 0x10000)
      (Triple.modify fun s hs => ⟨{ hs.1 with }, hs.2⟩) fun _ => immWord_fit
  | mem m =>
    refine address_then (Triple.bind (Q := fun a s => a < 0x10000 ∧ Fit false s)
      (look_triple fun s h => ⟨h.ea rfl, h.untracked⟩) fun a s hs => ?_)
    have : Fact (a < 0x10000) := ⟨hs.1⟩
    exact (rdmem16_gives a).gives s hs.2

theorem load8_keeps {src : Operand} {f : ℕ → CpuM β Unit}
    [hf : ∀ v : { v : ℕ // v < 0x100 }, Keeps (Fit false) (f v.1)] :
    Triple (fun s : Cpu β => Fit false s ∧ s.PC + src.bytes8 s ≤ 0x10000) (src.load8 >>= f)
      (fun _ => Fit false) (Fit false) :=
  (load8_fit src).bind fun v s hs => (hf ⟨v, hs.1⟩).rule s hs.2

theorem load16_keeps {src : Operand} {f : ℕ → CpuM β Unit}
    [hf : ∀ v : { v : ℕ // v < 0x10000 }, Keeps (Fit false) (f v.1)] :
    Triple (fun s : Cpu β => Fit false s ∧ s.PC + src.bytes16 s ≤ 0x10000) (src.load16 >>= f)
      (fun _ => Fit false) (Fit false) :=
  (load16_fit src).bind fun v s hs => (hf ⟨v, hs.1⟩).rule s hs.2

end Fetch

/-! ## Instructions -/

section Exec
variable {t : Bool}

variable [Bus β]

theorem exg_fit : Triple (fun s : Cpu β => Fit false s ∧ s.PC + 1 ≤ 0x10000) exg
    (fun _ => Fit false) (Fit false) := by
  unfold exg
  refine fetchByte_then (fun _ => 0) fun post => ?_
  have hfits {s : Cpu β} (hs : Fit false s) := exchanged_fits hs.widths post.2
  refine Triple.bind (Q := fun v s => RegFits (post.1 &&& 15) v ∧ Fit false s)
    (look_triple fun s h => ⟨(hfits h.1).1, h.1⟩) fun v => ?_
  refine Triple.bind (Q := fun w s => RegFits (post.1 &&& 15) v ∧ RegFits (post.1 >>> 4) w ∧ Fit false s)
    (look_triple fun s h => ⟨h.1, (hfits h.2).2, h.2⟩) fun w => ?_
  rintro s ⟨hv, hw, hs⟩
  exact ((setReg_keeps hv).rule.bind fun _ => (setReg_keeps hw).rule.bind fun _ => Keeps.rule) s hs

theorem tfr_fit : Triple (fun s : Cpu β => Fit false s ∧ s.PC + 1 ≤ 0x10000) tfr
    (fun _ => Fit false) (Fit false) := by
  unfold tfr
  refine fetchByte_then (fun _ => 0) fun post => ?_
  refine Triple.bind (Q := fun v s => RegFits (post.1 &&& 15) v ∧ Fit false s)
    (look_triple fun s h => ⟨(exchanged_fits h.1.widths post.2).1, h.1⟩) fun v => ?_
  rintro s ⟨hv, hs⟩
  exact ((setReg_keeps hv).rule.bind fun _ => Keeps.rule) s hs

theorem bra_fit : Triple (fun s : Cpu β => Fit false s ∧ s.PC + 1 ≤ 0x10000) bra
    (fun _ => Fit false) (Fit false) := by
  unfold bra
  exact fetchByte_keeps

theorem longBra_fit : Triple (fun s : Cpu β => Fit false s ∧ s.PC + 2 ≤ 0x10000) longBra
    (fun _ => Fit false) (Fit false) := by
  unfold longBra
  exact fetchWord_keeps

theorem branch_fit (cond : Bool) :
    Triple (fun s : Cpu β => Fit false s ∧ s.PC + (if cond then 1 else 0) ≤ 0x10000) (branch cond)
      (fun _ => Fit false) (Fit false) := by
  unfold branch
  refine Triple.bind (Q := fun _ => Fit false) ?_ fun _ => Keeps.rule
  cases cond with
  | true => exact bra_fit
  | false =>
    have h : Keeps (Fit (β := β) false) (takeBranch false) := by
      rw [takeBranch, if_neg Bool.false_ne_true]
      infer_instance
    exact h.rule.mono (fun _ h => h.1) (fun _ _ h => h) fun _ h => h

theorem longBranch_fit (cond : Bool) :
    Triple (fun s : Cpu β => Fit false s ∧ s.PC + (if cond then 2 else 0) ≤ 0x10000)
      (longBranch cond) (fun _ => Fit false) (Fit false) := by
  unfold longBranch
  cases cond with
  | true => exact longBra_fit.bind fun _ => Keeps.rule
  | false =>
    have h : Keeps (Fit (β := β) false) (do changePc (uint ((← get).PC + 2)); charge 5) :=
      inferInstance
    exact h.rule.mono (fun _ h => h.1) (fun _ _ h => h) fun _ h => h

theorem cwai_fit :
    Triple (fun s : Cpu β => Fit false s ∧ s.PC + (if s.cwaiState = .idle then 1 else 0) ≤ 0x10000)
      cwai (fun _ => Fit false) (Fit false) := by
  unfold cwai
  refine Triple.bind (Q := fun c s => Fit false s ∧ s.PC + (if c = .idle then 1 else 0) ≤ 0x10000)
    (look_triple fun _ h => h) fun c => ?_
  cases c with
  | idle => exact fetchByte_keeps
  | wait => exact Keeps.rule.mono (fun _ h => h.1) (fun _ _ h => h) fun _ h => h

/-! ### The bytes of an instruction -/

/-- The bytes that an instruction fetches after its opcode. -/
def Insn.bytes (s : Cpu β) : Insn → ℕ
  | .rmw _ m | .tstMem m | .jmp m | .st _ m | .std m | .st16 _ m | .jsr m => m.bytes s
  | .alu _ _ src => src.bytes8 s
  | .addd src | .subd src | .cmp16 _ src | .ldd src | .ld16 _ src => src.bytes16 s
  | .lea _ => 1 + postbyteTail (peek s)
  | .psh _ | .pul _ | .bra | .bsr | .orcc | .andcc | .exg | .tfr => 1
  | .longBra | .longBsr => 2
  | .branch c => if c.holds s.flags then 1 else 0
  | .longBranch c => if c.holds s.flags then 2 else 0
  | .cwai => if s.cwaiState = .idle then 1 else 0
  | .unary _ _ | .tstAcc _ | .brn | .longBrn | .nop | .sync | .daa | .sex | .rts | .abx | .rti | .mul
  | .swi | .swi2 | .swi3 => 0

theorem exec_fit (i : Insn) : Triple (fun s : Cpu β => Fit false s ∧ s.PC + i.bytes s ≤ 0x10000)
    i.exec (fun _ => Fit false) (Fit false) := by
  have hnone {m : CpuM β Unit} (h : Keeps (Fit false) m) :
      Triple (fun s : Cpu β => Fit false s ∧ s.PC + i.bytes s ≤ 0x10000) m (fun _ => Fit false)
        (Fit false) := h.rule.mono (fun _ hs => hs.1) (fun _ _ hs => hs) fun _ hs => hs
  cases i
  case rmw | tstMem | jmp | st | std | st16 | jsr =>
    unfold Insn.exec
    exact address_keeps
  case alu =>
    unfold Insn.exec
    exact load8_keeps
  case addd | subd | cmp16 | ldd | ld16 =>
    unfold Insn.exec
    exact load16_keeps
  case unary | tstAcc | brn | longBrn | nop | sync | daa | sex | rts | abx | rti | mul | swi | swi2 | swi3 =>
    unfold Insn.exec at *
    exact hnone inferInstance
  case psh sp =>
    unfold Insn.exec Exec09.psh
    exact fetchByte_keeps
  case pul sp =>
    unfold Insn.exec Exec09.pul
    exact fetchByte_keeps
  case orcc | andcc =>
    unfold Insn.exec Exec09.orcc Exec09.andcc
    exact fetchByte_keeps
  case lea r =>
    refine (indexed_fit.mono (fun s hs => ⟨hs.1, ?_⟩) (fun _ _ h => h) fun _ h => h).bind fun _ => ?_
    · exact Nat.add_assoc s.PC 1 _ ▸ hs.2
    · exact Keeps.rule.mono (fun _ h => h) (fun _ _ h => h.untracked) fun _ h => h.untracked
  case bra => exact bra_fit.bind fun _ => Keeps.rule
  case longBra => exact longBra_fit.bind fun _ => Keeps.rule
  case bsr =>
    unfold Insn.exec Exec09.bsr
    exact fetchByte_keeps
  case longBsr =>
    unfold Insn.exec Exec09.longBsr
    exact fetchWord_keeps
  case branch c =>
    exact Triple.bind (Q := fun b s => Fit false s ∧ s.PC + (if b then 1 else 0) ≤ 0x10000)
      (look_triple fun s h => h) fun b => branch_fit b
  case longBranch c =>
    exact Triple.bind (Q := fun b s => Fit false s ∧ s.PC + (if b then 2 else 0) ≤ 0x10000)
      (look_triple fun s h => h) fun b => longBranch_fit b
  case cwai => exact cwai_fit
  case exg => exact exg_fit
  case tfr => exact tfr_fit

/-! ### Steps and runs -/

def Selected.bytes (s : Cpu β) : Selected → ℕ
  | .insn i => i.bytes s
  | .invalid | .invalidPrefixed => 0

theorem selected_fit (sel : Selected) :
    Triple (fun s : Cpu β => Fit false s ∧ s.PC + sel.bytes s ≤ 0x10000) sel.exec (fun _ => Fit false)
      (Fit false) := by
  cases sel with
  | insn i => exact exec_fit i
  | invalid =>
    unfold Selected.exec
    exact Keeps.rule.mono (fun _ h => h.1) (fun _ _ h => h) fun _ h => h
  | invalidPrefixed =>
    unfold Selected.exec
    exact Keeps.rule.mono (fun _ h => h.1) (fun _ _ h => h) fun _ h => h

/-- Whether `opcode` is followed by a second opcode byte. -/
def prefixTail (opcode : ℕ) : ℕ := if opcode = 0x10 ∨ opcode = 0x11 then 1 else 0

theorem fetchOpcode_fit :
    Triple (fun s : Cpu β => Fit false s ∧ s.PC + 1 + prefixTail (peek s) ≤ 0x10000) fetchOpcode
      (fun _ => Fit false) (Fit false) := by
  unfold fetchOpcode
  refine fetchByte_then prefixTail fun op => ?_
  have hsecond {f : ℕ → Selected} (hop : op.1 = 0x10 ∨ op.1 = 0x11) :
      Triple (fun s : Cpu β => Fit false s ∧ s.PC + prefixTail op.1 ≤ 0x10000)
        (do let opcode ← immByte; return f opcode) (fun _ => Fit false) (Fit false) := by
    rw [prefixTail, if_pos hop]
    exact fetchByte_then (fun _ => 0) fun v => Triple.pure _ fun _ h => h.1
  refine Triple.ite (fun h => hsecond (.inl h)) fun _ => ?_
  refine Triple.ite (fun h => hsecond (.inr h)) fun _ => Triple.pure _ fun _ h => h.1

/-- The opcode and the operand bytes that a step at `s` fetches end below `0x10000`. -/
def FetchFits (s : Cpu β) : Prop :=
  s.PC + 1 + prefixTail (peek s) ≤ 0x10000 ∧
    OnReturn fetchOpcode (latchPc s) fun sel s₁ => s₁.PC + sel.bytes s₁ ≤ 0x10000

instance (s : Cpu β) : Decidable (FetchFits s) := inferInstanceAs (Decidable (_ ∧ OnReturn _ _ _))

theorem fetchExecute_fit :
    Triple (fun s : Cpu β => Fit false s ∧ FetchFits s) fetchExecute (fun _ => Fit false)
      (Fit false) := by
  rintro s ⟨hs, hop, hbytes⟩
  have hfetch := fetchOpcode_fit (latchPc s) ⟨{ hs with ea := nofun }, hop⟩
  rw [fetchExecute, run_bind_ok (run_modify latchPc)]
  cases hr : fetchOpcode (latchPc s) with
  | ok sel s₁ =>
    rw [hr] at hfetch
    rw [run_bind_ok hr]
    exact selected_fit sel s₁ ⟨hfetch, (onReturn_ok hr).mp hbytes⟩
  | error e s₁ =>
    rw [hr] at hfetch
    rw [run_bind_error hr]
    exact hfetch

/-- The condition on a step under which it stays in the address space. -/
def Event.StaysBelow : Event → Cpu β → Prop
  | .insn, s => FetchFits s
  | _, _ => True

instance : ∀ (e : Event) (s : Cpu β), Decidable (e.StaysBelow s)
  | .insn, s => inferInstanceAs (Decidable (FetchFits s))
  | .requestIrq _, _ | .releaseIrq _, _ | .requestFirq _, _ | .releaseFirq _, _ => isTrue trivial
  | .beginSlice _, _ | .endSlice, _ => isTrue trivial

theorem perform_fit (e : Event) :
    Triple (fun s : Cpu β => Fit false s ∧ e.StaysBelow s) e.perform (fun _ => Fit false)
      (Fit false) := by
  have hkeep {m : CpuM β Unit} (h : Keeps (Fit false) m) :
      Triple (fun s : Cpu β => Fit false s ∧ e.StaysBelow s) m (fun _ => Fit false) (Fit false) :=
    h.rule.mono (fun _ h => h.1) (fun _ _ h => h) fun _ h => h
  cases e with
  | insn => exact fetchExecute_fit.bind fun _ => Keeps.rule
  | requestIrq n => exact hkeep (m := requestIrq n) inferInstance
  | releaseIrq n => exact hkeep (m := releaseIrq n) inferInstance
  | requestFirq n => exact hkeep (m := requestFirq n) inferInstance
  | releaseFirq n => exact hkeep (m := releaseFirq n) inferInstance
  | beginSlice c => exact hkeep (m := beginSlice c) inferInstance
  | endSlice => exact hkeep (m := endSlice) inferInstance

/-- Reset loads the registers and fetches the reset vector. -/
theorem cpuReset_fit :
    Triple (fun s : Cpu β => s.trace = []) cpuReset (fun _ => Fit false) (Fit false) := by
  have hvector : Fact (0xfffe + 1 < 0x10000) := ⟨by decide⟩
  unfold cpuReset
  refine Triple.bind (Q := fun _ => Fit false) (Triple.modify fun s hs => ?_) fun _ => ?_
  · have hzero : 0 < 0x10000 := by decide
    have hbyte : 0 < 0x100 := by decide
    exact ⟨hbyte, hbyte, hzero, hzero, hzero, hzero, hzero, rfl, nofun, by simp [hs]⟩
  · have hrun : Keeps (Fit (β := β) false)
        (modify fun s => { s with bus := Bus.cpuIsRunning s.bus } : CpuM β Unit) :=
      Keeps.modify fun _ h => { h with }
    exact Keeps.rule

def Access.addr : Access → ℕ
  | .read8 a | .read16 a | .write8 a _ => a

theorem Access.InRange.block_lt {a : Access} (h : a.InRange) : a.addr / 128 < 512 := by
  cases a <;> simp only [Access.InRange, Access.addr] at * <;> omega

/-- Every access of a run whose instructions end below `0x10000` is in range, and
`find_map` finds it inside `busmaps`. -/
theorem accesses_inRange_along_run {es : List Event} {s₀ s₁ : Cpu β} (htrace : s₀.trace = [])
    (hreset : cpuReset s₀ = .ok () s₁) (hok : Along Event.perform Event.StaysBelow es s₁) :
    ∀ a ∈ (finalState (runAll Event.perform es s₁)).trace, a.InRange ∧ a.addr / 128 < 512 := by
  have h₁ : Fit false s₁ := by
    have h := cpuReset_fit s₀ htrace
    rwa [hreset] at h
  have h := runAll_invariant perform_fit es s₁ ⟨h₁, hok⟩
  have hfit : Fit false (finalState (runAll Event.perform es s₁)) := by
    cases hr : runAll Event.perform es s₁ <;> rw [hr] at h <;> exact h
  exact fun a ha => ⟨hfit.trace a ha, (hfit.trace a ha).block_lt⟩

end Exec

/-! A `JMP $FFFF` to a byte that is also the low half of the reset vector: the
NOP there is the last instruction whose fetch is in range. -/

section FlatRam

/-- The instruction at `0x1012`, the reset vector, is `JMP $FFFF`; the vector ends in a NOP. -/
def wrapProgram : FlatRam := .image [(0x1012, [0x7e, 0xff, 0xff]), (0xfffe, [0x10, 0x12])]

theorem accesses_inRange_wrapProgram :
    (Access.read8 0xffff).InRange ∧ (Access.read8 0xffff).addr / 128 < 512 := by
  have hreset : returned (cpuReset (Cpu.powerOn wrapProgram)) = true := by decide +kernel
  have hok : Along Event.perform Event.StaysBelow [.insn, .insn]
      (finalState (cpuReset (Cpu.powerOn wrapProgram))) := by decide +kernel
  exact accesses_inRange_along_run rfl (eq_ok_finalState hreset) hok (.read8 0xffff)
    (by decide +kernel)

theorem access_past_wrapProgram :
    ¬∀ (es : List Event) (s₀ s₁ : Cpu FlatRam), s₀.trace = [] → cpuReset s₀ = .ok () s₁ →
      ∀ a ∈ (finalState (runAll Event.perform es s₁)).trace, a.InRange := by
  intro h
  have hreset : returned (cpuReset (Cpu.powerOn wrapProgram)) = true := by decide +kernel
  have hall := h [.insn, .insn, .insn] _ _ rfl (eq_ok_finalState hreset)
  exact absurd (hall (.read8 0x10000) (by decide +kernel)) (by decide)

end FlatRam

end Exec09
