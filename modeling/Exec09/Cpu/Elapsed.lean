import Exec09.Cpu.Compounds

/-! # What the processor leaves to the rest of the emulator

The pending words belong to the devices and `cpu_period` and `total` to the
main loop, and no instruction and no interrupt entry writes them. They charge
cycles to `cpu_clk`. Only an indexed JMP gives one back, which is less than
what a legal postbyte has charged.
-/
namespace Exec09
open Foundation
variable {β : Type}

set_option synthInstance.maxSize 100000

/-- The part of the state that a program of the processor is measured against. Without a
bound on `cpu_clk` the program may charge what it likes. -/
structure Mark where
  irqsPending : ℕ
  firqsPending : ℕ
  cpuPeriod : ℤ
  total : ℕ
  bound : Option ℤ

/-- The words are those of `x`, and time has passed at most. -/
structure Mark.Since (x : Mark) (s : Cpu β) : Prop where
  irqsPending : s.irqsPending = x.irqsPending
  firqsPending : s.firqsPending = x.firqsPending
  cpuPeriod : s.cpuPeriod = x.cpuPeriod
  total : s.total = x.total
  cpuClk : ∀ b ∈ x.bound, s.cpuClk ≤ b

def mark (s : Cpu β) (bound : Option ℤ) : Mark :=
  ⟨s.irqsPending, s.firqsPending, s.cpuPeriod, s.total, bound⟩

theorem since_self (s : Cpu β) : (mark s (some s.cpuClk)).Since s :=
  ⟨rfl, rfl, rfl, rfl, fun b hb => by cases hb; exact le_rfl⟩

theorem since_free (s : Cpu β) : (mark s none).Since s := ⟨rfl, rfl, rfl, rfl, nofun⟩

/-- A number of cycles that may be charged against `x`. -/
class Cost (x : Mark) (n : ℤ) : Prop where
  nonneg : x.bound.isSome → 0 ≤ n

instance Cost.tail (x : Mark) (src : Operand) : Cost x src.tail :=
  ⟨fun _ => by cases src <;> simp [Operand.tail]⟩

theorem Cost.free {x : Mark} (hx : x.bound = none) (n : ℤ) : Cost x n :=
  ⟨fun h => by simp [hx] at h⟩

/-! ## The parts of an instruction -/

section Frame
variable {x : Mark}

instance onBus_since {α : Type} (m : EStateM Stop β α) : Keeps x.Since (onBus m) where
  keeps s hs := by
    unfold onBus
    cases m s.bus <;> exact ⟨hs.1, hs.2, hs.3, hs.4, hs.5⟩

/-- An update of registers, flags and records. -/
theorem modify_since {g : Cpu β → Cpu β}
    (h : ∀ s, mark (g s) (some (g s).cpuClk) = mark s (some s.cpuClk)) :
    Keeps x.Since (modify g : CpuM β Unit) where
  keeps s hs := by
    have hg := h s
    simp only [mark, Mark.mk.injEq, Option.some.injEq] at hg
    obtain ⟨hirqs, hfirqs, hperiod, htotal, hclk⟩ := hg
    exact ⟨hirqs.trans hs.1, hfirqs.trans hs.2, hperiod.trans hs.3, htotal.trans hs.4,
      fun b hb => hclk.trans_le (hs.5 b hb)⟩

instance charge_since (n : ℤ) [hn : Cost x n] : Keeps x.Since (charge (β := β) n) where
  keeps s hs := by
    refine ⟨hs.1, hs.2, hs.3, hs.4, fun b hb => ?_⟩
    have hlow := hn.nonneg (by rw [hb]; rfl)
    have hhigh := hs.cpuClk b hb
    change s.cpuClk - n ≤ b
    omega

instance charges_since : Charges (β := β) x.Since where
  charge n hn := by
    have : Cost x n := ⟨fun _ => hn⟩
    exact charge_since n

instance note_since (e : Access) : Keeps x.Since (note (β := β) e) := modify_since fun _ => rfl
instance setEa_since (a : ℕ) : Keeps x.Since (setEa (β := β) a) := modify_since fun _ => rfl
instance withFlags_since {α : Type} (op : Flags → α × Flags) :
    Keeps x.Since (withFlags (β := β) op) := ⟨fun _ hs => ⟨hs.1, hs.2, hs.3, hs.4, hs.5⟩⟩
instance changePc_since (a : ℕ) : Keeps x.Since (changePc (β := β) a) := modify_since fun _ => rfl
instance advancePc_since (n : ℕ) : Keeps x.Since (advancePc (β := β) n) := modify_since fun _ => rfl
instance setPc_since (v : ℕ) : Keeps x.Since (setPc (β := β) v) := modify_since fun _ => rfl
instance setA_since (v : ℕ) : Keeps x.Since (setA (β := β) v) := modify_since fun _ => rfl
instance setB_since (v : ℕ) : Keeps x.Since (setB (β := β) v) := modify_since fun _ => rfl
instance setDp_since (v : ℕ) : Keeps x.Since (setDp (β := β) v) := modify_since fun _ => rfl
instance setX_since (v : ℕ) : Keeps x.Since (setX (β := β) v) := modify_since fun _ => rfl
instance setY_since (v : ℕ) : Keeps x.Since (setY (β := β) v) := modify_since fun _ => rfl
instance setEfi_since (v : ℕ) : Keeps x.Since (setEfi (β := β) v) := modify_since fun _ => rfl
instance setCc_since (arg : ℕ) : Keeps x.Since (setCc (β := β) arg) := modify_since fun _ => rfl
instance hook_since (c : Cpu β → ℕ) : Keeps x.Since (commandExitIrqHook c) :=
  modify_since fun _ => rfl
instance latchPc_since : Keeps x.Since (modify latchPc : CpuM β Unit) := modify_since fun _ => rfl
instance clearCcChanged_since : Keeps x.Since (clearCcChanged (β := β)) := modify_since fun _ => rfl
instance setCwaiState_since (c : CwaiState) : Keeps x.Since (setCwaiState (β := β) c) :=
  modify_since fun _ => rfl
instance setIrqStartTime_since (v : Cpu β → ℕ) : Keeps x.Since (setIrqStartTime v) :=
  modify_since fun _ => rfl
instance setIndexReg_since (R : IndexReg) (v : ℕ) : Keeps x.Since (setIndexReg (β := β) R v) :=
  modify_since fun _ => by cases R <;> rfl
instance setStackReg_since (sp : StackReg) (v : ℕ) : Keeps x.Since (setStackReg (β := β) sp v) :=
  modify_since fun _ => by cases sp <;> rfl

end Frame

/-! ## Instructions -/

/-- The cycles an addressing mode brings with it. -/
def Mode.clks : Mode → List ℤ
  | .direct clk => [clk]
  | .indexed pre post => [pre, post]
  | .extended clk => [clk]

def Operand.clks : Operand → List ℤ
  | .imm clk => [clk]
  | .mem m => m.clks

def Insn.clks : Insn → List ℤ
  | .rmw _ m | .tstMem m | .jmp m | .st _ m | .std m | .st16 _ m | .jsr m => m.clks
  | .alu _ _ src | .addd src | .subd src | .cmp16 _ src | .ldd src | .ld16 _ src => src.clks
  | _ => []

section Exec
variable {x : Mark} [Bus β]

theorem address_since {m : Mode} (h : ∀ c ∈ m.clks, Cost x c) : Keeps x.Since (m.address (β := β)) := by
  cases m with
  | direct clk =>
    have : Cost x clk := h clk (by simp [Mode.clks])
    unfold Mode.address
    infer_instance
  | indexed pre post =>
    have : Cost x pre := h pre (by simp [Mode.clks])
    have : Cost x post := h post (by simp [Mode.clks])
    unfold Mode.address
    infer_instance
  | extended clk =>
    have : Cost x clk := h clk (by simp [Mode.clks])
    unfold Mode.address
    infer_instance

theorem load8_since {src : Operand} (h : ∀ c ∈ src.clks, Cost x c) :
    Keeps x.Since (src.load8 (β := β)) := by
  cases src with
  | imm clk =>
    have : Cost x clk := h clk (by simp [Operand.clks])
    unfold Operand.load8
    infer_instance
  | mem m =>
    have : Keeps x.Since (m.address (β := β)) := address_since h
    unfold Operand.load8
    infer_instance

theorem load16_since {src : Operand} (h : ∀ c ∈ src.clks, Cost x c) :
    Keeps x.Since (src.load16 (β := β)) := by
  cases src with
  | imm clk =>
    have : Cost x clk := h clk (by simp [Operand.clks])
    unfold Operand.load16
    infer_instance
  | mem m =>
    have : Keeps x.Since (m.address (β := β)) := address_since h
    unfold Operand.load16
    infer_instance

theorem exec_since {i : Insn} (h : ∀ c ∈ i.clks, Cost x c) : Keeps x.Since (i.exec (β := β)) := by
  cases i
  case rmw op m | tstMem m | jmp m | st r m | std m | st16 r m | jsr m =>
    have : Keeps x.Since (m.address (β := β)) := address_since h
    unfold Insn.exec
    infer_instance
  case alu op r src =>
    have : Keeps x.Since (src.load8 (β := β)) := load8_since h
    unfold Insn.exec
    infer_instance
  case addd src | subd src | cmp16 r src | ldd src | ld16 r src =>
    have : Keeps x.Since (src.load16 (β := β)) := load16_since h
    unfold Insn.exec
    infer_instance
  all_goals
    unfold Insn.exec
    infer_instance

/-! ## An indexed JMP -/

/-- The postbytes that `indexed` accepts. -/
def IndexedLegal (post : ℕ) : Prop :=
  post &&& 0x80 ≠ 0 → post &&& 0x1f ∉ [0x07, 0x0a, 0x0e, 0x0f, 0x10, 0x12, 0x17, 0x1a, 0x1e]

instance (post : ℕ) : Decidable (IndexedLegal post) := inferInstanceAs (Decidable (_ → _))

/-- A cycle later. -/
def Mark.spend (x : Mark) : Mark := { x with bound := x.bound.map (· - 1) }

omit [Bus β] in
theorem Mark.Since.of_spend {s : Cpu β} (h : x.spend.Since s) : x.Since s where
  irqsPending := h.1
  firqsPending := h.2
  cpuPeriod := h.3
  total := h.4
  cpuClk b hb := by
    have hspent := h.5 (b - 1) (by rw [Mark.spend, hb]; rfl)
    omega

/-- A program that returns has charged at least one cycle. -/
class Spends {α : Type} (x : Mark) (m : CpuM β α) : Prop where
  spends : Triple x.Since m (fun _ => x.spend.Since) x.Since

namespace Spends
variable {α γ : Type} {m : CpuM β α} {f : α → CpuM β γ}

instance literal (n : ℕ) [hn : n.AtLeastTwo] :
    Spends x (charge (no_index (OfNat.ofNat n)) : CpuM β Unit) where
  spends := Triple.modify fun s hs => ⟨hs.1, hs.2, hs.3, hs.4, fun b hb => by
    obtain ⟨c, hc, rfl⟩ := Option.mem_map.mp hb
    have hle := hs.5 c hc
    have htwo := hn.prop
    change s.cpuClk - (n : ℤ) ≤ c - 1
    omega⟩

instance bind_left [hm : Spends x m] [hf : ∀ a, Keeps x.spend.Since (f a)] : Spends x (m >>= f) where
  spends := hm.spends.bind fun a =>
    (Keeps.iff_triple.mp (hf a)).mono (fun _ h => h) (fun _ _ h => h) fun _ h => h.of_spend

instance bind_right [hm : Keeps x.Since m] [hf : ∀ a, Spends x (f a)] : Spends x (m >>= f) where
  spends := (Keeps.iff_triple.mp hm).bind fun a => (hf a).spends

end Spends

theorem indexedEa_spends {post : ℕ} (R : IndexReg) (hset : post &&& 0x80 ≠ 0)
    (h : IndexedLegal post) : Spends x (indexedEa (β := β) post R) := by
  unfold indexedEa
  split
  case h_24 =>
    exfalso
    have hle : post &&& 0x1f ≤ 0x1f := Nat.and_le_right
    have hlegal := h hset
    simp only [List.mem_cons, List.not_mem_nil, or_false, not_or] at hlegal
    simp only [imp_false] at *
    omega
  all_goals infer_instance

theorem indexed_spends :
    Triple (fun s : Cpu β => x.Since s ∧ OnReturn immByte s fun n _ => IndexedLegal n) indexed
      (fun _ => x.spend.Since) x.Since := by
  unfold indexed
  refine Triple.bind (Q := fun n s => IndexedLegal n ∧ x.Since s) ?_ fun n => Triple.and_pre fun hn => ?_
  · rintro s ⟨hs, hlegal⟩
    have hsince := (immByte_kept (I := x.Since)).keeps s hs
    cases hr : immByte s with
    | ok n t =>
      rw [hr] at hsince
      exact ⟨(onReturn_ok hr).mp hlegal, hsince⟩
    | error e t =>
      rw [hr] at hsince
      exact hsince
  · apply Triple.ite
    · intro hset
      have hspends : Spends x (indexedEa (β := β) n (indexReg n)) := indexedEa_spends _ hset hn
      have hall : Spends x (do
          if (← indexedEa (β := β) n (indexReg n)) && n &&& 0x10 ≠ 0 then indirect) := inferInstance
      exact hall.spends
    · intro _
      have hall (R : IndexReg) (post : ℕ) : Spends x (do
          setEa (uint ((← look (β := β) R.get) + post) &&& 0xffff)
          charge 5) := inferInstance
      exact (hall _ _).spends

/-! ## A step of the processor -/

def indexedJmp : Insn := .jmp (.indexed 0 (-1))

theorem decode_clks : ∀ v : U8, ∀ i ∈ decode v.toNat, i ≠ indexedJmp → ∀ c ∈ i.clks, 0 ≤ c := by
  decide +kernel

theorem decode10_clks : ∀ v : U8, ∀ i ∈ decode10 v.toNat, ∀ c ∈ i.clks, 0 ≤ c := by
  decide +kernel

theorem decode11_clks : ∀ v : U8, ∀ i ∈ decode11 v.toNat, ∀ c ∈ i.clks, 0 ≤ c := by
  decide +kernel

theorem immByte_gives :
    Triple (fun _ : Cpu β => True) immByte (fun n _ => ∃ v : U8, n = v.toNat) (fun _ => True) := by
  intro s _
  rw [immByte_run]
  cases Bus.cpuRead8 (getPc s) s.PC s.bus with
  | ok v b => exact ⟨v, rfl⟩
  | error e b => trivial

/-- What holds of every instruction of the three tables holds of the one that is fetched. -/
theorem fetchOpcode_decodes {P : Insn → Prop} (h : ∀ v : U8, ∀ i ∈ decode v.toNat, P i)
    (h10 : ∀ v : U8, ∀ i ∈ decode10 v.toNat, P i) (h11 : ∀ v : U8, ∀ i ∈ decode11 v.toNat, P i) :
    Triple (fun _ : Cpu β => True) fetchOpcode (fun sel _ => ∀ i, sel = .insn i → P i)
      (fun _ => True) := by
  have helim {o : Option Insn} {d : Selected} (ho : ∀ i ∈ o, P i) (hd : ∀ i, d ≠ .insn i) (i : Insn)
      (hi : o.elim d .insn = .insn i) : P i := by
    cases o with
    | none => exact absurd hi (hd i)
    | some j =>
      cases hi
      exact ho i rfl
  have hnext {dec : ℕ → Option Insn} (hdec : ∀ v : U8, ∀ i ∈ dec v.toNat, P i) (n : ℕ) :
      Triple (fun _ : Cpu β => ∃ v : U8, n = v.toNat)
        (do let opcode ← immByte; return (dec opcode).elim Selected.invalidPrefixed Selected.insn)
        (fun sel _ => ∀ i, sel = .insn i → P i) (fun _ => True) := by
    apply (immByte_gives.mono (fun _ _ => trivial) (fun _ _ h => h) fun _ h => h).bind
    intro n
    apply Triple.pure
    rintro s ⟨v, rfl⟩
    exact helim (hdec v) nofun
  unfold fetchOpcode
  apply immByte_gives.bind
  intro n
  apply Triple.ite
  · exact fun _ => hnext h10 n
  · intro _
    apply Triple.ite
    · exact fun _ => hnext h11 n
    · intro _
      apply Triple.pure
      rintro s ⟨v, rfl⟩
      exact helim (h v) nofun

/-- What was selected gives no cycle back, except that it may be an indexed JMP. -/
def Selected.Costed (sel : Selected) : Prop :=
  ∀ i, sel = .insn i → i ≠ indexedJmp → ∀ c ∈ i.clks, 0 ≤ c

theorem fetchOpcode_costed :
    Triple (fun _ : Cpu β => True) fetchOpcode (fun sel _ => sel.Costed) (fun _ => True) :=
  fetchOpcode_decodes decode_clks (fun v i hi _ => decode10_clks v i hi)
    fun v i hi _ => decode11_clks v i hi

theorem selected_since {sel : Selected} (h : ∀ i, sel = .insn i → ∀ c ∈ i.clks, Cost x c) :
    Keeps x.Since (sel.exec (β := β)) := by
  cases sel with
  | insn i => exact exec_since (h i rfl)
  | invalid =>
    unfold Selected.exec
    infer_instance
  | invalidPrefixed =>
    unfold Selected.exec
    infer_instance

/-- Whatever a step charges, it leaves the words alone. -/
theorem cpuStep_since_free (hx : x.bound = none) : Keeps x.Since (cpuStep (β := β)) := by
  have hselected (sel : Selected) : Keeps x.Since (sel.exec (β := β)) :=
    selected_since fun _ _ c _ => Cost.free hx c
  unfold cpuStep fetchExecute
  infer_instance

/-- If the instruction at `PC` is an indexed JMP, its postbyte is legal. -/
def JmpLegal (s : Cpu β) : Prop :=
  OnReturn fetchOpcode (latchPc s) fun sel t =>
    sel = .insn indexedJmp → OnReturn immByte t fun n _ => IndexedLegal n

instance (s : Cpu β) : Decidable (JmpLegal s) := inferInstanceAs (Decidable (OnReturn _ _ _))

theorem indexedJmp_since :
    Triple (fun s : Cpu β => x.Since s ∧ OnReturn immByte s fun n _ => IndexedLegal n)
      indexedJmp.exec (fun _ => x.Since) x.Since := by
  have hback : Triple x.spend.Since (charge (β := β) (-1)) (fun _ => x.Since) x.Since :=
    Triple.modify fun s hs => ⟨hs.1, hs.2, hs.3, hs.4, fun b hb => by
      have hle := hs.5 (b - 1) (by rw [Mark.spend, hb]; rfl)
      change s.cpuClk - -1 ≤ b
      omega⟩
  have hrest : Keeps x.Since (do setPc (← look (β := β) Cpu.ea); monitorCall) := inferInstance
  have haddress : Triple (fun s : Cpu β => x.Since s ∧ OnReturn immByte s fun n _ => IndexedLegal n)
      (Mode.indexed 0 (-1)).address (fun _ => x.Since) x.Since := by
    unfold Mode.address
    refine Triple.bind
      (Q := fun _ s => x.Since s ∧ OnReturn immByte s fun n _ => IndexedLegal n)
      (Triple.modify fun s hs => by simpa only [sub_zero] using hs) fun _ => ?_
    exact indexed_spends.bind fun _ => hback
  unfold indexedJmp Insn.exec
  exact haddress.bind fun _ => Keeps.iff_triple.mp hrest

/-- What was fetched at a legal `PC` lets time pass. -/
theorem exec_fetched {s t : Cpu β} {sel : Selected} (hjmp : JmpLegal s)
    (hfetch : fetchOpcode (latchPc s) = .ok sel t) :
    Triple (fun u => u = t ∧ x.Since u) sel.exec (fun _ => x.Since) x.Since := by
  have hcosted : sel.Costed := fetchOpcode_costed.of_ok trivial hfetch
  rintro u ⟨rfl, hu⟩
  by_cases hsel : sel = .insn indexedJmp
  · subst hsel
    exact indexedJmp_since u ⟨hu, (onReturn_ok hfetch).mp hjmp rfl⟩
  · have hexec : Keeps x.Since (sel.exec (β := β)) := selected_since fun i hi c hc =>
      ⟨fun _ => hcosted i hi (fun h => hsel (by rw [hi, h])) c hc⟩
    exact (Keeps.iff_triple.mp hexec) u hu

end Exec

end Exec09
