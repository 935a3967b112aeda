import Exec09.Cpu.ReturnAddress

/-! # Where an instruction leaves the program counter

An instruction that does not transfer control goes to the byte behind it, a
taken branch to its offset from there, and a call leaves that address on the
stack.
-/
namespace Exec09
open Foundation
variable {β : Type}

set_option synthInstance.maxSize 100000

/-! ## The next instruction -/

/-- The bytes after the opcode, the first of which is `post`. -/
def Insn.size (post : ℕ) : Insn → ℕ
  | .rmw _ m | .tstMem m | .jmp m | .st _ m | .std m | .st16 _ m | .jsr m => m.size post
  | .alu _ _ src => src.size8 post
  | .addd src | .subd src | .cmp16 _ src | .ldd src | .ld16 _ src => src.size16 post
  | .lea _ => 1 + postbyteTail post
  | .psh _ | .pul _ | .exg | .tfr | .orcc | .andcc | .cwai => 1
  | .bra | .brn | .branch _ | .bsr => 1
  | .longBra | .longBrn | .longBranch _ | .longBsr => 2
  | _ => 0

def Insn.PostLegal (post : ℕ) : Insn → Prop
  | .rmw _ m | .tstMem m | .jmp m | .st _ m | .std m | .st16 _ m | .jsr m => m.PostLegal post
  | .alu _ _ src | .addd src | .subd src | .cmp16 _ src | .ldd src | .ld16 _ src =>
    src.PostLegal post
  | .lea _ => LegalPost post
  | _ => True

/-- Another instruction than the next one in memory follows. -/
def Insn.Transfers (f : Flags) (post : ℕ) : Insn → Prop
  | .jmp _ | .jsr _ | .bra | .bsr | .longBra | .longBsr => True
  | .branch c | .longBranch c => c.holds f = true
  | .rts | .rti | .swi | .swi2 | .swi3 | .cwai => True
  | .pul _ => post &&& 0x80 ≠ 0
  | .tfr => post &&& 15 = 5
  | .exg => post &&& 15 = 5 ∨ post >>> 4 = 5
  | _ => False

/-- The offset of a relative branch that is taken, of its 8 or its 16 bits. -/
def Insn.offset (f : Flags) (short long : ℤ) : Insn → Option ℤ
  | .bra | .bsr => some short
  | .branch c => if c.holds f then some short else none
  | .longBra | .longBsr => some long
  | .longBranch c => if c.holds f then some long else none
  | _ => none

/-- How many bytes an instruction pushes after the address of the next one. -/
def Insn.stacked (c : CwaiState) : Insn → Option ℕ
  | .jsr _ | .bsr | .longBsr => some 0
  | .swi | .swi2 | .swi3 => some 10
  | .cwai => match c with
    | .idle => some 10
    | .wait => none
  | _ => none

/-- What is left of an instruction whose opcode is the `k` bytes before `post`, and which is
`n` bytes long. -/
structure Insn.Outcome [Bus β] {mem : ℕ → U8} (M : CodeSeen β mem) (s₀ : Cpu β) (k n : ℕ) (i : Insn)
    (s : Cpu β) : Prop where
  legal : i.PostLegal (M.byte k)
  falls : ¬i.Transfers s₀.flags (M.byte k) → getPc s = (M.pc + n) % 65536
  branches : ∀ d, i.offset s₀.flags (Int.bmod (M.byte k) 256) (Int.bmod (M.word k) 65536) = some d →
    (getPc s : ℤ) = (M.pc + n + d) % 65536
  returns : ∀ depth, i.stacked s₀.cwaiState = some depth →
    Returned depth ((M.pc + n) % 65536) s₀.trace s

/-- The offset of a short branch counts from the next instruction. -/
theorem relative8 (p v : ℕ) :
    ((uint (p + int8 v) &&& 0xffff : ℕ) : ℤ) = ((p : ℤ) + Int.bmod v 256) % 65536 := by
  rw [Word.and_65535, Int.bmod]
  simp only [uint, int8, Word.trunc, Word.signExtend]
  split <;> split <;> omega

theorem relative16 (p v : ℕ) :
    ((uint (p + int16 v) &&& 0xffff : ℕ) : ℤ) = ((p : ℤ) + Int.bmod v 65536) % 65536 := by
  rw [Word.and_65535, Int.bmod]
  simp only [uint, int16, Word.trunc, Word.signExtend]
  split <;> split <;> omega

section Jumps
variable {t : List Access} {p e : ℕ} {α : Type} {Q : α → Cpu β → Prop}

theorem changePc_still {v : ℕ} : Triple (Still (β := β) t p) (changePc v)
    (fun _ => Still t (v &&& 0xffff)) Anywhere :=
  Triple.modify fun _ h => ⟨rfl, h.trace⟩

/-- The address of a jump is computed from `PC`. -/
theorem lookPc_still {f : ℕ → CpuM β α} (h : Triple (Still t p) (f p) Q Anywhere) :
    Triple (Still t p) (look Cpu.PC >>= f) Q Anywhere :=
  Triple.value (look_triple fun _ hs => ⟨hs.PC, hs⟩) h

theorem jump_still (f : ℕ → ℕ) : Triple (Still (β := β) t p) (do changePc (f (← look Cpu.PC)))
    (fun _ => Still t (f p &&& 0xffff)) Anywhere := lookPc_still changePc_still

theorem Still.getPc {s : Cpu β} (h : Still t (p &&& 0xffff) s) : getPc s = p &&& 0xffff := by
  rw [Exec09.getPc, h.PC, Nat.and_assoc, Nat.and_self]

/-- The address of a call waits in `ea`. -/
def EaIs (e : ℕ) (s : Cpu β) : Prop := s.ea = e

instance charge_ea (n : ℤ) : Keeps (EaIs (β := β) e) (charge n) := Keeps.modify fun _ h => h
instance charges_ea : Charges (EaIs (β := β) e) := ⟨fun n _ => charge_ea n⟩
instance note_ea (a : Access) : Keeps (EaIs (β := β) e) (note a) := Keeps.modify fun _ h => h
instance onBus_ea (m : EStateM Stop β α) : Keeps (EaIs e) (onBus m) where
  keeps s h := by
    unfold onBus
    cases m s.bus <;> exact h
instance setStackReg_ea (sp : StackReg) (v : ℕ) : Keeps (EaIs (β := β) e) (setStackReg sp v) :=
  Keeps.modify fun _ h => by cases sp <;> exact h

variable [Bus β]

/-- The part that `bsr` and `longBsr` have in common. -/
theorem call_goes (clk : ℤ) (f : ℕ → ℕ) : Triple (Still (β := β) t p) (do
      setEa (f (← look Cpu.PC))
      push16 .S ((← look Cpu.PC) &&& 0xffff)
      charge clk
      changePc (← look Cpu.ea)
      monitorCall)
    (fun _ s => s.PC = f p &&& 0xffff ∧ Returned 0 (p % 65536) t s) Anywhere := by
  refine lookPc_still ?_
  have hea : Triple (Still (β := β) t p) (setEa (f p)) (fun _ s => EaIs (f p) s ∧ Still t p s)
      Anywhere := Triple.modify fun _ h => ⟨rfl, h.PC, h.trace⟩
  refine hea.bind fun _ => ?_
  have hgoes : Triple (EaIs (β := β) (f p)) (do
      push16 .S ((← look Cpu.PC) &&& 0xffff)
      charge clk
      changePc (← look Cpu.ea)
      monitorCall) (fun _ s => s.PC = f p &&& 0xffff) Anywhere := by
    refine Triple.bind (Q := fun _ => EaIs (f p)) (look_triple fun _ h => h) fun pc => ?_
    have hpush : Keeps (EaIs (β := β) (f p)) (do push16 .S (pc &&& 0xffff); charge clk) := inferInstance
    have hjump : Triple (EaIs (β := β) (f p)) (do changePc (← look Cpu.ea); monitorCall)
        (fun _ s => s.PC = f p &&& 0xffff) Anywhere :=
      fun s h => congrArg (· &&& 0xffff) h
    have hall := (Keeps.anywhere (h := hpush)).bind fun _ => hjump
    simpa only [bind_assoc] using hall
  have hback : Triple (Still (β := β) t p) (do
      push16 .S ((← look Cpu.PC) &&& 0xffff)
      charge clk
      changePc (← look Cpu.ea)
      monitorCall) (fun _ => Returned 0 (p % 65536) t) Anywhere := pushPc_returned Keeps.anywhere
  exact (hgoes.and hback).mono (fun _ h => h) (fun _ _ h => h) fun _ _ => True.intro

end Jumps

section Outcomes
variable [Bus β] {mem : ℕ → U8} {M : CodeSeen β mem} {s₀ : Cpu β} {k : ℕ}

/-- Instructions that go to the next one. -/
theorem falls_outcome {i : Insn} {n : ℕ}
    (h : Triple (At M s₀ k) i.exec (fun _ s => i.PostLegal (M.byte k) ∧
      getPc s = (M.pc + n) % 65536) Anywhere)
    (hoffset : i.offset s₀.flags (Int.bmod (M.byte k) 256) (Int.bmod (M.word k) 65536) = none)
    (hstacked : i.stacked s₀.cwaiState = none) :
    Triple (At M s₀ k) i.exec (fun _ => i.Outcome M s₀ k n) Anywhere := by
  refine h.mono (fun _ h => h) (fun _ s hs => ?_) fun _ h => h
  refine ⟨hs.1, fun _ => hs.2, fun d hd => ?_, fun depth hd => ?_⟩
  · rw [hoffset] at hd
    cases hd
  · rw [hstacked] at hd
    cases hd

/-- Instructions that only work on data once they are fetched. -/
theorem data_outcome {i : Insn} {n : ℕ}
    (h : Triple (At M s₀ k) i.exec (fun _ s => i.PostLegal (M.byte k) ∧
      Still s₀.trace (M.pc + n) s) Anywhere)
    (hoffset : i.offset s₀.flags (Int.bmod (M.byte k) 256) (Int.bmod (M.word k) 65536) = none)
    (hstacked : i.stacked s₀.cwaiState = none) :
    Triple (At M s₀ k) i.exec (fun _ => i.Outcome M s₀ k n) Anywhere := by
  refine falls_outcome (h.mono (fun _ h => h) (fun _ s hs => ⟨hs.1, ?_⟩) fun _ h => h)
    hoffset hstacked
  rw [getPc, hs.2.PC, Word.and_65535]

/-- Instructions that transfer control to an address that memory or a register gives. -/
theorem transfer_outcome {i : Insn} {n : ℕ}
    (h : Triple (At M s₀ k) i.exec (fun _ _ => i.PostLegal (M.byte k)) Anywhere)
    (htransfers : i.Transfers s₀.flags (M.byte k))
    (hoffset : i.offset s₀.flags (Int.bmod (M.byte k) 256) (Int.bmod (M.word k) 65536) = none)
    (hstacked : i.stacked s₀.cwaiState = none) :
    Triple (At M s₀ k) i.exec (fun _ => i.Outcome M s₀ k n) Anywhere := by
  refine h.mono (fun _ h => h) (fun _ s hs => ?_) fun _ h => h
  refine ⟨hs, fun h => absurd htransfers h, fun d hd => ?_, fun depth hd => ?_⟩
  · rw [hoffset] at hd
    cases hd
  · rw [hstacked] at hd
    cases hd

/-- The branch goes to `d` from the next instruction. -/
theorem branch_outcome {i : Insn} {n : ℕ} {d : ℤ}
    (h : Triple (At M s₀ k) i.exec
      (fun _ s => (getPc s : ℤ) = (M.pc + n + d) % 65536) Anywhere)
    (hlegal : i.PostLegal (M.byte k)) (htransfers : i.Transfers s₀.flags (M.byte k))
    (hoffset : i.offset s₀.flags (Int.bmod (M.byte k) 256) (Int.bmod (M.word k) 65536) = some d)
    (hstacked : i.stacked s₀.cwaiState = none) :
    Triple (At M s₀ k) i.exec (fun _ => i.Outcome M s₀ k n) Anywhere := by
  refine h.mono (fun _ h => h) (fun _ s hs => ?_) fun _ h => h
  refine ⟨hlegal, fun h => absurd htransfers h, fun d' hd' => ?_, fun depth hd => ?_⟩
  · rw [hoffset] at hd'
    cases hd'
    exact hs
  · rw [hstacked] at hd
    cases hd

/-- A call or an interrupt instruction leaves the next address on the stack. -/
theorem stacked_outcome {i : Insn} {n depth : ℕ}
    (h : Triple (At M s₀ k) i.exec
      (fun _ => Returned depth ((M.pc + n) % 65536) s₀.trace) Anywhere)
    (hlegal : Triple (At M s₀ k) i.exec (fun _ _ => i.PostLegal (M.byte k)) Anywhere)
    (htransfers : i.Transfers s₀.flags (M.byte k))
    (hoffset : i.offset s₀.flags (Int.bmod (M.byte k) 256) (Int.bmod (M.word k) 65536) = none)
    (hstacked : i.stacked s₀.cwaiState = some depth) :
    Triple (At M s₀ k) i.exec (fun _ => i.Outcome M s₀ k n) Anywhere := by
  refine (h.and hlegal).mono (fun _ h => ⟨h, h⟩) (fun _ s hs => ?_) fun _ _ => True.intro
  refine ⟨hs.2, fun h => absurd htransfers h, fun d hd => ?_, fun depth' hd => ?_⟩
  · rw [hoffset] at hd
    cases hd
  · rw [hstacked] at hd
    cases hd
    exact hs.1

theorem legal_trivial {m : CpuM β Unit} {p : Prop} (h : p) :
    Triple (At M s₀ k) m (fun _ _ => p) Anywhere :=
  Triple.trivial.mono (fun _ h => h) (fun _ _ _ => h) fun _ h => h

theorem bra_goes (hk : k < M.size) : Triple (At M s₀ k) bra (fun _ s => Still s₀.trace
    (uint (M.pc + (k + 1) + int8 (M.byte k)) &&& 0xffff) s) Anywhere := by
  unfold bra
  exact fetchByte_at hk ((jump_still fun p => uint (p + int8 (M.byte k))).mono (fun _ h => h.still)
    (fun _ _ h => h) fun _ h => h)

theorem longBra_goes (hk : k + 1 < M.size) : Triple (At M s₀ k) longBra (fun _ s => Still s₀.trace
    (uint (M.pc + (k + 2) + int16 (M.word k)) &&& 0xffff) s) Anywhere := by
  unfold longBra
  exact fetchWord_at hk ((jump_still fun p => uint (p + int16 (M.word k))).mono (fun _ h => h.still)
    (fun _ _ h => h) fun _ h => h)

theorem At.short {s : Cpu β} (h : Still s₀.trace
    (uint (M.pc + (k + 1) + int8 (M.byte k)) &&& 0xffff) s) :
    (getPc s : ℤ) = (M.pc + (k + 1 : ℕ) + Int.bmod (M.byte k) 256) % 65536 := by
  rw [h.getPc, relative8, Nat.cast_add]

theorem At.long {s : Cpu β} (h : Still s₀.trace
    (uint (M.pc + (k + 2) + int16 (M.word k)) &&& 0xffff) s) :
    (getPc s : ℤ) = (M.pc + (k + 2 : ℕ) + Int.bmod (M.word k) 65536) % 65536 := by
  rw [h.getPc, relative16, Nat.cast_add]

theorem bra_outcome (hk : k + 1 ≤ M.size) :
    Triple (At M s₀ k) Insn.bra.exec (fun _ => Insn.bra.Outcome M s₀ k (k + 1)) Anywhere := by
  refine branch_outcome ?_ trivial trivial rfl rfl
  refine (bra_goes hk).bind fun _ => ?_
  exact Keeps.anywhere.mono (fun _ h => h) (fun _ _ h => At.short h) fun _ h => h

theorem longBra_outcome (hk : k + 2 ≤ M.size) :
    Triple (At M s₀ k) Insn.longBra.exec (fun _ => Insn.longBra.Outcome M s₀ k (k + 2)) Anywhere := by
  refine branch_outcome ?_ trivial trivial rfl rfl
  refine (longBra_goes hk).bind fun _ => ?_
  exact Keeps.anywhere.mono (fun _ h => h) (fun _ _ h => At.long h) fun _ h => h

theorem advance_goes {n : ℕ} : Triple (At M s₀ k) (advancePc n)
    (fun _ => Still s₀.trace (uint (M.pc + k + n))) Anywhere :=
  Triple.modify fun s h => ⟨by rw [← h.PC], h.trace⟩

theorem skip_goes {n : ℕ} : Triple (At M s₀ k) (do changePc (uint ((← look Cpu.PC) + n)))
    (fun _ => Still s₀.trace (uint (M.pc + k + n) &&& 0xffff)) Anywhere :=
  (jump_still fun p => uint (p + n)).mono (fun _ h => h.still) (fun _ _ h => h) fun _ h => h

theorem uint_and_65535 (a : ℕ) : uint a &&& 0xffff = a % 65536 := by
  rw [Word.and_65535, uint, Word.trunc]
  omega

theorem At.next {s : Cpu β} {n : ℕ} (h : Still s₀.trace (uint (M.pc + k + n) &&& 0xffff) s) :
    getPc s = (M.pc + (k + n)) % 65536 := by
  rw [h.getPc, uint_and_65535, Nat.add_assoc]

theorem brn_outcome :
    Triple (At M s₀ k) Insn.brn.exec (fun _ => Insn.brn.Outcome M s₀ k (k + 1)) Anywhere := by
  refine falls_outcome ?_ rfl rfl
  refine advance_goes.bind fun _ => Keeps.anywhere.mono (fun _ h => h) (fun _ s h => ⟨trivial, ?_⟩)
    fun _ h => h
  rw [getPc, h.PC, uint_and_65535, Nat.add_assoc]

theorem longBrn_outcome :
    Triple (At M s₀ k) Insn.longBrn.exec (fun _ => Insn.longBrn.Outcome M s₀ k (k + 2)) Anywhere := by
  refine falls_outcome ?_ rfl rfl
  refine (charge_at 5).bind fun _ => advance_goes.mono (fun _ h => h) (fun _ s h => ⟨trivial, ?_⟩)
    fun _ h => h
  rw [getPc, h.PC, uint_and_65535, Nat.add_assoc]

/-- The condition of a branch is that of the flags before the instruction. -/
theorem condition_at (c : Cond) {f : Bool → CpuM β Unit} {Q : Unit → Cpu β → Prop}
    (h : Triple (At M s₀ k) (f (c.holds s₀.flags)) Q Anywhere) :
    Triple (At M s₀ k) (do f (← look fun s => c.holds s.flags)) Q Anywhere :=
  Triple.value (look_triple fun s hs => ⟨by rw [hs.flags], hs⟩) h

theorem branch_outcomes (c : Cond) (hk : k + 1 ≤ M.size) : Triple (At M s₀ k) (Insn.branch c).exec
    (fun _ => (Insn.branch c).Outcome M s₀ k (k + 1)) Anywhere := by
  by_cases hc : c.holds s₀.flags = true
  · refine branch_outcome ?_ trivial hc (if_pos hc) rfl
    refine condition_at c ?_
    rw [hc]
    refine (bra_goes hk).bind fun _ => ?_
    exact Keeps.anywhere.mono (fun _ h => h) (fun _ _ h => At.short h) fun _ h => h
  · refine falls_outcome ?_ (if_neg hc) rfl
    refine condition_at c ?_
    rw [Bool.not_eq_true] at hc
    rw [hc]
    refine skip_goes.bind fun _ => ?_
    exact Keeps.anywhere.mono (fun _ h => h) (fun _ _ h => ⟨trivial, At.next h⟩) fun _ h => h

theorem longBranch_outcomes (c : Cond) (hk : k + 2 ≤ M.size) :
    Triple (At M s₀ k) (Insn.longBranch c).exec
      (fun _ => (Insn.longBranch c).Outcome M s₀ k (k + 2)) Anywhere := by
  by_cases hc : c.holds s₀.flags = true
  · refine branch_outcome ?_ trivial hc (if_pos hc) rfl
    refine condition_at c ?_
    rw [hc]
    unfold longBranch
    rw [if_pos rfl]
    refine (longBra_goes hk).bind fun _ => ?_
    exact Keeps.anywhere.mono (fun _ h => h) (fun _ _ h => At.long h) fun _ h => h
  · refine falls_outcome ?_ (if_neg hc) rfl
    refine condition_at c ?_
    rw [Bool.not_eq_true] at hc
    rw [hc]
    unfold longBranch
    rw [if_neg Bool.false_ne_true]
    have hskip : Triple (Still (β := β) s₀.trace (M.pc + k)) (do
        changePc (uint ((← look Cpu.PC) + 2))
        charge 5) (fun _ => Still s₀.trace (uint (M.pc + k + 2) &&& 0xffff)) Anywhere :=
      lookPc_still (changePc_still.bind fun _ => Keeps.anywhere)
    exact hskip.mono (fun _ h => h.still) (fun _ _ h => ⟨trivial, At.next h⟩) fun _ h => h

theorem bsr_goes (hk : k + 1 ≤ M.size) : Triple (At M s₀ k) bsr (fun _ s =>
    s.PC = uint (M.pc + (k + 1) + int8 (M.byte k)) &&& 0xffff ∧
      Returned 0 ((M.pc + (k + 1)) % 65536) s₀.trace s) Anywhere := by
  have hcall := call_goes (β := β) (t := s₀.trace) (p := M.pc + (k + 1)) 7 fun p =>
    uint (p + int8 (M.byte k))
  unfold bsr
  refine fetchByte_at hk ?_
  exact Triple.mono hcall (fun _ h => h.still) (fun _ _ h => h) fun _ h => h

theorem longBsr_goes (hk : k + 2 ≤ M.size) : Triple (At M s₀ k) longBsr (fun _ s =>
    s.PC = uint (M.pc + (k + 2) + int16 (M.word k)) &&& 0xffff ∧
      Returned 0 ((M.pc + (k + 2)) % 65536) s₀.trace s) Anywhere := by
  have hcall := call_goes (β := β) (t := s₀.trace) (p := M.pc + (k + 2)) 9 fun p =>
    uint (p + int16 (M.word k))
  unfold longBsr
  refine fetchWord_at hk ?_
  exact Triple.mono hcall (fun _ h => h.still) (fun _ _ h => h) fun _ h => h

theorem bsr_outcome (hk : k + 1 ≤ M.size) :
    Triple (At M s₀ k) Insn.bsr.exec (fun _ => Insn.bsr.Outcome M s₀ k (k + 1)) Anywhere := by
  refine (bsr_goes hk).mono (fun _ h => h) (fun _ s hs => ?_) fun _ h => h
  refine ⟨trivial, fun h => absurd trivial h, fun d hd => ?_, fun depth hd => ?_⟩
  · rw [← Option.some.inj hd, getPc, hs.1, Nat.and_assoc, Nat.and_self, relative8, Nat.cast_add]
  · rw [← Option.some.inj hd]
    exact hs.2

theorem longBsr_outcome (hk : k + 2 ≤ M.size) :
    Triple (At M s₀ k) Insn.longBsr.exec (fun _ => Insn.longBsr.Outcome M s₀ k (k + 2)) Anywhere := by
  refine (longBsr_goes hk).mono (fun _ h => h) (fun _ s hs => ?_) fun _ h => h
  refine ⟨trivial, fun h => absurd trivial h, fun d hd => ?_, fun depth hd => ?_⟩
  · rw [← Option.some.inj hd, getPc, hs.1, Nat.and_assoc, Nat.and_self, relative16, Nat.cast_add]
  · rw [← Option.some.inj hd]
    exact hs.2

theorem address_legal (htraps : Traps β) {m : Mode} {rest : CpuM β Unit}
    (hk : k + m.size (M.byte k) ≤ M.size) :
    Triple (At M s₀ k) (do m.address; rest) (fun _ _ => m.PostLegal (M.byte k)) Anywhere :=
  (address_at htraps m hk).bind fun _ => Triple.and_pre fun hl =>
    Triple.trivial.mono (fun _ h => h) (fun _ _ _ => hl) fun _ h => h

theorem lea_outcome (htraps : Traps β) (r : IndexReg)
    (hk : k + (1 + postbyteTail (M.byte k)) ≤ M.size) : Triple (At M s₀ k) (Insn.lea r).exec
      (fun _ => (Insn.lea r).Outcome M s₀ k (k + (1 + postbyteTail (M.byte k)))) Anywhere := by
  refine data_outcome ?_ rfl rfl
  refine (indexed_at htraps hk).bind fun _ => Triple.and_pre fun hl => ?_
  exact Keeps.anywhere.mono (fun _ h => h) (fun _ _ h => ⟨hl, h⟩) fun _ h => h

/-- The byte after the opcode selects the registers. -/
theorem fetched_data {f : ℕ → CpuM β Unit} (hk : k + 1 ≤ M.size)
    [hf : Keeps (Still s₀.trace (M.pc + (k + 1))) (f (M.byte k))] :
    Triple (At M s₀ k) (immByte >>= f) (fun _ s => True ∧ Still s₀.trace (M.pc + (k + 1)) s)
      Anywhere :=
  fetchByte_at hk (rest_at.mono (fun _ h => h) (fun _ _ h => ⟨trivial, h⟩) fun _ h => h)

theorem psh_outcome (sp : StackReg) (hk : k + 1 ≤ M.size) :
    Triple (At M s₀ k) (Insn.psh sp).exec (fun _ => (Insn.psh sp).Outcome M s₀ k (k + 1)) Anywhere := by
  refine data_outcome ?_ rfl rfl
  exact fetched_data hk

omit [Bus β] in
theorem onBit_clear {t : List Access} {p post m : ℕ} {r : CpuM β Unit} (h : post &&& m = 0) :
    Keeps (Still t p) (onBit post m r) := by
  rw [onBit, onlyIf, if_neg (not_not.mpr h)]
  infer_instance

theorem pul_outcome (sp : StackReg) (hk : k + 1 ≤ M.size) :
    Triple (At M s₀ k) (Insn.pul sp).exec (fun _ => (Insn.pul sp).Outcome M s₀ k (k + 1)) Anywhere := by
  by_cases h : M.byte k &&& 0x80 = 0
  · refine data_outcome ?_ rfl rfl
    have hlast (r : CpuM β Unit) : Keeps (Still s₀.trace (M.pc + (k + 1)))
        (onBit (M.byte k) 0x80 r) := onBit_clear h
    exact fetched_data hk
  · exact transfer_outcome (legal_trivial trivial) h rfl rfl

theorem tfr_outcome (hk : k + 1 ≤ M.size) :
    Triple (At M s₀ k) Insn.tfr.exec (fun _ => Insn.tfr.Outcome M s₀ k (k + 1)) Anywhere := by
  by_cases h : M.byte k &&& 15 = 5
  · exact transfer_outcome (legal_trivial trivial) h rfl rfl
  · refine data_outcome ?_ rfl rfl
    have hset (v : ℕ) : Keeps (Still (β := β) s₀.trace (M.pc + (k + 1))) (setReg (M.byte k &&& 15) v) :=
      setReg_still h v
    exact fetched_data hk

theorem exg_outcome (hk : k + 1 ≤ M.size) :
    Triple (At M s₀ k) Insn.exg.exec (fun _ => Insn.exg.Outcome M s₀ k (k + 1)) Anywhere := by
  by_cases h : M.byte k &&& 15 = 5 ∨ M.byte k >>> 4 = 5
  · exact transfer_outcome (legal_trivial trivial) h rfl rfl
  · refine data_outcome ?_ rfl rfl
    rw [not_or] at h
    have hlow (v : ℕ) : Keeps (Still (β := β) s₀.trace (M.pc + (k + 1))) (setReg (M.byte k &&& 15) v) :=
      setReg_still h.1 v
    have hhigh (v : ℕ) : Keeps (Still (β := β) s₀.trace (M.pc + (k + 1))) (setReg (M.byte k >>> 4) v) :=
      setReg_still h.2 v
    exact fetched_data hk

theorem cwai_outcome (hk : k + 1 ≤ M.size) :
    Triple (At M s₀ k) Insn.cwai.exec (fun _ => Insn.cwai.Outcome M s₀ k (k + 1)) Anywhere := by
  cases hc : s₀.cwaiState with
  | idle =>
    have hstacked : Insn.cwai.stacked s₀.cwaiState = some 10 := by
      rw [hc]
      rfl
    refine stacked_outcome ?_ (legal_trivial trivial) trivial rfl hstacked
    refine Triple.value (look_triple fun s hs => ⟨hs.cwaiState.trans hc, hs⟩) ?_
    refine fetchByte_at hk (Triple.mono (P := Still s₀.trace (M.pc + (k + 1))) ?_ (fun _ h => h.still)
      (fun _ _ h => h) fun _ h => h)
    exact Keeps.anywhere.bind fun _ => Keeps.anywhere.bind fun _ => Keeps.anywhere.bind fun _ =>
      stackMachineState_returned.bind fun _ => Keeps.anywhere
  | wait =>
    exact transfer_outcome (legal_trivial trivial) trivial rfl (congrArg (Insn.stacked · .cwai) hc)

/-- Each instruction goes on with the next one, or where it says. -/
theorem exec_outcome (htraps : Traps β) (i : Insn) (hk : k + i.size (M.byte k) ≤ M.size) :
    Triple (At M s₀ k) i.exec (fun _ => i.Outcome M s₀ k (k + i.size (M.byte k))) Anywhere := by
  have hstill {m : CpuM β Unit} {Q : Unit → Cpu β → Prop}
      (h : Triple (Still s₀.trace (M.pc + k)) m Q Anywhere) : Triple (At M s₀ k) m Q Anywhere :=
    h.mono (fun _ h => h.still) (fun _ _ h => h) fun _ h => h
  have himplied {m : CpuM β Unit} (hm : Keeps (Still s₀.trace (M.pc + k)) m) :
      Triple (At M s₀ k) m (fun _ s => True ∧ Still s₀.trace (M.pc + k) s) Anywhere :=
    hstill (Keeps.anywhere.mono (fun _ h => h) (fun _ _ h => ⟨trivial, h⟩) fun _ h => h)
  cases i with
  | rmw op m => exact data_outcome (address_rest htraps hk) rfl rfl
  | tstMem m => exact data_outcome (address_rest htraps hk) rfl rfl
  | jmp m => exact transfer_outcome (address_legal htraps hk) trivial rfl rfl
  | unary op r => exact data_outcome (himplied (by unfold Insn.exec; infer_instance)) rfl rfl
  | tstAcc r => exact data_outcome (himplied (by unfold Insn.exec; infer_instance)) rfl rfl
  | alu op r src => exact data_outcome (load8_rest htraps hk) rfl rfl
  | st r m => exact data_outcome (address_rest htraps hk) rfl rfl
  | addd src => exact data_outcome (load16_rest htraps hk) rfl rfl
  | subd src => exact data_outcome (load16_rest htraps hk) rfl rfl
  | cmp16 r src => exact data_outcome (load16_rest htraps hk) rfl rfl
  | ldd src => exact data_outcome (load16_rest htraps hk) rfl rfl
  | std m => exact data_outcome (address_rest htraps hk) rfl rfl
  | ld16 r src => exact data_outcome (load16_rest htraps hk) rfl rfl
  | st16 r m => exact data_outcome (address_rest htraps hk) rfl rfl
  | jsr m =>
    refine stacked_outcome ?_ (address_legal htraps hk) trivial rfl rfl
    exact (address_at htraps m hk).bind fun _ => Triple.and_pre fun _ => jsr_returned
  | lea r => exact lea_outcome htraps r hk
  | psh sp => exact psh_outcome sp hk
  | pul sp => exact pul_outcome sp hk
  | bra => exact bra_outcome hk
  | brn => exact brn_outcome
  | branch c => exact branch_outcomes c hk
  | bsr => exact bsr_outcome hk
  | longBra => exact longBra_outcome hk
  | longBrn => exact longBrn_outcome
  | longBranch c => exact longBranch_outcomes c hk
  | longBsr => exact longBsr_outcome hk
  | nop => exact data_outcome (himplied (by unfold Insn.exec; infer_instance)) rfl rfl
  | sync =>
    exact (charge_at 4).bind fun _ => (simError_never htraps _).mono (fun _ h => h)
      (fun _ _ h => h.elim) fun _ h => h
  | daa => exact data_outcome (himplied (by unfold Insn.exec; infer_instance)) rfl rfl
  | orcc => exact data_outcome (fetched_data hk) rfl rfl
  | andcc => exact data_outcome (fetched_data hk) rfl rfl
  | sex => exact data_outcome (himplied (by unfold Insn.exec; infer_instance)) rfl rfl
  | exg => exact exg_outcome hk
  | tfr => exact tfr_outcome hk
  | rts => exact transfer_outcome (legal_trivial trivial) trivial rfl rfl
  | abx => exact data_outcome (himplied (by unfold Insn.exec; infer_instance)) rfl rfl
  | rti => exact transfer_outcome (legal_trivial trivial) trivial rfl rfl
  | cwai => exact cwai_outcome hk
  | mul => exact data_outcome (himplied (by unfold Insn.exec; infer_instance)) rfl rfl
  | swi => exact stacked_outcome (hstill swi_returned) (legal_trivial trivial) trivial rfl rfl
  | swi2 => exact stacked_outcome (hstill swi2_returned) (legal_trivial trivial) trivial rfl rfl
  | swi3 => exact stacked_outcome (hstill swi3_returned) (legal_trivial trivial) trivial rfl rfl

/-- The instruction that the first bytes select, and how many bytes these are. -/
def CodeSeen.selected (M : CodeSeen β mem) : Selected × ℕ :=
  if M.byte 0 = 0x10 then ((decode10 (M.byte 1)).elim .invalidPrefixed .insn, 2)
  else if M.byte 0 = 0x11 then ((decode11 (M.byte 1)).elim .invalidPrefixed .insn, 2)
  else ((decode (M.byte 0)).elim .invalid .insn, 1)

theorem fetchOpcode_at (hk : M.selected.2 ≤ M.size) : Triple (At M s₀ 0) fetchOpcode
    (fun sel s => sel = M.selected.1 ∧ At M s₀ M.selected.2 s) Anywhere := by
  unfold fetchOpcode
  rw [CodeSeen.selected] at hk ⊢
  by_cases h10 : M.byte 0 = 0x10
  · rw [if_pos h10] at hk ⊢
    have hk' : 2 ≤ M.size := hk
    refine fetchByte_at (by omega) (Triple.ite (fun _ => ?_) fun h => absurd h10 h)
    exact fetchByte_at hk (Triple.pure _ fun _ h => ⟨rfl, h⟩)
  · by_cases h11 : M.byte 0 = 0x11
    · rw [if_neg h10, if_pos h11] at hk ⊢
      have hk' : 2 ≤ M.size := hk
      refine fetchByte_at (by omega) (Triple.ite (fun h => absurd h h10) fun _ => ?_)
      refine Triple.ite (fun _ => ?_) fun h => absurd h11 h
      exact fetchByte_at hk (Triple.pure _ fun _ h => ⟨rfl, h⟩)
    · rw [if_neg h10, if_neg h11] at hk ⊢
      refine fetchByte_at hk (Triple.ite (fun h => absurd h h10) fun _ => ?_)
      exact Triple.ite (fun h => absurd h h11) fun _ => Triple.pure _ fun _ h => ⟨rfl, h⟩

/-- An instruction that does not call `sim_error` is one that exists, and goes on as that. -/
theorem fetchExecute_outcome (htraps : Traps β) (hk : M.selected.2 ≤ M.size)
    (hsize : ∀ i, M.selected.1 = .insn i →
      M.selected.2 + i.size (M.byte M.selected.2) ≤ M.size) {u : Cpu β}
    (hpc : s₀.PC = M.pc) (hok : M.ok s₀.bus) (h : fetchExecute s₀ = .ok () u) :
    ∃ i, M.selected.1 = .insn i ∧
      i.Outcome M s₀ M.selected.2 (M.selected.2 + i.size (M.byte M.selected.2)) u := by
  have hstart : Triple (· = s₀) (modify latchPc : CpuM β Unit) (fun _ => At M s₀ 0) Anywhere := by
    refine Triple.modify fun s hs => ?_
    rw [hs]
    exact ⟨hpc, hok, List.suffix_rfl, rfl, rfl⟩
  have hexec (sel : Selected) : Triple (fun s => sel = M.selected.1 ∧ At M s₀ M.selected.2 s) sel.exec
      (fun _ u => ∃ i, M.selected.1 = .insn i ∧
        i.Outcome M s₀ M.selected.2 (M.selected.2 + i.size (M.byte M.selected.2)) u) Anywhere := by
    refine Triple.and_pre fun hsel => ?_
    cases sel with
    | insn i =>
      exact (exec_outcome htraps i (hsize i hsel.symm)).mono (fun _ h => h)
        (fun _ _ h => ⟨i, hsel.symm, h⟩) fun _ h => h
    | invalid =>
      exact (charge_at 2).bind fun _ => (simError_never htraps _).bind fun _ => fun _ h => h.elim
    | invalidPrefixed =>
      exact (simError_never htraps _).mono (fun _ h => h) (fun _ _ h => h.elim) fun _ h => h
  exact (hstart.bind fun _ => (fetchOpcode_at hk).bind hexec).of_ok rfl h

end Outcomes

/-! ## Runs without `sim_error` -/

/-- The same bus with a `sim_error` that does not come back. -/
@[reducible] def Bus.trapping (I : Bus β) : Bus β := { I with simError := throw (.exit 2) }

theorem traps_trapping (I : Bus β) : @Traps β I.trapping := fun _ => rfl

/-- What `m` returns, `m'` returns. -/
def Follows {α : Type} (m' m : CpuM β α) : Prop := ∀ s a u, m s = .ok a u → m' s = .ok a u

namespace Follows
variable {α γ : Type} {m m' : CpuM β α}

theorem refl (m : CpuM β α) : Follows m m := fun _ _ _ h => h

theorem bind {f f' : α → CpuM β γ} (hm : Follows m' m) (hf : ∀ a, Follows (f' a) (f a)) :
    Follows (m' >>= f') (m >>= f) := by
  intro s c u h
  obtain ⟨a, t, hr, hrest⟩ := of_run_bind_ok h
  rw [run_bind_ok (hm s a t hr)]
  exact hf a t c u hrest

theorem of_never (h : Triple (fun _ => True) m (fun _ _ => False) Anywhere) : Follows m' m :=
  fun _ _ _ hr => (h.of_ok trivial hr).elim

variable [I : Bus β]

theorem simError : Follows (Exec09.simError (β := β)) (@Exec09.simError β I.trapping) :=
  of_never (@simError_never β I.trapping (traps_trapping I) _)

theorem indexedEa (post : ℕ) (R : IndexReg) :
    Follows (Exec09.indexedEa post R) (@Exec09.indexedEa β I.trapping post R) := by
  intro s a u h
  unfold Exec09.indexedEa at h ⊢
  generalize post &&& 0x1f = x at h ⊢
  split at h
  case h_24 =>
    have hnever : Triple (fun _ => True) (do setEa 0; @Exec09.simError β I.trapping; return false)
        (fun _ _ => False) Anywhere :=
      Triple.trivial.bind fun _ => (@simError_never β I.trapping (traps_trapping I) _).bind
        fun _ => fun _ h => h.elim
    exact (hnever.of_ok trivial h).elim
  all_goals exact h

theorem indexed : Follows (Exec09.indexed (β := β)) (@Exec09.indexed β I.trapping) := by
  unfold Exec09.indexed
  refine bind (refl _) fun post => ?_
  by_cases h : post &&& 0x80 ≠ 0
  · simp only [if_pos h]
    exact bind (indexedEa _ _) fun _ => refl _
  · simp only [if_neg h]
    exact refl _

theorem address (m : Mode) : Follows (m.address (β := β)) (@Mode.address β I.trapping m) := by
  cases m with
  | direct clk => exact refl _
  | indexed pre post => exact bind (refl _) fun _ => bind indexed fun _ => refl _
  | extended clk => exact refl _

theorem load8 (src : Operand) : Follows (src.load8 (β := β)) (@Operand.load8 β I.trapping src) := by
  cases src with
  | imm clk => exact refl _
  | mem m => exact bind (address m) fun _ => refl _

theorem load16 (src : Operand) : Follows (src.load16 (β := β)) (@Operand.load16 β I.trapping src) := by
  cases src with
  | imm clk => exact refl _
  | mem m => exact bind (address m) fun _ => refl _

theorem insn (i : Insn) : Follows (i.exec (β := β)) (@Insn.exec β I.trapping i) := by
  cases i with
  | rmw op m | tstMem m | jmp m | st r m | std m | st16 r m | jsr m =>
    exact bind (address m) fun _ => refl _
  | alu op r src => exact bind (load8 src) fun _ => refl _
  | addd src | subd src | cmp16 r src | ldd src | ld16 r src => exact bind (load16 src) fun _ => refl _
  | lea r => exact bind indexed fun _ => refl _
  | sync => exact bind (refl _) fun _ => simError
  | _ => exact refl _

theorem fetchExecute : Follows (Exec09.fetchExecute (β := β)) (@Exec09.fetchExecute β I.trapping) := by
  refine bind (refl _) fun _ => bind (refl _) fun sel => ?_
  cases sel with
  | insn i => exact insn i
  | invalid => exact bind (refl _) fun _ => bind simError fun _ => refl _
  | invalidPrefixed => exact simError

end Follows

/-- The instruction at `PC` calls no `sim_error`, and no interrupt is taken after it. -/
structure Executes [I : Bus β] (s u : Cpu β) : Prop where
  clean : ∃ t, @fetchExecute β I.trapping s = .ok () t ∧
    (t.ccChanged = true → firqDeliverable t = false ∧ irqDeliverable t = false)
  step : cpuStep s = .ok () u

section Steps
variable [I : Bus β] {s u : Cpu β}

theorem ccModified_idle {t : Cpu β} (hfirq : firqDeliverable t = false)
    (hirq : irqDeliverable t = false) : ccModified t = .ok () { t with ccChanged := false } := by
  have hcheck : checkPending t = .ok () t := by
    rw [checkPending, run_bind_ok (run_look _ _), hfirq, if_neg Bool.false_ne_true,
      run_bind_ok (run_look _ _), hirq, if_neg Bool.false_ne_true]
    rfl
  rw [ccModified, run_bind_ok hcheck]
  rfl

theorem Executes.fetch (h : Executes s u) : ∃ t c, @fetchExecute β I.trapping s = .ok () t ∧
    u = { t with ccChanged := c } := by
  obtain ⟨t, ht, hquiet⟩ := h.clean
  refine ⟨t, false, ht, ?_⟩
  have hstep := h.step
  rw [cpuStep, run_bind_ok (Follows.fetchExecute s () t ht), run_bind_ok (run_look _ _)] at hstep
  by_cases hc : t.ccChanged = true
  · rw [if_pos hc, ccModified_idle (hquiet hc).1 (hquiet hc).2] at hstep
    cases hstep
    rfl
  · rw [if_neg hc] at hstep
    cases hstep
    rw [Bool.not_eq_true] at hc
    rw [← hc]

/-- The same code seen on the bus with a `sim_error` that does not come back. -/
def CodeSeen.trapping {mem : ℕ → U8} (M : CodeSeen β mem) : @CodeSeen β I.trapping mem :=
  @CodeSeen.mk β I.trapping mem M.pc M.opc M.size M.ok M.below M.read8 M.read16

theorem Executes.outcome {mem : ℕ → U8} {M : CodeSeen β mem} (h : Executes s u)
    (hk : M.selected.2 ≤ M.size)
    (hsize : ∀ i, M.selected.1 = .insn i →
      M.selected.2 + i.size (M.byte M.selected.2) ≤ M.size)
    (hpc : s.PC = M.pc) (hok : M.ok s.bus) :
    ∃ i, M.selected.1 = .insn i ∧
      i.Outcome M s M.selected.2 (M.selected.2 + i.size (M.byte M.selected.2)) u := by
  obtain ⟨t, c, ht, rfl⟩ := h.fetch
  obtain ⟨i, hi, hlegal, hfalls, hbranches, hreturns⟩ := @fetchExecute_outcome β I.trapping mem
    M.trapping s (traps_trapping I) hk hsize t hpc hok ht
  exact ⟨i, hi, hlegal, hfalls, hbranches,
    fun depth hd => ⟨(hreturns depth hd).lt, (hreturns depth hd).pushed⟩⟩

end Steps

end Exec09
