import Exec09.Cpu.NextInsn
import Exec09.Cpu.Run
import Exec09.Debugger.CodeView
import Exec09.Debugger.Disassembler

/-! # The disassembler and the processor agree on the length of an instruction

The tables of the disassembler give every instruction of the processor the
addressing mode it is executed with, and each mode is printed from as many bytes
as it is executed from. The debugger stops after a call where this length ends.
-/
namespace Exec09.Debugger
open Foundation

/-! ## Addressing modes -/

def addrMode : Mode → AddrMode
  | .direct _ => .direct
  | .indexed _ _ => .indexed
  | .extended _ => .extended

def byteMode : Operand → AddrMode
  | .imm _ => .immByte
  | .mem m => addrMode m

def wordMode : Operand → AddrMode
  | .imm _ => .immWord
  | .mem m => addrMode m

/-- The mode that an instruction is printed with. -/
def insnMode : Insn → AddrMode
  | .rmw _ m | .tstMem m | .jmp m | .st _ m | .std m | .st16 _ m | .jsr m => addrMode m
  | .alu _ _ src => byteMode src
  | .addd src | .subd src | .cmp16 _ src | .ldd src | .ld16 _ src => wordMode src
  | .lea _ => .indexed
  | .psh .S | .pul .S => .sysPost
  | .psh .U | .pul .U => .usrPost
  | .exg | .tfr => .regPost
  | .orcc | .andcc | .cwai => .immByte
  | .bra | .brn | .branch _ | .bsr => .relByte
  | .longBra | .longBrn | .longBranch _ | .longBsr => .relWord
  | _ => .implied

/-- What a table has for an instruction. -/
def Agrees (entry : Opcode × AddrMode) (i : Insn) : Prop := entry.1 ≠ .undoc ∧ entry.2 = insnMode i

instance (entry : Opcode × AddrMode) (i : Insn) : Decidable (Agrees entry i) :=
  inferInstanceAs (Decidable (_ ∧ _))

theorem codes_agrees : ∀ op < 256, ∀ i ∈ decode op, Agrees (codes op) i := by decide +kernel

theorem codes10_agrees : ∀ op < 256, ∀ i ∈ decode10 op, Agrees (codes10 op) i := by decide +kernel

theorem codes11_agrees : ∀ op < 256, ∀ i ∈ decode11 op, Agrees (codes11 op) i := by decide +kernel

/-- The bytes of an operand that starts with `post`. -/
def AddrMode.size (post : ℕ) : AddrMode → ℕ
  | .illegal | .implied => 0
  | .indexed => 1 + postbyteTail post
  | .immWord | .extended | .relWord => 2
  | _ => 1

theorem addrMode_size (post : ℕ) (m : Mode) : (addrMode m).size post = m.size post := by
  cases m <;> rfl

theorem insnMode_size (post : ℕ) (i : Insn) : (insnMode i).size post = i.size post := by
  cases i with
  | rmw op m | tstMem m | jmp m | st r m | std m | st16 r m | jsr m => exact addrMode_size post m
  | alu op r src | addd src | subd src | cmp16 r src | ldd src | ld16 r src =>
    cases src with
    | imm clk => rfl
    | mem m => exact addrMode_size post m
  | psh sp | pul sp => cases sp <;> rfl
  | _ => rfl

theorem insnMode_ne_illegal (i : Insn) : insnMode i ≠ .illegal := by
  have hmode (m : Mode) : addrMode m ≠ .illegal := by cases m <;> nofun
  cases i with
  | rmw op m | tstMem m | jmp m | st r m | std m | st16 r m | jsr m => exact hmode m
  | alu op r src | addd src | subd src | cmp16 r src | ldd src | ld16 r src =>
    cases src with
    | imm clk => nofun
    | mem m => exact hmode m
  | psh sp | pul sp => cases sp <;> nofun
  | _ => nofun

theorem insnMode_legal {post : ℕ} {i : Insn} (h : i.PostLegal post) (hm : insnMode i = .indexed) :
    LegalPost post := by
  have hmode {m : Mode} (hl : m.PostLegal post) (hi : addrMode m = .indexed) : LegalPost post := by
    cases m with
    | indexed pre clk => exact hl
    | direct clk => cases hi
    | extended clk => cases hi
  cases i with
  | rmw op m | tstMem m | jmp m | st r m | std m | st16 r m | jsr m => exact hmode h hm
  | alu op r src | addd src | subd src | cmp16 r src | ldd src | ld16 r src =>
    cases src with
    | imm clk => cases hm
    | mem m => exact hmode h hm
  | lea r => exact h
  | psh sp | pul sp => cases sp <;> cases hm
  | _ => cases hm


/-! ## What is printed -/

theorem indexRegName_ne (n : ℕ) : indexRegName n ≠ "???" := by
  unfold indexRegName
  split <;> decide

theorem reg_ne (n : ℕ) : reg n ≠ "???" := by
  unfold reg
  split <;> decide

theorem off4_ne {n : ℕ} (h : n < 32) : off4 n ≠ "???" := by
  have hall : ∀ n < 32, off4 n ≠ "???" := by decide
  exact hall n h

theorem mne_ne {op : Opcode} (h : op ≠ .undoc) : mne op ≠ "???" := by
  cases op with
  | undoc => exact absurd rfl h
  | _ => decide

section
variable (absRead8 : ℕ → BitVec 8)


/-- From `n` bytes at `pc` something is printed, without question marks if they are `legal`. -/
def Prints (legal : Prop) (n : ℕ) (m : DasmM (List Printed)) (pc : ℕ) : Prop :=
  (legal → ¬ReportedIllegal (m pc).1) ∧ (m pc).2 = pc + n

variable {legal : Prop} {n pc : ℕ}

theorem prints_pure {l : List Printed} (h : ¬ReportedIllegal l) :
    Prints legal 0 (pure l : DasmM (List Printed)) pc := ⟨fun _ => h, rfl⟩

theorem prints_fetch8 {f : ℕ → DasmM (List Printed)}
    (h : Prints legal n (f (absRead8 pc).toNat) (pc + 1)) :
    Prints legal (1 + n) (fetch8 absRead8 >>= f) pc :=
  ⟨h.1, h.2.trans (Nat.add_assoc _ _ _)⟩

theorem prints_byte {f : ℕ → List Printed} (hl : ∀ v, ¬ReportedIllegal (f v)) :
    Prints legal 1 (do return f (← fetch8 absRead8)) pc :=
  ⟨fun _ => hl _, rfl⟩

theorem prints_word {f : ℕ → List Printed} (hl : ∀ v, ¬ReportedIllegal (f v)) :
    Prints legal 2 (do return f (← fetch16 absRead8)) pc :=
  ⟨fun _ => hl _, rfl⟩

theorem dasmIndexed_prints : Prints (LegalPost (absRead8 pc).toNat)
    (1 + postbyteTail (absRead8 pc).toNat) (dasmIndexed absRead8) pc := by
  unfold dasmIndexed
  refine prints_fetch8 absRead8 ?_
  generalize (absRead8 pc).toNat = post
  have hR := (indexRegName_ne ((post >>> 5) &&& 0x3)).symm
  have hlt : post &&& 0x1f < 32 := by
    rw [Nat.and_two_pow_sub_one_eq_mod post 5]
    exact Nat.mod_lt _ (by decide)
  have hoff := (off4_ne hlt).symm
  by_cases hz : post &&& 0x80 = 0
  · have ht : postbyteTail post = 0 := if_pos hz
    rw [ht]
    simp only [if_pos hz]
    exact prints_pure (by simp [ReportedIllegal, hR, hoff])
  · simp only [if_neg hz]
    have htail {k : ℕ} {m : DasmM (List Printed)} (ht : postbyteTail post = k)
        (h : Prints (LegalPost post) k m (pc + 1)) :
        Prints (LegalPost post) (postbyteTail post) m (pc + 1) := by rwa [ht]
    split
    case h_8 hp | h_11 hp | h_18 hp | h_21 hp =>
      exact htail (by simp [postbyteTail, hz, hp])
        (prints_byte absRead8 fun _ => by simp [ReportedIllegal, hR])
    case h_9 hp | h_12 hp | h_19 hp | h_22 hp | h_23 hp =>
      exact htail (by simp [postbyteTail, hz, hp])
        (prints_word absRead8 fun _ => by simp [ReportedIllegal, hR])
    case h_24 =>
      have hillegal : ¬LegalPost post := by
        rintro (h | h)
        · exact hz h
        · simp_all
      refine htail (k := 0) ?_ ⟨fun h => absurd h hillegal, rfl⟩
      simp_all [postbyteTail]
    all_goals
      rename_i hp
      exact htail (by simp [postbyteTail, hz, hp]) (prints_pure (by simp [ReportedIllegal, hR]))

theorem reported_append (l l' : List Printed) :
    ReportedIllegal (l ++ l') ↔ ReportedIllegal l ∨ ReportedIllegal l' := by
  simp only [ReportedIllegal, List.mem_append]
  exact or_or_or_comm

theorem dasmStack_prints {other : String} (h : other ≠ "???") :
    Prints legal 1 (dasmStack absRead8 other) pc := by
  have hmask {op mask : ℕ} {text : String} (ht : text ≠ "???") :
      ¬ReportedIllegal (onMask op mask text) := by
    unfold onMask
    split <;> simp [ReportedIllegal, ht.symm]
  refine prints_byte absRead8 fun op => ?_
  have hboth : ¬ReportedIllegal (if op &&& 0x06 = 0x06 then [.text "D,"]
      else onMask op 0x04 "B," ++ onMask op 0x02 "A,") := by
    split
    · decide
    · rw [reported_append]
      exact not_or.mpr ⟨hmask (by decide), hmask (by decide)⟩
  simp only [reported_append, not_or]
  exact ⟨⟨⟨⟨⟨⟨⟨hmask (by decide), hmask h⟩, hmask (by decide)⟩, hmask (by decide)⟩,
    hmask (by decide)⟩, hboth⟩, hmask (by decide)⟩, by decide⟩

theorem dasm_relByte : dasmOperand absRead8 .relByte pc =
    ([.absoluteName (Word.trunc 64 (Word.signExtend 8 64 (absRead8 pc).toNat + (pc + 1)))],
      pc + 1) := rfl

theorem dasm_relWord : dasmOperand absRead8 .relWord pc =
    ([.absoluteName (Word.trunc 64 (pc + 2 +
      (((absRead8 pc).toNat <<< 8) ||| (absRead8 (pc + 1)).toNat)))], pc + 2) := rfl

/-- Every mode is printed from the bytes of its operand. -/
theorem dasmOperand_prints {am : AddrMode} (ham : am ≠ .illegal) :
    Prints (am = .indexed → LegalPost (absRead8 pc).toNat) (am.size (absRead8 pc).toNat)
      (dasmOperand absRead8 am) pc := by
  cases am with
  | illegal => exact absurd rfl ham
  | implied => exact prints_pure (by simp [ReportedIllegal])
  | immByte | direct => exact prints_byte absRead8 fun _ => by simp [ReportedIllegal]
  | immWord | extended => exact prints_word absRead8 fun _ => by simp [ReportedIllegal]
  | indexed => exact ⟨fun h => (dasmIndexed_prints absRead8).1 (h rfl), (dasmIndexed_prints absRead8).2⟩
  | relByte =>
    rw [Prints, dasm_relByte]
    exact ⟨fun _ => by simp [ReportedIllegal], rfl⟩
  | relWord =>
    rw [Prints, dasm_relWord]
    exact ⟨fun _ => by simp [ReportedIllegal], rfl⟩
  | regPost =>
    refine prints_byte absRead8 fun op => ?_
    have hhigh := (reg_ne (op >>> 4)).symm
    have hlow := (reg_ne (op &&& 15)).symm
    simp [ReportedIllegal, hhigh, hlow]
  | usrPost => exact dasmStack_prints absRead8 (by decide)
  | sysPost => exact dasmStack_prints absRead8 (by decide)


theorem dasmOperand_size (am : AddrMode) :
    (dasmOperand absRead8 am pc).2 = pc + am.size (absRead8 pc).toNat := by
  by_cases h : am = .illegal
  · rw [h]
    rfl
  · exact (dasmOperand_prints absRead8 h).2

end

/-! ## Both decoders -/

section
variable {β : Type} [Bus β] {mem : ℕ → U8} (M : CodeSeen β mem)

/-- The entry of a table for the first bytes, and how many bytes these are. -/
def entry : (Opcode × AddrMode) × ℕ :=
  if M.byte 0 = 0x10 then (codes10 (M.byte 1), 2)
  else if M.byte 0 = 0x11 then (codes11 (M.byte 1), 2)
  else (codes (M.byte 0), 1)

theorem byte_lt (k : ℕ) : M.byte k < 256 := (mem (M.opc + k)).isLt

theorem entry_agrees : (entry M).2 = M.selected.2 ∧
    ∀ i, M.selected.1 = .insn i → Agrees (entry M).1 i := by
  have helim {sel : Selected} (hsel : ∀ i, sel ≠ .insn i) {o : Option Insn} {i : Insn}
      (h : o.elim sel .insn = .insn i) : i ∈ o := by
    cases o with
    | none => exact absurd h (hsel i)
    | some j =>
      cases h
      rfl
  unfold entry CodeSeen.selected
  by_cases h10 : M.byte 0 = 0x10
  · rw [if_pos h10, if_pos h10]
    exact ⟨rfl, fun i h => codes10_agrees _ (byte_lt M 1) i (helim (fun _ h => by cases h) h)⟩
  · rw [if_neg h10, if_neg h10]
    by_cases h11 : M.byte 0 = 0x11
    · rw [if_pos h11, if_pos h11]
      exact ⟨rfl, fun i h => codes11_agrees _ (byte_lt M 1) i (helim (fun _ h => by cases h) h)⟩
    · rw [if_neg h11, if_neg h11]
      exact ⟨rfl, fun i h => codes_agrees _ (byte_lt M 0) i (helim (fun _ h => by cases h) h)⟩

theorem dasmOpcode_eq : dasmOpcode mem M.opc = ((entry M).1, M.opc + (entry M).2) := by
  have hrun : dasmOpcode mem M.opc = (if M.byte 0 = 0x10 then do return codes10 (← fetch8 mem)
      else if M.byte 0 = 0x11 then do return codes11 (← fetch8 mem)
      else return codes (M.byte 0) : DasmM (Opcode × AddrMode)) (M.opc + 1) := rfl
  rw [hrun, entry]
  split
  · rfl
  · split <;> rfl

theorem dasm_eq : dasm mem false M.opc =
    (.mnemonic (mne (entry M).1.1) :: (dasmOperand mem (entry M).1.2 (M.opc + (entry M).2)).1,
      (dasmOperand mem (entry M).1.2 (M.opc + (entry M).2)).2 - M.opc) := by
  have hname : dasmMnemonic mem false (entry M).1.1 = pure [.mnemonic (mne (entry M).1.1)] :=
    if_neg fun h => Bool.false_ne_true h.2
  unfold dasm
  simp only [StateT.run, bind, StateT.bind, dasmOpcode_eq, hname]
  rfl

theorem dasm_size : (dasm mem false M.opc).2 =
    (entry M).2 + (entry M).1.2.size (M.byte (entry M).2) := by
  rw [dasm_eq, dasmOperand_size, CodeSeen.byte]
  omega

/-- The code that is disassembled is code that the processor can fetch. -/
theorem selected_fits (hsize : M.size = (dasm mem false M.opc).2) : M.selected.2 ≤ M.size ∧
    ∀ i, M.selected.1 = .insn i → M.selected.2 + i.size (M.byte M.selected.2) = M.size := by
  obtain ⟨hk, hagrees⟩ := entry_agrees M
  rw [hsize, dasm_size, hk]
  refine ⟨Nat.le_add_right _ _, fun i hi => ?_⟩
  rw [(hagrees i hi).2, insnMode_size]

theorem not_reported {i : Insn} (hi : M.selected.1 = .insn i)
    (hlegal : i.PostLegal (M.byte M.selected.2)) : ¬ReportedIllegal (dasm mem false M.opc).1 := by
  obtain ⟨hk, hagrees⟩ := entry_agrees M
  obtain ⟨hknown, hmode⟩ := hagrees i hi
  have hillegal : (entry M).1.2 ≠ .illegal := by
    rw [hmode]
    exact insnMode_ne_illegal i
  have hpost : (entry M).1.2 = .indexed → LegalPost (mem (M.opc + (entry M).2)).toNat := by
    intro h
    rw [hk]
    exact insnMode_legal hlegal (hmode.symm.trans h)
  have hoperand : ¬ReportedIllegal (dasmOperand mem (entry M).1.2 (M.opc + (entry M).2)).1 :=
    (dasmOperand_prints mem hillegal).1 hpost
  rw [dasm_eq]
  rintro (h | h)
  · rcases List.mem_cons.mp h with h | h
    · exact mne_ne hknown (Printed.mnemonic.inj h).symm
    · exact hoperand (.inl h)
  · rcases List.mem_cons.mp h with h | h
    · cases h
    · exact hoperand (.inr h)

/-- An instruction that is executed without `sim_error` is disassembled, and with the length
after which the processor goes on. -/
theorem lengths_agree (hsize : M.size = (dasm mem false M.opc).2) {s u : Cpu β}
    (hpc : s.PC = M.pc) (hok : M.ok s.bus) (h : Executes s u) :
    ¬ReportedIllegal (dasm mem false M.opc).1 ∧ ∃ i, M.selected.1 = .insn i ∧
      i.Outcome M s M.selected.2 (dasm mem false M.opc).2 u := by
  obtain ⟨hk, hfits⟩ := selected_fits M hsize
  obtain ⟨i, hi, hout⟩ := h.outcome hk (fun i hi => (hfits i hi).le) hpc hok
  refine ⟨not_reported M hi hout.legal, i, hi, ?_⟩
  rw [hfits i hi, hsize] at hout
  exact hout

end

/-- `BSR` at 0x100. -/
def callImage : FlatRam := FlatRam.image [(0x100, [0x8d, 0x10])]

def callSeen : CodeSeen (Board Unit) (absoluteImage callImage) :=
  (ramBoard_code callImage 0x100 2 (by decide) (by decide)).seen

def callStart : Cpu (Board Unit) := { Cpu.powerOn (ramBoard callImage) with PC := 0x100, S := 0x8000 }

theorem callStart_executes : Executes callStart (finalState (cpuStep callStart)) where
  clean := ⟨_, eq_ok_finalState (by decide +kernel), by decide +kernel⟩
  step := eq_ok_finalState (by decide +kernel)

theorem callSeen_size : callSeen.size = (dasm (absoluteImage callImage) false callSeen.opc).2 := by
  decide +kernel

theorem lengths_agree_call : (dasm (absoluteImage callImage) false callSeen.opc).2 = 2 ∧
    ∃ i, callSeen.selected.1 = .insn i ∧ i.Outcome callSeen callStart callSeen.selected.2
      (dasm (absoluteImage callImage) false callSeen.opc).2 (finalState (cpuStep callStart)) := by
  have hok : callSeen.ok callStart.bus := ⟨[], false, rfl⟩
  exact ⟨callSeen_size.symm,
    (lengths_agree callSeen callSeen_size rfl hok callStart_executes).2⟩

end Exec09.Debugger
