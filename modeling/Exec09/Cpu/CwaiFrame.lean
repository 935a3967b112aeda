import Exec09.Cpu.StackWrites
import Exec09.Cpu.Run

/-! # The frame of CWAI

The mask of CWAI is applied to the word of the E, F and I flags only; the other
five condition codes reach the frame as they were. While the processor waits,
the same opcode is executed again and again without a new frame.
-/
namespace Exec09
open Foundation
variable {β : Type} [Bus β]

/-- A CWAI is fetched at the `PC` of `s` and executed. -/
def ExecutesCwai (s s' : Cpu β) : Prop :=
  (∃ s₁, immByte (latchPc s) = .ok 0x3c s₁) ∧ fetchExecute s = .ok () s'

/-- What the first execution of CWAI is for, with the mask `m`: one full frame, with the address
of the next instruction and the masked condition codes. -/
structure CwaiFrame (s : Cpu β) (m : ℕ) (s' : Cpu β) : Prop where
  trace : s'.trace = stackWrites s.S (fullFrame s ((getPc s + 2) % 65536)
    ((getCc s &&& m) ||| E_FLAG)) ++ [.read8 (uint (s.PC + 1)), .read8 s.PC] ++ s.trace
  S : s'.S = (s.S + (65536 - 12)) % 65536
  PC : s'.PC = getPc s
  waits : s'.cwaiState = .wait

/-- What an execution of CWAI is for while the processor waits. -/
structure CwaiAgain (s s' : Cpu β) : Prop where
  trace : s'.trace = .read8 s.PC :: s.trace
  S : s'.S = s.S
  PC : s'.PC = getPc s
  waits : s'.cwaiState = .wait

/-! ## The condition codes -/

theorem int8_and_efi : ∀ m < 256, int8 m &&& (E_FLAG ||| F_FLAG ||| I_FLAG) =
    m &&& (E_FLAG ||| F_FLAG ||| I_FLAG) := by
  decide +kernel

omit [Bus β] in
/-- The byte in the frame: E, F and I are masked. -/
theorem getCc_cwai {s r : Cpu β} {m : ℕ} (hm : m < 256) (hefi : r.EFI = s.EFI &&& int8 m)
    (hflags : r.flags = s.flags) : getCc (framed true r) =
      (getCc s &&& (E_FLAG ||| F_FLAG ||| I_FLAG) &&& m) ||| E_FLAG ||| (getCc s &&& 0x2f) := by
  have hframed : (framed true r).EFI = (s.EFI &&& int8 m) ||| E_FLAG := by
    rw [← hefi]
    rfl
  have hkept : (framed true r).flags = s.flags := hflags
  have hmask : E_FLAG &&& (E_FLAG ||| F_FLAG ||| I_FLAG) = E_FLAG := rfl
  have hapart : 0x2f &&& (E_FLAG ||| F_FLAG ||| I_FLAG) = 0 := rfl
  have hcc : getCc s &&& (E_FLAG ||| F_FLAG ||| I_FLAG) =
      s.EFI &&& (E_FLAG ||| F_FLAG ||| I_FLAG) := by
    rw [getCc_eq, Nat.and_or_distrib_right, ← Cc.byte_and, Nat.and_assoc s.flags.cc.byte, hapart,
      Nat.and_zero, Nat.or_zero, Nat.and_assoc, Nat.and_self]
  rw [getCc_eq, getCc_and, hframed, hkept, Nat.and_or_distrib_right, hmask, Nat.and_assoc,
    int8_and_efi m hm, hcc, Nat.and_comm m, Nat.and_assoc]

omit [Bus β] in
/-- All eight bits are masked if the mask spares the five that are not in `EFI`. -/
theorem getCc_masked_iff (s : Cpu β) (m : ℕ) :
    (getCc s &&& (E_FLAG ||| F_FLAG ||| I_FLAG) &&& m) ||| E_FLAG ||| (getCc s &&& 0x2f) =
      (getCc s &&& m) ||| E_FLAG ↔ getCc s &&& 0x2f &&& m = getCc s &&& 0x2f := by
  have hsplit : getCc s &&& m = (getCc s &&& (E_FLAG ||| F_FLAG ||| I_FLAG) &&& m) |||
      (getCc s &&& 0x2f &&& m) := by
    have hall : (E_FLAG ||| F_FLAG ||| I_FLAG) ||| 0x2f = 2 ^ 8 - 1 := rfl
    rw [← Nat.and_or_distrib_right, ← Nat.and_or_distrib_left, hall,
      Nat.and_two_pow_sub_one_of_lt_two_pow (getCc_lt s)]
  have hupper : ((getCc s &&& (E_FLAG ||| F_FLAG ||| I_FLAG) &&& m) ||| E_FLAG) &&& 0x2f = 0 := by
    have hfirst : (E_FLAG ||| F_FLAG ||| I_FLAG) &&& 0x2f = 0 := rfl
    have hsecond : E_FLAG &&& 0x2f = 0 := rfl
    rw [Nat.and_or_distrib_right, hsecond, Nat.or_zero, Nat.and_right_comm,
      Nat.and_assoc (getCc s), hfirst, Nat.and_zero, Nat.zero_and]
  have hlow {a b : ℕ} (ha : a &&& 0x2f = 0) (hb : b &&& 0x2f = b) : (a ||| b) &&& 0x2f = b := by
    rw [Nat.and_or_distrib_right, ha, Nat.zero_or, hb]
  rw [hsplit, Nat.or_right_comm _ (getCc s &&& 0x2f &&& m)]
  constructor
  · intro h
    have hbits := congrArg (· &&& 0x2f) h
    rw [hlow hupper (by rw [Nat.and_assoc, Nat.and_self]),
      hlow hupper (by rw [Nat.and_right_comm, Nat.and_assoc (getCc s), Nat.and_self])] at hbits
    exact hbits.symm
  · intro h
    rw [h]

/-! ## The two executions -/

theorem immByte_ok {s s' : Cpu β} {v : ℕ} (h : immByte s = .ok v s') : v < 256 ∧
    s' = { s with trace := .read8 s.PC :: s.trace, bus := s'.bus, PC := uint (s.PC + 1) } := by
  obtain ⟨w, b, -, rfl, rfl⟩ := of_immByte_ok h
  exact ⟨w.isLt, rfl⟩

theorem fetchExecute_cwai {s s₁ : Cpu β} (hop : immByte (latchPc s) = .ok 0x3c s₁) :
    fetchExecute s = cwai s₁ := by
  have hfetch : fetchOpcode (latchPc s) = .ok (.insn .cwai) s₁ := by
    rw [fetchOpcode, run_bind_ok hop]
    rfl
  rw [fetchExecute, run_bind_ok (run_modify latchPc), run_bind_ok hfetch]
  rfl

theorem uint_succ (p : ℕ) : uint (uint (p + 1) + 1) = uint (p + 2) := by
  simp only [Word.trunc]
  omega

theorem changePc_back {p k : ℕ} (hk : k < 65536) :
    usub (uint (p + k)) k &&& 0xffff = p % 65536 := by
  rw [Word.and_65535]
  simp only [Word.sub, Word.trunc]
  omega

/-- While it waits, CWAI reads its opcode and goes back to it. -/
theorem cwai_again {s s' : Cpu β} (hwait : s.cwaiState = .wait) (h : ExecutesCwai s s') :
    CwaiAgain s s' := by
  obtain ⟨⟨s₁, hop⟩, hrun⟩ := h
  obtain ⟨-, hs₁⟩ := immByte_ok hop
  have hstate : s₁.cwaiState = .wait := by
    rw [hs₁]
    exact hwait
  rw [fetchExecute_cwai hop, cwai, run_bind_ok (run_look _ _), hstate] at hrun
  cases hrun
  refine ⟨?_, ?_, ?_, hstate⟩
  · change s₁.trace = _
    rw [hs₁]
    rfl
  · change s₁.S = _
    rw [hs₁]
    rfl
  · have hpc : s₁.PC = uint (s.PC + 1) := by rw [hs₁]; rfl
    change usub s₁.PC 1 &&& 0xffff = _
    rw [hpc, changePc_back (by decide), getPc, Word.and_65535]

/-- The frame that the first execution of CWAI leaves, as it is. -/
theorem cwai_first {s s₁ s₂ s' : Cpu β} {m : ℕ} (hidle : s.cwaiState = .idle)
    (hop : immByte (latchPc s) = .ok 0x3c s₁) (himm : immByte s₁ = .ok m s₂)
    (hrun : fetchExecute s = .ok () s') :
    s'.trace = stackWrites s.S (fullFrame s ((getPc s + 2) % 65536)
      ((getCc s &&& (E_FLAG ||| F_FLAG ||| I_FLAG) &&& m) ||| E_FLAG ||| (getCc s &&& 0x2f))) ++
        [.read8 (uint (s.PC + 1)), .read8 s.PC] ++ s.trace ∧
      s'.S = (s.S + (65536 - 12)) % 65536 ∧ s'.PC = getPc s ∧ s'.cwaiState = .wait := by
  obtain ⟨-, hs₁⟩ := immByte_ok hop
  obtain ⟨hm, hs₂⟩ := immByte_ok himm
  have hstate : s₁.cwaiState = .idle := by
    rw [hs₁]
    exact hidle
  have hpc : s₂.PC = uint (s.PC + 2) := by
    rw [hs₂, hs₁]
    exact uint_succ s.PC
  rw [fetchExecute_cwai hop, cwai, run_bind_ok (run_look _ _), hstate] at hrun
  dsimp only at hrun
  rw [run_bind_ok himm] at hrun
  obtain ⟨_, t, hpush, htail⟩ := of_run_bind_ok (m := stackMachineState true)
    (s := { s₂ with EFI := s₂.EFI &&& int8 m, cpuClk := s₂.cpuClk - 1 }) hrun
  have h := stackMachineState_pushing.of_ok rfl hpush
  have hcc : getCc (framed true { s₂ with EFI := s₂.EFI &&& int8 m, cpuClk := s₂.cpuClk - 1 }) =
      (getCc s &&& (E_FLAG ||| F_FLAG ||| I_FLAG) &&& m) ||| E_FLAG ||| (getCc s &&& 0x2f) := by
    apply getCc_cwai hm
    · rw [hs₂, hs₁]
      rfl
    · rw [hs₂, hs₁]
      rfl
  have hnext : s₂.PC &&& 0xffff = (getPc s + 2) % 65536 := by
    rw [hpc, getPc, Word.and_65535, Word.and_65535]
    simp only [Word.trunc]
    omega
  cases htail
  refine ⟨?_, ?_, ?_, rfl⟩
  · refine h.trace.trans ?_
    rw [hcc]
    change stackWrites s₂.S (fullFrame s₂ (s₂.PC &&& 0xffff) _) ++ s₂.trace = _
    rw [hnext, hs₂, hs₁, List.append_assoc]
    rfl
  · refine (h.pointer (by simp [fullFrame]) (by simp [fullFrame])).trans ?_
    change (s₂.S + _) % 65536 = _
    rw [hs₂, hs₁]
    rfl
  · have htpc : t.PC = s₂.PC := by
      rw [h.rest]
      rfl
    change usub t.PC 2 &&& 0xffff = _
    rw [htpc, hpc, changePc_back (by decide), getPc, Word.and_65535]

theorem cwai_masks_iff {s s₁ s₂ s' : Cpu β} {m : ℕ} (hidle : s.cwaiState = .idle)
    (hop : immByte (latchPc s) = .ok 0x3c s₁) (himm : immByte s₁ = .ok m s₂)
    (hrun : fetchExecute s = .ok () s') :
    (CwaiFrame s m s' ∧ ∀ t t' : Cpu β, t.cwaiState = .wait → ExecutesCwai t t' → CwaiAgain t t') ↔
      getCc s &&& 0x2f &&& m = getCc s &&& 0x2f := by
  obtain ⟨htrace, hS, hPC, hwait⟩ := cwai_first hidle hop himm hrun
  rw [← getCc_masked_iff]
  constructor
  · rintro ⟨hframe, -⟩
    have hboth := htrace.symm.trans hframe.trace
    simp only [fullFrame, stackWrites, List.cons_append, List.cons.injEq, Access.write8.injEq,
      true_and, and_true] at hboth
    exact hboth
  · intro hcc
    rw [hcc] at htrace
    exact ⟨⟨htrace, hS, hPC, hwait⟩, fun t t' => cwai_again⟩

/-! `CWAI #$FF` and `CWAI #$FE` with the carry set. -/

def cwaiCarry (mask : U8) : Cpu FlatRam :=
  { Cpu.powerOn (.image [(0x1000, [0x3c, mask])]) with PC := 0x1000, S := 0x8000, flags := ⟨0, 0, 1, 0, 1⟩ }

theorem cwai_masks_spared : ∃ s', fetchExecute (cwaiCarry 0xff) = .ok () s' ∧
    CwaiFrame (cwaiCarry 0xff) 0xff s' := by
  have hrun : returned (fetchExecute (cwaiCarry 0xff)) = true := by decide +kernel
  refine ⟨_, eq_ok_finalState hrun, ?_⟩
  exact ((cwai_masks_iff rfl (rfl : immByte (latchPc (cwaiCarry 0xff)) = .ok 0x3c _) rfl
    (eq_ok_finalState hrun)).mpr (by decide +kernel)).1

theorem cwai_keeps_carry :
    ¬∀ (s s₁ s₂ s' : Cpu FlatRam) (m : ℕ), s.cwaiState = .idle →
      immByte (latchPc s) = .ok 0x3c s₁ → immByte s₁ = .ok m s₂ → fetchExecute s = .ok () s' →
        CwaiFrame s m s' := by
  intro h
  have hrun : returned (fetchExecute (cwaiCarry 0xfe)) = true := by decide +kernel
  have hframe := h _ _ _ _ 0xfe rfl (rfl : immByte (latchPc (cwaiCarry 0xfe)) = .ok 0x3c _) rfl
    (eq_ok_finalState hrun)
  exact absurd hframe.trace (by decide +kernel)

end Exec09
