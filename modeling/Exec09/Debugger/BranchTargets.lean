import Exec09.Debugger.CodeView
import Exec09.Debugger.InsnLength

/-! # Where a branch is said to go

The disassembler adds the offset of a branch to an absolute address. It extends
the sign of an offset of 8 bits before that, and not that of an offset of 16.
-/
namespace Exec09.Debugger
open Foundation Access

/-- The two numbers that `absolute_addr_name` prints of an address. -/
def absoluteText (addr : ℕ) : ℕ × ℕ := (addr >>> 28, addr &&& 0xFFFFFF)

/-- The operand is an address that is printed like `addr`. -/
def Names (printed : List Printed) (addr : ℕ) : Prop :=
  ∃ a, .absoluteName a ∈ printed ∧ absoluteText a = absoluteText addr

/-- The address space of the processor is a range of one device. -/
structure Linear (maps : BusMaps) (dev base : ℕ) : Prop where
  dev_lt : dev < 0x100
  base_le : base + 0x10000 ≤ 2 ^ 28
  devid : ∀ a < 0x10000, (resolve maps a).devid = dev
  offset : ∀ a < 0x10000, (resolve maps a).offset = base + a

theorem Linear.absolute {maps : BusMaps} {dev base a : ℕ} (h : Linear maps dev base)
    (ha : a < 0x10000) : toAbsolute maps a = dev * 2 ^ 28 + base + a := by
  have hdev := h.dev_lt
  have hbase := h.base_le
  have hpacked : toAbsolute maps a =
      absoluteFromReladdr (resolve maps a).devid (resolve maps a).offset := if_neg (by omega)
  rw [hpacked, h.devid a ha, h.offset a ha, absoluteFromReladdr, Word.trunc_of_lt (by omega)]
  omega

theorem names_iff {text : String} {a addr : ℕ} :
    Names [.mnemonic text, .absoluteName a] addr ↔ absoluteText a = absoluteText addr := by
  constructor
  · rintro ⟨b, hb, htext⟩
    simp only [List.mem_cons, reduceCtorEq, Printed.absoluteName.injEq, List.not_mem_nil, or_false,
      false_or] at hb
    rw [← hb]
    exact htext
  · exact fun htext => ⟨a, by simp, htext⟩

theorem absoluteText_next (a : ℕ) : absoluteText (a + 0x10000) ≠ absoluteText a := by
  intro h
  have hlow := congrArg Prod.snd h
  simp only [absoluteText, Nat.and_two_pow_sub_one_eq_mod _ 24] at hlow
  omega

/-! ## Sums -/

section
variable {dev base pc k size g : ℕ}

/-- A sum on the side of the debugger, where the branch from `pc` goes to `g`. -/
theorem byte_sum {v : ℕ} (hdev : dev < 0x100) (hbase : base + 0x10000 ≤ 2 ^ 28)
    (hbelow : pc + size ≤ 0x10000) (hk : k + 1 = size) (hv : v < 256)
    (hlow : 0 ≤ (pc + size : ℤ) + Int.bmod v 256) (hhigh : (pc + size : ℤ) + Int.bmod v 256 < 0x10000)
    (hg : (g : ℤ) = (pc + size + Int.bmod v 256) % 65536) :
    Word.trunc 64 (Word.signExtend 8 64 v + (dev * 2 ^ 28 + base + pc + k + 1)) =
      dev * 2 ^ 28 + base + g := by
  rw [Int.emod_eq_of_lt hlow hhigh] at hg
  rw [Int.bmod] at hg hlow
  simp only [Word.trunc, Word.signExtend]
  by_cases h : v < 128
  · rw [if_pos (by omega)] at hg hlow
    rw [if_pos (by omega)]
    omega
  · rw [if_neg (by omega)] at hg hlow
    rw [if_neg (by omega)]
    omega

/-- The sign of an offset of 16 bits is lost. -/
theorem word_sum {v w : ℕ} (hdev : dev < 0x100) (hbase : base + 0x10000 ≤ 2 ^ 28)
    (hbelow : pc + size ≤ 0x10000) (hk : k + 2 = size) (hv : v < 256) (hw : w < 256)
    (hlow : 0 ≤ (pc + size : ℤ) + Int.bmod (v * 256 + w : ℕ) 65536)
    (hhigh : (pc + size : ℤ) + Int.bmod (v * 256 + w : ℕ) 65536 < 0x10000)
    (hg : (g : ℤ) = (pc + size + Int.bmod (v * 256 + w : ℕ) 65536) % 65536) :
    Word.trunc 64 (dev * 2 ^ 28 + base + pc + k + 2 + (v * 256 + w)) =
      dev * 2 ^ 28 + base + g + if v < 0x80 then 0 else 0x10000 := by
  rw [Int.emod_eq_of_lt hlow hhigh] at hg
  rw [Int.bmod] at hg
  rw [Word.trunc_of_lt (by omega)]
  by_cases h : v < 0x80
  · rw [if_pos (by omega)] at hg
    rw [if_pos h]
    omega
  · rw [if_neg (by omega)] at hg
    rw [if_neg h]
    omega

end

/-- A branch with an offset of 8 bits. -/
def IsShort : Insn → Prop
  | .bra | .bsr | .branch _ => True
  | _ => False

section
variable {β : Type} [Bus β] {mem : ℕ → U8} (M : CodeSeen β mem)

/-- What is printed as the target of a short branch. -/
theorem short_printed {i : Insn} (hi : M.selected.1 = .insn i) (hmode : insnMode i = .relByte) :
    (dasm mem false M.opc).1 = [.mnemonic (mne (entry M).1.1),
      .absoluteName (Word.trunc 64 (Word.signExtend 8 64 (M.byte M.selected.2) +
        (M.opc + M.selected.2 + 1)))] := by
  obtain ⟨hk, hagrees⟩ := entry_agrees M
  rw [dasm_eq, (hagrees i hi).2, hmode, hk, dasm_relByte, CodeSeen.byte]

theorem long_printed {i : Insn} (hi : M.selected.1 = .insn i) (hmode : insnMode i = .relWord) :
    (dasm mem false M.opc).1 = [.mnemonic (mne (entry M).1.1),
      .absoluteName (Word.trunc 64 (M.opc + M.selected.2 + 2 + M.word M.selected.2))] := by
  obtain ⟨hk, hagrees⟩ := entry_agrees M
  have hlow : M.byte (M.selected.2 + 1) < 2 ^ 8 := byte_lt M _
  have hword : (M.byte M.selected.2 <<< 8) ||| M.byte (M.selected.2 + 1) = M.word M.selected.2 := by
    rw [CodeSeen.word, Nat.shiftLeft_eq, Nat.mul_comm, ← Nat.two_pow_add_eq_or_of_lt hlow,
      Nat.mul_comm]
  rw [dasm_eq, (hagrees i hi).2, hmode, hk, dasm_relWord, ← hword]
  rfl

theorem offset_mode {i : Insn} {f : Flags} {short long d : ℤ} (h : i.offset f short long = some d) :
    (IsShort i ∧ insnMode i = .relByte ∧ d = short) ∨
      (¬IsShort i ∧ insnMode i = .relWord ∧ d = long) := by
  cases i with
  | bra | bsr => exact .inl ⟨trivial, rfl, (Option.some.inj h).symm⟩
  | branch c =>
    by_cases hc : c.holds f = true
    · rw [Insn.offset, if_pos hc] at h
      exact .inl ⟨trivial, rfl, (Option.some.inj h).symm⟩
    · rw [Insn.offset, if_neg hc] at h
      cases h
  | longBra | longBsr => exact .inr ⟨id, rfl, (Option.some.inj h).symm⟩
  | longBranch c =>
    by_cases hc : c.holds f = true
    · rw [Insn.offset, if_pos hc] at h
      exact .inr ⟨id, rfl, (Option.some.inj h).symm⟩
    · rw [Insn.offset, if_neg hc] at h
      cases h
  | _ => cases h

/-- The target that is printed is the address that a taken branch goes to exactly if the offset
is one of 8 bits or is not negative. -/
theorem target_named_iff (hsize : M.size = (dasm mem false M.opc).2) {maps : BusMaps} {dev base : ℕ}
    (hlin : Linear maps dev base) (hopc : M.opc = toAbsolute maps M.pc) {s u : Cpu β}
    (hpc : s.PC = M.pc) (hok : M.ok s.bus) (h : Executes s u) {i : Insn}
    (hi : M.selected.1 = .insn i) {d : ℤ}
    (hd : i.offset s.flags (Int.bmod (M.byte M.selected.2) 256)
      (Int.bmod (M.word M.selected.2) 65536) = some d)
    (hlow : 0 ≤ (M.pc + M.size : ℤ) + d) (hhigh : (M.pc + M.size : ℤ) + d < 0x10000) :
    Names (dasm mem false M.opc).1 (toAbsolute maps (getPc u)) ↔
      IsShort i ∨ M.byte M.selected.2 < 0x80 := by
  obtain ⟨-, j, hj, hout⟩ := lengths_agree M hsize hpc hok h
  rw [hi] at hj
  cases hj
  have hgoes := hout.branches d hd
  rw [← hsize] at hgoes
  have hfits := (selected_fits M hsize).2 i hi
  have hdev := hlin.dev_lt
  have hbase := hlin.base_le
  have hbelow := M.below
  have hhere : M.pc < 0x10000 := by
    have hpos : 0 < M.size := by
      rw [← hfits, CodeSeen.selected]
      split
      · omega
      · split <;> omega
    omega
  have hthere : getPc u < 0x10000 := by
    rw [getPc, Word.and_65535]
    exact Nat.mod_lt _ (by decide)
  have hfirst : M.byte M.selected.2 < 256 := byte_lt M _
  rw [hlin.absolute hhere] at hopc
  rw [hlin.absolute hthere]
  rcases offset_mode hd with ⟨hshort, hmode, hdist⟩ | ⟨hlong, hmode, hdist⟩
  · have hone : M.selected.2 + 1 = M.size := by
      rw [← hfits, ← insnMode_size, hmode]
      rfl
    rw [hdist] at hlow hhigh hgoes
    rw [short_printed M hi hmode, names_iff, hopc,
      byte_sum hdev hbase hbelow hone hfirst hlow hhigh hgoes]
    exact iff_of_true rfl (.inl hshort)
  · have htwo : M.selected.2 + 2 = M.size := by
      rw [← hfits, ← insnMode_size, hmode]
      rfl
    have hsecond : M.byte (M.selected.2 + 1) < 256 := byte_lt M _
    rw [hdist, CodeSeen.word] at hlow hhigh hgoes
    rw [long_printed M hi hmode, names_iff, hopc, CodeSeen.word,
      word_sum hdev hbase hbelow htwo hfirst hsecond hlow hhigh hgoes]
    by_cases hpos : M.byte M.selected.2 < 0x80
    · rw [if_pos hpos, Nat.add_zero]
      exact iff_of_true rfl (.inr hpos)
    · rw [if_neg hpos]
      exact iff_of_false (absoluteText_next _) (not_or.mpr ⟨hlong, hpos⟩)

end

theorem linearMaps_linear : Linear linearMaps 1 0 where
  dev_lt := by decide
  base_le := by decide
  devid a ha := by rw [linearMaps_resolve ha]
  offset a ha := by rw [linearMaps_resolve ha, Nat.zero_add]

/-- `LBRA` to itself at 0x100. -/
def loopImage : FlatRam := FlatRam.image [(0x100, [0x16, 0xff, 0xfd])]

def loopSeen : CodeSeen (Board Unit) (absoluteImage loopImage) :=
  (ramBoard_code loopImage 0x100 3 (by decide) (by decide)).seen

def loopStart : Cpu (Board Unit) := { Cpu.powerOn (ramBoard loopImage) with PC := 0x100 }

theorem loopStart_executes : Executes loopStart (finalState (cpuStep loopStart)) where
  clean := ⟨_, eq_ok_finalState (by decide +kernel), by decide +kernel⟩
  step := eq_ok_finalState (by decide +kernel)

theorem loopStart_goes : getPc (finalState (cpuStep loopStart)) = 0x100 := by decide +kernel

theorem loopSeen_insn : loopSeen.selected.1 = .insn .longBra := by decide +kernel

theorem loopSeen_size : loopSeen.size = (dasm (absoluteImage loopImage) false loopSeen.opc).2 := by
  decide +kernel

/-- The loop is said to go 64K further than it does. -/
theorem loop_target_named : Names (dasm (absoluteImage loopImage) false loopSeen.opc).1
      (toAbsolute linearMaps (getPc (finalState (cpuStep loopStart)))) ↔
    IsShort .longBra ∨ loopSeen.byte loopSeen.selected.2 < 0x80 := by
  have hdist : Insn.longBra.offset loopStart.flags (Int.bmod (loopSeen.byte loopSeen.selected.2) 256)
      (Int.bmod (loopSeen.word loopSeen.selected.2) 65536) = some (-3) := by decide +kernel
  have hok : loopSeen.ok loopStart.bus := ⟨[], false, rfl⟩
  exact target_named_iff loopSeen loopSeen_size linearMaps_linear (by decide +kernel) rfl hok
    loopStart_executes loopSeen_insn hdist (by decide +kernel) (by decide +kernel)

/-- A branch backward, executed and printed. -/
theorem target_not_named : Executes loopStart (finalState (cpuStep loopStart)) ∧
    getPc (finalState (cpuStep loopStart)) = 0x100 ∧
    loopSeen.opc = toAbsolute linearMaps 0x100 ∧
    (dasm (absoluteImage loopImage) false loopSeen.opc).1 =
      [.mnemonic "LBRA", .absoluteName 0x10010100] ∧
    ¬Names (dasm (absoluteImage loopImage) false loopSeen.opc).1 (toAbsolute linearMaps 0x100) := by
  have hprinted : (dasm (absoluteImage loopImage) false loopSeen.opc).1 =
      [.mnemonic "LBRA", .absoluteName 0x10010100] := by decide +kernel
  refine ⟨loopStart_executes, loopStart_goes, by decide +kernel, hprinted, ?_⟩
  rw [hprinted, names_iff]
  decide +kernel

end Exec09.Debugger
