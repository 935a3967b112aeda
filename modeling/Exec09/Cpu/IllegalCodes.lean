import Exec09.Cpu.NextInsn
import Exec09.Cpu.StackWrites
import Exec09.Cpu.Run

/-! # What an illegal encoding leaves behind

An opcode without an entry is found illegal before anything has happened, an
indexed postbyte in the middle of an instruction, which then goes on with the
effective address 0. Only one of the places where `sim_error` is called sets
`PC` back to the start of the instruction.
-/
namespace Exec09
open Foundation
variable {β : Type} [Bus β]

set_option synthInstance.maxSize 100000

/-- The opcode is undefined, or the byte after it is an undefined indexed postbyte. -/
def Illegal (s₁ : Cpu β) : Selected → Prop
  | .insn i => ∃ post s₂, immByte s₁ = .ok post s₂ ∧ ¬i.PostLegal post
  | .invalid | .invalidPrefixed => True

/-- Nothing has been written, and the registers, the flags and `PC` are the same. -/
structure LeavesNoTrace (s s' : Cpu β) : Prop where
  memory : ∃ l, s'.trace = l ++ s.trace ∧ ∀ e ∈ l, ∀ a, ¬e.Writes a
  rest : s' = { s with iPC := s'.iPC, ea := s'.ea, cpuClk := s'.cpuClk, trace := s'.trace, bus := s'.bus }

/-! ## Fetches -/

/-- `n` bytes of the instruction at the `PC` of `s` have been read. -/
structure Fetched (s : Cpu β) (n : ℕ) (s₁ : Cpu β) : Prop where
  reads : ∃ l, s₁.trace = l ++ s.trace ∧ ∀ e ∈ l, ∀ a, ¬e.Writes a
  rest : s₁ = { s with
    iPC := s.PC, PC := uint (s.PC + n), ea := s₁.ea, cpuClk := s₁.cpuClk, trace := s₁.trace, bus := s₁.bus }

theorem immByte_first {s s₁ : Cpu β} {v : ℕ} (h : immByte (latchPc s) = .ok v s₁) :
    Fetched s 1 s₁ := by
  obtain ⟨w, b, -, -, rfl⟩ := of_immByte_ok h
  exact ⟨⟨[.read8 s.PC], rfl, by simp [Access.Writes]⟩, rfl⟩

theorem uint_next (p n : ℕ) : uint (uint (p + n) + 1) = uint (p + (n + 1)) := by
  simp only [Word.trunc]
  omega

theorem immByte_next {s s₁ s₂ : Cpu β} {n v : ℕ} (hs : Fetched s n s₁)
    (h : immByte s₁ = .ok v s₂) : Fetched s (n + 1) s₂ := by
  obtain ⟨⟨l, htrace, hl⟩, hrest⟩ := hs
  have hpc : s₁.PC = uint (s.PC + n) := by
    rw [hrest]
  obtain ⟨w, b, -, -, rfl⟩ := of_immByte_ok h
  refine ⟨⟨.read8 s₁.PC :: l, by rw [htrace]; rfl, ?_⟩, ?_⟩
  · exact List.forall_mem_cons.mpr ⟨fun _ h => h, hl⟩
  · rw [hpc, uint_next]
    conv_lhs => rw [hrest]

/-- An opcode has one byte, or two with its prefix. -/
theorem fetchOpcode_fetched {s s₁ : Cpu β} {sel : Selected}
    (h : fetchOpcode (latchPc s) = .ok sel s₁) :
    Fetched s 1 s₁ ∧ sel ≠ .invalidPrefixed ∨ Fetched s 2 s₁ ∧ sel ≠ .invalid := by
  rw [fetchOpcode] at h
  obtain ⟨opcode, t, hfirst, hrest⟩ := of_run_bind_ok h
  have hone := immByte_first hfirst
  have hprefixed {table : ℕ → Option Insn}
      (hdec : (do let opcode ← immByte; return (table opcode).elim Selected.invalidPrefixed .insn) t =
        .ok sel s₁) : Fetched s 2 s₁ ∧ sel ≠ .invalid := by
    obtain ⟨opcode', t', hsecond, hlast⟩ := of_run_bind_ok hdec
    cases hlast
    refine ⟨immByte_next hone hsecond, ?_⟩
    cases table opcode' <;> simp
  split at hrest
  · exact .inr (hprefixed hrest)
  split at hrest
  · exact .inr (hprefixed hrest)
  · cases hrest
    refine .inl ⟨hone, ?_⟩
    cases decode opcode <;> simp

/-! ## Undefined postbytes -/

/-- Only the cycle counter has changed. -/
def Charged (s₁ s : Cpu β) : Prop := s = { s₁ with cpuClk := s.cpuClk }

omit [Bus β] in
theorem Charged.start (s : Cpu β) : Charged s s := rfl

/-- The postbyte has been read and rejected. -/
def Rejected (s₁ s : Cpu β) : Prop :=
  s = { s₁ with
    PC := uint (s₁.PC + 1), ea := 0, cpuClk := s.cpuClk, trace := .read8 s₁.PC :: s₁.trace, bus := s.bus }

section Postbyte
variable {s₁ s₂ : Cpu β} {post : ℕ} {Q : Unit → Cpu β → Prop}

omit [Bus β] in
theorem charge_charged (n : ℤ) :
    Triple (Charged s₁) (charge n) (fun _ => Charged s₁) Anywhere := by
  apply Triple.modify
  intro s hs
  rw [Charged] at hs ⊢
  rw [hs]

theorem indexedEa_illegal (R : IndexReg) (hill : ¬LegalPost post) :
    (indexedEa post R : CpuM β Bool) = (do setEa 0; simError; return false) := by
  have hmem {n : ℕ} (h : post &&& 0x1f = n) (hn : n ∈ [0x00, 0x01, 0x02, 0x03, 0x04, 0x05, 0x06,
      0x08, 0x09, 0x0b, 0x0c, 0x0d, 0x11, 0x13, 0x14, 0x15, 0x16, 0x18, 0x19, 0x1b, 0x1c, 0x1d,
      0x1f]) : False := hill (.inr (h ▸ hn))
  unfold indexedEa
  split
  case h_24 => rfl
  all_goals
    rename_i h
    exact (hmem h (by decide)).elim

theorem immByte_read (hpost : immByte s₁ = .ok post s₂) :
    ∃ v, v.toNat = post ∧ Bus.cpuRead8 (getPc s₁) s₁.PC s₁.bus = .ok v s₂.bus := by
  obtain ⟨v, b, hread, hv, rfl⟩ := of_immByte_ok hpost
  exact ⟨v, hv, hread⟩

/-- The cycle counter has no part in a fetch. -/
theorem immByte_charged (hpost : immByte s₁ = .ok post s₂) : Triple (Charged s₁) immByte
    (fun v s => v = post ∧ Rejected s₁ { s with ea := 0 }) Anywhere := by
  obtain ⟨v, rfl, hread⟩ := immByte_read hpost
  intro s hs
  have hrun : Bus.cpuRead8 (getPc s) s.PC s.bus = .ok v s₂.bus := by
    rw [hs]
    exact hread
  rw [immByte_run, hrun]
  refine ⟨rfl, ?_⟩
  rw [Rejected]
  conv_lhs => rw [hs]

instance simError_rejected : Keeps (Rejected s₁) simError where
  keeps s h := by
    rw [simError, onBus]
    cases Bus.simError s.bus <;> exact h ▸ rfl

/-- After a postbyte that it rejects, `indexed` comes back with the address 0. -/
theorem indexed_rejected (hpost : immByte s₁ = .ok post s₂) (hill : ¬LegalPost post) :
    Triple (Charged s₁) indexed (fun _ => Rejected s₁) Anywhere := by
  unfold indexed
  refine (immByte_charged hpost).value ?_
  have hbit : post &&& 0x80 ≠ 0 := fun h => hill (.inl h)
  rw [if_pos hbit, indexedEa_illegal _ hill]
  have hea : Triple (fun s : Cpu β => Rejected s₁ { s with ea := 0 }) (setEa 0)
      (fun _ => Rejected s₁) Anywhere := Triple.modify fun _ h => h
  refine Triple.bind (Q := fun b s => b = false ∧ Rejected s₁ s) ?_ fun b => ?_
  · refine hea.bind fun _ => Keeps.anywhere.bind fun _ => ?_
    exact Triple.pure _ fun _ h => ⟨rfl, h⟩
  · refine Triple.and_pre fun hb => ?_
    rw [hb]
    exact Triple.pure _ fun _ h => h

theorem address_rejected {m : Mode} (hpost : immByte s₁ = .ok post s₂) (hill : ¬m.PostLegal post) :
    Triple (Charged s₁) m.address (fun _ => Rejected s₁) Anywhere := by
  cases m with
  | direct clk => exact absurd trivial hill
  | extended clk => exact absurd trivial hill
  | indexed pre post' =>
    refine (charge_charged pre).bind fun _ => (indexed_rejected hpost hill).bind fun _ => ?_
    apply Triple.modify
    intro s hs
    rw [Rejected] at hs ⊢
    conv_lhs => rw [hs]

omit [Bus β] in
/-- What follows works on data. -/
theorem rest_past {rest : CpuM β Unit} [hrest : Keeps (Still [] (uint (s₁.PC + 1))) rest] :
    Triple (Rejected s₁) rest (fun _ s => s.PC = uint (s₁.PC + 1)) Anywhere := by
  refine (Keeps.anywhere (h := hrest)).mono (fun s hs => ⟨?_, List.nil_suffix⟩) (fun _ _ h => h.PC)
    fun _ h => h
  rw [hs]

theorem address_past {m : Mode} (hpost : immByte s₁ = .ok post s₂) (hill : ¬m.PostLegal post)
    {rest : CpuM β Unit} [hrest : Keeps (Still [] (uint (s₁.PC + 1))) rest] :
    Triple (Charged s₁) (do m.address; rest) (fun _ s => s.PC = uint (s₁.PC + 1)) Anywhere :=
  (address_rejected hpost hill).bind fun _ => rest_past

theorem load8_past {src : Operand} (hpost : immByte s₁ = .ok post s₂) (hill : ¬src.PostLegal post)
    {rest : ℕ → CpuM β Unit} [hrest : ∀ v, Keeps (Still [] (uint (s₁.PC + 1))) (rest v)] :
    Triple (Charged s₁) (src.load8 >>= rest) (fun _ s => s.PC = uint (s₁.PC + 1)) Anywhere := by
  cases src with
  | imm clk => exact absurd trivial hill
  | mem m =>
    have hload : (Operand.mem m).load8 >>= rest =
        (do m.address; (do rest (← read8 (← look Cpu.ea)))) := by
      simp only [Operand.load8, bind_assoc]
    rw [hload]
    exact address_past hpost hill

theorem load16_past {src : Operand} (hpost : immByte s₁ = .ok post s₂) (hill : ¬src.PostLegal post)
    {rest : ℕ → CpuM β Unit} [hrest : ∀ v, Keeps (Still [] (uint (s₁.PC + 1))) (rest v)] :
    Triple (Charged s₁) (src.load16 >>= rest) (fun _ s => s.PC = uint (s₁.PC + 1)) Anywhere := by
  cases src with
  | imm clk => exact absurd trivial hill
  | mem m =>
    have hload : (Operand.mem m).load16 >>= rest =
        (do m.address; (do rest (← rdmem16 (← look Cpu.ea)))) := by
      simp only [Operand.load16, bind_assoc]
    rw [hload]
    exact address_past hpost hill

/-- Instructions that go on with their data leave `PC` behind the postbyte. -/
theorem exec_past {i : Insn} (hpost : immByte s₁ = .ok post s₂) (hill : ¬i.PostLegal post)
    (hjmp : ∀ m, i ≠ .jmp m) (hjsr : ∀ m, i ≠ .jsr m) :
    Triple (Charged s₁) i.exec (fun _ s => s.PC = uint (s₁.PC + 1)) Anywhere := by
  cases i with
  | rmw op m => exact address_past hpost hill
  | tstMem m => exact address_past hpost hill
  | jmp m => exact absurd rfl (hjmp m)
  | alu op r src => exact load8_past hpost hill
  | st r m => exact address_past hpost hill
  | addd src => exact load16_past hpost hill
  | subd src => exact load16_past hpost hill
  | cmp16 r src => exact load16_past hpost hill
  | ldd src => exact load16_past hpost hill
  | std m => exact address_past hpost hill
  | ld16 r src => exact load16_past hpost hill
  | st16 r m => exact address_past hpost hill
  | jsr m => exact absurd rfl (hjsr m)
  | lea r => exact (indexed_rejected hpost hill).bind fun _ => rest_past
  | _ => exact absurd trivial hill

/-- A jump goes to the address 0. -/
theorem jmp_rejected {m : Mode} (hpost : immByte s₁ = .ok post s₂) (hill : ¬m.PostLegal post) :
    Triple (Charged s₁) (Insn.jmp m).exec (fun _ s => s.trace = .read8 s₁.PC :: s₁.trace ∧
      s = { s₁ with PC := 0, ea := s.ea, cpuClk := s.cpuClk, trace := s.trace, bus := s.bus })
      Anywhere := by
  refine (address_rejected hpost hill).bind fun _ => ?_
  intro s hs
  have hea : s.ea = 0 := by rw [hs]
  have htrace : s.trace = .read8 s₁.PC :: s₁.trace := by rw [hs]
  refine ⟨htrace, (congrArg (fun t : Cpu β => { t with PC := s.ea }) hs).trans ?_⟩
  dsimp only
  rw [hea, htrace]

theorem push16_lowers {v n : ℕ} : Triple (fun s : Cpu β => s.S = n) (push16 .S v)
    (fun _ s => s.S = (n + 65534) % 65536) Anywhere := by
  rintro s rfl
  have h := push16_pushing (by simp) v s (Pushing.start .S s)
  revert h
  cases push16 .S v s with
  | ok u s' => exact fun h => h.pointer (by simp) (by simp)
  | error e s' => exact fun _ => trivial

theorem jsr_lowers {n : ℕ} : Triple (fun s : Cpu β => s.S = n) jsr
    (fun _ s => s.S = (n + 65534) % 65536) Anywhere := by
  unfold jsr
  refine Triple.bind (Q := fun _ s => s.S = n) (look_triple fun _ h => h) fun _ => ?_
  refine push16_lowers.bind fun _ => ?_
  exact fun s h => h

/-- A call pushes its return address all the same. -/
theorem jsr_rejected {m : Mode} (hpost : immByte s₁ = .ok post s₂) (hill : ¬m.PostLegal post) :
    Triple (Charged s₁) (Insn.jsr m).exec (fun _ s => s.S = (s₁.S + 65534) % 65536) Anywhere := by
  refine (address_rejected hpost hill).bind fun _ => ?_
  refine jsr_lowers.mono (fun s hs => ?_) (fun _ _ h => h) fun _ h => h
  rw [hs]

end Postbyte

/-! ## The exact condition -/

theorem uint_ne {p n : ℕ} (hpos : 0 < n) (hn : n < 65536) : uint (p + n) ≠ p := by
  simp only [Word.trunc]
  omega

theorem lowered_ne (n : ℕ) : (n + 65534) % 65536 ≠ n := by omega

omit [Bus β] in
theorem LeavesNoTrace.pc {s s' : Cpu β} (h : LeavesNoTrace s s') : s'.PC = s.PC := by rw [h.rest]

omit [Bus β] in
theorem LeavesNoTrace.pointer {s s' : Cpu β} (h : LeavesNoTrace s s') : s'.S = s.S := by rw [h.rest]

instance simError_fetched {s : Cpu β} {n : ℕ} : Keeps (Fetched s n) simError where
  keeps s₁ h := by
    rw [simError, onBus]
    cases Bus.simError s₁.bus with
    | ok u b =>
      exact ⟨h.reads, congrArg (fun t : Cpu β => { t with bus := b }) h.rest⟩
    | error e b =>
      exact ⟨h.reads, congrArg (fun t : Cpu β => { t with bus := b }) h.rest⟩

omit [Bus β] in
theorem charge_fetched {s : Cpu β} {n : ℕ} (c : ℤ) :
    Triple (Fetched s n) (charge c) (fun _ => Fetched s n) Anywhere := by
  apply Triple.modify
  intro s₁ h
  exact ⟨h.reads, congrArg (fun t : Cpu β => { t with cpuClk := s₁.cpuClk - c }) h.rest⟩

/-- The `default` branch without a prefix sets `PC` back. -/
theorem invalid_traceless {s : Cpu β} {n : ℕ} :
    Triple (Fetched s n) Selected.invalid.exec (fun _ => LeavesNoTrace s) Anywhere := by
  refine (charge_fetched 2).bind fun _ => Keeps.anywhere.bind fun _ => ?_
  intro s₁ h
  have hipc : s₁.iPC = s.PC := by rw [h.rest]
  refine ⟨h.reads, ?_⟩
  have hrest := h.rest
  change ({ s₁ with PC := s₁.iPC } : Cpu β) = _
  rw [hipc]
  conv_lhs => rw [hrest]

/-- The other one does not. -/
theorem invalidPrefixed_past {s : Cpu β} {n : ℕ} : Triple (Fetched s n) Selected.invalidPrefixed.exec
    (fun _ s' => s'.PC = uint (s.PC + n)) Anywhere := by
  refine (Keeps.anywhere (h := simError_fetched)).mono (fun _ h => h) (fun _ s' h => ?_) fun _ h => h
  rw [h.rest]

/-- An illegal postbyte leaves no trace in a jump at the address 0 only. -/
theorem insn_traceless_iff {s s₁ s₂ s' : Cpu β} {i : Insn} {n post : ℕ} (hs : Fetched s n s₁)
    (hn : n < 3) (hpost : immByte s₁ = .ok post s₂) (hill : ¬i.PostLegal post)
    (hexec : i.exec s₁ = .ok () s') :
    LeavesNoTrace s s' ↔ (∃ m, i = .jmp m) ∧ s.PC = 0 := by
  have hpc : s₁.PC = uint (s.PC + n) := by rw [hs.rest]
  have hS : s₁.S = s.S := by rw [hs.rest]
  by_cases hjmp : ∃ m, i = .jmp m
  · obtain ⟨m, rfl⟩ := hjmp
    obtain ⟨htrace', h⟩ := (jmp_rejected hpost hill).of_ok (Charged.start s₁) hexec
    have hall := h.trans (congrArg (fun t : Cpu β => { t with
      PC := 0, ea := s'.ea, cpuClk := s'.cpuClk, trace := s'.trace, bus := s'.bus }) hs.rest)
    have hipc : s'.iPC = s.PC := by rw [hall]
    constructor
    · intro hsame
      refine ⟨⟨m, rfl⟩, ?_⟩
      rw [← hsame.pc, hall]
    · rintro ⟨-, hzero⟩
      obtain ⟨l, htrace, hl⟩ := hs.reads
      refine ⟨⟨.read8 s₁.PC :: l, ?_, List.forall_mem_cons.mpr ⟨fun _ h => h, hl⟩⟩, ?_⟩
      · rw [htrace', htrace]
        rfl
      · refine hall.trans ?_
        rw [hipc, hzero]
  · refine iff_of_false (fun hsame => ?_) fun h => hjmp h.1
    by_cases hjsr : ∃ m, i = .jsr m
    · obtain ⟨m, rfl⟩ := hjsr
      have h := (jsr_rejected hpost hill).of_ok (Charged.start s₁) hexec
      rw [hsame.pointer, hS] at h
      exact lowered_ne s.S h.symm
    · have h := (exec_past hpost hill (fun m hm => hjmp ⟨m, hm⟩) fun m hm => hjsr ⟨m, hm⟩).of_ok
        (Charged.start s₁) hexec
      rw [hsame.pc, hpc, uint_next] at h
      exact uint_ne (by omega) (by omega) h.symm

theorem illegal_traceless_iff {s s₁ s' : Cpu β} {sel : Selected}
    (hfetch : fetchOpcode (latchPc s) = .ok sel s₁) (hillegal : Illegal s₁ sel)
    (hrun : fetchExecute s = .ok () s') :
    LeavesNoTrace s s' ↔ sel = .invalid ∨ (∃ m, sel = .insn (.jmp m)) ∧ s.PC = 0 := by
  have hexec : sel.exec s₁ = .ok () s' := by
    rwa [fetchExecute, run_bind_ok (run_modify latchPc), run_bind_ok hfetch] at hrun
  have hfetched := fetchOpcode_fetched hfetch
  cases sel with
  | invalid =>
    rcases hfetched with ⟨hs, -⟩ | ⟨-, hne⟩
    · exact iff_of_true (invalid_traceless.of_ok hs hexec) (.inl rfl)
    · exact absurd rfl hne
  | invalidPrefixed =>
    rcases hfetched with ⟨-, hne⟩ | ⟨hs, -⟩
    · exact absurd rfl hne
    · have hpc := invalidPrefixed_past.of_ok hs hexec
      refine iff_of_false (fun hsame => ?_) (by simp)
      rw [hsame.pc] at hpc
      exact uint_ne (by decide) (by decide) hpc.symm
  | insn i =>
    obtain ⟨post, s₂, hpost, hill⟩ := hillegal
    have hinsn : LeavesNoTrace s s' ↔ (∃ m, i = .jmp m) ∧ s.PC = 0 := by
      rcases hfetched with ⟨hs, -⟩ | ⟨hs, -⟩
      · exact insn_traceless_iff hs (by decide) hpost hill hexec
      · exact insn_traceless_iff hs (by decide) hpost hill hexec
    simpa using hinsn

/-! ## Two undefined opcodes on a machine with memory only -/

/-- `FlatRam` with `debug_enabled` set: `sim_error` returns. -/
def DebugRam := FlatRam

instance : Bus DebugRam := { (inferInstance : Bus FlatRam) with simError := pure () }

def undefinedOpcode (bytes : List U8) : Cpu DebugRam :=
  { Cpu.powerOn (FlatRam.image [(0x1000, bytes)]) with PC := 0x1000 }

theorem illegal_traceless_page1 :
    ∃ s', fetchExecute (undefinedOpcode [0x01]) = .ok () s' ∧
      LeavesNoTrace (undefinedOpcode [0x01]) s' := by
  have hrun : returned (fetchExecute (undefinedOpcode [0x01])) = true := by decide +kernel
  refine ⟨_, eq_ok_finalState hrun, ?_⟩
  exact (illegal_traceless_iff (rfl : fetchOpcode (latchPc (undefinedOpcode [0x01])) = .ok .invalid _)
    trivial (eq_ok_finalState hrun)).mpr (.inl rfl)

theorem illegal_trace_page2 :
    ¬∀ (s s₁ s' : Cpu DebugRam) (sel : Selected), fetchOpcode (latchPc s) = .ok sel s₁ →
      Illegal s₁ sel → fetchExecute s = .ok () s' → LeavesNoTrace s s' := by
  intro h
  have hrun : returned (fetchExecute (undefinedOpcode [0x10, 0x01])) = true := by decide +kernel
  have hsame := h _ _ _ .invalidPrefixed
    (rfl : fetchOpcode (latchPc (undefinedOpcode [0x10, 0x01])) = .ok .invalidPrefixed _) trivial
    (eq_ok_finalState hrun)
  exact absurd hsame.pc (by decide +kernel)

end Exec09
