import Exec09.Cpu.AddressSafety

/-! # What an instruction fetches, and where it goes

The bytes of an instruction are given as the contents of memory. A program of
the processor fetches some of them, counted by `At`, and then works on data,
which leaves `PC` alone: `Still`. A control transfer is followed up to the
address it goes to and the return address it leaves on the stack.
-/
namespace Exec09
open Foundation
variable {β : Type}

set_option synthInstance.maxSize 100000

/-- The `size` bytes from `pc` on are those of `mem` from `opc` on, as long as the bus is in a
state that satisfies `ok`. -/
structure CodeSeen (β : Type) [Bus β] (mem : ℕ → U8) where
  pc : ℕ
  opc : ℕ
  size : ℕ
  ok : β → Prop
  below : pc + size ≤ 0x10000
  read8 : ∀ (p i : ℕ) (b : β), ok b → i < size →
    ∃ b', Bus.cpuRead8 p (pc + i) b = .ok (mem (opc + i)) b' ∧ ok b'
  read16 : ∀ (p i : ℕ) (b : β), ok b → i + 1 < size →
    ∃ b', Bus.cpuRead16 p (pc + i) b = .ok (mem (opc + i) ++ mem (opc + (i + 1))) b' ∧ ok b'

/-- The byte with this index, as the processor computes with it. -/
def CodeSeen.byte [Bus β] {mem : ℕ → U8} (M : CodeSeen β mem) (i : ℕ) : ℕ := (mem (M.opc + i)).toNat

/-- The accesses since `t`, with `PC` at `p`. -/
structure Still (t : List Access) (p : ℕ) (s : Cpu β) : Prop where
  PC : s.PC = p
  trace : t <:+ s.trace

/-! ## Programs that leave `PC` alone -/

section Data
variable {t : List Access} {p : ℕ}

theorem modify_still {g : Cpu β → Cpu β} (hpc : ∀ s, (g s).PC = s.PC)
    (htrace : ∀ s, (g s).trace = s.trace) : Keeps (Still t p) (modify g : CpuM β Unit) :=
  Keeps.modify fun s h => ⟨(hpc s).trans h.PC, (htrace s).symm ▸ h.trace⟩

instance onBus_still {α : Type} (m : EStateM Stop β α) : Keeps (Still t p) (onBus m) where
  keeps s h := by
    unfold onBus
    cases m s.bus <;> exact ⟨h.PC, h.trace⟩

instance note_still (e : Access) : Keeps (Still (β := β) t p) (note e) :=
  Keeps.modify fun _ h => ⟨h.PC, h.trace.trans (List.suffix_cons _ _)⟩
instance charge_still (n : ℤ) : Keeps (Still (β := β) t p) (charge n) :=
  modify_still (fun _ => rfl) fun _ => rfl
instance charges_still : Charges (Still (β := β) t p) := ⟨fun n _ => charge_still n⟩
instance setEa_still (a : ℕ) : Keeps (Still (β := β) t p) (setEa a) :=
  modify_still (fun _ => rfl) fun _ => rfl
instance withFlags_still {α : Type} (op : Flags → α × Flags) :
    Keeps (Still (β := β) t p) (withFlags op) := ⟨fun _ h => ⟨h.PC, h.trace⟩⟩
instance setA_still (v : ℕ) : Keeps (Still (β := β) t p) (setA v) :=
  modify_still (fun _ => rfl) fun _ => rfl
instance setB_still (v : ℕ) : Keeps (Still (β := β) t p) (setB v) :=
  modify_still (fun _ => rfl) fun _ => rfl
instance setDp_still (v : ℕ) : Keeps (Still (β := β) t p) (setDp v) :=
  modify_still (fun _ => rfl) fun _ => rfl
instance setX_still (v : ℕ) : Keeps (Still (β := β) t p) (setX v) :=
  modify_still (fun _ => rfl) fun _ => rfl
instance setY_still (v : ℕ) : Keeps (Still (β := β) t p) (setY v) :=
  modify_still (fun _ => rfl) fun _ => rfl
instance setEfi_still (v : ℕ) : Keeps (Still (β := β) t p) (setEfi v) :=
  modify_still (fun _ => rfl) fun _ => rfl
instance setCc_still (v : ℕ) : Keeps (Still (β := β) t p) (setCc v) :=
  modify_still (fun _ => rfl) fun _ => rfl
instance setIndexReg_still (R : IndexReg) (v : ℕ) : Keeps (Still (β := β) t p) (setIndexReg R v) :=
  modify_still (fun _ => by cases R <;> rfl) fun _ => by cases R <;> rfl
instance setStackReg_still (sp : StackReg) (v : ℕ) :
    Keeps (Still (β := β) t p) (setStackReg sp v) :=
  modify_still (fun _ => by cases sp <;> rfl) fun _ => by cases sp <;> rfl

/-- Register 5 is `PC`. -/
theorem setReg_still {nro : ℕ} (h : nro ≠ 5) (v : ℕ) : Keeps (Still (β := β) t p) (setReg nro v) := by
  unfold setReg
  split
  case h_6 => exact absurd rfl h
  all_goals first | infer_instance | exact modify_still (fun _ => rfl) fun _ => rfl

variable [Bus β]

end Data

/-! ## Fetches -/

/-- `k` bytes have been fetched since `s₀`, and nothing else has happened that matters. -/
structure At [Bus β] {mem : ℕ → U8} (M : CodeSeen β mem) (s₀ : Cpu β) (k : ℕ) (s : Cpu β) : Prop where
  PC : s.PC = M.pc + k
  ok : M.ok s.bus
  trace : s₀.trace <:+ s.trace
  flags : s.flags = s₀.flags
  cwaiState : s.cwaiState = s₀.cwaiState

section Fetch
variable [Bus β] {mem : ℕ → U8} {M : CodeSeen β mem} {s₀ s : Cpu β} {k : ℕ} {α : Type}
  {Q : α → Cpu β → Prop}

/-- Nothing is known of where a program stops. -/
def Anywhere (_ : Cpu β) : Prop := True

omit [Bus β] in
theorem Keeps.anywhere {I : Cpu β → Prop} {m : CpuM β α} [h : Keeps I m] :
    Triple I m (fun _ => I) Anywhere :=
  h.rule.mono (fun _ h => h) (fun _ _ h => h) fun _ _ => True.intro

theorem At.still (h : At M s₀ k s) : Still s₀.trace (M.pc + k) s := ⟨h.PC, h.trace⟩

theorem charge_at (n : ℤ) : Triple (At M s₀ k) (charge n) (fun _ => At M s₀ k) Anywhere :=
  Triple.modify fun _ h => ⟨h.PC, h.ok, h.trace, h.flags, h.cwaiState⟩

theorem immByte_at (hk : k < M.size) :
    Triple (At M s₀ k) immByte (fun v s => v = M.byte k ∧ At M s₀ (k + 1) s) Anywhere := by
  intro s hs
  obtain ⟨b, hread, hok⟩ := M.read8 (getPc s) k s.bus hs.ok hk
  have hadv : uint (M.pc + k + 1) = M.pc + (k + 1) := by
    have hbelow := M.below
    rw [uint, Word.trunc_of_lt (by omega), Nat.add_assoc]
  rw [immByte_run, hs.PC, hread, hadv]
  exact ⟨rfl, rfl, hok, hs.trace.trans (List.suffix_cons _ _), hs.flags, hs.cwaiState⟩

/-- The two bytes of a word. -/
def CodeSeen.word (M : CodeSeen β mem) (k : ℕ) : ℕ := M.byte k * 256 + M.byte (k + 1)

theorem immWord_at (hk : k + 1 < M.size) :
    Triple (At M s₀ k) immWord (fun v s => v = M.word k ∧ At M s₀ (k + 2) s) Anywhere := by
  intro s hs
  obtain ⟨b, hread, hok⟩ := M.read16 (getPc s) k s.bus hs.ok hk
  have hadv : uint (M.pc + k + 2) = M.pc + (k + 2) := by
    have hbelow := M.below
    rw [uint, Word.trunc_of_lt (by omega), Nat.add_assoc]
  have hrun : immWord s = .ok (M.word k) { s with
      trace := .read16 s.PC :: s.trace, bus := b, PC := uint (s.PC + 2) } := by
    have hword := read16_run s.PC s
    rw [hs.PC, hread] at hword
    rw [immWord, run_bind_ok (run_look _ _), hs.PC, run_bind_ok hword, CodeSeen.word, CodeSeen.byte,
      CodeSeen.byte, ← append_toNat]
    have hPC := hs.PC
    simp only [← hPC]
    rfl
  rw [hrun, hs.PC, hadv]
  exact ⟨rfl, rfl, hok, hs.trace.trans (List.suffix_cons _ _), hs.flags, hs.cwaiState⟩

theorem fetchByte_at {f : ℕ → CpuM β α} (hk : k < M.size)
    (hf : Triple (At M s₀ (k + 1)) (f (M.byte k)) Q Anywhere) :
    Triple (At M s₀ k) (immByte >>= f) Q Anywhere :=
  (immByte_at hk).value hf

theorem fetchWord_at {f : ℕ → CpuM β α} (hk : k + 1 < M.size)
    (hf : Triple (At M s₀ (k + 2)) (f (M.word k)) Q Anywhere) :
    Triple (At M s₀ k) (immWord >>= f) Q Anywhere :=
  (immWord_at hk).value hf

/-- The rest of an instruction works on data. -/
theorem rest_at {m : CpuM β α} [Keeps (Still s₀.trace (M.pc + k)) m] :
    Triple (At M s₀ k) m (fun _ => Still s₀.trace (M.pc + k)) Anywhere :=
  Keeps.anywhere.mono (fun _ h => h.still) (fun _ _ h => h) fun _ h => h

end Fetch

/-! ## Addressing modes -/

/-- A postbyte that `indexed` accepts. -/
def LegalPost (post : ℕ) : Prop :=
  post &&& 0x80 = 0 ∨ post &&& 0x1f ∈ [0x00, 0x01, 0x02, 0x03, 0x04, 0x05, 0x06, 0x08, 0x09, 0x0b,
    0x0c, 0x0d, 0x11, 0x13, 0x14, 0x15, 0x16, 0x18, 0x19, 0x1b, 0x1c, 0x1d, 0x1f]

instance : DecidablePred LegalPost := fun _ => inferInstanceAs (Decidable (_ ∨ _))

/-- The bytes of an operand that starts with the byte `post`. -/
def Mode.size (post : ℕ) : Mode → ℕ
  | .direct _ => 1
  | .indexed _ _ => 1 + postbyteTail post
  | .extended _ => 2

def Mode.PostLegal (post : ℕ) : Mode → Prop
  | .indexed _ _ => LegalPost post
  | _ => True

def Operand.size8 (post : ℕ) : Operand → ℕ
  | .imm _ => 1
  | .mem m => m.size post

def Operand.size16 (post : ℕ) : Operand → ℕ
  | .imm _ => 2
  | .mem m => m.size post

def Operand.PostLegal (post : ℕ) : Operand → Prop
  | .imm _ => True
  | .mem m => m.PostLegal post

/-- `sim_error` does not come back. -/
def Traps (β : Type) [Bus β] : Prop := ∀ b : β, returned (Bus.simError b) = false

section Addresses
variable [Bus β] {mem : ℕ → U8} {M : CodeSeen β mem} {s₀ : Cpu β} {k : ℕ}

theorem simError_never (htraps : Traps β) (P : Cpu β → Prop) :
    Triple P simError (fun _ _ => False) Anywhere := by
  intro s _
  have hstop := htraps s.bus
  rw [simError, onBus]
  cases hr : Bus.simError s.bus with
  | ok a b =>
    rw [hr] at hstop
    cases hstop
  | error e b => trivial

theorem indexedEa_at (htraps : Traps β) {post : ℕ} (R : IndexReg) (hpost : post &&& 0x80 ≠ 0)
    (hk : k + postbyteTail post ≤ M.size) :
    Triple (At M s₀ k) (indexedEa post R)
      (fun _ s => LegalPost post ∧ Still s₀.trace (M.pc + (k + postbyteTail post)) s) Anywhere := by
  have hlegal {n : ℕ} (h : post &&& 0x1f = n) (hn : n ∈ [0x00, 0x01, 0x02, 0x03, 0x04, 0x05, 0x06,
      0x08, 0x09, 0x0b, 0x0c, 0x0d, 0x11, 0x13, 0x14, 0x15, 0x16, 0x18, 0x19, 0x1b, 0x1c, 0x1d,
      0x1f]) : LegalPost post := .inr (h ▸ hn)
  have hnone {m : CpuM β Bool} (hl : LegalPost post) (ht : postbyteTail post = 0)
      (h : Triple (At M s₀ k) m (fun _ => Still s₀.trace (M.pc + k)) Anywhere) :
      Triple (At M s₀ k) m
        (fun _ s => LegalPost post ∧ Still s₀.trace (M.pc + (k + postbyteTail post)) s) Anywhere := by
    rw [ht]
    exact h.mono (fun _ h => h) (fun _ _ h => ⟨hl, h⟩) fun _ h => h
  have hbyte {f : ℕ → CpuM β Bool} (hl : LegalPost post) (ht : postbyteTail post = 1)
      (h : Triple (At M s₀ (k + 1)) (f (M.byte k)) (fun _ => Still s₀.trace (M.pc + (k + 1)))
        Anywhere) :
      Triple (At M s₀ k) (immByte >>= f)
        (fun _ s => LegalPost post ∧ Still s₀.trace (M.pc + (k + postbyteTail post)) s) Anywhere := by
    rw [ht] at hk ⊢
    exact (fetchByte_at hk h).mono (fun _ h => h) (fun _ _ h => ⟨hl, h⟩) fun _ h => h
  have hword {f : ℕ → CpuM β Bool} (hl : LegalPost post) (ht : postbyteTail post = 2)
      (h : Triple (At M s₀ (k + 2)) (f (M.word k)) (fun _ => Still s₀.trace (M.pc + (k + 2)))
        Anywhere) :
      Triple (At M s₀ k) (immWord >>= f)
        (fun _ s => LegalPost post ∧ Still s₀.trace (M.pc + (k + postbyteTail post)) s) Anywhere := by
    rw [ht] at hk ⊢
    exact (fetchWord_at hk h).mono (fun _ h => h) (fun _ _ h => ⟨hl, h⟩) fun _ h => h
  unfold indexedEa
  split
  case h_13 h | h_14 h | h_19 h | h_20 h =>
    exact hbyte (hlegal h (by decide)) (by simp [postbyteTail, hpost, h]) rest_at
  case h_15 h | h_16 h | h_21 h | h_22 h | h_23 h =>
    exact hword (hlegal h (by decide)) (by simp [postbyteTail, hpost, h]) rest_at
  case h_24 =>
    refine Triple.bind (Q := fun _ => At M s₀ k) ?_ fun _ => ?_
    · exact Triple.modify fun _ h => ⟨h.PC, h.ok, h.trace, h.flags, h.cwaiState⟩
    · exact (simError_never htraps _).bind fun _ => fun _ h => h.elim
  all_goals
    rename_i h
    exact hnone (hlegal h (by decide)) (by simp [postbyteTail, hpost, h]) rest_at

theorem indexed_at (htraps : Traps β) (hk : k + (1 + postbyteTail (M.byte k)) ≤ M.size) :
    Triple (At M s₀ k) indexed (fun _ s => LegalPost (M.byte k) ∧
      Still s₀.trace (M.pc + (k + (1 + postbyteTail (M.byte k)))) s) Anywhere := by
  unfold indexed
  refine fetchByte_at (by omega) ?_
  rw [← Nat.add_assoc k]
  refine Triple.ite (fun h => ?_) fun h => ?_
  · refine (indexedEa_at htraps _ h (by omega)).bind fun b => Triple.and_pre fun hl => ?_
    exact Triple.ite (fun _ => Keeps.anywhere.mono (fun _ h => h) (fun _ _ h => ⟨hl, h⟩) fun _ h => h)
      fun _ => Triple.pure _ fun _ h => ⟨hl, h⟩
  · have hzero : M.byte k &&& 0x80 = 0 := not_not.mp h
    have ht : postbyteTail (M.byte k) = 0 := if_pos hzero
    rw [ht]
    exact rest_at.mono (fun _ h => h) (fun _ _ h => ⟨.inl hzero, h⟩) fun _ h => h

theorem direct_at (hk : k < M.size) :
    Triple (At M s₀ k) direct (fun _ => Still s₀.trace (M.pc + (k + 1))) Anywhere := by
  have hfetch : (direct : CpuM β Unit) = (do
      let val ← immByte
      setEa (val ||| (← look Cpu.DP))) := by
    simp only [direct, immByte, bind_assoc, pure_bind]
  rw [hfetch]
  exact fetchByte_at hk rest_at

theorem extended_at (hk : k + 1 < M.size) :
    Triple (At M s₀ k) extended (fun _ => Still s₀.trace (M.pc + (k + 2))) Anywhere := by
  have hfetch : (extended : CpuM β Unit) = (do
      let val ← immWord
      setEa val) := by
    simp only [extended, immWord, bind_assoc, pure_bind]
  rw [hfetch]
  exact fetchWord_at hk rest_at

theorem address_at (htraps : Traps β) (m : Mode) (hk : k + m.size (M.byte k) ≤ M.size) :
    Triple (At M s₀ k) m.address (fun _ s => m.PostLegal (M.byte k) ∧
      Still s₀.trace (M.pc + (k + m.size (M.byte k))) s) Anywhere := by
  cases m with
  | direct clk =>
    refine (direct_at hk).bind fun _ => ?_
    exact Keeps.anywhere.mono (fun _ h => h) (fun _ _ h => ⟨trivial, h⟩) fun _ h => h
  | indexed pre post =>
    refine (charge_at pre).bind fun _ => (indexed_at htraps hk).bind fun _ => ?_
    exact Triple.and_pre fun hl => Keeps.anywhere.mono (fun _ h => h) (fun _ _ h => ⟨hl, h⟩) fun _ h => h
  | extended clk =>
    refine (extended_at hk).bind fun _ => ?_
    exact Keeps.anywhere.mono (fun _ h => h) (fun _ _ h => ⟨trivial, h⟩) fun _ h => h

/-- An addressing mode and the work on data that follows it. -/
theorem address_rest (htraps : Traps β) {m : Mode} {rest : CpuM β Unit}
    [Keeps (Still s₀.trace (M.pc + (k + m.size (M.byte k)))) rest]
    (hk : k + m.size (M.byte k) ≤ M.size) :
    Triple (At M s₀ k) (do m.address; rest) (fun _ s => m.PostLegal (M.byte k) ∧
      Still s₀.trace (M.pc + (k + m.size (M.byte k))) s) Anywhere :=
  (address_at htraps m hk).bind fun _ => Triple.and_pre fun hl =>
    Keeps.anywhere.mono (fun _ h => h) (fun _ _ h => ⟨hl, h⟩) fun _ h => h

theorem load8_rest (htraps : Traps β) {src : Operand} {rest : ℕ → CpuM β Unit}
    [hrest : ∀ v, Keeps (Still s₀.trace (M.pc + (k + src.size8 (M.byte k)))) (rest v)]
    (hk : k + src.size8 (M.byte k) ≤ M.size) :
    Triple (At M s₀ k) (src.load8 >>= rest) (fun _ s => src.PostLegal (M.byte k) ∧
      Still s₀.trace (M.pc + (k + src.size8 (M.byte k))) s) Anywhere := by
  cases src with
  | imm clk =>
    have hdata : Keeps (Still s₀.trace (M.pc + (k + 1))) (rest (M.byte k)) := hrest _
    have hload : (Operand.imm clk).load8 >>= rest = (do charge clk; immByte >>= rest) :=
      bind_assoc _ _ _
    rw [hload]
    refine (charge_at clk).bind fun _ => fetchByte_at hk ?_
    exact rest_at.mono (fun _ h => h) (fun _ _ h => ⟨trivial, h⟩) fun _ h => h
  | mem m =>
    have hdata (v : ℕ) : Keeps (Still s₀.trace (M.pc + (k + m.size (M.byte k)))) (rest v) := hrest v
    have hload : (Operand.mem m).load8 >>= rest =
        (do m.address; (do rest (← read8 (← look Cpu.ea)))) := by
      simp only [Operand.load8, bind_assoc]
    rw [hload]
    exact address_rest htraps hk

theorem load16_rest (htraps : Traps β) {src : Operand} {rest : ℕ → CpuM β Unit}
    [hrest : ∀ v, Keeps (Still s₀.trace (M.pc + (k + src.size16 (M.byte k)))) (rest v)]
    (hk : k + src.size16 (M.byte k) ≤ M.size) :
    Triple (At M s₀ k) (src.load16 >>= rest) (fun _ s => src.PostLegal (M.byte k) ∧
      Still s₀.trace (M.pc + (k + src.size16 (M.byte k))) s) Anywhere := by
  cases src with
  | imm clk =>
    have hdata : Keeps (Still s₀.trace (M.pc + (k + 2))) (rest (M.word k)) := hrest _
    have hload : (Operand.imm clk).load16 >>= rest = (do charge clk; immWord >>= rest) :=
      bind_assoc _ _ _
    rw [hload]
    refine (charge_at clk).bind fun _ => fetchWord_at hk ?_
    exact rest_at.mono (fun _ h => h) (fun _ _ h => ⟨trivial, h⟩) fun _ h => h
  | mem m =>
    have hdata (v : ℕ) : Keeps (Still s₀.trace (M.pc + (k + m.size (M.byte k)))) (rest v) := hrest v
    have hload : (Operand.mem m).load16 >>= rest =
        (do m.address; (do rest (← rdmem16 (← look Cpu.ea)))) := by
      simp only [Operand.load16, bind_assoc]
    rw [hload]
    exact address_rest htraps hk

end Addresses

end Exec09
