import Exec09.Isa.Exec
import Exec09.Foundation.Refinement
import Exec09.Cpu.NextInsn

/-! # The processor of the emulator refines the programming model

`Shows` relates a state of the emulator to one of the programming model: the
registers hold the numbers of the words, the flag words stand for the codes and
the bus holds the memory, on a bus with a `Backing`. Each operation of the
emulator refines its counterpart, with the arguments related by `Num`.
-/
namespace Exec09.Isa
open Foundation
variable {β α α' : Type} {w : ℕ}

set_option synthInstance.maxSize 100000

/-- On the addresses of `L` the bus is memory, as long as it is in a state that satisfies `ok`. -/
structure Backing (β : Type) [Bus β] (L : Storage) where
  ok : β → Prop
  byte : β → U16 → U8
  read8 : ∀ (pc : ℕ) (a : U16) (b : β), ok b → L.readable a →
    ∃ b', Bus.cpuRead8 pc a.toNat b = .ok (byte b a) b' ∧ ok b' ∧
      ∀ c, L.readable c → byte b' c = byte b c
  read16 : ∀ (pc : ℕ) (a : U16) (b : β), ok b → a.toNat + 1 < 0x10000 → L.readable a →
    L.readable (a + 1) →
    ∃ b', Bus.cpuRead16 pc a.toNat b = .ok (byte b a ++ byte b (a + 1)) b' ∧ ok b' ∧
      ∀ c, L.readable c → byte b' c = byte b c
  write8 : ∀ (pc : ℕ) (a : U16) (v : U8) (b : β), ok b → L.writable a →
    ∃ b', Bus.cpuWrite8 pc a.toNat v b = .ok () b' ∧ ok b' ∧
      ∀ c, L.readable c → byte b' c = Function.update (byte b) a v c

/-- The states of the emulator that `g` describes, `c₀` being the cycles left at the start. No
interrupt is waiting. -/
structure Shows [Bus β] {L : Storage} (M : Backing β L) (c₀ : ℤ) (s : Cpu β) (g : Mpu) : Prop where
  A : s.A = g.A.toNat
  B : s.B = g.B.toNat
  X : s.X = g.X.toNat
  Y : s.Y = g.Y.toNat
  U : s.U = g.U.toNat
  S : s.S = g.S.toNat
  DP : s.DP = g.DP.toNat <<< 8
  PC : s.PC = g.PC.toNat
  masks : s.EFI &&& (E_FLAG ||| F_FLAG ||| I_FLAG) = g.masks.byte
  cc : s.flags.cc = g.cc
  ea : ∀ a, g.ea = some a → s.ea = a.toNat
  cycles : s.cpuClk + g.cycles = c₀
  irqs : s.irqsPending = 0
  firqs : s.firqsPending = 0
  ok : M.ok s.bus
  mem : ∀ a, L.readable a → M.byte s.bus a = g.mem a

/-- What the programming model knows of a processor. -/
structure Mpu.Describes {β : Type} (g : Mpu) (s : Cpu β) : Prop where
  A : s.A = g.A.toNat
  B : s.B = g.B.toNat
  X : s.X = g.X.toNat
  Y : s.Y = g.Y.toNat
  U : s.U = g.U.toNat
  S : s.S = g.S.toNat
  DP : s.DP = g.DP.toNat <<< 8
  PC : s.PC = g.PC.toNat
  CC : getCc s = g.CC.toNat
  cycles : s.cpuClk = -g.cycles

/-! ## Numbers of words -/

/-- The number `n` is that of `x`. -/
class Num (n : ℕ) (x : BitVec w) : Prop where
  eq : n = x.toNat

section Numbers
variable (a n : U16) (v u : U8)

instance num_self (x : BitVec w) : Num x.toNat x := ⟨rfl⟩

instance num_masked : Num (a.toNat &&& 0xffff) a where
  eq := by rw [Word.and_65535, Nat.mod_eq_of_lt a.isLt]

instance num_succ : Num ((a.toNat + 1) &&& 0xffff) (a + 1) where
  eq := by
    rw [Word.and_65535, BitVec.toNat_add]
    rfl

instance num_add_two : Num ((a.toNat + 2) &&& 0xffff) (a + 2) where
  eq := by
    rw [Word.and_65535, BitVec.toNat_add]
    rfl

instance num_pred : Num (usub a.toNat 1 &&& 0xffff) (a - 1) where
  eq := by
    have hone : (1 : U16).toNat = 1 := rfl
    rw [Word.and_65535, BitVec.toNat_sub, hone]
    simp only [Word.sub]
    omega

instance num_sub_two : Num (usub a.toNat 2 &&& 0xffff) (a - 2) where
  eq := by
    have htwo : (2 : U16).toNat = 2 := rfl
    rw [Word.and_65535, BitVec.toNat_sub, htwo]
    simp only [Word.sub]
    omega

theorem int8_toNat : int8 v.toNat % 65536 = (v.signExtend 16).toNat := by
  have hall : ∀ v : U8, int8 v.toNat % 65536 = (v.signExtend 16).toNat := by decide
  exact hall v

instance num_offset : Num (uint (a.toNat + int8 v.toNat) &&& 0xffff) (a + v.signExtend 16) where
  eq := by
    rw [Word.and_65535, BitVec.toNat_add, ← int8_toNat]
    simp only [Word.trunc]
    omega

instance num_relative : Num (uint (int8 v.toNat + a.toNat) &&& 0xffff) (v.signExtend 16 + a) where
  eq := by
    rw [Word.and_65535, BitVec.toNat_add, ← int8_toNat]
    simp only [Word.trunc]
    omega

instance num_sum : Num (uint (a.toNat + n.toNat) &&& 0xffff) (a + n) where
  eq := by
    rw [Word.and_65535, BitVec.toNat_add]
    simp only [Word.trunc]
    omega

instance num_skip : Num (uint (a.toNat + 1) &&& 0xffff) (a + 1) := num_sum a 1

instance num_skip_two : Num (uint (a.toNat + 2) &&& 0xffff) (a + 2) := num_sum a 2

instance num_longOffset : Num (uint (a.toNat + int16 n.toNat) &&& 0xffff) (a + n) where
  eq := by
    have hn := n.isLt
    rw [Word.and_65535, BitVec.toNat_add]
    simp only [Word.trunc, Word.signExtend]
    split <;> omega

instance num_abx : Num ((a.toNat + v.toNat) &&& 0xffff) (a + v.setWidth 16) where
  eq := by
    have hv := v.isLt
    rw [Word.and_65535, BitVec.toNat_add, BitVec.toNat_setWidth]
    omega

instance num_or : Num (v.toNat ||| u.toNat) (v ||| u) where
  eq := (BitVec.toNat_or v u).symm

instance num_and : Num (v.toNat &&& u.toNat) (v &&& u) where
  eq := (BitVec.toNat_and v u).symm

instance num_append (high low : U8) : Num ((high.toNat <<< 8) ||| low.toNat) (high ++ low) where
  eq := by rw [word_split low.isLt, append_toNat]

instance num_direct (page low : U8) :
    Num (low.toNat ||| page.toNat <<< 8) (page ++ low) where
  eq := by rw [Nat.or_comm, word_split low.isLt, append_toNat]

instance num_low : Num (n.toNat &&& 0xff) (n.extractLsb' 0 8) where
  eq := by
    rw [Word.and_255, BitVec.extractLsb'_toNat]
    rfl

instance num_high : Num (n.toNat >>> 8) (n.extractLsb' 8 8) where
  eq := by
    have hn := n.isLt
    rw [BitVec.extractLsb'_toNat, Nat.shiftRight_eq_div_pow]
    omega

/-! The addresses of the vectors are the same. -/

instance num_swi : Num 0xfffa (0xFFFA : U16) := ⟨rfl⟩
instance num_swi2 : Num 0xfff4 (0xFFF4 : U16) := ⟨rfl⟩
instance num_swi3 : Num 0xfff2 (0xFFF2 : U16) := ⟨rfl⟩

instance num_page : Num ((v.toNat <<< 8) >>> 8) v where
  eq := by
    rw [Nat.shiftLeft_shiftRight]

end Numbers

/-! ## Registers -/

section Registers
variable [Bus β] {L : Storage} {M : Backing β L} {c₀ : ℤ}

theorem look_refines {φ : α' → α} {p : Cpu β → α} {q : Mpu → α'}
    (h : ∀ s g, Shows M c₀ s g → p s = φ (q g)) :
    Refines (Shows M c₀) φ (Exec09.look p) (look q) :=
  ⟨fun s g hs => ⟨s, by rw [run_look, h s g hs], hs⟩⟩

instance look_A : Refines (Shows M c₀) BitVec.toNat (Exec09.look Cpu.A) (look Mpu.A) :=
  look_refines fun _ _ h => h.A

instance look_B : Refines (Shows M c₀) BitVec.toNat (Exec09.look Cpu.B) (look Mpu.B) :=
  look_refines fun _ _ h => h.B

instance look_X : Refines (Shows M c₀) BitVec.toNat (Exec09.look Cpu.X) (look Mpu.X) :=
  look_refines fun _ _ h => h.X

instance look_Y : Refines (Shows M c₀) BitVec.toNat (Exec09.look Cpu.Y) (look Mpu.Y) :=
  look_refines fun _ _ h => h.Y

instance look_U : Refines (Shows M c₀) BitVec.toNat (Exec09.look Cpu.U) (look Mpu.U) :=
  look_refines fun _ _ h => h.U

instance look_PC : Refines (Shows M c₀) BitVec.toNat (Exec09.look Cpu.PC) (look Mpu.PC) :=
  look_refines fun _ _ h => h.PC

instance look_DP :
    Refines (Shows M c₀) (fun v : U8 => v.toNat <<< 8) (Exec09.look Cpu.DP) (look Mpu.DP) :=
  look_refines fun _ _ h => h.DP

instance look_accA : Refines (Shows M c₀) BitVec.toNat (Exec09.look Cpu.A) (look (acc .A)) := look_A

instance look_accB : Refines (Shows M c₀) BitVec.toNat (Exec09.look Cpu.B) (look (acc .B)) := look_B

instance look_acc (r : Acc) :
    Refines (Shows M c₀) BitVec.toNat (Exec09.look r.get) (look (acc r)) := by
  cases r with
  | A => exact look_A
  | B => exact look_B

theorem Shows.index {s : Cpu β} {g : Mpu} (h : Shows M c₀ s g) (R : IndexReg) :
    R.get s = (index R g).toNat := by
  cases R with
  | X => exact h.X
  | Y => exact h.Y
  | U => exact h.U
  | S => exact h.S

instance look_index (R : IndexReg) :
    Refines (Shows M c₀) BitVec.toNat (Exec09.look R.get) (look (index R)) :=
  look_refines fun _ _ h => h.index R

instance look_stack (sp : StackReg) :
    Refines (Shows M c₀) BitVec.toNat (Exec09.look sp.get) (look (stack sp)) := by
  cases sp with
  | S => exact look_refines fun _ _ h => h.S
  | U => exact look_refines fun _ _ h => h.U

theorem Shows.D {s : Cpu β} {g : Mpu} (h : Shows M c₀ s g) : Exec09.getD s = g.D.toNat := by
  rw [Exec09.getD, h.A, h.B]
  exact (num_append g.A g.B).eq

instance look_D : Refines (Shows M c₀) BitVec.toNat (Exec09.look Exec09.getD) (look Mpu.D) :=
  look_refines fun _ _ h => h.D

instance look_word (r : Reg16) :
    Refines (Shows M c₀) BitVec.toNat (Exec09.look r.get) (look (word r)) := by
  cases r with
  | D => exact look_D
  | index R => exact look_index R

theorem masks_ofByte (b : ℕ) : (Masks.ofByte b).byte = b &&& (E_FLAG ||| F_FLAG ||| I_FLAG) := by
  have hbit (k : ℕ) : (if b &&& 2 ^ k ≠ 0 then 2 ^ k else 0) = b &&& 2 ^ k := by
    rw [Nat.and_two_pow]
    cases b.testBit k <;> simp
  have hE : (if b &&& E_FLAG ≠ 0 then E_FLAG else 0) = b &&& E_FLAG := hbit 7
  have hF : (if b &&& F_FLAG ≠ 0 then F_FLAG else 0) = b &&& F_FLAG := hbit 6
  have hI : (if b &&& I_FLAG ≠ 0 then I_FLAG else 0) = b &&& I_FLAG := hbit 4
  simp only [Masks.byte, Masks.ofByte, decide_eq_true_eq]
  rw [hE, hF, hI, Nat.and_or_distrib_left, Nat.and_or_distrib_left]

theorem Shows.CC {s : Cpu β} {g : Mpu} (h : Shows M c₀ s g) : getCc s = g.CC.toNat := by
  have hlt : g.masks.byte ||| g.cc.byte < 2 ^ 8 := by
    rcases g.masks with ⟨_ | _, _ | _, _ | _⟩ <;>
      rcases g.cc with ⟨_ | _, _ | _, _ | _, _ | _, _ | _⟩ <;> decide
  rw [getCc_eq, h.masks, h.cc, Mpu.CC, BitVec.toNat_ofNat, Nat.mod_eq_of_lt hlt]

theorem Shows.describes {s : Cpu β} {g : Mpu} (h : Shows M 0 s g) : g.Describes s where
  A := h.A
  B := h.B
  X := h.X
  Y := h.Y
  U := h.U
  S := h.S
  DP := h.DP
  PC := h.PC
  CC := h.CC
  cycles := by
    have hc := h.cycles
    omega

instance look_CC : Refines (Shows M c₀) BitVec.toNat (Exec09.look getCc) (look Mpu.CC) :=
  look_refines fun _ _ h => h.CC

instance look_ea : Refines (Shows M c₀) BitVec.toNat (Exec09.look Cpu.ea) effective where
  run s g h := by
    rw [OnReturn, effective]
    cases hea : g.ea with
    | none => trivial
    | some a => exact ⟨s, by rw [run_look, h.ea a hea], h⟩

instance look_taken (c : Cond) : Refines (Shows M c₀) (fun cc => taken cc c)
    (Exec09.look fun s => c.holds s.flags) (look Mpu.cc) :=
  look_refines fun s g h => by rw [holds_taken, h.cc]

instance charge_refines (n : ℤ) : Refines (Shows M c₀) id (Exec09.charge n) (charge n) :=
  Refines.modify fun s g h => { h with
    cycles := by
      have hc := h.cycles
      change s.cpuClk - n + (g.cycles + n) = c₀
      omega }

instance setAcc_refines (r : Acc) {n : ℕ} {v : U8} [hv : Num n v] :
    Refines (Shows M c₀) id (Exec09.setAcc r n) (setAcc r v) := by
  cases r with
  | A => exact Refines.modify fun _ _ h => { h with A := hv.eq }
  | B => exact Refines.modify fun _ _ h => { h with B := hv.eq }

instance setA_refines {n : ℕ} {v : U8} [Num n v] :
    Refines (Shows M c₀) id (setA n) (setAcc .A v) := setAcc_refines .A

instance setB_refines {n : ℕ} {v : U8} [Num n v] :
    Refines (Shows M c₀) id (setB n) (setAcc .B v) := setAcc_refines .B

instance setIndex_refines (R : IndexReg) {n : ℕ} {v : U16} [hv : Num n v] :
    Refines (Shows M c₀) id (setIndexReg R n) (setIndex R v) := by
  cases R with
  | X => exact Refines.modify fun _ _ h => { h with X := hv.eq }
  | Y => exact Refines.modify fun _ _ h => { h with Y := hv.eq }
  | U => exact Refines.modify fun _ _ h => { h with U := hv.eq }
  | S => exact Refines.modify fun _ _ h => { h with S := hv.eq }

instance setX_refines {n : ℕ} {v : U16} [Num n v] :
    Refines (Shows M c₀) id (setX n) (setIndex .X v) := setIndex_refines .X

instance setY_refines {n : ℕ} {v : U16} [Num n v] :
    Refines (Shows M c₀) id (setY n) (setIndex .Y v) := setIndex_refines .Y

instance setStack_refines (sp : StackReg) {n : ℕ} {v : U16} [hv : Num n v] :
    Refines (Shows M c₀) id (setStackReg sp n) (setStack sp v) := by
  cases sp with
  | S => exact Refines.modify fun _ _ h => { h with S := hv.eq }
  | U => exact Refines.modify fun _ _ h => { h with U := hv.eq }

instance setPc_refines {n : ℕ} {v : U16} [hv : Num n v] :
    Refines (Shows M c₀) id (Exec09.setPc n) (setPc v) :=
  Refines.modify fun _ _ h => { h with PC := hv.eq }

instance changePc_refines {n : ℕ} {v : U16} [hv : Num (n &&& 0xffff) v] :
    Refines (Shows M c₀) id (changePc n) (setPc v) :=
  Refines.modify fun _ _ h => { h with PC := hv.eq }

instance setDp_refines (v : U8) :
    Refines (Shows M c₀) id (Exec09.setDp (v.toNat <<< 8)) (setDp v) :=
  Refines.modify fun _ _ h => { h with DP := rfl }

instance setEa_refines {n : ℕ} {v : U16} [hv : Num n v] :
    Refines (Shows M c₀) id (Exec09.setEa n) (setEa v) :=
  Refines.modify fun _ _ h => { h with ea := fun a ha => by cases ha; exact hv.eq }

theorem clearEa_refines (n : ℕ) : Refines (Shows M c₀) id (Exec09.setEa n) clearEa :=
  Refines.modify fun _ _ h => { h with ea := fun a ha => by cases ha }

/-- The words that `set_cc` leaves. -/
theorem setCc_cc (n : ℕ) : Flags.cc
    { H := if n &&& H_FLAG ≠ 0 then 0x10 else 0
      N := if n &&& N_FLAG ≠ 0 then 0x80 else 0
      Z := unot n &&& Z_FLAG
      OV := if n &&& V_FLAG ≠ 0 then 0x80 else 0
      C := n &&& C_FLAG } = Cc.ofByte n := by
  have hZ : unot n &&& Z_FLAG = 0 ↔ n &&& Z_FLAG ≠ 0 := by
    have hclear := Word.and_two_pow_eq_zero (unot n) 2
    rw [Word.testBit_compl (by decide), Bool.not_eq_false'] at hclear
    exact hclear.trans (Word.and_two_pow_ne_zero n 2).symm
  simp only [Flags.cc, Cc.ofByte, Cc.mk.injEq]
  refine ⟨?_, ?_, decide_eq_decide.mpr hZ, ?_, trivial⟩ <;> split <;> simp_all

instance setCC_refines {n : ℕ} {v : U8} [hv : Num n v] :
    Refines (Shows M c₀) id (setCc n) (setCC v) :=
  Refines.modify fun _ _ h => { h with
    masks := by
      change (n &&& (E_FLAG ||| F_FLAG ||| I_FLAG)) &&& (E_FLAG ||| F_FLAG ||| I_FLAG) =
        (Masks.ofByte v.toNat).byte
      rw [Nat.and_assoc, Nat.and_self, masks_ofByte, hv.eq]
    cc := by
      change Flags.cc _ = Cc.ofByte v.toNat
      rw [← hv.eq]
      exact setCc_cc n }

theorem Shows.withFlags {φ : α' → α} {s : Cpu β} {g : Mpu} (h : Shows M c₀ s g)
    (op : Flags → α × Flags) (spec : Cc → α' × Cc) (hfst : (op s.flags).1 = φ (spec g.cc).1)
    (hcc : (op s.flags).2.cc = (spec g.cc).2) :
    ∃ s', Exec09.withFlags op s = .ok (φ (spec g.cc).1) s' ∧
      Shows M c₀ s' { g with cc := (spec g.cc).2 } :=
  ⟨{ s with flags := (op s.flags).2 }, by rw [Exec09.withFlags, hfst], { h with cc := hcc }⟩

instance withCc_refines {φ : α' → α} {op : Flags → α × Flags} {spec : Cc → α' × Cc}
    [hop : Computes φ op spec] : Refines (Shows M c₀) φ (withFlags op) (withCc spec) where
  run s g h := by
    obtain ⟨hfst, hcc⟩ := hop.run s.flags
    rw [h.cc] at hfst hcc
    exact h.withFlags op spec hfst hcc

instance advancePc_refines (n : ℕ) : Refines (Shows M c₀) id (Exec09.advancePc n) (advancePc n) where
  run s g h := by
    have hlook : look Mpu.PC g = .ok g.PC g := rfl
    by_cases hlt : g.PC.toNat + n < 0x10000
    · have hrun : advancePc n g = .ok () { g with PC := g.PC + BitVec.ofNat 16 n } := by
        rw [advancePc, run_bind_ok hlook, if_pos hlt]
        rfl
      refine (onReturn_ok hrun).mpr ⟨{ s with PC := uint (s.PC + n) }, rfl, { h with PC := ?_ }⟩
      change uint (s.PC + n) = (g.PC + BitVec.ofNat 16 n).toNat
      rw [h.PC, BitVec.toNat_add, BitVec.toNat_ofNat]
      simp only [Word.trunc]
      omega
    · have hrun : advancePc n g = .error () g := by
        rw [advancePc, run_bind_ok hlook, if_neg hlt]
        rfl
      exact onReturn_error hrun

end Registers

/-! ## Memory -/

section Memory
variable [Bus β] {L : Storage} {M : Backing β L} {c₀ : ℤ}

theorem Shows.bus {s : Cpu β} {g : Mpu} (h : Shows M c₀ s g) (t : List Access) {b : β} (hok : M.ok b)
    (hmem : ∀ a, L.readable a → M.byte b a = M.byte s.bus a) :
    Shows M c₀ { s with trace := t, bus := b } g :=
  { h with ok := hok, mem := fun a ha => (hmem a ha).trans (h.mem a ha) }

instance readByte_refines {n : ℕ} {a : U16} [hn : Num n a] :
    Refines (Shows M c₀) BitVec.toNat (read8 n) (L.readByte a) where
  run s g h := by
    by_cases ha : L.readable a = true
    · obtain ⟨b, hread, hok, hmem⟩ := M.read8 (getPc s) a s.bus h.ok ha
      have hrun : L.readByte a g = .ok (g.mem a) g := by
        rw [Storage.readByte, if_pos ha]
        rfl
      refine (onReturn_ok hrun).mpr ⟨_, ?_, h.bus (.read8 n :: s.trace) hok hmem⟩
      rw [read8_run, hn.eq, hread, h.mem a ha]
    · have hrun : L.readByte a g = .error () g := by
        rw [Storage.readByte, if_neg ha]
        rfl
      exact onReturn_error hrun

instance readWord_refines {n : ℕ} {a : U16} [hn : Num n a] :
    Refines (Shows M c₀) BitVec.toNat (read16 n) (L.readWord a) where
  run s g h := by
    by_cases ha : a.toNat + 1 < 0x10000 ∧ L.readable a = true ∧ L.readable (a + 1) = true
    · obtain ⟨b, hread, hok, hmem⟩ := M.read16 (getPc s) a s.bus h.ok ha.1 ha.2.1 ha.2.2
      have hrun : L.readWord a g = .ok (g.mem a ++ g.mem (a + 1)) g := by
        rw [Storage.readWord, if_pos ha]
        rfl
      refine (onReturn_ok hrun).mpr ⟨_, ?_, h.bus (.read16 n :: s.trace) hok hmem⟩
      rw [read16_run, hn.eq, hread, h.mem a ha.2.1, h.mem (a + 1) ha.2.2]
    · have hrun : L.readWord a g = .error () g := by
        rw [Storage.readWord, if_neg ha]
        rfl
      exact onReturn_error hrun

instance writeByte_refines {n k : ℕ} {a : U16} {v : U8} [hn : Num n a] [hk : Num k v] :
    Refines (Shows M c₀) id (write8 n k) (L.writeByte a v) where
  run s g h := by
    by_cases ha : L.writable a = true
    · obtain ⟨b, hwrite, hok, hmem⟩ := M.write8 (getPc s) a v s.bus h.ok ha
      have hrun : L.writeByte a v g = .ok () { g with mem := Function.update g.mem a v } := by
        rw [Storage.writeByte, if_pos ha]
        rfl
      refine (onReturn_ok hrun).mpr ⟨{ s with trace := .write8 n k :: s.trace, bus := b }, ?_,
        { h with ok := hok, mem := fun c hc => ?_ }⟩
      · rw [write8_run, hk.eq, BitVec.ofNat_toNat, BitVec.setWidth_eq, hn.eq, hwrite]
      · refine (hmem c hc).trans ?_
        change _ = Function.update g.mem a v c
        by_cases hca : c = a
        · rw [hca, Function.update_self, Function.update_self]
        · rw [Function.update_of_ne hca, Function.update_of_ne hca, h.mem c hc]
    · have hrun : L.writeByte a v g = .error () g := by
        rw [Storage.writeByte, if_neg ha]
        rfl
      exact onReturn_error hrun

instance pure_refines {n : ℕ} {x : BitVec w} [h : Num n x] :
    Refines (Shows M c₀) BitVec.toNat (pure n : CpuM β ℕ) (pure x : MpuM (BitVec w)) :=
  Refines.pure h.eq

instance immByte_refines : Refines (Shows M c₀) BitVec.toNat immByte L.immByte := by
  unfold immByte Storage.immByte
  infer_instance

instance immWord_refines : Refines (Shows M c₀) BitVec.toNat immWord L.immWord := by
  unfold immWord Storage.immWord
  infer_instance

instance load16_refines (a : U16) :
    Refines (Shows M c₀) BitVec.toNat (rdmem16 a.toNat) (L.load16 a) := by
  unfold rdmem16 Storage.load16
  infer_instance

instance store16_refines (a v : U16) :
    Refines (Shows M c₀) id (wrmem16 a.toNat v.toNat) (L.store16 a v) := by
  unfold wrmem16 Storage.store16
  infer_instance

/-! ## Addresses and operands -/

instance indirect_refines : Refines (Shows M c₀) id indirect L.indirect := by
  unfold indirect Storage.indirect
  infer_instance

theorem direct_eq : direct (β := β) =
    (do let val ← Exec09.immByte; Exec09.setEa (val ||| (← Exec09.look Cpu.DP))) := by
  simp only [direct, Exec09.immByte, bind_assoc, pure_bind]

theorem extended_eq : extended (β := β) = (do Exec09.setEa (← Exec09.immWord)) := by
  simp only [extended, Exec09.immWord, bind_assoc, pure_bind]

instance direct_refines : Refines (Shows M c₀) id direct L.direct := by
  rw [direct_eq]
  unfold Storage.direct
  infer_instance

instance extended_refines : Refines (Shows M c₀) id extended L.extended := by
  rw [extended_eq]
  unfold Storage.extended
  infer_instance

/-- The modes of the postbytes. -/
theorem indexedEa_refines {post : ℕ} {m : IndexMode} (R : IndexReg)
    (hm : indexMode (post &&& 0x1f) = some m) :
    Refines (Shows M c₀) (fun _ => true) (indexedEa post R) (L.form R m) := by
  unfold indexedEa
  generalize post &&& 0x1f = k at hm
  split
  case h_24 =>
    unfold indexMode at hm
    split at hm
    all_goals contradiction
  all_goals
    simp only [indexMode, Option.some.injEq] at hm
    subst hm
    unfold Storage.form
    infer_instance

theorem shortOffset_toNat : ∀ post : U8,
    (if post.toNat &&& 0x10 ≠ 0 then post.toNat ||| 0xfff0 else post.toNat &&& 0x000f) =
      (shortOffset post).toNat := by decide

theorem bit_four : ∀ post : U8, post.toNat &&& 0x10 ≠ 0 ↔ post.getLsbD 4 = true := by decide

instance indexed_refines : Refines (Shows M c₀) id indexed L.indexed := by
  unfold indexed Storage.indexed
  refine immByte_refines.seq fun post => Refines.ite (sign_msb post) (fun _ => ?_) fun _ => ?_
  · cases hm : indexMode (post.toNat &&& 0x1f) with
    | none => exact Refines.throw
    | some m =>
      refine (indexedEa_refines _ hm).seq fun _ => Refines.ite ?_ (fun _ => indirect_refines)
        fun _ => Refines.pure rfl
      rw [Bool.true_and, decide_eq_true_eq, bit_four]
  · rw [shortOffset_toNat]
    infer_instance

instance address_refines (m : Mode) : Refines (Shows M c₀) id m.address (L.address m) := by
  cases m <;> unfold Mode.address Storage.address <;> infer_instance

instance load8_refines (src : Operand) :
    Refines (Shows M c₀) BitVec.toNat src.load8 (L.operand8 src) := by
  cases src <;> unfold Operand.load8 Storage.operand8 <;> infer_instance

instance load16_operand (src : Operand) :
    Refines (Shows M c₀) BitVec.toNat src.load16 (L.operand16 src) := by
  cases src <;> unfold Operand.load16 Storage.operand16 <;> infer_instance

/-! ## Stacks -/

instance lower_refines (sp : StackReg) :
    Refines (Shows M c₀) id (Exec09.lowerStack sp 1) (lowerStack sp 1) := by
  unfold Exec09.lowerStack lowerStack
  infer_instance

instance lower_two_refines (sp : StackReg) :
    Refines (Shows M c₀) id (Exec09.lowerStack sp 2) (lowerStack sp 2) := by
  unfold Exec09.lowerStack lowerStack
  infer_instance

instance raise_refines (sp : StackReg) :
    Refines (Shows M c₀) id (Exec09.raiseStack sp 1) (raiseStack sp 1) := by
  unfold Exec09.raiseStack raiseStack
  infer_instance

instance raise_two_refines (sp : StackReg) :
    Refines (Shows M c₀) id (Exec09.raiseStack sp 2) (raiseStack sp 2) := by
  unfold Exec09.raiseStack raiseStack
  infer_instance

instance push8_refines (sp : StackReg) {n : ℕ} {v : U8} [Num n v] :
    Refines (Shows M c₀) id (push8 sp n) (L.push8 sp v) := by
  unfold push8 Storage.push8
  infer_instance

instance writeStack16_refines (a v : U16) :
    Refines (Shows M c₀) id (writeStack16 a.toNat v.toNat) (L.writeStack16 a v) := by
  unfold writeStack16 Storage.writeStack16
  infer_instance

instance push16_refines (sp : StackReg) {n : ℕ} {v : U16} [hv : Num n v] :
    Refines (Shows M c₀) id (push16 sp n) (L.push16 sp v) := by
  obtain rfl := hv.eq
  unfold push16 Storage.push16
  infer_instance

instance pull8_refines (sp : StackReg) :
    Refines (Shows M c₀) BitVec.toNat (pull8 sp) (L.pull8 sp) := by
  unfold pull8 Storage.pull8
  infer_instance

instance readStack16_refines (a : U16) :
    Refines (Shows M c₀) BitVec.toNat (readStack16 a.toNat) (L.readStack16 a) := by
  unfold readStack16 Storage.readStack16
  infer_instance

instance pull16_refines (sp : StackReg) :
    Refines (Shows M c₀) BitVec.toNat (pull16 sp) (L.pull16 sp) := by
  unfold pull16 Storage.pull16
  infer_instance

/-- A mask of `psh` and `pul` and its bit. -/
class Selects (mask i : ℕ) : Prop where
  iff : ∀ post : U8, post.toNat &&& mask ≠ 0 ↔ post.getLsbD i = true

instance : Selects 0x01 0 := ⟨by decide⟩
instance : Selects 0x02 1 := ⟨by decide⟩
instance : Selects 0x04 2 := ⟨by decide⟩
instance : Selects 0x08 3 := ⟨by decide⟩
instance : Selects 0x10 4 := ⟨bit_four⟩
instance : Selects 0x20 5 := ⟨by decide⟩
instance : Selects 0x40 6 := ⟨by decide⟩
instance : Selects 0x80 7 := ⟨by decide⟩

instance onBit_refines {mask i : ℕ} [hbit : Selects mask i] (post : U8) {m : CpuM β Unit}
    {n : MpuM Unit} [hm : Refines (Shows M c₀) id m n] :
    Refines (Shows M c₀) id (Exec09.onBit post.toNat mask m) (onBit post i n) := by
  unfold Exec09.onBit Exec09.onlyIf onBit onlyIf
  exact Refines.ite (hbit.iff post) (fun _ => hm) fun _ => Refines.pure rfl

instance setPage_refines (v : U8) {n : ℕ} [hn : Num n v] :
    Refines (Shows M c₀) id (Exec09.setDp (n <<< 8)) (setDp v) := by
  rw [hn.eq]
  exact setDp_refines v

instance psh_refines (sp : StackReg) : Refines (Shows M c₀) id (psh sp) (L.psh sp) := by
  unfold psh Storage.psh
  infer_instance

instance pul_refines (sp : StackReg) : Refines (Shows M c₀) id (pul sp) (L.pul sp) := by
  unfold pul Storage.pul monitorReturn
  simp only [pure_bind]
  infer_instance

end Memory

end Exec09.Isa
