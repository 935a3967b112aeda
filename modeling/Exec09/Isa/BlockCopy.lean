import Exec09.Isa.Boards

/-! # A program that copies a block of memory

`loop: LDA ,U+; STA ,Y+; LEAX -1,X; BNE loop` in the programming model: from any
state it copies as many bytes as `X` says, at 20 cycles each, unless a byte is
overwritten before it is read or the program overwrites itself. The emulator
does the same, since its instructions refine those of the model.
-/
namespace Exec09.Isa
open Foundation
variable {α : Type}

namespace Storage
variable (L : Storage)

theorem run_add (m n : ℕ) : L.run (m + n) = (do L.run m; L.run n) := by
  induction m with
  | zero =>
    rw [Nat.zero_add, run, pure_bind]
  | succ m ih =>
    rw [Nat.succ_add, run, run, ih, bind_assoc]

end Storage

/-! ## Instructions of two bytes -/

variable {L : Storage} {g : Mpu}

/-- The next instruction is in memory, with the opcode `a` and the byte `b` after it. -/
structure Next (L : Storage) (g : Mpu) (a b : U8) : Prop where
  first : L.readable g.PC = true
  opcode : g.mem g.PC = a
  second : L.readable (g.PC + 1) = true
  operand : g.mem (g.PC + 1) = b
  fits : g.PC.toNat + 2 < 0x10000

theorem run_look (p : Mpu → α) : look p g = .ok (p g) g := rfl

theorem immByte_run (hread : L.readable g.PC = true) (hlt : g.PC.toNat + 1 < 0x10000) :
    L.immByte g = .ok (g.mem g.PC) { g with PC := g.PC + 1 } := by
  have hbyte : L.readByte g.PC g = .ok (g.mem g.PC) g := by
    rw [Storage.readByte, if_pos hread]
    rfl
  have hadvance : advancePc 1 g = .ok () { g with PC := g.PC + 1 } := by
    rw [advancePc, run_bind_ok (run_look Mpu.PC), if_pos hlt]
    rfl
  rw [Storage.immByte, run_bind_ok (run_look Mpu.PC), run_bind_ok hbyte, run_bind_ok hadvance]
  rfl

namespace Next
variable {a b : U8}

theorem fetch (h : Next L g a b) {i : Insn} (hi : decode a.toNat = some i) (hten : a ≠ 0x10)
    (heleven : a ≠ 0x11) : L.fetch g = .ok i { g with PC := g.PC + 1 } := by
  have hfits := h.fits
  have himm := immByte_run h.first (by omega)
  rw [h.opcode] at himm
  rw [Storage.fetch, run_bind_ok himm, if_neg hten, if_neg heleven, hi]
  rfl

theorem immByte (h : Next L g a b) {t : Mpu} (hpc : t.PC = g.PC + 1) (hmem : t.mem = g.mem) :
    L.immByte t = .ok b { t with PC := g.PC + 2 } := by
  have hfits := h.fits
  have hsucc : (g.PC + 1).toNat = g.PC.toNat + 1 := by
    have hlt : g.PC.toNat + 1 < 0x10000 := by omega
    rw [BitVec.toNat_add]
    exact Nat.mod_eq_of_lt hlt
  have hread : L.readable t.PC = true := by
    rw [hpc]
    exact h.second
  have himm := immByte_run hread (by rw [hpc, hsucc]; omega)
  have htwo : g.PC + 1 + 1 = g.PC + 2 := by
    rw [BitVec.add_assoc]
    rfl
  have hbyte : t.mem t.PC = b := by rw [hmem, hpc, h.operand]
  rw [hbyte, hpc, htwo] at himm
  exact himm

/-- The address of an operand that `,R+` leads to. -/
theorem increment (h : Next L g a b) {R : IndexReg}
    (hmode : indexMode (b.toNat &&& 0x1f) = some (.inc 1 6)) (hmsb : b.msb = true)
    (hdirect : b.getLsbD 4 = false) (hR : indexReg b.toNat = R) :
    L.address (.indexed 0 0) { g with PC := g.PC + 1 } =
      L.form R (.inc 1 6) { g with PC := g.PC + 2 } := by
  have hfree : charge 0 = pure () := by
    funext s
    exact congrArg (fun n => EStateM.Result.ok () { s with cycles := n }) (add_zero s.cycles)
  have hpost := h.immByte (t := { g with PC := g.PC + 1 }) rfl rfl
  rw [Storage.address, hfree, pure_bind, bind_pure_unit, Storage.indexed, run_bind_ok hpost,
    if_pos hmsb, hmode, hdirect, hR]
  exact congrFun (bind_pure_unit (x := L.form R (.inc 1 6))) _

/-- `LDA ,U+` -/
theorem lda (h : Next L g 0xA6 0xC0) (hsource : L.readable g.U = true) :
    L.step g = .ok () { g with
      A := g.mem g.U, U := g.U + 1, PC := g.PC + 2, cc := (logical g.cc (g.mem g.U)).2
      cycles := g.cycles + 6, ea := none } := by
  have haddress : L.address (.indexed 0 0) { g with PC := g.PC + 1 } = .ok () { g with
      PC := g.PC + 2, ea := some g.U, U := g.U + 1, cycles := g.cycles + 6 } :=
    h.increment (R := .U) rfl (by decide) (by decide) rfl
  have hbyte : L.operand8 (.mem (.indexed 0 0)) { g with PC := g.PC + 1 } = .ok (g.mem g.U) { g with
      PC := g.PC + 2, ea := some g.U, U := g.U + 1, cycles := g.cycles + 6 } := by
    have hread (g' : Mpu) : L.readByte g.U g' = .ok (g'.mem g.U) g' := by
      rw [Storage.readByte, if_pos hsource]
      rfl
    rw [Storage.operand8, run_bind_ok haddress]
    exact hread _
  have hexec : L.exec (.alu .ld .A (.mem (.indexed 0 0))) { g with PC := g.PC + 1 } = .ok () { g with
      A := g.mem g.U, U := g.U + 1, PC := g.PC + 2, cc := (logical g.cc (g.mem g.U)).2
      cycles := g.cycles + 6, ea := some g.U } := by
    rw [Storage.exec, run_bind_ok hbyte]
    rfl
  rw [Storage.step, run_bind_ok (h.fetch (by rfl) (by decide) (by decide)), run_bind_ok hexec]
  rfl

/-- `STA ,Y+` -/
theorem sta (h : Next L g 0xA7 0xA0) (htarget : L.writable g.Y = true) :
    L.step g = .ok () { g with
      Y := g.Y + 1, PC := g.PC + 2, cc := (logical g.cc g.A).2, cycles := g.cycles + 6, ea := none
      mem := Function.update g.mem g.Y g.A } := by
  have haddress : L.address (.indexed 0 0) { g with PC := g.PC + 1 } = .ok () { g with
      PC := g.PC + 2, ea := some g.Y, Y := g.Y + 1, cycles := g.cycles + 6 } :=
    h.increment (R := .Y) rfl (by decide) (by decide) rfl
  have hwrite (g' : Mpu) (v : U8) :
      L.writeByte g.Y v g' = .ok () { g' with mem := Function.update g'.mem g.Y v } := by
    rw [Storage.writeByte, if_pos htarget]
    rfl
  have hexec : L.exec (.st .A (.indexed 0 0)) { g with PC := g.PC + 1 } = .ok () { g with
      Y := g.Y + 1, PC := g.PC + 2, cc := (logical g.cc g.A).2, cycles := g.cycles + 6
      ea := some g.Y, mem := Function.update g.mem g.Y g.A } := by
    rw [Storage.exec, run_bind_ok haddress]
    exact hwrite _ _
  rw [Storage.step, run_bind_ok (h.fetch (by rfl) (by decide) (by decide)), run_bind_ok hexec]
  rfl

/-- `LEAX -1,X` -/
theorem leax (h : Next L g 0x30 0x1F) :
    L.step g = .ok () { g with
      X := g.X - 1, PC := g.PC + 2, cc := { g.cc with Z := g.X - 1 = 0 }, cycles := g.cycles + 5
      ea := none } := by
  have hless : g.X - 1 = g.X + shortOffset 0x1F := by
    rw [BitVec.sub_eq_add_neg]
    rfl
  have hpost := h.immByte (t := { g with PC := g.PC + 1 }) rfl rfl
  have hindexed : L.indexed { g with PC := g.PC + 1 } = .ok () { g with
      PC := g.PC + 2, ea := some (g.X - 1), cycles := g.cycles + 5 } := by
    rw [Storage.indexed, run_bind_ok hpost, hless]
    rfl
  have hexec : L.exec (.lea .X) { g with PC := g.PC + 1 } = .ok () { g with
      X := g.X - 1, PC := g.PC + 2, cc := { g.cc with Z := g.X - 1 = 0 }, cycles := g.cycles + 5
      ea := some (g.X - 1) } := by
    rw [Storage.exec, run_bind_ok hindexed]
    rfl
  rw [Storage.step, run_bind_ok (h.fetch (by rfl) (by decide) (by decide)), run_bind_ok hexec]
  rfl

/-- `BNE *-6` -/
theorem bne (h : Next L g 0x26 0xF8) :
    L.step g = .ok () { g with
      PC := if g.cc.Z then g.PC + 2 else g.PC - 6, cycles := g.cycles + 3, ea := none } := by
  have htwo : g.PC + 1 + 1 = g.PC + 2 := by
    rw [BitVec.add_assoc]
    rfl
  have hback : g.PC + 2 + (0xF8 : U8).signExtend 16 = g.PC - 6 := by
    rw [BitVec.add_assoc, BitVec.sub_eq_add_neg]
    rfl
  have hexec : L.exec (.branch .NE) { g with PC := g.PC + 1 } = .ok () { g with
      PC := if g.cc.Z then g.PC + 2 else g.PC - 6, cycles := g.cycles + 3 } := by
    have hbra := h.immByte (t := { g with PC := g.PC + 1 }) rfl rfl
    have htake : L.takeBranch (taken g.cc .NE) { g with PC := g.PC + 1 } = .ok () { g with
        PC := if g.cc.Z then g.PC + 2 else g.PC - 6 } := by
      cases hZ : g.cc.Z with
      | true =>
        rw [Storage.takeBranch, taken, hZ, if_neg (by decide), if_pos rfl, ← htwo]
        rfl
      | false =>
        rw [Storage.takeBranch, taken, hZ, if_pos (by decide), Storage.bra, run_bind_ok hbra,
          if_neg (by decide), ← hback]
        rfl
    rw [Storage.exec, run_bind_ok (run_look Mpu.cc)]
    dsimp only
    rw [run_bind_ok htake]
    rfl
  rw [Storage.step, run_bind_ok (h.fetch (by rfl) (by decide) (by decide)), run_bind_ok hexec]
  rfl

end Next

/-! ## The loop -/

def blockCopy : List U8 := [0xA6, 0xC0, 0xA7, 0xA0, 0x30, 0x1F, 0x26, 0xF8]

/-- The code lies at `p`. -/
structure CodeAt (L : Storage) (code : List U8) (p : U16) (mem : U16 → U8) : Prop where
  readable : ∀ i < code.length, L.readable (p + BitVec.ofNat 16 i) = true
  bytes : ∀ i < code.length, mem (p + BitVec.ofNat 16 i) = code.getD i 0
  fits : p.toNat + code.length < 0x10000

theorem CodeAt.next {c : List U8} {p : U16} (h : CodeAt L c p g.mem) {i : ℕ}
    (hi : i + 1 < c.length) (hpc : g.PC = p + BitVec.ofNat 16 i) :
    Next L g (c.getD i 0) (c.getD (i + 1) 0) := by
  have hfits := h.fits
  have hsucc : g.PC + 1 = p + BitVec.ofNat 16 (i + 1) := by
    rw [hpc, BitVec.add_assoc, BitVec.ofNat_add]
    rfl
  refine ⟨?_, ?_, ?_, ?_, ?_⟩
  · rw [hpc]
    exact h.readable i (by omega)
  · rw [hpc]
    exact h.bytes i (by omega)
  · rw [hsucc]
    exact h.readable (i + 1) hi
  · rw [hsucc]
    exact h.bytes (i + 1) hi
  · rw [hpc, BitVec.toNat_add, BitVec.toNat_ofNat]
    omega

/-- One round, where the code and what it reads are not overwritten in it. -/
theorem round (hcode : CodeAt L blockCopy g.PC g.mem)
    (hkept : CodeAt L blockCopy g.PC (Function.update g.mem g.Y (g.mem g.U)))
    (hsource : L.readable g.U = true) (htarget : L.writable g.Y = true) :
    ∃ a cc, L.run 4 g = .ok () { g with
      A := a, X := g.X - 1, U := g.U + 1, Y := g.Y + 1, cc := cc, ea := none
      PC := if g.X - 1 = 0 then g.PC + 8 else g.PC
      cycles := g.cycles + 20, mem := Function.update g.mem g.Y (g.mem g.U) } := by
  have hlda := Next.lda (hcode.next (i := 0) (by decide) (by simp)) hsource
  have hsecond := CodeAt.next (i := 2) (g := { g with
      A := g.mem g.U, U := g.U + 1, PC := g.PC + 2, cc := (logical g.cc (g.mem g.U)).2
      cycles := g.cycles + 6, ea := none }) hcode (by decide) rfl
  have hsta := Next.sta (L := L) (g := { g with
      A := g.mem g.U, U := g.U + 1, PC := g.PC + 2, cc := (logical g.cc (g.mem g.U)).2
      cycles := g.cycles + 6, ea := none }) hsecond htarget
  have hleax := Next.leax (L := L) (g := { g with
      A := g.mem g.U, U := g.U + 1, Y := g.Y + 1, PC := g.PC + 2 + 2
      cc := (logical (logical g.cc (g.mem g.U)).2 (g.mem g.U)).2
      cycles := g.cycles + 6 + 6, ea := none
      mem := Function.update g.mem g.Y (g.mem g.U) })
    (CodeAt.next (c := blockCopy) (i := 4) hkept (by decide) (by rw [BitVec.add_assoc]; rfl))
  have hbne := Next.bne (L := L) (g := { g with
      A := g.mem g.U, U := g.U + 1, Y := g.Y + 1, X := g.X - 1, PC := g.PC + 2 + 2 + 2
      cc := { (logical (logical g.cc (g.mem g.U)).2 (g.mem g.U)).2 with Z := g.X - 1 = 0 }
      cycles := g.cycles + 6 + 6 + 5, ea := none
      mem := Function.update g.mem g.Y (g.mem g.U) })
    (CodeAt.next (c := blockCopy) (i := 6) hkept (by decide)
      (by rw [BitVec.add_assoc, BitVec.add_assoc]; rfl))
  have hcycles : g.cycles + 20 = g.cycles + 6 + 6 + 5 + 3 := by omega
  have hpc : (if g.X - 1 = 0 then g.PC + 8 else g.PC) =
      if decide (g.X - 1 = 0) = true then g.PC + 2 + 2 + 2 + 2 else g.PC + 2 + 2 + 2 - 6 := by
    have hforth : g.PC + 2 + 2 + 2 + 2 = g.PC + 8 := by
      rw [BitVec.add_assoc, BitVec.add_assoc, BitVec.add_assoc]
      rfl
    have hback : g.PC + 2 + 2 + 2 - 6 = g.PC := by
      rw [BitVec.add_assoc, BitVec.add_assoc]
      exact BitVec.add_sub_cancel g.PC 6
    simp only [hforth, hback, decide_eq_true_eq]
  have hfour : L.run 4 = (do L.step; L.step; L.step; L.step; pure ()) := rfl
  dsimp only at hsta hleax hbne
  rw [hcycles, hpc]
  refine ⟨g.mem g.U, { (logical (logical g.cc (g.mem g.U)).2 (g.mem g.U)).2 with
    Z := g.X - 1 = 0 }, ?_⟩
  rw [hfour, run_bind_ok hlda, run_bind_ok hsta, run_bind_ok hleax, run_bind_ok hbne]
  rfl

/-- The memory after `k` bytes. -/
def copied (mem : U16 → U8) (u y : U16) (k : ℕ) (a : U16) : U8 :=
  if (a - y).toNat < k then mem (u + (a - y)) else mem a

section Copies
variable {mem : U16 → U8} {p u y : U16} {n k : ℕ}

theorem back_again (a y : U16) : y + BitVec.ofNat 16 (a - y).toNat = a := by
  rw [BitVec.ofNat_toNat, BitVec.setWidth_eq, BitVec.add_comm, BitVec.sub_add_cancel]

theorem copied_of_ne {a : U16} (h : ∀ i < k, y + BitVec.ofNat 16 i ≠ a) :
    copied mem u y k a = mem a :=
  if_neg fun hlt => h _ hlt (back_again a y)

theorem copied_succ (hk : k < 0x10000)
    (hlater : ∀ i < k, y + BitVec.ofNat 16 i ≠ u + BitVec.ofNat 16 k) :
    Function.update (copied mem u y k) (y + BitVec.ofNat 16 k)
      (copied mem u y k (u + BitVec.ofNat 16 k)) = copied mem u y (k + 1) := by
  rw [copied_of_ne hlater]
  funext a
  by_cases ha : a = y + BitVec.ofNat 16 k
  · have hoffset : y + BitVec.ofNat 16 k - y = BitVec.ofNat 16 k := by
      rw [BitVec.add_comm, BitVec.add_sub_cancel]
    have hnum : (BitVec.ofNat 16 k).toNat = k := by
      rw [BitVec.toNat_ofNat]
      exact Nat.mod_eq_of_lt hk
    rw [ha, Function.update_self, copied, hoffset, hnum, if_pos (Nat.lt_succ_self k)]
  · have hne : (a - y).toNat ≠ k := fun h => ha (by rw [← h, back_again])
    have hlt : (a - y).toNat < k + 1 ↔ (a - y).toNat < k := by omega
    rw [Function.update_of_ne ha, copied, copied]
    simp only [hlt]

/-- `n` bytes can be copied from `u` to `y` by the program at `p`. -/
structure Copyable (L : Storage) (p u y : U16) (n : ℕ) (mem : U16 → U8) : Prop where
  code : CodeAt L blockCopy p mem
  count : n < 0x10000
  source : ∀ i < n, L.readable (u + BitVec.ofNat 16 i) = true
  target : ∀ i < n, L.writable (y + BitVec.ofNat 16 i) = true
  /-- No byte is overwritten before it is read. -/
  later : ∀ k < n, ∀ i < k, y + BitVec.ofNat 16 i ≠ u + BitVec.ofNat 16 k
  apart : ∀ i < n, ∀ j < 8, y + BitVec.ofNat 16 i ≠ p + BitVec.ofNat 16 j

theorem Copyable.code_kept (h : Copyable L p u y n mem) (hk : k ≤ n) :
    CodeAt L blockCopy p (copied mem u y k) where
  readable := h.code.readable
  bytes j hj := by
    rw [copied_of_ne fun i hi => h.apart i (by omega) j hj]
    exact h.code.bytes j hj
  fits := h.code.fits

end Copies

/-- After `k` rounds `k` bytes have been copied. -/
theorem rounds {p : U16} {n : ℕ} (h : Copyable L p g.U g.Y n g.mem) (hn : n ≠ 0) (hpc : g.PC = p)
    (hX : g.X = BitVec.ofNat 16 n) (k : ℕ) (hk : k ≤ n) :
    ∃ a cc ea, L.run (4 * k) g = .ok () { g with
      A := a, X := BitVec.ofNat 16 (n - k), U := g.U + BitVec.ofNat 16 k
      Y := g.Y + BitVec.ofNat 16 k, cc := cc, ea := ea, PC := if k = n then p + 8 else p
      cycles := g.cycles + 20 * k, mem := copied g.mem g.U g.Y k } := by
  induction k with
  | zero =>
    have hmem : copied g.mem g.U g.Y 0 = g.mem := by
      funext a
      exact if_neg (Nat.not_lt_zero _)
    have hcycles : g.cycles + 20 * ((0 : ℕ) : ℤ) = g.cycles := by omega
    refine ⟨g.A, g.cc, g.ea, ?_⟩
    rw [hmem, hcycles, if_neg hn.symm, Nat.sub_zero, ← hX, ← hpc, BitVec.add_zero, BitVec.add_zero]
    rfl
  | succ k ih =>
    obtain ⟨a, cc, ea, hrun⟩ := ih (by omega)
    rw [if_neg (by omega)] at hrun
    have hcount := h.count
    have hcopied : Function.update (copied g.mem g.U g.Y k) (g.Y + BitVec.ofNat 16 k)
        (copied g.mem g.U g.Y k (g.U + BitVec.ofNat 16 k)) = copied g.mem g.U g.Y (k + 1) :=
      copied_succ (by omega) (h.later k (by omega))
    have hround := round (L := L) (g := { g with
        A := a, X := BitVec.ofNat 16 (n - k), U := g.U + BitVec.ofNat 16 k
        Y := g.Y + BitVec.ofNat 16 k, cc := cc, ea := ea, PC := p
        cycles := g.cycles + 20 * k, mem := copied g.mem g.U g.Y k })
      (h.code_kept (by omega)) (by dsimp only; rw [hcopied]; exact h.code_kept hk)
      (h.source k (by omega)) (h.target k (by omega))
    obtain ⟨a', cc', hround⟩ := hround
    dsimp only at hround
    have hless : BitVec.ofNat 16 (n - k) - 1 = BitVec.ofNat 16 (n - (k + 1)) := by
      apply BitVec.eq_of_toNat_eq
      rw [BitVec.toNat_sub, BitVec.toNat_ofNat, BitVec.toNat_ofNat]
      have hone : (1 : U16).toNat = 1 := rfl
      omega
    have hzero : BitVec.ofNat 16 (n - (k + 1)) = (0 : U16) ↔ k + 1 = n := by
      rw [← BitVec.toNat_inj, BitVec.toNat_ofNat]
      have hnone : (0 : U16).toNat = 0 := rfl
      omega
    have hnext (b : U16) : b + BitVec.ofNat 16 k + 1 = b + BitVec.ofNat 16 (k + 1) := by
      rw [BitVec.add_assoc, BitVec.ofNat_add]
      rfl
    have hcycles : g.cycles + 20 * (k : ℤ) + 20 = g.cycles + 20 * ((k + 1 : ℕ) : ℤ) := by omega
    rw [hcopied, hless, hnext, hnext, hcycles] at hround
    simp only [hzero] at hround
    refine ⟨a', cc', none, ?_⟩
    rw [Nat.mul_succ, Storage.run_add, run_bind_ok hrun]
    exact hround

/-- The program copies the block and goes on behind its last instruction. -/
theorem blockCopy_run {p : U16} {n : ℕ} (h : Copyable L p g.U g.Y n g.mem) (hn : n ≠ 0)
    (hpc : g.PC = p) (hX : g.X = BitVec.ofNat 16 n) :
    ∃ a cc ea, L.run (4 * n) g = .ok () { g with
      A := a, X := 0, U := g.U + BitVec.ofNat 16 n, Y := g.Y + BitVec.ofNat 16 n, cc := cc, ea := ea
      PC := p + 8, cycles := g.cycles + 20 * n, mem := copied g.mem g.U g.Y n } := by
  obtain ⟨a, cc, ea, hrun⟩ := rounds h hn hpc hX n le_rfl
  rw [if_pos rfl, Nat.sub_self] at hrun
  exact ⟨a, cc, ea, hrun⟩

/-- So does the emulator, on every bus that holds the memory. -/
theorem emulator_copies {β : Type} [Bus β] {M : Backing β L} {c : ℤ} {s : Cpu β} {n : ℕ}
    (hs : Shows M c s g) (h : Copyable L g.PC g.U g.Y n g.mem) (hn : n ≠ 0)
    (hX : g.X = BitVec.ofNat 16 n) :
    ∃ t, runAll Event.perform (List.replicate (4 * n) Event.insn) s = .ok () t ∧
      t.X = 0 ∧ t.PC = (g.PC + 8).toNat ∧ s.cpuClk - t.cpuClk = 20 * n ∧
      ∀ a, L.readable a = true → M.byte t.bus a = copied g.mem g.U g.Y n a := by
  obtain ⟨_, _, _, hrun⟩ := blockCopy_run h hn rfl hX
  obtain ⟨t, ht, hend⟩ := (run_refines (4 * n)).of_ok hs hrun
  have hbefore := hs.cycles
  have hafter := hend.cycles
  dsimp only at hafter
  exact ⟨t, ht, hend.X, hend.PC, by omega, hend.mem⟩

/-- Two bytes to copy, behind the program. -/
def twoBytes : Mpu where
  A := 0
  B := 0
  X := 2
  Y := 0x3000
  U := 0x2000
  S := 0
  DP := 0
  PC := 0x1000
  masks := ⟨false, false, false⟩
  cc := ⟨false, false, true, false, false⟩
  ea := none
  cycles := 0
  mem a := if a.toNat < 0x1000 then 0 else blockCopy.getD (a.toNat - 0x1000) 7

theorem emulator_copies_two : ∃ t, runAll Event.perform (List.replicate 8 Event.insn)
      { Cpu.powerOn (β := Machines.Computer .kipper1)
          ⟨fun a => twoBytes.mem (BitVec.ofNat 16 a), true, false, ⟨[], [], [], 0⟩⟩ with
        X := 2, Y := 0x3000, U := 0x2000, PC := 0x1000 } = .ok () t ∧
      t.PC = 0x1008 ∧ t.bus.mem 0x3000 = 7 ∧ t.bus.mem 0x3001 = 7 := by
  have hcode : Copyable (Machines.SingleBoard.storage .kipper1) 0x1000 0x2000 0x3000 2
      twoBytes.mem :=
    ⟨⟨by decide, by decide, by decide⟩, by decide, by decide, by decide, by decide, by decide⟩
  have hcodes : Flags.cc ⟨0, 0, 0, 0, 0⟩ = ⟨false, false, true, false, false⟩ := by decide
  have hshows : Shows (Machines.Computer.backing .kipper1) 0
      { Cpu.powerOn (β := Machines.Computer .kipper1)
          ⟨fun a => twoBytes.mem (BitVec.ofNat 16 a), true, false, ⟨[], [], [], 0⟩⟩ with
        X := 2, Y := 0x3000, U := 0x2000, PC := 0x1000 } twoBytes :=
    { A := rfl, B := rfl, X := rfl, Y := rfl, U := rfl, S := rfl, DP := rfl, PC := rfl
      masks := by decide
      cc := hcodes
      ea := fun a ha => by cases ha
      cycles := rfl
      irqs := rfl
      firqs := rfl
      ok := trivial
      mem := fun a _ => by
        change twoBytes.mem (BitVec.ofNat 16 a.toNat) = twoBytes.mem a
        rw [BitVec.ofNat_toNat, BitVec.setWidth_eq] }
  obtain ⟨t, ht, -, hpc, -, hmem⟩ := emulator_copies (n := 2) hshows hcode (by decide) rfl
  exact ⟨t, ht, hpc, (hmem 0x3000 (by decide)).trans (by decide),
    (hmem 0x3001 (by decide)).trans (by decide)⟩

end Exec09.Isa
