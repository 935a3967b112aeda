import Exec09.Cpu.Reset
import Exec09.Isa.Instructions
import Exec09.Machines.ImageRuns

/-! # Programs on the boards

From the image file to the end of a run: on a machine that is a computer with a
flat memory, a program does what the programming model says of it, as far as
that says anything. The memory of the program is the RAM and the ROM of the
machine; its console is none.
-/
namespace Exec09.Machines
open Foundation Loader Text Isa

/-- The memory of a machine for programs. -/
def SingleBoard.storage (m : SingleBoard) : Storage where
  readable a := (m.block (a.toNat / 128)).isMemory
  writable a := m.block (a.toNat / 128) = .ram

variable {m : SingleBoard}

namespace Computer
variable {c : Computer m} {a : ℕ}

theorem read8_memory (ha : a < 0x10000) (hmem : (m.block (a / 128)).isMemory = true) :
    read8 a c = .ok (c.mem a) c := by
  rw [read8, if_pos ha]
  cases hb : m.block (a / 128) with
  | ram | rom quiet => rfl
  | console | sink | vacant => rw [hb] at hmem; cases hmem

theorem read16_memory (ha : a + 1 < 0x10000) (hmem : (m.block (a / 128)).isMemory = true)
    (hnext : (m.block ((a + 1) / 128)).isMemory = true) :
    read16 a c = .ok (c.mem a ++ c.mem (a + 1)) c := by
  rw [read16, if_pos (by omega)]
  cases hb : m.block (a / 128) with
  | ram | rom quiet =>
    dsimp only
    rw [if_pos ⟨ha, hnext⟩]
    rfl
  | console | sink | vacant => rw [hb] at hmem; cases hmem

theorem write8_ram (ha : a < 0x10000) (hram : m.block (a / 128) = .ram) (v : U8) :
    write8 a v c = .ok () (poke a v c) := by
  rw [write8, if_pos ha, hram]
  rfl

/-- The computer keeps the memory of a program. -/
def backing (m : SingleBoard) : Backing (Computer m) m.storage where
  ok _ := True
  byte c a := c.mem a.toNat
  read8 pc a c _ ha := ⟨c, read8_memory a.isLt ha, trivial, fun _ _ => rfl⟩
  read16 pc a c _ hend ha hnext := by
    have hsucc : (a + 1).toNat = a.toNat + 1 := by
      rw [BitVec.toNat_add]
      exact Nat.mod_eq_of_lt hend
    have hblock : (m.block ((a.toNat + 1) / 128)).isMemory = true := by
      rw [← hsucc]
      exact hnext
    refine ⟨c, ?_, trivial, fun _ _ => rfl⟩
    rw [hsucc]
    exact read16_memory hend ha hblock
  write8 pc a v c _ ha := by
    refine ⟨poke a.toNat v c, write8_ram a.isLt (of_decide_eq_true ha) v, trivial, fun b _ => ?_⟩
    by_cases hb : b = a
    · rw [hb, Function.update_self]
      exact Function.update_self ..
    · rw [Function.update_of_ne hb]
      exact Function.update_of_ne (fun h => hb (BitVec.eq_of_toNat_eq h)) ..

end Computer

/-! ## The reset -/

/-- Nothing has been charged and no interrupt is waiting. -/
def Fresh {β : Type} (s : Cpu β) : Prop := s.cpuClk = 0 ∧ s.irqsPending = 0 ∧ s.firqsPending = 0

instance note_fresh {β : Type} (e : Access) : Keeps (Fresh (β := β)) (note e) :=
  Keeps.modify fun _ h => h

instance onBus_fresh {β α : Type} (op : EStateM Stop β α) : Keeps (Fresh (β := β)) (onBus op) where
  keeps s h := by
    unfold onBus
    cases op s.bus <;> exact h

instance write8_fresh {β : Type} [Bus β] (a v : ℕ) : Keeps (Fresh (β := β)) (write8 a v) := by
  unfold write8
  infer_instance

theorem cpuReset_shows {s : Cpu (Computer m)} (hs : Fresh s) {mem : U16 → U8}
    (hmem : ∀ a, m.storage.readable a = true → s.bus.mem a.toNat = mem a) :
    ∃ u, cpuReset s = .ok () u ∧ Shows (Computer.backing m) 0 u (Mpu.reset mem) := by
  obtain ⟨hclk, hirqs, hfirqs⟩ := hs
  obtain ⟨hhigh, hlow⟩ := vector_memory m
  have hmasks : (F_FLAG ||| I_FLAG) &&& (E_FLAG ||| F_FLAG ||| I_FLAG) =
      (Masks.mk false true true).byte := by decide
  have hcodes : Flags.cc ⟨0, 0, 1, 0, 0⟩ = ⟨false, false, false, false, false⟩ := by decide
  have hreset := Exec09.cpuReset_run s
  rw [show Bus.cpuRead16 (getPc s) 0xfffe s.bus =
    .ok (s.bus.mem 0xFFFE ++ s.bus.mem 0xFFFF) s.bus from read16_vector s.bus] at hreset
  refine ⟨_, hreset, {
    A := rfl, B := rfl, X := rfl, Y := rfl, U := rfl, S := rfl, DP := rfl
    PC := ?_
    masks := hmasks
    cc := hcodes
    ea := fun a ha => by cases ha
    cycles := (add_zero _).trans hclk
    irqs := hirqs
    firqs := hfirqs
    ok := trivial
    mem := hmem }⟩
  change _ = (mem 0xFFFE ++ mem 0xFFFF).toNat
  rw [← hmem 0xFFFE hhigh, ← hmem 0xFFFF hlow]
  exact (num_masked _).eq

theorem describes_of_rebus {β γ : Type} {g : Mpu} {s : Cpu β} {b : γ} (h : g.Describes (s.rebus b)) :
    g.Describes s :=
  ⟨h.A, h.B, h.X, h.Y, h.U, h.S, h.DP, h.PC, h.CC, h.cycles⟩

/-! ## Runs -/

/-- The reset and the instructions after it, when an image has been loaded. -/
theorem session_run {image : List Store} {s u : Cpu (Computer m)} {mem : U16 → U8} {g : Mpu} {n : ℕ}
    (hs : Fresh s)
    (hloaded : runAll (fun x : Store => Exec09.write8 x.addr x.value.toNat) image s = .ok () u)
    (hmem : ∀ a, m.storage.readable a = true → u.bus.mem a.toNat = mem a)
    (hrun : m.storage.run n (Mpu.reset mem) = .ok () g) :
    ∃ v, session image (List.replicate n .insn) s = .ok () v ∧ Shows (Computer.backing m) 0 v g := by
  have hstores : Keeps (Fresh (β := Computer m))
      (runAll (fun x : Store => Exec09.write8 x.addr x.value.toNat) image) :=
    Keeps.iff_triple.mpr (runAll_keeps (fun x => Keeps.iff_triple.mp inferInstance) image)
  have hfresh := hstores.keeps s hs
  rw [hloaded] at hfresh
  obtain ⟨v, hreset, hshows⟩ := cpuReset_shows (s := u) hfresh hmem
  obtain ⟨w, hw, hend⟩ := (run_refines n).of_ok hshows hrun
  refine ⟨w, ?_, hend⟩
  rw [session, run_bind_ok hloaded, run_bind_ok hreset, hw]

/-- A correct image file is loaded, and then its program runs as the programming model says. -/
theorem load_and_run {k : Kind} {rs : List DataRecord} {t rest : Text} (h : k.Encodes rs t rest)
    (data : ℕ) (m : SingleBoard)
    (hexit : m = .simple → ∀ r ∈ rs, ¬(r.addr ≤ 0xFF01 ∧ 0xFF01 < r.addr + r.bytes.length))
    (bootRom : ℕ → U8) (debug : Bool) (console : Terminal) (n : ℕ) (g : Mpu)
    (hrun : m.storage.run n (Mpu.reset fun a => m.imaged bootRom rs a.toNat) = .ok () g) :
    ∃ s u, k.format.load data t = some s ∧
      m.emulate bootRom s.stores (List.replicate n .insn)
        (Cpu.powerOn (Board.start .fault debug console)) = .ok () u ∧ g.Describes u ∧
      ∀ a, m.storage.readable a = true →
        Board.mem u.bus (m.place a.toNat).1 (m.place a.toNat).2 = g.mem a := by
  obtain ⟨s, u, hload, hstores, himage⟩ := stores_image h data m hexit bootRom debug console
  obtain ⟨v, hsession, hshows⟩ := session_run ⟨rfl, rfl, rfl⟩ hstores
    (fun a ha => himage a.toNat ha) hrun
  have hboard := emulate_corresponds m bootRom debug console s.stores (List.replicate n .insn)
  rw [hsession] at hboard
  obtain ⟨w, hw, c, hc, hv⟩ := hboard.of_ok
  rw [hv] at hshows
  refine ⟨s, w, hload, hw, describes_of_rebus hshows.describes, fun a ha => ?_⟩
  exact (hc.memory a.toNat a.isLt ha).trans (hshows.mem a ha)

theorem load_and_run_sum : ∃ s u,
    Kind.s19.format.load 0 (ofString "S10BFFF886058B079710FFF842\nS9030000FC\n") = some s ∧
      SingleBoard.kipper1.emulate (fun _ => 0) s.stores (List.replicate 3 .insn)
        (Cpu.powerOn (Board.start .fault false ⟨[], [], [], 0⟩)) = .ok () u ∧
      u.A = 12 ∧ u.cpuClk = -8 ∧ Board.mem u.bus 1 0x10 = 12 := by
  have hdata : Kind.Record .s19 1 0xFFF8 [0x86, 0x05, 0x8B, 0x07, 0x97, 0x10, 0xFF, 0xF8]
      (ofString "S10BFFF886058B079710FFF842") :=
    ⟨ofString "S10BFFF8", ofString "86058B079710FFF8", ofString "42", 0x42, rfl,
      .s19 (t := ofString "1") (u := ofString "0B") (v := ofString "FFF8") (by decide) (by decide)
        (by decide),
      .cons (t := ofString "86") (by decide) (.cons (t := ofString "05") (by decide)
        (.cons (t := ofString "8B") (by decide) (.cons (t := ofString "07") (by decide)
          (.cons (t := ofString "97") (by decide) (.cons (t := ofString "10") (by decide)
            (.cons (t := ofString "FF") (by decide) (.cons (t := ofString "F8") (by decide)
              .nil))))))),
      by decide, rfl⟩
  have hend : Kind.Record .s19 9 0 [] (ofString "S9030000FC") :=
    ⟨ofString "S9030000", [], ofString "FC", 0xfc, rfl,
      .s19 (t := ofString "9") (u := ofString "03") (v := ofString "0000") (by decide) (by decide)
        (by decide),
      .nil, by decide, rfl⟩
  have hfile : Kind.Encodes .s19
      [⟨0xFFF8, [0x86, 0x05, 0x8B, 0x07, 0x97, 0x10, 0xFF, 0xF8], by decide⟩]
      (ofString "S10BFFF886058B079710FFF842" ++ (ofString "\n" ++
        (ofString "S9030000FC" ++ ofString "\n")))
      (ofString "\n") := .data hdata (by decide) (.last hend)
  have hruns : let r := SingleBoard.kipper1.storage.run 3 (Mpu.reset fun a =>
        SingleBoard.kipper1.imaged (fun _ => 0)
          [⟨0xFFF8, [0x86, 0x05, 0x8B, 0x07, 0x97, 0x10, 0xFF, 0xF8], by decide⟩] a.toNat)
      returned r = true ∧ (finalState r).A = 12 ∧ (finalState r).cycles = 8 ∧
        (finalState r).mem 0x10 = 12 := by
    decide +kernel
  obtain ⟨hreturned, hA, hcycles, hmem⟩ := hruns
  obtain ⟨s, u, hload, hrun, hg, hbytes⟩ := load_and_run hfile 0 .kipper1 (fun h => by cases h)
    (fun _ => 0) false ⟨[], [], [], 0⟩ 3 _ (eq_ok_finalState hreturned)
  refine ⟨s, u, hload, hrun, ?_, ?_, (hbytes 0x10 (by decide)).trans hmem⟩
  · rw [hg.A, hA]
    rfl
  · rw [hg.cycles, hcycles]

end Exec09.Machines
