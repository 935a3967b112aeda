import Exec09.Cpu.Interrupt
import Exec09.Foundation.Window
import Mathlib.Data.BitVec

/-! # The load by interrupts

Every RTI reports how many cycles have passed since the last interrupt was
taken. The total of the last 128 counts is kept up by the difference of the
count that comes and the one that goes. The total has 64 bits, but a count is
stored in 32, so that of a longer one a part stays in the total for ever.
-/
namespace Exec09.Debugger
open Foundation

def IRQ_CYCLE_COUNTS : ℕ := 128

structure IrqLoad where
  irqCycleTab : ℕ → BitVec 32
  irqCycleEntry : ℕ
  irqCycles : BitVec 64

namespace IrqLoad

def init : IrqLoad := ⟨fun _ => 0, 0, 0⟩

def commandExitIrqHook (l : IrqLoad) (cycles : BitVec 64) : IrqLoad where
  irqCycles := l.irqCycles - (l.irqCycleTab l.irqCycleEntry).setWidth 64 + cycles
  irqCycleTab := Function.update l.irqCycleTab l.irqCycleEntry (cycles.setWidth 32)
  irqCycleEntry := (l.irqCycleEntry + 1) % IRQ_CYCLE_COUNTS

/-- The load after calls with the given counts. -/
def after (counts : List (BitVec 64)) : IrqLoad := counts.foldl commandExitIrqHook init

/-- The load as it is after the calls that the processor has made. -/
def ofCpu {β : Type} (s : Cpu β) : IrqLoad := after (s.irqLoad.reverse.map (BitVec.ofNat 64))

theorem ofCpu_hook {β : Type} (cycles : Cpu β → ℕ) (s : Cpu β) :
    ofCpu (finalState (Exec09.commandExitIrqHook cycles s)) =
      (ofCpu s).commandExitIrqHook (BitVec.ofNat 64 (cycles s)) := by
  have hlog : (finalState (Exec09.commandExitIrqHook cycles s)).irqLoad = cycles s :: s.irqLoad := rfl
  simp [ofCpu, after, hlog]

/-- The total is that of the last 128 counts. -/
def Rolling (counts : List (BitVec 64)) : Prop :=
  (after counts).irqCycles = (counts.rtake IRQ_CYCLE_COUNTS).sum

/-- The part of a count that is not stored. -/
def excess (c : BitVec 64) : BitVec 64 := c - (c.setWidth 32).setWidth 64

theorem excess_eq_zero_iff {c : BitVec 64} : excess c = 0 ↔ c.toNat < 2 ^ 32 := by
  have hc : c.toNat < 2 ^ 64 := c.isLt
  rw [excess, sub_eq_zero, ← BitVec.toNat_inj, BitVec.toNat_setWidth, BitVec.toNat_setWidth]
  omega

/-- The table holds the last counts, and the total has what is left of the others besides. -/
structure Kept (counts : List (BitVec 64)) (l : IrqLoad) : Prop where
  window : Window IRQ_CYCLE_COUNTS (fun _ => 0) l.irqCycleTab (counts.map (·.setWidth 32))
  entry : l.irqCycleEntry = counts.length % IRQ_CYCLE_COUNTS
  total : l.irqCycles = (counts.rtake IRQ_CYCLE_COUNTS).sum +
    ((counts.rdrop IRQ_CYCLE_COUNTS).map excess).sum

theorem init_kept : Kept [] init := ⟨Window.start _ _, rfl, rfl⟩

theorem Kept.hook {counts : List (BitVec 64)} {l : IrqLoad} (h : Kept counts l) (c : BitVec 64) :
    Kept (counts ++ [c]) (l.commandExitIrqHook c) where
  window := by
    have hrecord := h.window.record (c.setWidth 32)
    rw [List.length_map, ← h.entry] at hrecord
    rwa [List.map_append, List.map_singleton]
  entry := by
    rw [List.length_append, List.length_singleton, ← Nat.mod_add_mod, ← h.entry]
    rfl
  total := by
    change l.irqCycles - (l.irqCycleTab l.irqCycleEntry).setWidth 64 + c = _
    rw [h.total, h.entry]
    by_cases hfull : IRQ_CYCLE_COUNTS ≤ counts.length
    · -- the oldest count goes, less its excess
      have hreplaced := h.window.replaced (by decide) (by rwa [List.length_map])
      rw [List.length_map, List.getElem?_map] at hreplaced
      obtain ⟨old, hold, hcell⟩ := Option.map_eq_some_iff.mp hreplaced
      obtain ⟨htake, hdrop⟩ : old :: (counts ++ [c]).rtake IRQ_CYCLE_COUNTS =
          counts.rtake IRQ_CYCLE_COUNTS ++ [c] ∧
          (counts ++ [c]).rdrop IRQ_CYCLE_COUNTS = counts.rdrop IRQ_CYCLE_COUNTS ++ [old] :=
        rtake_rdrop_concat (n := 127) hold hfull c
      have hsum := congrArg List.sum htake
      rw [List.sum_cons, List.sum_append, List.sum_singleton] at hsum
      rw [hdrop, List.map_append, List.sum_append, List.map_singleton, List.sum_singleton, ← hcell,
        excess]
      linear_combination -hsum
    · -- the cell is free
      have hfree := h.window.free (by rw [List.length_map]; omega)
      rw [List.length_map] at hfree
      have hall (l : List (BitVec 64)) (hl : l.length ≤ IRQ_CYCLE_COUNTS) :
          l.rtake IRQ_CYCLE_COUNTS = l ∧ l.rdrop IRQ_CYCLE_COUNTS = [] := by
        rw [List.rtake, List.rdrop, Nat.sub_eq_zero_of_le hl]
        exact ⟨rfl, rfl⟩
      obtain ⟨htake, hdrop⟩ := hall counts (by omega)
      obtain ⟨htake', hdrop'⟩ := hall (counts ++ [c]) (by simpa using not_le.mp hfull)
      rw [hfree, htake, hdrop, htake', hdrop']
      simp

theorem after_kept (counts : List (BitVec 64)) : Kept counts (after counts) := by
  induction counts using List.reverseRecOn with
  | nil => exact init_kept
  | append_singleton counts c ih =>
    rw [after, List.foldl_append]
    exact ih.hook c

/-- What the counts that have gone have left behind. -/
theorem rolling_iff_left {counts : List (BitVec 64)} :
    Rolling counts ↔ ((counts.rdrop IRQ_CYCLE_COUNTS).map excess).sum = 0 := by
  rw [Rolling, (after_kept counts).total]
  exact add_eq_left

/-- A list all of whose beginnings have the sum zero is one of zeros. -/
theorem sums_zero_iff {l : List (BitVec 64)} :
    (∀ front, front <+: l → front.sum = 0) ↔ ∀ x ∈ l, x = 0 := by
  constructor
  · intro h
    induction l using List.reverseRecOn with
    | nil => simp
    | append_singleton l x ih =>
      have hfront := h l (List.prefix_append l [x])
      have hall := h (l ++ [x]) List.prefix_rfl
      rw [List.sum_append, hfront, zero_add, List.sum_singleton] at hall
      have hrest := ih fun front hf => h front (hf.trans (List.prefix_append l [x]))
      intro y hy
      rcases List.mem_append.mp hy with hy | hy
      · exact hrest y hy
      · rwa [List.mem_singleton.mp hy]
  · intro h front hfront
    apply List.sum_eq_zero
    intro x hx
    exact h x (hfront.subset hx)

/-- The beginnings of a list without their last `n` elements are those of the list without them. -/
theorem forall_rdrop_iff {l : List (BitVec 64)} {n : ℕ} {P : List (BitVec 64) → Prop}
    (hnil : P []) :
    (∀ front, front <+: l → P (front.rdrop n)) ↔ ∀ front, front <+: l.rdrop n → P front := by
  constructor
  · intro h front hfront
    rw [List.prefix_iff_eq_take] at hfront
    by_cases hempty : front = []
    · rwa [hempty]
    · have hlength := congrArg List.length hfront
      have hpos := List.length_pos_iff.mpr hempty
      rw [List.rdrop, List.take_take, List.length_take] at hlength
      have htake := h (l.take (front.length + n)) (List.take_prefix _ _)
      rw [List.rdrop, List.length_take, List.take_take] at htake
      rw [List.rdrop, List.take_take] at hfront
      rw [hfront]
      convert htake using 2
      omega
  · intro h front hfront
    apply h
    rw [List.prefix_iff_eq_take] at hfront
    rw [hfront, List.rdrop, List.rdrop, List.length_take, List.take_take]
    apply List.take_prefix_take_left
    omega

/-- The total is right after every call exactly if each count but the last 128 fits into 32 bits. -/
theorem rolling_throughout_iff (counts : List (BitVec 64)) :
    (∀ front, front <+: counts → Rolling front) ↔
      ∀ c ∈ counts.rdrop IRQ_CYCLE_COUNTS, c.toNat < 2 ^ 32 := by
  simp only [rolling_iff_left, ← excess_eq_zero_iff]
  rw [forall_rdrop_iff (P := fun gone => (gone.map excess).sum = 0) rfl]
  have hmap : (∀ front, front <+: counts.rdrop IRQ_CYCLE_COUNTS → (front.map excess).sum = 0) ↔
      ∀ front, front <+: (counts.rdrop IRQ_CYCLE_COUNTS).map excess → front.sum = 0 := by
    simp only [List.prefix_map_iff, forall_exists_index, and_imp]
    constructor
    · rintro h front gone hgone rfl
      exact h gone hgone
    · intro h front hfront
      exact h _ front hfront rfl
  rw [hmap, sums_zero_iff]
  simp

/-- A count of 2^32 and 128 of zero: it has gone, but the total still has it. -/
theorem rolling_left : ¬∀ counts, Rolling counts := by
  intro h
  have hsum := rolling_iff_left.mp (h (0x100000000 :: List.replicate 128 0))
  have hgone : (0x100000000 :: List.replicate 128 0 : List (BitVec 64)).rdrop IRQ_CYCLE_COUNTS =
      [0x100000000] := by
    rw [List.rdrop, List.length_cons, List.length_replicate]
    rfl
  rw [hgone] at hsum
  exact absurd hsum (by decide)

end IrqLoad

end Exec09.Debugger
