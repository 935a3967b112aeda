import Exec09.Cpu.CodeFetch
import Exec09.Cpu.InterruptReturn

/-! # The writes of a push

A push writes downwards from its stack pointer and changes nothing else in the
processor. `Pushing` counts the bytes that a sequence of pushes has left there,
the last of them first, so that a whole frame is read off as one list.
-/
namespace Exec09
open Foundation
variable {β : Type}

/-- The writes that leave `bytes` below `top`, latest first, in pushes of one byte. -/
def stackWrites (top : ℕ) : List ℕ → List Access
  | [] => []
  | v :: bytes => .write8 ((top + (65536 - (bytes.length + 1))) % 65536) v :: stackWrites top bytes

/-- `s` is `s₀` after `bytes` have been pushed on the stack `sp`. -/
structure Pushing (sp : StackReg) (s₀ : Cpu β) (bytes : List ℕ) (s : Cpu β) : Prop where
  rest : s = sp.set (sp.get s) { s₀ with trace := s.trace, bus := s.bus }
  trace : s.trace = stackWrites (sp.get s₀) bytes ++ s₀.trace
  depth : (sp.get s + bytes.length) % 65536 = sp.get s₀ % 65536
  lt : bytes ≠ [] → sp.get s < 65536

section Stack
variable {sp : StackReg} {s₀ : Cpu β} {bytes : List ℕ}

@[simp] theorem StackReg.get_set (sp : StackReg) (v : ℕ) (s : Cpu β) : sp.get (sp.set v s) = v := by
  cases sp <;> rfl

@[simp] theorem StackReg.set_get (sp : StackReg) (s : Cpu β) : sp.set (sp.get s) s = s := by
  cases sp <;> rfl

theorem StackReg.set_trace (sp : StackReg) (v : ℕ) (s : Cpu β) : (sp.set v s).trace = s.trace := by
  cases sp <;> rfl

theorem StackReg.set_bus (sp : StackReg) (v : ℕ) (s : Cpu β) : (sp.set v s).bus = s.bus := by
  cases sp <;> rfl

theorem Pushing.start (sp : StackReg) (s : Cpu β) : Pushing sp s [] s :=
  ⟨(sp.set_get s).symm, rfl, rfl, fun h => absurd rfl h⟩

/-- Where the pushes started and how many bytes they left give the stack pointer. -/
theorem Pushing.pointer {s : Cpu β} (h : Pushing sp s₀ bytes s) (hsome : bytes ≠ [])
    (hb : bytes.length < 65536) : sp.get s = (sp.get s₀ + (65536 - bytes.length)) % 65536 := by
  have hdepth := h.depth
  have hlt := h.lt hsome
  omega

/-- A part of the state that no push changes. -/
theorem look_pushing {α : Type} {p : Cpu β → α}
    (hp : ∀ (v : ℕ) (t : List Access) (b : β), p (sp.set v { s₀ with trace := t, bus := b }) = p s₀) :
    Triple (Pushing sp s₀ bytes) (look p) (fun a s => a = p s₀ ∧ Pushing sp s₀ bytes s) Anywhere := by
  apply look_triple
  intro s hs
  refine ⟨?_, hs⟩
  rw [hs.rest, hp]

variable [Bus β]

/-- The state of the writes of one push, at the stack pointer `a`. -/
structure Writing (sp : StackReg) (s₀ : Cpu β) (a : ℕ) (t : List Access) (s : Cpu β) : Prop where
  rest : s = sp.set a { s₀ with trace := s.trace, bus := s.bus }
  trace : s.trace = t

omit [Bus β] in
theorem Pushing.lowered {s : Cpu β} (h : Pushing sp s₀ bytes s) (a : ℕ) :
    Writing sp s₀ a (stackWrites (sp.get s₀) bytes ++ s₀.trace) (sp.set a s) := by
  refine ⟨?_, ?_⟩
  · rw [sp.set_trace, sp.set_bus]
    conv_lhs => rw [h.rest]
    cases sp <;> rfl
  · rw [sp.set_trace, h.trace]

theorem write8_writing {a : ℕ} {t : List Access} (addr v : ℕ) :
    Triple (Writing sp s₀ a t) (write8 addr v) (fun _ => Writing sp s₀ a (.write8 addr v :: t))
      Anywhere := by
  intro s hs
  rw [write8_run]
  cases Bus.cpuWrite8 (getPc s) addr (BitVec.ofNat 8 v) s.bus with
  | ok u b =>
    refine ⟨?_, ?_⟩
    · dsimp only
      conv_lhs => rw [hs.rest]
      cases sp <;> rfl
    · exact congrArg _ hs.trace
  | error e b => trivial

omit [Bus β] in
theorem Writing.pushing {a : ℕ} {s : Cpu β} (h : Writing sp s₀ a
    (stackWrites (sp.get s₀) bytes ++ s₀.trace) s)
    (hdepth : (a + bytes.length) % 65536 = sp.get s₀ % 65536) (ha : a < 65536) : Pushing sp s₀ bytes s := by
  have hget : sp.get s = a := by rw [h.rest, sp.get_set]
  refine ⟨?_, h.trace, ?_, fun _ => hget ▸ ha⟩
  · rw [hget]
    exact h.rest
  · rw [hget]
    exact hdepth

omit [Bus β] in
theorem lowerStack_at (k : ℕ) (s : Cpu β) :
    lowerStack sp k s = .ok () (sp.set (usub (sp.get s) k &&& 0xffff) s) := rfl

theorem writeStack16_writing {a : ℕ} {t : List Access} (addr v : ℕ) :
    Triple (Writing sp s₀ a t) (writeStack16 addr v) (fun _ => Writing sp s₀ a
      (.write8 addr (v >>> 8) :: .write8 ((addr + 1) &&& 0xffff) (v &&& 0xff) :: t)) Anywhere :=
  (write8_writing _ _).bind fun _ => write8_writing _ _

theorem push8_pushing (hb : bytes.length + 1 < 65536) (v : ℕ) :
    Triple (Pushing sp s₀ bytes) (push8 sp v) (fun _ => Pushing sp s₀ (v :: bytes)) Anywhere := by
  intro s hs
  have hdepth := hs.depth
  have hlower := below_eq (sp.get s)
  have haddr : usub (sp.get s) 1 &&& 0xffff = (sp.get s₀ + (65536 - (bytes.length + 1))) % 65536 := by
    omega
  generalize ha : (sp.get s₀ + (65536 - (bytes.length + 1))) % 65536 = a at haddr
  have hrun : push8 sp v s = write8 a v (sp.set a s) := by
    rw [push8, run_bind_ok (lowerStack_at 1 s), haddr, run_bind_ok (run_look _ _), sp.get_set]
  have hwrite : Triple (Writing sp s₀ a (stackWrites (sp.get s₀) bytes ++ s₀.trace)) (write8 a v)
      (fun _ => Pushing sp s₀ (v :: bytes)) Anywhere := by
    apply (write8_writing a v).mono (fun _ h => h) _ fun _ h => h
    intro _ s' h
    refine Writing.pushing (a := a) ?_ (by rw [List.length_cons]; omega) (by omega)
    rw [stackWrites, ha]
    exact h
  rw [hrun]
  exact hwrite _ (hs.lowered a)

/-- The low byte is written first, above the high byte. -/
theorem push16_pushing (hb : bytes.length + 2 < 65536) (v : ℕ) :
    Triple (Pushing sp s₀ bytes) (push16 sp v)
      (fun _ => Pushing sp s₀ (v >>> 8 :: (v &&& 0xff) :: bytes)) Anywhere := by
  intro s hs
  have hdepth := hs.depth
  have hlower := below_two_eq (sp.get s)
  have haddr : usub (sp.get s) 2 &&& 0xffff = (sp.get s₀ + (65536 - (bytes.length + 2))) % 65536 := by
    omega
  generalize ha : (sp.get s₀ + (65536 - (bytes.length + 2))) % 65536 = a at haddr
  have hnext : (a + 1) &&& 0xffff = (sp.get s₀ + (65536 - (bytes.length + 1))) % 65536 := by
    rw [Word.and_65535]
    omega
  have hrun : push16 sp v s = writeStack16 a v (sp.set a s) := by
    rw [push16, run_bind_ok (lowerStack_at 2 s), haddr, run_bind_ok (run_look _ _), sp.get_set]
  have hwrite : Triple (Writing sp s₀ a (stackWrites (sp.get s₀) bytes ++ s₀.trace))
      (writeStack16 a v) (fun _ => Pushing sp s₀ (v >>> 8 :: (v &&& 0xff) :: bytes)) Anywhere := by
    apply (writeStack16_writing a v).mono (fun _ h => h) _ fun _ h => h
    intro _ s' h
    refine Writing.pushing (a := a) ?_ (by simp only [List.length_cons]; omega) (by omega)
    rw [stackWrites, stackWrites, List.length_cons, ha, ← hnext]
    exact h
  rw [hrun]
  exact hwrite _ (hs.lowered a)

end Stack

/-! ## The frames of the interrupts -/

/-- The bytes of a full frame with this `PC` and these condition codes, from the stack pointer
up. -/
def fullFrame (s : Cpu β) (pc cc : ℕ) : List ℕ :=
  [cc, s.A, s.B, s.DP >>> 8, s.X >>> 8, s.X &&& 0xff, s.Y >>> 8, s.Y &&& 0xff, s.U >>> 8,
    s.U &&& 0xff, pc >>> 8, pc &&& 0xff]

variable [Bus β] {s₀ : Cpu β}

theorem pushRegisters_pushing (h l : ℕ) :
    Triple (Pushing .S s₀ [h, l]) pushRegisters
      (fun _ => Pushing .S s₀ [s₀.A, s₀.B, s₀.DP >>> 8, s₀.X >>> 8, s₀.X &&& 0xff, s₀.Y >>> 8,
        s₀.Y &&& 0xff, s₀.U >>> 8, s₀.U &&& 0xff, h, l]) Anywhere := by
  unfold pushRegisters
  apply (look_pushing fun _ _ _ => rfl).value
  apply (push16_pushing (by simp) _).bind fun _ => ?_
  apply (look_pushing fun _ _ _ => rfl).value
  apply (push16_pushing (by simp) _).bind fun _ => ?_
  apply (look_pushing fun _ _ _ => rfl).value
  apply (push16_pushing (by simp) _).bind fun _ => ?_
  apply (look_pushing fun _ _ _ => rfl).value
  apply (push8_pushing (by simp) _).bind fun _ => ?_
  apply (look_pushing fun _ _ _ => rfl).value
  apply (push8_pushing (by simp) _).bind fun _ => ?_
  apply (look_pushing fun _ _ _ => rfl).value
  exact push8_pushing (by simp) _

/-- A full frame is stacked from the state that `beginFrame` leaves. -/
theorem stackMachineState_pushing :
    Triple (· = s₀) (stackMachineState true) (fun _ => Pushing .S (framed true s₀)
      (fullFrame s₀ (s₀.PC &&& 0xffff) (getCc (framed true s₀)))) Anywhere := by
  unfold stackMachineState
  rw [beginFrame_eq, onlyIf, if_pos rfl]
  refine Triple.bind (Q := fun _ => Pushing .S (framed true s₀) []) ?_ fun _ => ?_
  · apply Triple.modify
    rintro s rfl
    exact Pushing.start .S _
  apply (look_pushing fun _ _ _ => rfl).value
  apply (push16_pushing (by simp) _).bind fun _ => ?_
  apply (pushRegisters_pushing _ _).bind fun _ => ?_
  apply (look_pushing fun _ _ _ => rfl).value
  exact push8_pushing (by simp) _

/-- A short frame is `PC` and the condition codes. -/
theorem stackMachineState_short_pushing :
    Triple (· = s₀) (stackMachineState false) (fun _ => Pushing .S (framed false s₀)
      [getCc (framed false s₀), (s₀.PC &&& 0xffff) >>> 8, (s₀.PC &&& 0xffff) &&& 0xff]) Anywhere := by
  unfold stackMachineState
  rw [beginFrame_eq, onlyIf, if_neg Bool.false_ne_true]
  refine Triple.bind (Q := fun _ => Pushing .S (framed false s₀) []) ?_ fun _ => ?_
  · apply Triple.modify
    rintro s rfl
    exact Pushing.start .S _
  apply (look_pushing fun _ _ _ => rfl).value
  apply (push16_pushing (by simp) _).bind fun _ => ?_
  rw [pure_bind]
  apply (look_pushing fun _ _ _ => rfl).value
  exact push8_pushing (by simp) _

end Exec09
