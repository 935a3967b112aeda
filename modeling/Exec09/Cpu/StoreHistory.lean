import Exec09.Cpu.MachineView

/-! # What the stores of the processor determine

Of a machine whose memory and mapping change by stores alone, what is true after
any run follows from the stores of that run, whatever else the processor and the
devices have done in between.
-/
namespace Exec09
open Foundation
variable {β δ : Type} [Bus β]

/-- The stores among the accesses. -/
def stores : List Access → List (ℕ × U8) := List.filterMap fun
  | .write8 a data => some (a, BitVec.ofNat 8 data)
  | _ => none

/-- A store of the processor turns `H l` into `H` of the stores with this one; nothing else that it
does to the machine matters. -/
structure FollowsStores (H : List (ℕ × U8) → β → Prop) : Prop where
  read8 : ∀ l pc a, Keeps (H l) (Bus.cpuRead8 pc a)
  read16 : ∀ l pc a, Keeps (H l) (Bus.cpuRead16 pc a)
  write8 : ∀ l pc a v b, H l b → H ((a, v) :: l) (finalState (Bus.cpuWrite8 pc a v b))
  simError : ∀ l, Keeps (H l) (Bus.simError)
  running : ∀ l b, H l b → H l (Bus.cpuIsRunning b)

/-- What happens to a machine between two instructions: something the processor does, or the work of
a device. -/
inductive Moment (δ : Type)
  | cpu (e : Event)
  | device (d : δ)

def Moment.perform (act : δ → β → β) : Moment δ → CpuM β Unit
  | cpu e => e.perform
  | device d => onBus (modify (act d))

namespace FollowsStores
variable {H : List (ℕ × U8) → β → Prop}

theorem reaches (h : FollowsStores H) {l : List (ℕ × U8)} {b₀ b : β} {es : List Access}
    (hb : H l b₀) (hreaches : Reaches b₀ es b) : H (stores es ++ l) b := by
  induction hreaches with
  | start => exact hb
  | read8 pc a _ ih => exact (h.read8 _ pc a).keeps _ ih
  | read16 pc a _ ih => exact (h.read16 _ pc a).keeps _ ih
  | write8 pc a data _ ih => exact h.write8 _ pc a _ _ ih
  | simError _ ih => exact (h.simError _).keeps _ ih
  | running _ ih => exact h.running _ _ ih

/-- The machine is as the stores since `tr` have left it. -/
def Recorded (H : List (ℕ × U8) → β → Prop) (tr : List Access) (s : Cpu β) : Prop :=
  ∃ es, s.trace = es ++ tr ∧ H (stores es) s.bus

theorem moment (h : FollowsStores H) {act : δ → β → β} (hact : ∀ l d b, H l b → H l (act d b))
    (tr : List Access) (x : Moment δ) : Keeps (Recorded H tr) (x.perform act) := by
  refine ⟨?_⟩
  rintro s ⟨es, hes, hs⟩
  cases x with
  | cpu e =>
    have hdriven : Driven s.bus s.trace s := ⟨[], rfl, .start⟩
    obtain ⟨es', hes', hreaches⟩ := (event_driven e).keeps s hdriven
    refine ⟨es' ++ es, ?_, ?_⟩
    · rw [List.append_assoc, ← hes]
      exact hes'
    · rw [stores, List.filterMap_append]
      exact h.reaches hs hreaches
  | device d => exact ⟨es, hes, hact _ d _ hs⟩

/-- After any run the machine is as the stores of the run determine. -/
theorem run (h : FollowsStores H) {act : δ → β → β} (hact : ∀ l d b, H l b → H l (act d b))
    (xs : List (Moment δ)) (s : Cpu β) (hs : H [] s.bus) :
    Recorded H s.trace (finalState (runAll (Moment.perform act) xs s)) := by
  have hrun := runAll_keeps (fun x => Keeps.iff_triple.mp (h.moment hact s.trace x)) xs
  exact (Keeps.iff_triple.mpr hrun).keeps s ⟨[], rfl, hs⟩

end FollowsStores

end Exec09
