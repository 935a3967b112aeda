import Exec09.Cpu.CodeFetch
import Exec09.Cpu.InterruptReturn

/-! # Return addresses

The writes of a push are known one by one, so that the address which a call or
an interrupt instruction leaves on the stack can be read off the accesses.
-/
namespace Exec09
open Foundation
variable {β : Type}

set_option synthInstance.maxSize 100000

def Access.Writes (a : ℕ) : Access → Prop
  | .write8 b _ => b = a
  | _ => False

/-- Under `depth` bytes the stack holds the word `ret`, which was pushed since `t`. -/
structure Returned (depth ret : ℕ) (t : List Access) (s : Cpu β) : Prop where
  lt : s.S < 65536
  pushed : ∃ later earlier, s.trace = later ++ .write8 ((s.S + depth) % 65536) (ret >>> 8) ::
      .write8 ((s.S + depth + 1) % 65536) (ret &&& 0xff) :: (earlier ++ t) ∧
    ∀ e ∈ later, ¬e.Writes ((s.S + depth) % 65536) ∧ ¬e.Writes ((s.S + depth + 1) % 65536)

/-- Only the bus and the accesses have changed since `s₀`. -/
def Logged (s₀ : Cpu β) (l : List Access) (s : Cpu β) : Prop :=
  s = { s₀ with trace := l, bus := s.bus }

section Stack
variable {depth ret sp : ℕ} {t l : List Access} {s₀ : Cpu β}

theorem Logged.congr {s s' : Cpu β} {l' : List Access} (h : Logged s₀ l s)
    (hs : s' = { s with trace := l', bus := s'.bus }) : Logged s₀ l' s' := by
  rw [Logged] at h ⊢
  rw [h] at hs
  exact hs

theorem modify_returned {g : Cpu β → Cpu β} (hS : ∀ s, (g s).S = s.S)
    (htrace : ∀ s, (g s).trace = s.trace) : Keeps (Returned depth ret t) (modify g : CpuM β Unit) :=
  Keeps.modify fun s h => ⟨(hS s).symm ▸ h.lt, by rw [hS, htrace]; exact h.pushed⟩

instance charge_returned (n : ℤ) : Keeps (Returned (β := β) depth ret t) (charge n) :=
  modify_returned (fun _ => rfl) fun _ => rfl
instance changePc_returned (a : ℕ) : Keeps (Returned (β := β) depth ret t) (changePc a) :=
  modify_returned (fun _ => rfl) fun _ => rfl
instance setEfi_returned (v : ℕ) : Keeps (Returned (β := β) depth ret t) (setEfi v) :=
  modify_returned (fun _ => rfl) fun _ => rfl
instance setCwaiState_returned (c : CwaiState) :
    Keeps (Returned (β := β) depth ret t) (setCwaiState c) :=
  modify_returned (fun _ => rfl) fun _ => rfl

/-- An access that writes elsewhere. -/
theorem Returned.note {s : Cpu β} (h : Returned depth ret t s) {e : Access}
    (he : ∀ a, ¬e.Writes a) : Returned depth ret t { s with trace := e :: s.trace } := by
  obtain ⟨later, earlier, htrace, hlater⟩ := h.pushed
  refine ⟨h.lt, e :: later, earlier, by rw [htrace]; rfl, ?_⟩
  exact List.forall_mem_cons.mpr ⟨⟨he _, he _⟩, hlater⟩

variable [Bus β]

instance read16_returned (a : ℕ) : Keeps (Returned (β := β) depth ret t) (read16 a) where
  keeps s h := by
    have hnote := h.note (e := .read16 a) fun _ h => h
    rw [read16_run]
    cases Bus.cpuRead16 (getPc s) a s.bus <;> exact ⟨hnote.lt, hnote.pushed⟩

theorem write8_logged (a v : ℕ) :
    Triple (Logged s₀ l) (write8 a v) (fun _ => Logged s₀ (.write8 a v :: l)) Anywhere := by
  intro s hs
  have htrace : s.trace = l := by rw [hs]
  rw [write8_run, htrace]
  cases Bus.cpuWrite8 (getPc s) a (BitVec.ofNat 8 v) s.bus with
  | ok u b => exact hs.congr rfl
  | error e b => trivial

theorem push8_logged {v : ℕ} (hsp : usub s₀.S 1 &&& 0xffff = sp) : Triple (· = s₀) (push8 .S v)
    (fun _ => Logged { s₀ with S := sp } (.write8 sp v :: s₀.trace)) Anywhere := by
  rintro s rfl
  rw [push8, run_bind_ok (lowerStack_run 1 s), hsp]
  have hstart : Logged { s with S := sp } s.trace { s with S := sp } := rfl
  exact write8_logged sp v _ hstart

theorem push16_logged {v : ℕ} (hsp : usub s₀.S 2 &&& 0xffff = sp) : Triple (· = s₀) (push16 .S v)
    (fun _ => Logged { s₀ with S := sp } (.write8 sp (v >>> 8) ::
      .write8 ((sp + 1) &&& 0xffff) (v &&& 0xff) :: s₀.trace)) Anywhere := by
  rintro s rfl
  rw [push16, run_bind_ok (lowerStack_run 2 s), hsp]
  have hstart : Logged { s with S := sp } s.trace { s with S := sp } := rfl
  have hboth : Triple (Logged { s with S := sp } s.trace) (writeStack16 sp v)
      (fun _ => Logged { s with S := sp } (.write8 sp (v >>> 8) ::
        .write8 ((sp + 1) &&& 0xffff) (v &&& 0xff) :: s.trace)) Anywhere :=
    (write8_logged _ _).bind fun _ => write8_logged _ _
  exact hboth _ hstart

omit [Bus β] in
theorem Returned.top {s : Cpu β} (earlier : List Access) (hlt : s.S < 65536)
    (htrace : s.trace = .write8 s.S (ret >>> 8) :: .write8 ((s.S + 1) % 65536) (ret &&& 0xff) ::
      (earlier ++ t)) : Returned 0 ret t s := by
  have hS : (s.S + 0) % 65536 = s.S := Nat.mod_eq_of_lt hlt
  have hnext : (s.S + 0 + 1) % 65536 = (s.S + 1) % 65536 := rfl
  refine ⟨hlt, [], earlier, ?_, nofun⟩
  rw [hS, hnext]
  exact htrace

/-- The address of the next instruction is pushed. -/
theorem push16_returned {p v : ℕ} : Triple (Still (β := β) t p) (push16 .S v)
    (fun _ => Returned 0 v t) Anywhere := by
  intro s hs
  obtain ⟨earlier, htrace⟩ := hs.trace
  have hlt : usub s.S 2 &&& 0xffff < 65536 := by
    rw [Word.and_65535]
    exact Nat.mod_lt _ (by decide)
  generalize hsp : usub s.S 2 &&& 0xffff = sp at hlt
  have h := push16_logged (v := v) hsp s rfl
  cases hr : push16 .S v s with
  | error e u => trivial
  | ok a u =>
    rw [hr] at h
    have hu : u = _ := h
    rw [hu]
    refine Returned.top earlier hlt ?_
    rw [htrace, ← Word.and_65535]

omit [Bus β] in
/-- Bytes pushed above the return address leave it alone. -/
theorem Returned.above {s u : Cpu β} {n : ℕ} (h : Returned depth ret t s) (events : List Access)
    (hd : depth + n < 65535) (hS : u.S = (s.S + (65536 - n)) % 65536)
    (htrace : u.trace = events ++ s.trace)
    (hevents : ∀ e ∈ events, ∀ a, e.Writes a → ∃ i < n, a = (u.S + i) % 65536) :
    Returned (depth + n) ret t u := by
  obtain ⟨later, earlier, hpushed, hlater⟩ := h.pushed
  have hlt := h.lt
  have hhigh : (u.S + (depth + n)) % 65536 = (s.S + depth) % 65536 := by omega
  have hlow : (u.S + (depth + n) + 1) % 65536 = (s.S + depth + 1) % 65536 := by omega
  refine ⟨by omega, events ++ later, earlier, ?_, ?_⟩
  · rw [hhigh, hlow, htrace, hpushed, List.append_assoc]
  · rw [hhigh, hlow]
    intro e he
    rcases List.mem_append.mp he with hnew | hold
    · constructor <;> intro hwrites <;> obtain ⟨i, hi, ha⟩ := hevents e hnew _ hwrites <;> omega
    · exact hlater e hold

/-- A byte more above the return address. -/
theorem push8_above {v : ℕ} (hd : depth < 100) : Triple (Returned (β := β) depth ret t)
    (push8 .S v) (fun _ => Returned (depth + 1) ret t) Anywhere := by
  intro s hs
  have hlt := hs.lt
  have hsp : usub s.S 1 &&& 0xffff = (s.S + 65535) % 65536 := below_eq s.S
  have h := push8_logged (v := v) hsp s rfl
  cases hr : push8 .S v s with
  | error e u => trivial
  | ok a u =>
    rw [hr] at h
    have hu : u = _ := h
    rw [hu]
    refine hs.above [.write8 ((s.S + 65535) % 65536) v] (by omega) rfl rfl ?_
    rintro e he a hwrites
    obtain rfl := List.mem_singleton.mp he
    obtain rfl : (s.S + 65535) % 65536 = a := hwrites
    exact ⟨0, by decide, by dsimp only; omega⟩

theorem push16_above {v : ℕ} (hd : depth < 100) : Triple (Returned (β := β) depth ret t)
    (push16 .S v) (fun _ => Returned (depth + 2) ret t) Anywhere := by
  intro s hs
  have hlt := hs.lt
  have hsp : usub s.S 2 &&& 0xffff = (s.S + 65534) % 65536 := by
    rw [below_two_eq]
    omega
  have h := push16_logged (v := v) hsp s rfl
  cases hr : push16 .S v s with
  | error e u => trivial
  | ok a u =>
    rw [hr] at h
    have hu : u = _ := h
    rw [hu]
    refine hs.above [.write8 ((s.S + 65534) % 65536) (v >>> 8),
      .write8 ((s.S + 65534) % 65536 + 1 &&& 0xffff) (v &&& 0xff)] (by omega) rfl rfl ?_
    rintro e he a hwrites
    rcases List.mem_pair.mp he with rfl | rfl
    · obtain rfl : (s.S + 65534) % 65536 = a := hwrites
      exact ⟨0, by decide, by dsimp only; omega⟩
    · obtain rfl : (s.S + 65534) % 65536 + 1 &&& 0xffff = a := hwrites
      exact ⟨1, by decide, Word.and_65535 _⟩

omit [Bus β] in
theorem look_returned {α : Type} (f : Cpu β → α) : Triple (Returned depth ret t) (look f)
    (fun _ => Returned depth ret t) Anywhere := look_triple fun _ h => h

/-- `PC` is pushed first. -/
theorem pushPc_returned {p : ℕ} {α : Type} {rest : CpuM β α} {Q : α → Cpu β → Prop}
    (h : Triple (Returned 0 (p % 65536) t) rest Q Anywhere) :
    Triple (Still t p) (do push16 .S ((← look Cpu.PC) &&& 0xffff); rest) Q Anywhere := by
  have hlook : Triple (Still (β := β) t p) (look Cpu.PC) (fun a s => a = p ∧ Still t p s) Anywhere :=
    look_triple fun s hs => ⟨hs.PC, hs⟩
  refine hlook.value ?_
  rw [Word.and_65535]
  exact push16_returned.bind fun _ => h

/-- The rest of a full frame is 10 bytes. -/
theorem stackMachineState_returned {p : ℕ} : Triple (Still (β := β) t p) (stackMachineState true)
    (fun _ => Returned 10 (p % 65536) t) Anywhere := by
  unfold stackMachineState pushRegisters
  refine Keeps.anywhere.bind fun _ => pushPc_returned ?_
  rw [onlyIf, if_pos rfl]
  refine Triple.bind (Q := fun _ => Returned 9 (p % 65536) t) ?_ fun _ => ?_
  · apply (look_returned _).bind fun _ => ?_
    apply (push16_above (by decide)).bind fun _ => ?_
    apply (look_returned _).bind fun _ => ?_
    apply (push16_above (by decide)).bind fun _ => ?_
    apply (look_returned _).bind fun _ => ?_
    apply (push16_above (by decide)).bind fun _ => ?_
    apply (look_returned _).bind fun _ => ?_
    apply (push8_above (by decide)).bind fun _ => ?_
    apply (look_returned _).bind fun _ => ?_
    apply (push8_above (by decide)).bind fun _ => ?_
    apply (look_returned _).bind fun _ => ?_
    exact push8_above (by decide)
  · apply (look_returned _).bind fun _ => ?_
    exact push8_above (by decide)

theorem jsr_returned {p : ℕ} : Triple (Still (β := β) t p) jsr
    (fun _ => Returned 0 (p % 65536) t) Anywhere := by
  unfold jsr
  exact pushPc_returned Keeps.anywhere

theorem swi_returned {p : ℕ} : Triple (Still (β := β) t p) swi
    (fun _ => Returned 10 (p % 65536) t) Anywhere := by
  unfold swi
  exact stackMachineState_returned.bind fun _ => Keeps.anywhere

theorem swi2_returned {p : ℕ} : Triple (Still (β := β) t p) swi2
    (fun _ => Returned 10 (p % 65536) t) Anywhere := by
  unfold swi2
  exact Keeps.anywhere.bind fun _ => stackMachineState_returned.bind fun _ => Keeps.anywhere

theorem swi3_returned {p : ℕ} : Triple (Still (β := β) t p) swi3
    (fun _ => Returned 10 (p % 65536) t) Anywhere := by
  unfold swi3
  exact Keeps.anywhere.bind fun _ => stackMachineState_returned.bind fun _ => Keeps.anywhere

end Stack

end Exec09
