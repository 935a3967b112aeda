import Exec09.Bus.Setup
import Exec09.Bus.Traffic

/-! # Accesses past the end of a buffer

The functions of the RAM and ROM classes use the offset that the map gives them
as it is. Where a machine has no expander, an access overruns the buffer of a
device exactly if the map lets it through to a device with a buffer, at a
place where the last byte it takes lies behind the end.
-/
namespace Exec09
open Foundation Access
variable {σ : Type}

namespace CpuAccess

def addr : CpuAccess → ℕ
  | read8 _ a => a
  | read16 _ a => a
  | write8 _ a _ => a

/-- How far behind the first byte of the access the last one is. -/
def extra : CpuAccess → ℕ
  | read16 _ _ => 1
  | _ => 0

theorem extra_le (e : CpuAccess) : e.extra ≤ 1 := by
  cases e <;> simp [extra]

/-- The map lets the access through to the device. -/
def Admitted (e : CpuAccess) (s : Board σ) : Prop :=
  match e with
  | read8 _ a => s.readStops a = false
  | read16 _ a => s.readStops a = false
  | write8 _ a _ => s.cpuRunning = false ∨ (findMap s.busmaps a).writable = true

end CpuAccess

/-- `ram_read` or `ram_write` left its buffer. -/
def Stop.Overrun (x : Stop) : Prop := x = .fatal .bufferRead ∨ x = .fatal .bufferWrite

def Overran {α : Type} (r : EStateM.Result Stop (Board σ) α) : Prop :=
  ∃ x t, r = .error x t ∧ x.Overrun

/-- The access reaches `ram_read` or `ram_write` with an offset that is too large. -/
def Overruns (hw : Hardware σ) (e : CpuAccess) (s : Board σ) : Prop := Overran (e.perform hw s)

/-- The device has a buffer. -/
def Buffered (devs : List Device) (dev : ℕ) : Prop :=
  (devs.getD dev ⟨.null, 0⟩).cls = .ram ∨ (devs.getD dev ⟨.null, 0⟩).cls = .rom

section Results
variable {α β : Type} {m : BoardM σ α} {f : α → BoardM σ β} {s t : Board σ} {a : α} {x : Stop}

theorem not_overran_ok : ¬Overran (.ok a s : EStateM.Result Stop (Board σ) α) := by
  rintro ⟨x, t, h, -⟩
  cases h

theorem overran_error : Overran (.error x s : EStateM.Result Stop (Board σ) α) ↔ x.Overrun := by
  constructor
  · rintro ⟨y, t, h, hy⟩
    cases h
    exact hy
  · exact fun h => ⟨x, s, rfl, h⟩

theorem overran_bind_ok (h : m s = .ok a t) : Overran ((m >>= f) s) ↔ Overran (f a t) := by
  rw [run_bind_ok h]

/-- Whatever is done after a program that overruns its buffer is not done. -/
theorem overran_bind_error (h : m s = .error x t) : Overran ((m >>= f) s) ↔ x.Overrun := by
  rw [run_bind_error h, overran_error]

/-- What cannot overrun after a program does not matter. -/
theorem overran_bind_left (h : ∀ a t, ¬Overran (f a t)) : Overran ((m >>= f) s) ↔ Overran (m s) := by
  cases hr : m s with
  | ok a t =>
    rw [overran_bind_ok hr]
    exact iff_of_false (h a t) not_overran_ok
  | error x t => rw [overran_bind_error hr, overran_error]

theorem not_overran [hm : StopsFor (fun x : Stop => ¬x.Overrun) m] : ¬Overran (m s) := by
  rintro ⟨x, t, h, hx⟩
  exact hm.stops s x t h hx

instance exit_stops (n : ℕ) :
    StopsFor (fun x : Stop => ¬x.Overrun) (throw (.exit n) : BoardM σ α) :=
  StopsFor.throw (by simp [Stop.Overrun])

instance arrayIndex_stops :
    StopsFor (fun x : Stop => ¬x.Overrun) (throw (.fatal .arrayIndex) : BoardM σ α) :=
  StopsFor.throw (by simp [Stop.Overrun])

instance mapIndex_stops :
    StopsFor (fun x : Stop => ¬x.Overrun) (throw (.fatal .mapIndex) : BoardM σ α) :=
  StopsFor.throw (by simp [Stop.Overrun])

instance mapBus_stops (c : MapCall) :
    StopsFor (fun x : Stop => ¬x.Overrun) (mapBus c : BoardM σ Unit) := by
  have hset (maps : Option BusMaps) : StopsFor (fun x : Stop => ¬x.Overrun) (match maps with
      | some maps => modify fun s => { s with busmaps := maps }
      | none => throw (.fatal .mapIndex) : BoardM σ Unit) := by
    cases maps <;> infer_instance
  rw [mapBus]
  infer_instance

instance simError_stops : StopsFor (fun x : Stop => ¬x.Overrun) (Access.simError : BoardM σ Unit) := by
  rw [Access.simError]
  infer_instance

instance doFault_stops (named type : ℕ) :
    StopsFor (fun x : Stop => ¬x.Overrun) (doFault named type : BoardM σ Unit) := by
  have hhandler (s : Board σ) : StopsFor (fun x : Stop => ¬x.Overrun) (match s.machineFault with
      | .fault => if s.cpuRunning then Access.simError else pure ()
      | .wpcFault => pure () : BoardM σ Unit) := by
    cases s.machineFault <;> infer_instance
  have hfault : StopsFor (fun x : Stop => ¬x.Overrun) (fault named type : BoardM σ Unit) := by
    rw [fault]
    infer_instance
  rw [doFault]
  infer_instance

instance findDevice_stops (named id : ℕ) :
    StopsFor (fun x : Stop => ¬x.Overrun) (findDevice named id : BoardM σ ℕ) := by
  rw [findDevice]
  infer_instance

theorem ramRead_overran (dev offset : ℕ) (s : Board σ) :
    Overran (ramRead dev offset s) ↔ s.size dev ≤ offset := by
  rw [ramRead, overran_bind_ok run_get]
  by_cases h : offset < s.size dev
  · rw [if_pos h]
    exact iff_of_false not_overran_ok (by omega)
  · rw [if_neg h]
    exact iff_of_true ⟨_, _, rfl, .inl rfl⟩ (by omega)

theorem ramWrite_overran (dev offset : ℕ) (val : U8) (s : Board σ) :
    Overran (ramWrite dev offset val s) ↔ s.size dev ≤ offset := by
  rw [ramWrite, overran_bind_ok run_get]
  by_cases h : offset < s.size dev
  · rw [if_pos h]
    exact iff_of_false not_overran_ok (by omega)
  · rw [if_neg h]
    exact iff_of_true ⟨_, _, rfl, .inr rfl⟩ (by omega)

end Results

section Accesses
variable {hw : Hardware σ} {pc addr : ℕ} {s : Board σ} {Q : Prop}

theorem entry_overran (ha : ¬addr < 0x10000) : entry addr s = .error (.fatal .mapIndex) s := by
  rw [entry, run_bind_ok run_get, if_neg (by omega)]
  rfl

/-- A read overruns a buffer if the device does that it is let through to. -/
theorem readTarget_overran {α : Type} {f : ℕ × ℕ → BoardM σ α}
    (h : ∀ log m, Overran (f (s.target addr) (s.traced log m)) ↔ Q) :
    Overran ((readTarget addr >>= f) s) ↔ addr < 0x10000 ∧ s.readStops addr = false ∧ Q := by
  by_cases ha : addr < 0x10000
  · rw [iff_true_intro ha, true_and]
    cases hstops : s.readStops addr with
    | true =>
      obtain ⟨t, ht⟩ := readTarget_error ha hstops
      rw [overran_bind_error ht]
      simp [Stop.Overrun]
    | false =>
      obtain ⟨m, ht⟩ := readTarget_ok ha hstops
      rw [overran_bind_ok ht, iff_true_intro rfl, true_and]
      exact h _ m
  · have htarget : readTarget addr s = .error (.fatal .mapIndex) s := by
      rw [readTarget, run_bind_error (entry_overran ha)]
    rw [overran_bind_error htarget]
    simp [ha, Stop.Overrun]

theorem read8_overruns (h : ∀ log m,
      Overran (hw.read pc (s.target addr).1 (s.target addr).2 (s.traced log m)) ↔ Q) :
    Overruns hw (.read8 pc addr) s ↔ addr < 0x10000 ∧ s.readStops addr = false ∧ Q := by
  have hlast : Overran (cpuRead8 hw pc addr s) ↔ addr < 0x10000 ∧ s.readStops addr = false ∧ Q :=
    readTarget_overran h
  rw [← hlast]
  exact overran_bind_left fun _ _ => not_overran_ok

theorem read16_overruns (h : ∀ log m, Overran ((do
        let high ← hw.read pc (s.target addr).1 (s.target addr).2
        let low ← hw.read pc (s.target addr).1 (Word.trunc 64 ((s.target addr).2 + 1))
        return high ++ low) (s.traced log m)) ↔ Q) :
    Overruns hw (.read16 pc addr) s ↔ addr < 0x10000 ∧ s.readStops addr = false ∧ Q := by
  have hlast : Overran (cpuRead16 hw pc addr s) ↔ addr < 0x10000 ∧ s.readStops addr = false ∧ Q :=
    readTarget_overran h
  rw [← hlast]
  exact overran_bind_left fun _ _ => not_overran_ok

theorem write8_overruns (val : U8) (hnull : s.unattached (findMap s.busmaps addr).devid = true → ¬Q)
    (h : ∀ log m,
      Overran (hw.write pc (s.target addr).1 (s.target addr).2 val (s.traced log m)) ↔ Q) :
    Overruns hw (.write8 pc addr val) s ↔
      addr < 0x10000 ∧ (s.cpuRunning = false ∨ (findMap s.busmaps addr).writable = true) ∧ Q := by
  rw [Overruns, CpuAccess.perform, cpuWrite8]
  by_cases ha : addr < 0x10000
  · rw [overran_bind_ok (entry_run ha s), iff_true_intro ha, true_and]
    obtain ⟨log, m, hfind | ⟨e, hunattached, hfind⟩⟩ :=
      findDevice_outcome addr (findMap s.busmaps addr).devid s
    · have hwritten : StopsFor (fun x : Stop => ¬x.Overrun) (if (findMap s.busmaps addr).ignoreWrite
          then pure () else doFault addr FAULT_NOT_WRITABLE : BoardM σ Unit) := inferInstance
      rw [overran_bind_ok hfind, overran_bind_left fun _ _ => not_overran, writeChecked,
        overran_bind_ok run_get]
      by_cases hlet : s.cpuRunning = false ∨ (findMap s.busmaps addr).writable = true
      · rw [if_pos (by simpa [Board.traced] using hlet), iff_true_intro hlet, true_and]
        exact h log m
      · rw [if_neg (by simpa [Board.traced] using hlet)]
        exact iff_of_false not_overran fun hc => hlet hc.1
    · have hstop := (findDevice_stops addr _).stops s _ _ hfind
      rw [overran_bind_error hfind]
      exact iff_of_false hstop fun hc => hnull hunattached hc.2
  · rw [overran_bind_error (entry_overran ha)]
    simp [ha, Stop.Overrun]

theorem not_overruns_of_outside {e : CpuAccess} (ha : ¬e.addr < 0x10000) : ¬Overruns hw e s := by
  have hentry := entry_overran (s := s) ha
  have herror : Stop.Overrun (.fatal .mapIndex) → False := by simp [Stop.Overrun]
  cases e with
  | read8 pc a =>
    have hread : readTarget a s = .error (.fatal .mapIndex) s := run_bind_error hentry
    intro h
    have hrun : cpuRead8 hw pc a s = .error (.fatal .mapIndex) s := run_bind_error hread
    exact herror ((overran_bind_error hrun).mp h)
  | read16 pc a =>
    have hread : readTarget a s = .error (.fatal .mapIndex) s := run_bind_error hentry
    intro h
    have hrun : cpuRead16 hw pc a s = .error (.fatal .mapIndex) s := run_bind_error hread
    exact herror ((overran_bind_error hrun).mp h)
  | write8 pc a val => exact fun h => herror ((overran_bind_error hentry).mp h)

end Accesses

/-- Every device is reached directly, and only those with a buffer can overrun one. -/
structure Flat (I : Board σ → Prop) (hw : Hardware σ) (devs : List Device) : Prop where
  devices : ∀ s, I s → s.devices = devs
  read : ∀ pc dev offset s, I s → Buffered devs dev →
    hw.read pc dev offset s = ramRead dev offset s
  write : ∀ pc dev offset val s, I s → Buffered devs dev →
    hw.write pc dev offset val s = ramWrite dev offset val s
  readOther : ∀ pc dev offset s, I s → ¬Buffered devs dev → ¬Overran (hw.read pc dev offset s)
  writeOther : ∀ pc dev offset val s, I s → ¬Buffered devs dev →
    ¬Overran (hw.write pc dev offset val s)
  keeps : ∀ pc dev offset, Keeps I (hw.read pc dev offset)
  null : ¬Buffered devs 0

namespace Flat
variable {I : Board σ → Prop} {hw : Hardware σ} {devs : List Device} {s : Board σ}

/-- The offset lies behind the end of the device's buffer. -/
def Behind (devs : List Device) (dev offset : ℕ) : Prop :=
  Buffered devs dev ∧ (devs.getD dev ⟨.null, 0⟩).size ≤ offset

theorem read_overran (h : Flat I hw devs) (pc dev offset : ℕ) (hs : I s) :
    Overran (hw.read pc dev offset s) ↔ Behind devs dev offset := by
  by_cases hbuffer : Buffered devs dev
  · rw [h.read pc dev offset s hs hbuffer, ramRead_overran, Board.size, h.devices s hs, Behind]
    simp [hbuffer]
  · exact iff_of_false (h.readOther pc dev offset s hs hbuffer) fun hc => hbuffer hc.1

theorem write_overran (h : Flat I hw devs) (pc dev offset : ℕ) (val : U8) (hs : I s) :
    Overran (hw.write pc dev offset val s) ↔ Behind devs dev offset := by
  by_cases hbuffer : Buffered devs dev
  · rw [h.write pc dev offset val s hs hbuffer, ramWrite_overran, Board.size, h.devices s hs, Behind]
    simp [hbuffer]
  · exact iff_of_false (h.writeOther pc dev offset val s hs hbuffer) fun hc => hbuffer hc.1

theorem read_twice (h : Flat I hw devs) (pc dev : ℕ) {offset : ℕ} (hlt : offset + 1 < 2 ^ 64)
    (hs : I s) : Overran ((do
        let high ← hw.read pc dev offset
        let low ← hw.read pc dev (Word.trunc 64 (offset + 1))
        return high ++ low : BoardM σ U16) s) ↔ Behind devs dev (offset + 1) := by
  have hfirst := h.read_overran pc dev offset hs
  cases hr : hw.read pc dev offset s with
  | ok high t =>
    have ht : I t := by
      have hend := (h.keeps pc dev offset).keeps s hs
      rwa [hr] at hend
    rw [overran_bind_ok hr, Word.trunc_of_lt hlt]
    exact (overran_bind_left fun _ _ => not_overran_ok).trans (h.read_overran pc dev (offset + 1) ht)
  | error x t =>
    rw [overran_bind_error hr]
    rw [hr, overran_error] at hfirst
    rw [hfirst]
    refine ⟨fun hc => ⟨hc.1, by have := hc.2; omega⟩, fun hc => ⟨hc.1, ?_⟩⟩
    -- a read within the buffer would have returned
    by_contra hin
    have hread : ramRead dev offset s = .ok (s.mem dev offset) s := by
      rw [ramRead, run_bind_ok run_get, Board.size, h.devices s hs, if_pos (by omega)]
      rfl
    rw [h.read pc dev offset s hs hc.1, hread] at hr
    cases hr

variable [Untraced I]

/-- An access overruns a buffer exactly if its last byte lies behind the end. -/
theorem overruns_iff (h : Flat I hw devs) (hs : I s) (e : CpuAccess)
    (hlt : (s.target e.addr).2 + 1 < 2 ^ 64) : Overruns hw e s ↔ e.addr < 0x10000 ∧ e.Admitted s ∧
      Behind devs (s.target e.addr).1 ((s.target e.addr).2 + e.extra) := by
  cases e with
  | read8 pc a =>
    exact read8_overruns fun log m => h.read_overran pc _ _ (Untraced.traced log m s hs)
  | read16 pc a =>
    exact read16_overruns fun log m => h.read_twice pc _ hlt (Untraced.traced log m s hs)
  | write8 pc a val =>
    refine write8_overruns val (fun hunattached hc => ?_) fun log m =>
      h.write_overran pc _ _ val (Untraced.traced log m s hs)
    have htarget : (s.target a).1 = 0 := by simp [Board.target, hunattached]
    have hnull : Buffered devs (s.target a).1 := hc.1
    rw [htarget] at hnull
    exact h.null hnull

end Flat

end Exec09
