import Exec09.Foundation.Program
import Exec09.Foundation.Ring
import Exec09.Multicomp.Console

/-! # The characters that UART0 of multicomp09 receives

The FIFO is a queue as long as its indices and its flag agree. Every operation
keeps them so, except a master reset, which leaves the read index alone.
-/
namespace Exec09.Multicomp
open Foundation

/-! ## The FIFO as a queue -/

/-- The characters `q` wait in the FIFO. -/
structure CharFifo.Waits (f : CharFifo) (q : List U8) : Prop where
  rd_lt : f.rd < 8
  holds : Ring.Holds 8 f.data f.rd q
  wr_eq : f.wr = (f.rd + q.length) % 8
  empty_iff : f.empty = true ↔ q = []

namespace CharFifo
variable {f : CharFifo} {q : List U8} {ch : U8}

theorem Waits.full_iff (h : f.Waits q) : (f.wr = f.rd ∧ ¬f.empty) ↔ q.length = 8 := by
  have hrd := h.rd_lt
  have hle := h.holds.length_le
  rw [h.wr_eq, h.empty_iff, ← List.length_eq_zero_iff]
  omega

theorem Waits.put (h : f.Waits q) (hroom : q.length < 8) : (f.put ch).Waits (q ++ [ch]) where
  rd_lt := h.rd_lt
  holds := by
    rw [CharFifo.put, h.wr_eq]
    exact h.holds.push hroom ch
  wr_eq := by
    simp only [CharFifo.put, h.wr_eq, List.length_append, List.length_singleton]
    omega
  empty_iff := by simp [CharFifo.put]

/-- A reset restores the agreement only if the read index is 0 already. -/
theorem Waits.reset (h : f.Waits q) (hrd : f.rd = 0) :
    { f with wr := 0, empty := true }.Waits [] where
  rd_lt := h.rd_lt
  holds := Ring.holds_nil
  wr_eq := by rw [hrd]; rfl
  empty_iff := by simp

end CharFifo

namespace Console
variable {c : Console} {q : List U8} {ch : U8}

/-- A character that arrives at a poll is discarded. -/
def Full (c : Console) : Prop := c.fifo.wr = c.fifo.rd ∧ ¬c.fifo.empty

instance : Decidable c.Full := inferInstanceAs (Decidable (_ ∧ _))

/-- The character that a poll puts into the FIFO. -/
def accepts (c : Console) : List U8 := if c.Full then [] else c.keyboard.take 1

/-- The character that a poll discards. -/
def drops (c : Console) : List U8 := if c.Full then c.keyboard.take 1 else []

theorem rxpoll_batchFile (h : c.batchFile = none) : c.rxpoll.batchFile = none := by
  rw [rxpoll, h]
  rcases c.keyboard with _ | ⟨ch, rest⟩
  · exact h
  · by_cases hfull : c.Full
    · exact (congrArg batchFile (if_pos hfull)).trans rfl
    · exact (congrArg batchFile (if_neg hfull)).trans rfl

theorem rxpoll_fifo (h : c.batchFile = none) :
    c.rxpoll.fifo = c.accepts.foldr CharFifo.put c.fifo := by
  rw [rxpoll, h, accepts]
  rcases c.keyboard with _ | ⟨ch, rest⟩
  · by_cases hfull : c.Full <;> simp [hfull]
  · by_cases hfull : c.Full
    · rw [if_pos hfull]
      exact (congrArg fifo (if_pos hfull)).trans rfl
    · rw [if_neg hfull]
      exact (congrArg fifo (if_neg hfull)).trans rfl

theorem rxpoll_waits (hbatch : c.batchFile = none) (h : c.fifo.Waits q) :
    c.rxpoll.fifo.Waits (q ++ c.accepts) := by
  have hle := h.holds.length_le
  rw [rxpoll_fifo hbatch, accepts]
  by_cases hfull : c.Full
  · rw [if_pos hfull, List.append_nil]
    exact h
  · have hroom : q.length < 8 := lt_of_le_of_ne hle fun h8 => hfull (h.full_iff.mpr h8)
    rw [if_neg hfull]
    rcases c.keyboard with _ | ⟨ch, rest⟩
    · simpa using h
    · exact h.put hroom

theorem pop_waits (h : c.fifo.Waits (ch :: q)) :
    c.pop.1 = convert ch ∧ c.pop.2.fifo.Waits q ∧ c.pop.2.batchFile = c.batchFile := by
  have hrd := h.rd_lt
  have hwr := h.wr_eq
  have hle := h.holds.length_le
  rw [List.length_cons] at hwr hle
  have hpop := h.holds.pop
  refine ⟨congrArg convert (h.holds.head hrd), ?_, ?_⟩
  · rw [pop]
    by_cases hlast : (c.fifo.rd + 1) % 8 = c.fifo.wr
    · have hnil : q = [] := List.length_eq_zero_iff.mp (by omega)
      rw [if_pos hlast]
      refine ⟨Nat.mod_lt _ (by decide), hpop, ?_, ?_⟩
      · simp only [releaseIrq, hnil, List.length_nil]
        omega
      · simp [releaseIrq, hnil]
    · have hne : q ≠ [] := by
        rintro rfl
        exact hlast (by rw [hwr, List.length_nil])
      have hempty : ¬c.fifo.empty = true := by simp [h.empty_iff]
      rw [if_neg hlast]
      refine ⟨Nat.mod_lt _ (by decide), hpop, ?_, iff_of_false hempty hne⟩
      simp only [hwr]
      omega
  · rw [pop]
    by_cases hlast : (c.fifo.rd + 1) % 8 = c.fifo.wr
    · rw [if_pos hlast]
      rfl
    · rw [if_neg hlast]

theorem read_status_iff : (c.read 0).1 &&& 1 ≠ 0 ↔ ¬c.rxpoll.fifo.empty := by
  have hbit : ∀ x : U8, (x &&& 0x80 ||| 3) &&& 1 ≠ 0 := by decide
  have htwo : ¬(2 : U8) &&& 1 ≠ 0 := by decide
  rw [read]
  by_cases h : c.rxpoll.fifo.empty = true
  · rw [if_pos h]
    exact iff_of_false htwo fun hne => hne h
  · rw [if_neg h]
    exact iff_of_true (hbit _) h

end Console

/-! ## Traffic -/

/-- The UART with what has passed through it since the last master reset. -/
structure Traffic where
  console : Console
  /-- The characters put into the FIFO. -/
  accepted : List U8
  /-- The values of the data reads that found one. -/
  returned : List U8

namespace Traffic

/-- What can happen to the receiver. -/
inductive Event where
  | arrive (ch : U8)
  | readStatus
  | readData
  | update
  | control (val : U8)
deriving DecidableEq

def Event.apply : Event → Traffic → Traffic
  | .arrive ch, t => { t with console := t.console.arrive ch }
  | .readStatus, t =>
    { t with console := (t.console.read 0).2, accepted := t.accepted ++ t.console.accepts }
  | .readData, t =>
    { console := (t.console.read 1).2
      accepted := t.accepted ++ t.console.accepts
      returned :=
        if t.console.rxpoll.fifo.empty then t.returned
        else t.returned ++ [(t.console.read 1).1] }
  | .update, t =>
    { t with console := t.console.update, accepted := t.accepted ++ t.console.accepts }
  | .control val, t =>
    if val = 3 then { console := t.console.write 0 val, accepted := [], returned := [] }
    else { t with console := t.console.write 0 val }

def Event.step (e : Event) : EStateM Stop Traffic Unit := modify e.apply

/-- The FIFO before the first character. -/
structure Initial (t : Traffic) : Prop where
  fifo : t.console.fifo.Waits []
  noBatch : t.console.batchFile = none
  accepted : t.accepted = []
  returned : t.returned = []

/-- An unread character is in the FIFO when the next poll is done. -/
def Unread (t : Traffic) : Prop :=
  t.returned.length < (t.accepted ++ t.console.accepts).length

/-- The reads so far have returned the first of the accepted characters, converted, one of the
next poll finds the others, and only a full FIFO discards. -/
structure Delivered (t : Traffic) : Prop where
  inOrder : t.returned <+: t.accepted.map Console.convert
  status : (t.console.read 0).1 &&& 1 ≠ 0 ↔ t.Unread
  data : ¬t.console.rxpoll.fifo.empty ↔ t.Unread
  dropped : t.console.drops ≠ [] → t.accepted.length = t.returned.length + 8

/-- The accepted characters are those returned and those in the FIFO. -/
structure Split (t : Traffic) (read q : List U8) : Prop where
  noBatch : t.console.batchFile = none
  waits : t.console.fifo.Waits q
  accepted : t.accepted = read ++ q
  returned : t.returned = read.map Console.convert

def Conserved (t : Traffic) : Prop := ∃ read q, t.Split read q

variable {t : Traffic} {read q : List U8}

theorem Initial.conserved (h : t.Initial) : t.Conserved :=
  ⟨[], [], h.noBatch, h.fifo, h.accepted, h.returned⟩

theorem Conserved.delivered : t.Conserved → t.Delivered := by
  rintro ⟨read, q, h⟩
  have hpoll := Console.rxpoll_waits h.noBatch h.waits
  have hunread : ¬t.console.rxpoll.fifo.empty ↔ t.Unread := by
    rw [hpoll.empty_iff, Unread, h.accepted, h.returned, ← List.length_eq_zero_iff]
    simp only [List.length_append, List.length_map]
    omega
  refine ⟨?_, Console.read_status_iff.trans hunread, hunread, ?_⟩
  · rw [h.returned, h.accepted, List.map_append]
    exact List.prefix_append _ _
  · intro hdrops
    have hfull : t.console.Full := by
      by_contra hroom
      exact hdrops (if_neg hroom)
    rw [h.accepted, h.returned, List.length_append, List.length_map, h.waits.full_iff.mp hfull]

/-! ## Runs -/

/-- A master reset is written only while the read index is 0. -/
def ResetAtZero : Event → Traffic → Prop
  | .control val, t => val = 3 → t.console.fifo.rd = 0
  | _, _ => True

instance ResetAtZero.decidable : ∀ e t, Decidable (ResetAtZero e t)
  | .control _, _ => inferInstanceAs (Decidable (_ → _))
  | .arrive _, _ => isTrue trivial
  | .readStatus, _ => isTrue trivial
  | .readData, _ => isTrue trivial
  | .update, _ => isTrue trivial

theorem Split.polled (h : t.Split read q) {c : Console} (hc : c.fifo = t.console.rxpoll.fifo)
    (hbatch : c.batchFile = t.console.rxpoll.batchFile) :
    Split { t with console := c, accepted := t.accepted ++ t.console.accepts } read
      (q ++ t.console.accepts) where
  noBatch := hbatch.trans (Console.rxpoll_batchFile h.noBatch)
  waits := by
    rw [hc]
    exact Console.rxpoll_waits h.noBatch h.waits
  accepted := by simp only [h.accepted, List.append_assoc]
  returned := h.returned

theorem Split.readData (h : t.Split read q) : (Event.readData.apply t).Conserved := by
  have hpoll := Console.rxpoll_waits h.noBatch h.waits
  have hbatch := Console.rxpoll_batchFile h.noBatch
  have haccepted : t.accepted ++ t.console.accepts = read ++ (q ++ t.console.accepts) := by
    rw [h.accepted, List.append_assoc]
  rw [Event.apply, Console.read]
  generalize q ++ t.console.accepts = q' at hpoll haccepted
  by_cases hempty : t.console.rxpoll.fifo.empty = true
  · simp only [if_pos hempty]
    exact ⟨read, q', hbatch, hpoll, haccepted, h.returned⟩
  · simp only [if_neg hempty]
    rcases q' with _ | ⟨ch, rest⟩
    · exact absurd (hpoll.empty_iff.mpr rfl) hempty
    · obtain ⟨hvalue, hwaits, hsame⟩ := Console.pop_waits hpoll
      refine ⟨read ++ [ch], rest, hsame.trans hbatch, hwaits, ?_, ?_⟩
      · rw [List.append_assoc]
        exact haccepted
      · rw [h.returned, hvalue, List.map_append]
        rfl

theorem step_conserved (e : Event) :
    Triple (fun t => t.Conserved ∧ ResetAtZero e t) e.step (fun _ => Conserved)
      (fun _ => False) := by
  apply Triple.modify
  rintro t ⟨⟨read, q, h⟩, hok⟩
  cases e with
  | arrive ch => exact ⟨read, q, h.noBatch, h.waits, h.accepted, h.returned⟩
  | readStatus => exact ⟨read, _, h.polled rfl rfl⟩
  | readData => exact h.readData
  | update =>
    refine ⟨read, _, h.polled ?_ ?_⟩
    · rw [Console.update]
      split <;> rfl
    · rw [Console.update]
      split <;> rfl
  | control val =>
    rw [Event.apply, Console.write]
    by_cases hval : val = 3
    · simp only [if_pos hval]
      exact ⟨[], [], h.noBatch, h.waits.reset (hok hval), rfl, rfl⟩
    · simp only [if_neg hval]
      exact ⟨read, q, h.noBatch, h.waits, h.accepted, h.returned⟩

/-- Over every run whose master resets find the read index at 0, the receiver delivers. -/
theorem delivered_along_run {es : List Event} {t₀ : Traffic} (hinit : t₀.Initial)
    (hok : Along Event.step ResetAtZero es t₀) :
    ∃ t, runAll Event.step es t₀ = .ok () t ∧ t.Delivered := by
  obtain ⟨_, t, hrun, ht⟩ :=
    (runAll_invariant step_conserved es).total ⟨hinit.conserved, hok⟩
  exact ⟨t, hrun, ht.delivered⟩

/-- The UART as `multicomp09_init` leaves it. -/
def initial : Traffic := ⟨Console.initial, [], []⟩

theorem initial_initial : initial.Initial where
  fifo := ⟨by decide, Ring.holds_nil, rfl, by decide⟩
  noBatch := rfl
  accepted := rfl
  returned := rfl

/-- The driver's reset, then a typed line. -/
def line : List Event :=
  [.control 3, .control 0x80, .arrive 104, .arrive 105, .readStatus, .update, .readData, .arrive 10,
    .readData, .readData]

theorem delivered_line : ∃ t, runAll Event.step line initial = .ok () t ∧ t.Delivered :=
  delivered_along_run initial_initial (by decide)

/-- After a reset in the middle of traffic a data read returns what it finds at the old index. -/
theorem not_delivered_reset :
    ∃ t, runAll Event.step [.arrive 97, .readData, .control 3, .arrive 98, .readData] initial =
      .ok () t ∧ t.accepted = [98] ∧ t.returned = [0] ∧ ¬t.Delivered := by
  refine ⟨_, rfl, by decide, by decide, fun h => ?_⟩
  have horder := h.inOrder
  revert horder
  decide

end Traffic

end Exec09.Multicomp
