import Exec09.Multicomp.Mapper
import Exec09.Multicomp.Receive

/-! # Input from the batch file of multicomp09

A poll takes the next byte of the file if the FIFO has room. At the end of the
file nothing is read, but what is in the local variable goes into the FIFO all
the same, and the keyboard is not polled.
-/
namespace Exec09.Multicomp
open Foundation

namespace Console
variable {c : Console} {file : List U8} {q : List U8}

/-- What a poll puts into the FIFO. -/
def puts (c : Console) : List U8 :=
  match c.batchFile with
  | some file => if c.Full then [] else [file.headD c.junk]
  | none => c.accepts

theorem rxpoll_some (h : c.batchFile = some file) :
    c.rxpoll = if c.Full then c else
      { c with
        fifo := c.fifo.put (file.headD c.junk)
        batchFile := some file.tail } := by
  have hroom : (c.fifo.empty = true ∨ c.fifo.rd ≠ c.fifo.wr) ↔ ¬c.Full := by
    rw [Full]
    cases c.fifo.empty <;> simp [eq_comm]
  rw [rxpoll, h]
  dsimp only
  by_cases hfull : c.Full
  · rw [if_neg fun hr => hroom.mp hr hfull, if_pos hfull]
  · rw [if_pos (hroom.mpr hfull), if_neg hfull]
    cases file with
    | nil =>
      rw [List.headD_nil, List.tail_nil, ← h]
    | cons ch rest => rfl

theorem rxpoll_puts (h : c.batchFile = some file) (hq : c.fifo.Waits q) :
    c.rxpoll.fifo.Waits (q ++ c.puts) := by
  rw [rxpoll_some h, puts, h]
  dsimp only
  by_cases hfull : c.Full
  · rw [if_pos hfull, if_pos hfull, List.append_nil]
    exact hq
  · have hroom : q.length < 8 :=
      lt_of_le_of_ne hq.holds.length_le fun h8 => hfull (hq.full_iff.mpr h8)
    rw [if_neg hfull, if_neg hfull]
    exact hq.put hroom

end Console

/-- The console with what its polls have put into the FIFO. -/
structure Feed where
  console : Console
  accepted : List U8
  /-- The characters typed so far, fetched or not. -/
  typed : List U8
  /-- A poll with room for it has left a typed character where it was, with no file to read. -/
  ignored : Bool

namespace Feed

/-- What is left of the file. -/
def remaining (t : Feed) : List U8 := t.console.batchFile.getD []

/-- After a poll that has left this console. -/
def polled (c : Console) (t : Feed) : Feed where
  console := c
  accepted := t.accepted ++ t.console.puts
  typed := t.typed
  ignored := t.ignored || decide (t.remaining = [] ∧ ¬t.console.Full ∧
    t.console.keyboard ≠ [] ∧ c.keyboard = t.console.keyboard)

/-- A key is pressed, or one of the three functions that poll is called. -/
inductive Event where
  | arrive (ch : U8)
  | readStatus
  | readData
  | update
deriving DecidableEq

def Event.apply : Event → Feed → Feed
  | .arrive ch, t =>
    { t with
      console := t.console.arrive ch
      typed := t.typed ++ [ch] }
  | .readStatus, t => t.polled (t.console.read 0).2
  | .readData, t => t.polled (t.console.read 1).2
  | .update, t => t.polled t.console.update

def Event.step (e : Event) : EStateM Stop Feed Unit := modify e.apply

/-- Before the first poll. -/
structure Initial (file : List U8) (t : Feed) : Prop where
  fifo : t.console.fifo.Waits []
  batchFile : t.console.batchFile = some file
  accepted : t.accepted = []
  typed : t.typed = t.console.keyboard
  ignored : t.ignored = false

/-- The bytes of the file have been put into the FIFO in order, each once, and behind the last of
them characters that were typed; those not read yet are still there. -/
structure Fed (file : List U8) (t : Feed) : Prop where
  queued : ∃ read q, t.accepted = read ++ q ∧ t.console.fifo.Waits q
  inOrder : ∃ keys, t.accepted ++ t.remaining = file ++ keys ∧
    (keys ++ t.console.keyboard).Sublist t.typed ∧ (keys ≠ [] → t.remaining = [])
  served : t.ignored = false

/-- The poll does not find the file exhausted while there is room. -/
def Unexhausted : Event → Feed → Prop
  | .arrive _, _ => True
  | _, t => t.remaining = [] → t.console.Full

instance Unexhausted.decidable : ∀ e t, Decidable (Unexhausted e t)
  | .arrive _, _ => isTrue trivial
  | .readStatus, _ => inferInstanceAs (Decidable (_ → _))
  | .readData, _ => inferInstanceAs (Decidable (_ → _))
  | .update, _ => inferInstanceAs (Decidable (_ → _))

/-! ## One event -/

/-- The file is open, and no character has been fetched from the keyboard. -/
structure Unfetched (t : Feed) : Prop where
  opened : t.console.batchFile.isSome
  typed : t.typed = t.console.keyboard

variable {file : List U8} {t : Feed}

/-- A function that polls leaves the file and the keyboard as the poll does. -/
structure Polls (t : Feed) (c : Console) : Prop where
  batchFile : c.batchFile = t.console.rxpoll.batchFile
  keyboard : c.keyboard = t.console.rxpoll.keyboard
  fifo : ∀ q, t.console.rxpoll.fifo.Waits q → ∃ front back, q = front ++ back ∧ c.fifo.Waits back

theorem readStatus_polls : t.Polls (t.console.read 0).2 :=
  ⟨rfl, rfl, fun q hq => ⟨[], q, rfl, hq⟩⟩

theorem update_polls : t.Polls t.console.update := by
  rw [Console.update]
  split
  · exact ⟨rfl, rfl, fun q hq => ⟨[], q, rfl, hq⟩⟩
  · exact ⟨rfl, rfl, fun q hq => ⟨[], q, rfl, hq⟩⟩

theorem pop_keyboard (c : Console) : c.pop.2.keyboard = c.keyboard ∧
    c.pop.2.batchFile = c.batchFile := by
  rw [Console.pop]
  dsimp only
  split <;> exact ⟨rfl, rfl⟩

theorem readData_polls : t.Polls (t.console.read 1).2 := by
  rw [Console.read]
  split
  · exact ⟨rfl, rfl, fun q hq => ⟨[], q, rfl, hq⟩⟩
  · rename_i hempty
    obtain ⟨hkeyboard, hfile⟩ := pop_keyboard t.console.rxpoll
    refine ⟨hfile, hkeyboard, fun q hq => ?_⟩
    cases q with
    | nil => exact absurd (hq.empty_iff.mpr rfl) hempty
    | cons ch q => exact ⟨[ch], q, rfl, (Console.pop_waits hq).2.1⟩

/-- While nothing has been fetched from the keyboard, what was accepted is the file. -/
theorem Fed.accepted_eq (h : t.Fed file) (hu : t.Unfetched) : t.accepted ++ t.remaining = file := by
  obtain ⟨keys, horder, htyped, -⟩ := h.inOrder
  have hlength := htyped.length_le
  rw [hu.typed, List.length_append] at hlength
  have hkeys : keys = [] := List.length_eq_zero_iff.mp (by omega)
  rw [horder, hkeys, List.append_nil]

section Polled
variable {c : Console} {l : List U8}

theorem polled_unfetched (hu : t.Unfetched) (hc : t.Polls c) : (t.polled c).Unfetched := by
  obtain ⟨l, hl⟩ := Option.isSome_iff_exists.mp hu.opened
  have hpoll := Console.rxpoll_some hl
  refine ⟨?_, ?_⟩
  · rw [polled, hc.batchFile, hpoll]
    split
    · exact hu.opened
    · rfl
  · rw [polled, hc.keyboard, hpoll, hu.typed]
    split <;> rfl

/-- A poll that finds the FIFO full changes nothing. -/
theorem polled_full (hl : t.console.batchFile = some l) (hfull : t.console.Full)
    (hc : t.Polls c) : (t.polled c).accepted = t.accepted ∧ (t.polled c).remaining = t.remaining ∧
      (t.polled c).ignored = t.ignored := by
  have hpoll := Console.rxpoll_some hl
  rw [if_pos hfull] at hpoll
  refine ⟨?_, ?_, ?_⟩
  · rw [polled, Console.puts, hl]
    simp [hfull]
  · rw [remaining, polled, hc.batchFile, hpoll]
    rfl
  · simp [polled, hfull]

/-- A poll with room takes the next byte, or puts what it finds into the FIFO. -/
theorem polled_room (hl : t.console.batchFile = some l) (hroom : ¬t.console.Full)
    (hc : t.Polls c) : (t.polled c).accepted = t.accepted ++ [l.headD t.console.junk] ∧
      (t.polled c).remaining = l.tail ∧ (l ≠ [] → (t.polled c).ignored = t.ignored) := by
  have hpoll := Console.rxpoll_some hl
  rw [if_neg hroom] at hpoll
  refine ⟨?_, ?_, fun hne => ?_⟩
  · rw [polled, Console.puts, hl]
    simp [hroom]
  · rw [remaining, polled, hc.batchFile, hpoll]
    rfl
  · have hleft : t.remaining = l := by rw [remaining, hl]; rfl
    simp [polled, hleft, hne]

/-- A poll feeds exactly if it does not find the file exhausted while there is room. -/
theorem polled_fed_iff (h : t.Fed file) (hu : t.Unfetched) (hc : t.Polls c) :
    (t.polled c).Fed file ↔ (t.remaining = [] → t.console.Full) := by
  obtain ⟨l, hl⟩ := Option.isSome_iff_exists.mp hu.opened
  have hleft : t.remaining = l := by rw [remaining, hl]; rfl
  have haccepted := h.accepted_eq hu
  have hunfetched := polled_unfetched hu hc
  have hqueued : ∃ read q, (t.polled c).accepted = read ++ q ∧ (t.polled c).console.fifo.Waits q := by
    obtain ⟨read, q, hread, hq⟩ := h.queued
    obtain ⟨front, back, hsplit, hback⟩ := hc.fifo _ (Console.rxpoll_puts hl hq)
    refine ⟨read ++ front, back, ?_, hback⟩
    rw [polled, hread, List.append_assoc, hsplit, List.append_assoc]
  have hkeys : ∀ {x : Feed}, x.Unfetched → x.accepted ++ x.remaining = file →
      ∃ keys, x.accepted ++ x.remaining = file ++ keys ∧
        (keys ++ x.console.keyboard).Sublist x.typed ∧ (keys ≠ [] → x.remaining = []) := by
    intro x hx hfile
    refine ⟨[], by rw [hfile, List.append_nil], ?_, fun hne => absurd rfl hne⟩
    rw [hx.typed]
    exact List.Sublist.refl _
  by_cases hfull : t.console.Full
  · obtain ⟨hacc, hrem, hign⟩ := polled_full hl hfull hc
    refine iff_of_true ⟨hqueued, hkeys hunfetched ?_, hign.trans h.served⟩ fun _ => hfull
    rw [hacc, hrem, haccepted]
  · obtain ⟨hacc, hrem, hign⟩ := polled_room hl hfull hc
    rw [hleft] at haccepted ⊢
    cases l with
    | cons ch rest =>
      refine iff_of_true ⟨hqueued, hkeys hunfetched ?_, (hign (by simp)).trans h.served⟩ (by simp)
      rw [hacc, hrem, ← haccepted, List.append_assoc]
      rfl
    | nil =>
      -- The byte that is put into the FIFO is not in the file.
      refine iff_of_false (fun hfed => ?_) fun hin => hfull (hin rfl)
      have hmore := hfed.accepted_eq hunfetched
      rw [hacc, hrem, ← haccepted] at hmore
      have hlength := congrArg List.length hmore
      simp at hlength

end Polled

theorem step_unfetched (e : Event) (hu : t.Unfetched) : (e.apply t).Unfetched := by
  cases e with
  | arrive ch => exact ⟨hu.opened, congrArg (fun l => l ++ [ch]) hu.typed⟩
  | readStatus => exact polled_unfetched hu readStatus_polls
  | readData => exact polled_unfetched hu readData_polls
  | update => exact polled_unfetched hu update_polls

theorem step_fed_iff (e : Event) (h : t.Fed file) (hu : t.Unfetched) :
    (e.apply t).Fed file ↔ Unexhausted e t := by
  cases e with
  | arrive ch =>
    refine iff_of_true ⟨h.queued, ?_, h.served⟩ trivial
    refine ⟨[], ?_, ?_, fun hne => absurd rfl hne⟩
    · rw [List.append_nil]
      exact h.accepted_eq hu
    · exact (congrArg (fun l => l ++ [ch]) hu.typed) ▸ List.Sublist.refl _
  | readStatus => exact polled_fed_iff h hu readStatus_polls
  | readData => exact polled_fed_iff h hu readData_polls
  | update => exact polled_fed_iff h hu update_polls

/-! ## Runs -/

theorem Initial.fed (h : t.Initial file) : t.Fed file where
  queued := ⟨[], [], h.accepted, h.fifo⟩
  inOrder := by
    refine ⟨[], ?_, ?_, fun hne => absurd rfl hne⟩
    · rw [h.accepted, remaining, h.batchFile, List.append_nil]
      rfl
    · rw [h.typed]
      exact List.Sublist.refl _
  served := h.ignored

theorem Initial.unfetched (h : t.Initial file) : t.Unfetched where
  opened := by rw [h.batchFile]; rfl
  typed := h.typed

/-- The machine initialises the console so. -/
theorem initial_openFiles (file : List U8) (sdFile : Option File) (p : Priv) :
    Initial file ⟨(openFiles (some file) sdFile p).console, [], p.console.keyboard, false⟩ where
  fifo := ⟨Nat.zero_lt_succ _, Ring.holds_nil, rfl, by simp [openFiles, Console.releaseIrq]⟩
  batchFile := rfl
  accepted := rfl
  typed := rfl
  ignored := rfl

/-- Every part of a run feeds the file, and then the keyboard, to the guest exactly if no poll of
the run finds the file exhausted while there is room. -/
theorem fed_iff_unexhausted {t₀ : Feed} (h : t₀.Initial file) (es : List Event) :
    (∀ es', es' <+: es → OnReturn (runAll Event.step es') t₀ fun _ t => t.Fed file) ↔
      Along Event.step Unexhausted es t₀ := by
  have hunfetched (es : List Event) :
      Triple (fun t => t.Unfetched) (runAll Event.step es) (fun _ t => t.Unfetched)
        fun _ => True :=
    runAll_keeps (fun e => Triple.modify fun t hu => step_unfetched e hu) es
  have hboth : Along Event.step Unexhausted es t₀ ↔ ∀ es', es' <+: es →
      OnReturn (runAll Event.step es') t₀ fun _ t => t.Fed file ∧ t.Unfetched := by
    refine along_iff_prefixes (I := fun t : Feed => t.Fed file ∧ t.Unfetched) (fun e t ht => ?_)
      ⟨h.fed, h.unfetched⟩
    have hrun : e.step t = .ok () (e.apply t) := rfl
    rw [onReturn_ok hrun, step_fed_iff e ht.1 ht.2 |>.symm]
    exact (and_iff_left (step_unfetched e ht.2)).symm
  rw [hboth]
  refine forall₂_congr fun es' _ => ?_
  have hkept := hunfetched es' t₀ h.unfetched
  unfold OnReturn
  cases hrun : runAll Event.step es' t₀ with
  | ok a t =>
    rw [hrun] at hkept
    exact (and_iff_left hkept).symm
  | error e t => exact Iff.rfl

/-- The UART with a batch file, as `multicomp09_init` leaves it. -/
def batched (file : List U8) : Feed := ⟨(openFiles (some file) none Priv.start).console, [], [], false⟩

theorem fed_two : Along Event.step Unexhausted [.readStatus, .arrive 97, .readData] (batched [104, 105]) ∧
    ((∀ es', es' <+: [Event.readStatus, .arrive 97, .readData] →
        OnReturn (runAll Event.step es') (batched [104, 105]) fun _ t => t.Fed [104, 105]) ↔
      Along Event.step Unexhausted [.readStatus, .arrive 97, .readData] (batched [104, 105])) :=
  ⟨by decide, fed_iff_unexhausted (initial_openFiles [104, 105] none Priv.start) _⟩

/-- The first poll of an empty file puts a byte into the FIFO. -/
theorem byte_invented : ¬∀ (file : List U8) (t₀ : Feed) (es : List Event), t₀.Initial file →
    ∀ es', es' <+: es → OnReturn (runAll Event.step es') t₀ fun _ t => t.Fed file := by
  intro h
  have hinit : (batched []).Initial [] := initial_openFiles [] none Priv.start
  have hfed : (Event.readStatus.apply (batched [])).Fed [] :=
    h [] _ [.readStatus] hinit _ List.prefix_rfl
  have hfull := (step_fed_iff .readStatus hinit.fed hinit.unfetched).mp hfed rfl
  revert hfull
  decide

end Feed

end Exec09.Multicomp
