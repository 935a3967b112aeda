import Mathlib.Data.List.GetD
import Exec09.Foundation.CString
import Exec09.Foundation.CText
import Exec09.Foundation.Program

/-! # Programs that cut up a string where it stands

A program has the bytes of the memory beside its own state. It reads characters
and strings, it cuts a string in two by writing a zero over a character, and it
notes what it touches and which strings it hands on. A program that stays in a
string leaves all else as it was, so that it may be called for one part of a
string without disturbing another.
-/
namespace Exec09.Foundation

inductive BufferEvent (κ : Type)
  | read (a : ℕ)
  | write (a : ℕ)
  /-- A call of `f` for the string at `p`, and the memory at that time. -/
  | call (f : κ) (p : ℕ) (mem : ℕ → BitVec 8)

/-- The log has the latest event first. -/
structure InMemory (κ σ : Type) where
  rest : σ
  mem : ℕ → BitVec 8
  log : List (BufferEvent κ)

namespace InMemory
variable {ε κ σ α β : Type}

def enter (f : κ) (p : ℕ) : EStateM ε (InMemory κ σ) Unit :=
  modify fun s => { s with log := .call f p s.mem :: s.log }

def readChar (p : ℕ) : EStateM ε (InMemory κ σ) (BitVec 8) := do
  modify fun s => { s with log := .read p :: s.log }
  return (← get).mem p

/-- `*p = '\0'`. -/
def writeNul (p : ℕ) : EStateM ε (InMemory κ σ) Unit :=
  modify fun s => { s with mem := Function.update s.mem p 0, log := .write p :: s.log }

/-- The string at `p`, if it ends within this many characters. A library function that is given
the string reads no more of it. -/
def readString (e : ε) : ℕ → ℕ → EStateM ε (InMemory κ σ) Text
  | 0, _ => throw e
  | n + 1, p => do
    let c ← readChar p
    if c = 0 then return []
    else return c :: (← readString e n (p + 1))

instance readString_refuels (e : ε) (n p : ℕ) :
    Refuels e (readString (κ := κ) (σ := σ) e n p) (readString e (n + 1) p) := by
  induction n generalizing p with
  | zero => exact Refuels.throw
  | succ n ih =>
    rw [readString, readString]
    infer_instance

/-- Run a program that has nothing to do with the memory. -/
def onRest (m : EStateM ε σ α) : EStateM ε (InMemory κ σ) α := fun s =>
  match m s.rest with
  | .ok a u => .ok a { s with rest := u }
  | .error e u => .error e { s with rest := u }

end InMemory

/-! ## Parts of a string -/

namespace CString
variable {mem : ℕ → BitVec 8} {p q r : ℕ} {s t u : CString}

/-- The string `u` at `q` is within the string `t` at `p`. -/
structure Part (q : ℕ) (u : CString) (p : ℕ) (t : CString) : Prop where
  start : p ≤ q
  stop : q + u.length ≤ p + t.length
  bytes : u.bytes <+: t.bytes.drop (q - p)

theorem Part.refl (p : ℕ) (t : CString) : Part p t p t where
  start := le_rfl
  stop := le_rfl
  bytes := by simp

theorem Part.trans (h : Part r s q u) (h' : Part q u p t) : Part r s p t where
  start := h'.start.trans h.start
  stop := h.stop.trans h'.stop
  bytes := by
    have hdrop : t.bytes.drop (r - p) = (t.bytes.drop (q - p)).drop (r - q) := by
      have hstart := h.start
      have hstart' := h'.start
      rw [List.drop_drop]
      congr 1
      omega
    rw [hdrop]
    exact h.bytes.trans (h'.bytes.drop (r - q))

/-- A string cut at an operator. -/
structure Cut (t : CString) (before : CString) (op : Text) (after : CString) : Prop where
  eq : t.bytes = before.bytes ++ op ++ after.bytes
  op_ne : op ≠ []

theorem exists_cut {a op b : Text} (h : t.bytes = a ++ op ++ b) (hop : op ≠ []) :
    ∃ before after : CString, before.bytes = a ∧ after.bytes = b ∧ Cut t before op after := by
  have hnoNul := t.noNul
  rw [h] at hnoNul
  refine ⟨⟨a, fun ha => hnoNul ?_⟩, ⟨b, fun hb => hnoNul ?_⟩, rfl, rfl, h, hop⟩
  · exact List.mem_append_left _ (List.mem_append_left _ ha)
  · exact List.mem_append_right _ hb

/-- Where the string agrees, it is held. -/
theorem Holds.congr {mem' : ℕ → BitVec 8} (h : Holds mem p t)
    (heq : ∀ a, p ≤ a → a ≤ p + t.length → mem' a = mem a) : Holds mem' p t := by
  intro i hi
  rw [heq (p + i) (Nat.le_add_right p i) (Nat.add_le_add_left hi p)]
  exact h i hi

/-- The first character of a string, or the zero at its end. -/
theorem Holds.first (h : Holds mem p t) : mem p = t.byte 0 := h 0 (Nat.zero_le _)

namespace Cut
variable {before after : CString} {op : Text}

theorem length_eq (h : Cut t before op after) :
    t.length = before.length + op.length + after.length := by
  rw [CString.length, h.eq, List.length_append, List.length_append]
  rfl

theorem op_pos (h : Cut t before op after) : 0 < op.length := List.length_pos_of_ne_nil h.op_ne

theorem before_part (h : Cut t before op after) (p : ℕ) : Part p before p t where
  start := le_rfl
  stop := by
    rw [h.length_eq]
    omega
  bytes := by
    rw [Nat.sub_self, List.drop_zero, h.eq, List.append_assoc]
    exact List.prefix_append _ _

theorem after_part (h : Cut t before op after) (p : ℕ) :
    Part (p + before.length + op.length) after p t where
  start := by omega
  stop := by
    rw [h.length_eq]
    omega
  bytes := by
    have hdrop : p + before.length + op.length - p = (before.bytes ++ op).length := by
      rw [List.length_append]
      exact Nat.sub_eq_of_eq_add' (Nat.add_assoc _ _ _)
    rw [h.eq, hdrop, List.drop_left]

/-- The zero over the operator ends the part before it. -/
theorem holds_before (h : Cut t before op after) (hold : Holds mem p t) :
    Holds (Function.update mem (p + before.length) 0) p before := by
  have hop := h.op_pos
  intro i hi
  rcases Nat.lt_or_eq_of_le hi with hlt | rfl
  · have hbyte := hold i (by rw [h.length_eq]; omega)
    rw [Function.update_of_ne (by omega), hbyte, byte, byte, h.eq, List.append_assoc,
      List.getD_append _ _ _ _ hlt]
  · rw [Function.update_self]
    exact (List.getD_eq_default _ _ (le_refl before.bytes.length)).symm

theorem holds_after (h : Cut t before op after) (hold : Holds mem p t) :
    Holds (Function.update mem (p + before.length) 0) (p + before.length + op.length) after := by
  have hop := h.op_pos
  intro i hi
  have hbyte := hold (before.length + op.length + i) (by rw [h.length_eq]; omega)
  have hle : (before.bytes ++ op).length ≤ before.length + op.length + i := by
    rw [List.length_append]
    exact Nat.le_add_right _ _
  have hsub : before.length + op.length + i - (before.bytes ++ op).length = i := by
    rw [List.length_append]
    exact Nat.add_sub_cancel_left _ _
  rw [Function.update_of_ne (by omega), Nat.add_assoc p, Nat.add_assoc p, hbyte, byte, byte, h.eq,
    List.getD_append_right _ _ _ _ hle, hsub]

end Cut

/-- The string after the first character. -/
theorem exists_tail {c : BitVec 8} {b : Text} (h : t.bytes = c :: b) :
    ∃ u : CString, u.bytes = b ∧ t.length = u.length + 1 ∧
      ∀ p, Part (p + 1) u p t ∧ ∀ mem, Holds mem p t → Holds mem (p + 1) u := by
  have hnoNul := t.noNul
  rw [h] at hnoNul
  have hlength : t.length = b.length + 1 := by rw [CString.length, h, List.length_cons]
  refine ⟨⟨b, fun hb => hnoNul (List.mem_cons_of_mem c hb)⟩, rfl, hlength, fun p => ⟨⟨?_, ?_, ?_⟩, ?_⟩⟩
  · exact Nat.le_add_right p 1
  · rw [hlength]
    exact (Nat.add_right_comm p 1 _).le
  · rw [Nat.add_sub_cancel_left, h, List.drop_one, List.tail_cons]
  · intro mem hold i hi
    have hnext := hold (i + 1) (by rw [hlength]; exact Nat.succ_le_succ hi)
    rw [byte, h, List.getD_cons_succ] at hnext
    rw [show p + 1 + i = p + (i + 1) by omega, hnext]
    rfl

end CString

/-! ## Staying in a string -/

namespace InMemory
variable {ε κ σ α β : Type} {p q : ℕ} {t u : CString}

/-- What an event may touch. -/
def Inside (p : ℕ) (t : CString) : BufferEvent κ → Prop
  | .read a => p ≤ a ∧ a ≤ p + t.length
  | .write a => p ≤ a ∧ a < p + t.length
  | .call _ q mem => ∃ u, CString.Part q u p t ∧ CString.Holds mem q u

theorem Inside.mono {e : BufferEvent κ} (h : Inside q u e) (hpart : CString.Part q u p t) :
    Inside p t e := by
  have hstart := hpart.start
  have hstop := hpart.stop
  cases e with
  | read a => exact ⟨hstart.trans h.1, h.2.trans hstop⟩
  | write a => exact ⟨hstart.trans h.1, h.2.trans_le hstop⟩
  | call f r mem =>
    obtain ⟨v, hv, hholds⟩ := h
    exact ⟨v, hv.trans hpart, hholds⟩

/-- From `s` to `s'` nothing outside of the string is touched. -/
structure Ran (p : ℕ) (t : CString) (s s' : InMemory κ σ) : Prop where
  frame : ∀ a, a < p ∨ p + t.length ≤ a → s'.mem a = s.mem a
  events : ∃ new, s'.log = new ++ s.log ∧ ∀ e ∈ new, Inside p t e

namespace Ran
variable {s s' s'' : InMemory κ σ}

theorem refl (p : ℕ) (t : CString) (s : InMemory κ σ) : Ran p t s s where
  frame _ _ := rfl
  events := ⟨[], rfl, List.forall_mem_nil _⟩

theorem trans (h : Ran p t s s') (h' : Ran p t s' s'') : Ran p t s s'' where
  frame a ha := (h'.frame a ha).trans (h.frame a ha)
  events := by
    obtain ⟨new, hlog, hnew⟩ := h.events
    obtain ⟨new', hlog', hnew'⟩ := h'.events
    refine ⟨new' ++ new, by rw [hlog', hlog, List.append_assoc], ?_⟩
    exact List.forall_mem_append.mpr ⟨hnew', hnew⟩

theorem mono (h : Ran q u s s') (hpart : CString.Part q u p t) : Ran p t s s' where
  frame a ha := by
    have hstart := hpart.start
    have hstop := hpart.stop
    exact h.frame a (by omega)
  events := by
    obtain ⟨new, hlog, hnew⟩ := h.events
    exact ⟨new, hlog, fun e he => (hnew e he).mono hpart⟩

/-- A string beside the one that was worked on. -/
theorem holds (h : Ran q u s s') {r : ℕ} {v : CString} (hv : CString.Holds s.mem r v)
    (hout : r + v.length < q ∨ q + u.length ≤ r) : CString.Holds s'.mem r v :=
  hv.congr fun a hlo hhi => h.frame a (by omega)

/-- One event that leaves the memory. -/
theorem event {e : BufferEvent κ} (he : Inside p t e) (s : InMemory κ σ) :
    Ran p t s { s with log := e :: s.log } where
  frame _ _ := rfl
  events := ⟨[e], rfl, List.forall_mem_singleton.mpr he⟩

end Ran

/-- Run from `s`, the program returns, it leaves the other state and stays in the string. -/
def Silent (p : ℕ) (t : CString) (s : InMemory κ σ) (m : EStateM ε (InMemory κ σ) α)
    (Q : α → InMemory κ σ → Prop) : Prop :=
  ∃ a s', m s = .ok a s' ∧ s'.rest = s.rest ∧ Ran p t s s' ∧ Q a s'

namespace Silent
variable {s : InMemory κ σ} {m : EStateM ε (InMemory κ σ) α} {Q : α → InMemory κ σ → Prop}
  {R : β → InMemory κ σ → Prop} {f : α → EStateM ε (InMemory κ σ) β}

theorem bind (hm : Silent p t s m Q)
    (hf : ∀ a s', Ran p t s s' → Q a s' → Silent p t s' (f a) R) : Silent p t s (m >>= f) R := by
  obtain ⟨a, s', hr, hrest, hran, hq⟩ := hm
  obtain ⟨b, s'', hr', hrest', hran', hq'⟩ := hf a s' hran hq
  exact ⟨b, s'', by rw [run_bind_ok hr, hr'], hrest'.trans hrest, hran.trans hran', hq'⟩

theorem pure {a : α} (h : Q a s) : Silent p t s (pure a : EStateM ε (InMemory κ σ) α) Q :=
  ⟨a, s, rfl, rfl, Ran.refl p t s, h⟩

theorem imp {Q' : α → InMemory κ σ → Prop} (h : Silent p t s m Q)
    (hq : ∀ a s', Q a s' → Q' a s') : Silent p t s m Q' := by
  obtain ⟨a, s', hr, hrest, hran, ha⟩ := h
  exact ⟨a, s', hr, hrest, hran, hq a s' ha⟩

theorem enter (c : κ) (hpart : CString.Part q u p t) (h : CString.Holds s.mem q u) :
    Silent p t s (InMemory.enter (ε := ε) c q) fun _ s' => s'.mem = s.mem := by
  have hinside : Inside p t (.call c q s.mem) := ⟨u, hpart, h⟩
  exact ⟨_, _, rfl, rfl, Ran.event hinside s, rfl⟩

theorem readChar {a : ℕ} (hlo : p ≤ a) (hhi : a ≤ p + t.length) :
    Silent p t s (InMemory.readChar (ε := ε) a) fun c s' => c = s.mem a ∧ s'.mem = s.mem := by
  have hinside : Inside p t (.read a : BufferEvent κ) := ⟨hlo, hhi⟩
  exact ⟨_, _, rfl, rfl, Ran.event hinside s, rfl, rfl⟩

theorem writeNul {a : ℕ} (hlo : p ≤ a) (hhi : a < p + t.length) :
    Silent p t s (InMemory.writeNul (ε := ε) a) fun _ s' =>
      s'.mem = Function.update s.mem a 0 := by
  have hinside : Inside p t (.write a : BufferEvent κ) := ⟨hlo, hhi⟩
  refine ⟨_, _, rfl, rfl, ⟨fun b hb => ?_, [.write a], rfl, ?_⟩, rfl⟩
  · exact Function.update_of_ne (by omega) 0 s.mem
  · exact List.forall_mem_singleton.mpr hinside

/-- The first character of a string, or its zero. -/
theorem readFirst (hpart : CString.Part q u p t) (h : CString.Holds s.mem q u) :
    Silent p t s (InMemory.readChar (ε := ε) q) fun c s' => c = u.byte 0 ∧ s'.mem = s.mem := by
  have hstop := hpart.stop
  rw [← h.first]
  exact readChar hpart.start (by omega)

/-- The zero over an operator leaves the two parts. -/
theorem cut {before after : CString} {op : Text} (hcut : CString.Cut t before op after)
    (h : CString.Holds s.mem p t) :
    Silent p t s (InMemory.writeNul (ε := ε) (p + before.length)) fun _ s' =>
      CString.Holds s'.mem p before ∧
        CString.Holds s'.mem (p + before.length + op.length) after := by
  have hlength := hcut.length_eq
  have hop := hcut.op_pos
  refine (writeNul (Nat.le_add_right p _) (by omega)).imp fun _ s' hmem => ?_
  rw [hmem]
  exact ⟨hcut.holds_before h, hcut.holds_after h⟩

/-- A string is read up to its zero. -/
theorem readString (e : ε) {fuel : ℕ} (hpart : CString.Part q u p t)
    (h : CString.Holds s.mem q u) (hfuel : u.length < fuel) :
    Silent p t s (InMemory.readString e fuel q) fun r s' => r = u.bytes ∧ s'.mem = s.mem := by
  induction fuel generalizing q u s with
  | zero => exact absurd hfuel (Nat.not_lt_zero _)
  | succ fuel ih =>
    have hstart := hpart.start
    have hstop := hpart.stop
    have hfirst := h.first
    rw [InMemory.readString]
    refine (Silent.readChar hstart (by omega)).bind ?_
    rintro c s' - ⟨rfl, hmem⟩
    cases hbytes : u.bytes with
    | nil =>
      have hend : s.mem q = 0 := by rw [hfirst, CString.byte, hbytes, List.getD_nil]
      rw [if_pos hend]
      exact Silent.pure ⟨rfl, hmem⟩
    | cons d rest =>
      have hd : s.mem q = d := by rw [hfirst, CString.byte, hbytes, List.getD_cons_zero]
      have hne : s.mem q ≠ 0 := by
        intro hzero
        exact u.noNul (by rw [hbytes, ← hd, hzero]; exact List.mem_cons_self)
      obtain ⟨v, rfl, hlength, hv⟩ := CString.exists_tail hbytes
      obtain ⟨htail, hholds⟩ := hv q
      rw [if_neg hne]
      have hrest := ih (s := s') (htail.trans hpart) (hmem ▸ hholds s.mem h) (by omega)
      refine hrest.bind ?_
      rintro r s'' - ⟨rfl, hmem'⟩
      exact Silent.pure ⟨by rw [hd], hmem'.trans hmem⟩

end Silent

/-- Run from `s`, the program stays in the string. What it returns satisfies `Q`, and if it stops,
then for a reason in `X`. -/
def Stays (X : ε → Prop) (p : ℕ) (t : CString) (s : InMemory κ σ)
    (m : EStateM ε (InMemory κ σ) α) (Q : α → InMemory κ σ → Prop) : Prop :=
  match m s with
  | .ok a s' => Ran p t s s' ∧ Q a s'
  | .error e s' => Ran p t s s' ∧ X e

namespace Stays
variable {X : ε → Prop} {s : InMemory κ σ} {m : EStateM ε (InMemory κ σ) α}
  {Q Q' : α → InMemory κ σ → Prop} {R : β → InMemory κ σ → Prop}
  {f : α → EStateM ε (InMemory κ σ) β}

theorem bind (hm : Stays X p t s m Q)
    (hf : ∀ a s', Ran p t s s' → Q a s' → Stays X p t s' (f a) R) :
    Stays X p t s (m >>= f) R := by
  rw [Stays] at hm ⊢
  cases hr : m s with
  | ok a s' =>
    rw [hr] at hm
    have hrest := hf a s' hm.1 hm.2
    rw [run_bind_ok hr]
    rw [Stays] at hrest
    cases hr' : f a s' with
    | ok b s'' =>
      rw [hr'] at hrest
      exact ⟨hm.1.trans hrest.1, hrest.2⟩
    | error e s'' =>
      rw [hr'] at hrest
      exact ⟨hm.1.trans hrest.1, hrest.2⟩
  | error e s' =>
    rw [hr] at hm
    rw [run_bind_error hr]
    exact hm

theorem pure {a : α} (h : Q a s) : Stays X p t s (pure a : EStateM ε (InMemory κ σ) α) Q :=
  ⟨Ran.refl p t s, h⟩

theorem get : Stays X p t s (get : EStateM ε (InMemory κ σ) _) fun a s' => a = s ∧ s' = s :=
  ⟨Ran.refl p t s, rfl, rfl⟩

theorem imp (h : Stays X p t s m Q) (hq : ∀ a s', Ran p t s s' → Q a s' → Q' a s') :
    Stays X p t s m Q' := by
  rw [Stays] at h ⊢
  cases hr : m s with
  | ok a s' =>
    rw [hr] at h
    exact ⟨h.1, hq a s' h.1 h.2⟩
  | error e s' =>
    rw [hr] at h
    exact h

/-- A call for a part of the string. -/
theorem part (h : Stays X q u s m Q) (hpart : CString.Part q u p t) :
    Stays X p t s m fun a s' => Q a s' ∧ Ran q u s s' := by
  rw [Stays] at h ⊢
  cases hr : m s with
  | ok a s' =>
    rw [hr] at h
    exact ⟨h.1.mono hpart, h.2, h.1⟩
  | error e s' =>
    rw [hr] at h
    exact ⟨h.1.mono hpart, h.2⟩

theorem onRest {m : EStateM ε σ α} (h : StopsFor X m) :
    Stays X p t s (InMemory.onRest m) fun _ s' => s'.mem = s.mem := by
  rw [Stays, InMemory.onRest]
  cases hr : m s.rest with
  | ok a u => exact ⟨⟨fun _ _ => rfl, [], rfl, List.forall_mem_nil _⟩, rfl⟩
  | error e u =>
    exact ⟨⟨fun _ _ => rfl, [], rfl, List.forall_mem_nil _⟩, h.stops _ _ _ hr⟩

end Stays

theorem Silent.stays {X : ε → Prop} {s : InMemory κ σ} {m : EStateM ε (InMemory κ σ) α}
    {Q : α → InMemory κ σ → Prop} (h : Silent p t s m Q) : Stays X p t s m Q := by
  obtain ⟨a, s', hr, -, hran, hq⟩ := h
  rw [Stays, hr]
  exact ⟨hran, hq⟩

/-! ## Following a program without the memory -/

/-- Run from `s`, the program does to the other state what `n` does to it, and it stops for the
same reason. -/
def Follows (s : InMemory κ σ) (m : EStateM ε (InMemory κ σ) α) (n : EStateM ε σ β)
    (R : α → β → InMemory κ σ → Prop) : Prop :=
  match m s, n s.rest with
  | .ok a s', .ok b u => s'.rest = u ∧ R a b s'
  | .error e s', .error d u => e = d ∧ s'.rest = u
  | _, _ => False

namespace Follows
variable {γ δ : Type} {s : InMemory κ σ} {m : EStateM ε (InMemory κ σ) α} {n : EStateM ε σ β}
  {R : α → β → InMemory κ σ → Prop} {R' : γ → δ → InMemory κ σ → Prop}
  {f : α → EStateM ε (InMemory κ σ) γ} {g : β → EStateM ε σ δ}

theorem bind (hm : Follows s m n R)
    (hf : ∀ a b s', R a b s' → Follows s' (f a) (g b) R') : Follows s (m >>= f) (n >>= g) R' := by
  rw [Follows] at hm ⊢
  cases hr : m s <;> cases hr' : n s.rest <;> rw [hr, hr'] at hm
  case ok.ok a s' b u =>
    obtain ⟨rfl, hR⟩ := hm
    rw [run_bind_ok hr, run_bind_ok hr']
    exact hf a b s' hR
  case error.error =>
    rw [run_bind_error hr, run_bind_error hr']
    exact hm
  all_goals exact hm.elim

/-- A step that only the program with the memory makes. -/
theorem silent {n : EStateM ε σ δ} {Q : α → InMemory κ σ → Prop} (hm : Silent p t s m Q)
    (hf : ∀ a s', Ran p t s s' → Q a s' → Follows s' (f a) n R') : Follows s (m >>= f) n R' := by
  obtain ⟨a, s', hr, hrest, hran, hq⟩ := hm
  have h := hf a s' hran hq
  rw [Follows, hrest] at h
  rw [Follows, run_bind_ok hr]
  exact h

theorem pure {a : α} {b : β} (h : R a b s) :
    Follows s (pure a : EStateM ε (InMemory κ σ) α) (pure b) R := ⟨rfl, h⟩

theorem imp {R' : α → β → InMemory κ σ → Prop} (h : Follows s m n R)
    (hR : ∀ a b s', R a b s' → R' a b s') : Follows s m n R' := by
  rw [Follows] at h ⊢
  cases hr : m s <;> cases hr' : n s.rest <;> rw [hr, hr'] at h
  case ok.ok => exact ⟨h.1, hR _ _ _ h.2⟩
  case error.error => exact h
  all_goals exact h.elim

theorem get : Follows s (get : EStateM ε (InMemory κ σ) _) (get : EStateM ε σ _)
    fun a b s' => a.rest = b ∧ s' = s := ⟨rfl, rfl, rfl⟩

theorem onRest (n : EStateM ε σ α) :
    Follows s (InMemory.onRest n) n fun a b s' => a = b ∧ s'.mem = s.mem := by
  rw [Follows, InMemory.onRest]
  cases n s.rest with
  | ok a u => exact ⟨rfl, rfl, rfl⟩
  | error e u => exact ⟨rfl, rfl⟩

/-- The result of one of the two is put into another form. -/
theorem map {R' : α → δ → InMemory κ σ → Prop} (h : Follows s m n R) (g : β → δ)
    (hR : ∀ a b s', R a b s' → R' a (g b) s') :
    Follows s m (n >>= fun b => Pure.pure (g b)) R' := by
  rw [← bind_pure m]
  exact h.bind fun a b s' hq => pure (hR a b s' hq)

/-- What is known of the memory besides. -/
theorem stays {X : ε → Prop} {Q : α → InMemory κ σ → Prop} (h : Follows s m n R)
    (hm : Stays X p t s m Q) : Follows s m n fun a b s' => R a b s' ∧ Ran p t s s' := by
  rw [Follows] at h ⊢
  rw [Stays] at hm
  cases hr : m s <;> cases hr' : n s.rest <;> rw [hr, hr'] at h
  case ok.ok =>
    rw [hr] at hm
    exact ⟨h.1, h.2, hm.1⟩
  case error.error => exact h
  all_goals exact h.elim

end Follows

end InMemory

end Exec09.Foundation
