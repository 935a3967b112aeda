import Mathlib.Data.List.Find
import Mathlib.Logic.Function.Basic
import Exec09.Cpu.State
import Exec09.Foundation.CString

/-! # The symbol table

Symbols are hashed into chains by name. A new symbol goes to the head of its
chain and hides an older one of the same name, and setting a symbol changes it
in place. The names are copied into buffers of a fixed size.
-/
namespace Exec09.Debugger
open Foundation

def MAX_STRINGSPACE : ℕ := 32000
def MAX_SYMBOL_HASH : ℕ := 1009

/-- The buffers for strings. Only the last one has room. -/
structure Stringspaces where
  space : ℕ → ℕ → U8
  current : ℕ
  used : ℕ

/-- Where a string is kept. -/
structure Place where
  space : ℕ
  offset : ℕ

structure Symbol where
  name : Place
  value : BitVec 64
  type : ℕ

/-- A table, with the symbols allocated so far. Nothing sets its parent. -/
structure Symtab where
  strings : Stringspaces
  symbol : ℕ → Symbol
  count : ℕ
  /-- The chains, of the numbers of symbols. -/
  symsByName : ℕ → List ℕ
  symsByValue : ℕ → List ℕ

abbrev SymM := EStateM Stop Symtab

/-- `char` is signed on some hosts and unsigned on others. -/
def charValue (signed : Bool) (c : U8) : ℤ := if signed then c.toInt else c.toNat

def symHashName (signed : Bool) (name : CString) : ℕ :=
  let hash := (name.byte 0).toNat &&& 0x1F
  let hash :=
    if name.byte 0 ≠ 0 then
      let hash := Word.trunc 32 (Word.trunc 32 (hash <<< 11) +
        (544 * charValue signed (name.byte 1) % 2 ^ 32).toNat)
      if name.byte 1 ≠ 0 then
        Word.trunc 32 (Word.trunc 32 (hash <<< 5) +
          (17 * charValue signed (name.byte 2) % 2 ^ 32).toNat)
      else hash
    else hash
  hash % MAX_SYMBOL_HASH

def symHashValue (value : BitVec 64) : ℕ := value.toNat % MAX_SYMBOL_HASH

def stringspaceCopy (string : CString) : SymM Place := do
  let len := Word.trunc 32 (string.length + 1)
  modify fun s =>
    if Word.trunc 32 (s.strings.used + len) > MAX_STRINGSPACE then
      { s with strings := { s.strings with current := s.strings.current + 1, used := 0 } }
    else s
  let s ← get
  let current := s.strings.current
  let used := s.strings.used
  if used + string.length < MAX_STRINGSPACE then do
    modify fun s => { s with strings := { s.strings with
      space := Function.update s.strings.space current (string.copy used (s.strings.space current))
      used := used + len } }
    return ⟨current, used⟩
  else throw (.fatal .bufferWrite)

namespace Symtab

/-- `strcmp (name, chain->name)` is zero. -/
def named (name : CString) (i : ℕ) (s : Symtab) : Bool :=
  CString.equals name.bytes (s.strings.space (s.symbol i).name.space) (s.symbol i).name.offset

/-- `sym_find1`, with the number of the symbol. -/
def symFind1 (signed : Bool) (name : CString) (type : ℕ) (s : Symtab) : Option ℕ :=
  match (s.symsByName (symHashName signed name)).find? fun i => s.named name i with
  | some i => if type ≠ 0 ∧ (s.symbol i).type ≠ type then none else some i
  | none => none

/-- `sym_find`, with the value that it stores. -/
def symFind (signed : Bool) (name : CString) (type : ℕ) (s : Symtab) : Option (BitVec 64) :=
  (s.symFind1 signed name type).map fun i => (s.symbol i).value

/-- The symbol at which `sym_lookup` stops. -/
def symLookup1 (value : BitVec 64) (s : Symtab) : Option ℕ :=
  (s.symsByValue (symHashValue value)).find? fun i => value == (s.symbol i).value

/-- `sym_lookup`, with the place of the name that it returns. -/
def symLookup (value : BitVec 64) (s : Symtab) : Option Place :=
  (s.symLookup1 value).map fun i => (s.symbol i).name

/-- The table after `symtab_init`. -/
def init (strings : Stringspaces) (symbol : ℕ → Symbol) : Symtab :=
  ⟨strings, symbol, 0, fun _ => [], fun _ => []⟩

end Symtab

def symAdd (signed : Bool) (name : CString) (value : BitVec 64) (type : ℕ) : SymM ℕ := do
  let place ← stringspaceCopy name
  let s ← get
  let i := s.count
  let hashName := symHashName signed name
  let hashValue := symHashValue value
  set { s with
    symbol := Function.update s.symbol i ⟨place, value, type⟩
    count := i + 1
    symsByName := Function.update s.symsByName hashName (i :: s.symsByName hashName)
    symsByValue := Function.update s.symsByValue hashValue (i :: s.symsByValue hashValue) }
  return i

def symSet (signed : Bool) (name : CString) (value : BitVec 64) (type : ℕ) : SymM Unit := do
  let s ← get
  match s.symFind1 signed name type with
  | some i => set { s with symbol := Function.update s.symbol i { s.symbol i with value := value } }
  | none => do let _ ← symAdd signed name value type

/-- A call of `sym_add` or `sym_set` with type 0. -/
inductive SymCall
  | add (name : CString) (value : BitVec 64)
  | set (name : CString) (value : BitVec 64)

namespace SymCall

def perform (signed : Bool) : SymCall → SymM Unit
  | add name value => do let _ ← symAdd signed name value 0
  | set name value => symSet signed name value 0

def name : SymCall → CString
  | add name _ => name
  | set name _ => name

def value : SymCall → BitVec 64
  | add _ value => value
  | set _ value => value

end SymCall

/-- The call gives its value to its name. -/
def SymCall.apply (m : CString → Option (BitVec 64)) (c : SymCall) : CString → Option (BitVec 64) :=
  Function.update m c.name (some c.value)

/-- The value most recently given to a name. -/
def lastGiven (cs : List SymCall) : CString → Option (BitVec 64) :=
  cs.foldl SymCall.apply fun _ => none

/-! ## The names -/

/-- The string is kept at the place, and what is copied later goes elsewhere. -/
def Stringspaces.Stored (ss : Stringspaces) (p : Place) (string : CString) : Prop :=
  CString.Holds (ss.space p.space) p.offset string ∧
    (p.space < ss.current ∨ (p.space = ss.current ∧ p.offset + string.length < ss.used))

variable {signed : Bool} {s : Symtab}

/-- Where the buffers stand when `strcpy` is called. -/
def Stringspaces.turned (string : CString) (ss : Stringspaces) : Stringspaces :=
  if Word.trunc 32 (ss.used + Word.trunc 32 (string.length + 1)) > MAX_STRINGSPACE then
    { ss with current := ss.current + 1, used := 0 }
  else ss

theorem stringspaceCopy_eq (string : CString) (s : Symtab) : stringspaceCopy string s =
    if (s.strings.turned string).used + string.length < MAX_STRINGSPACE then
      .ok ⟨(s.strings.turned string).current, (s.strings.turned string).used⟩ { s with strings :=
        { s.strings.turned string with
          space := Function.update (s.strings.turned string).space (s.strings.turned string).current
            (string.copy (s.strings.turned string).used
              ((s.strings.turned string).space (s.strings.turned string).current))
          used := (s.strings.turned string).used + Word.trunc 32 (string.length + 1) } }
    else .error (.fatal .bufferWrite) { s with strings := s.strings.turned string } := by
  have hturn : (modify fun s : Symtab =>
      if Word.trunc 32 (s.strings.used + Word.trunc 32 (string.length + 1)) > MAX_STRINGSPACE then
        { s with strings := { s.strings with current := s.strings.current + 1, used := 0 } }
      else s : SymM Unit) s = .ok () { s with strings := s.strings.turned string } := by
    rw [run_modify, Stringspaces.turned]
    split <;> rfl
  rw [stringspaceCopy]
  dsimp only
  rw [run_bind_ok hturn, run_bind_ok run_get]
  dsimp only
  split <;> rfl

/-- A name that fits into a buffer is stored, and the others stay. -/
theorem stringspaceCopy_run {string : CString} (hroom : s.strings.used ≤ MAX_STRINGSPACE)
    (hfits : string.length < MAX_STRINGSPACE) :
    ∃ place ss, stringspaceCopy string s = .ok place { s with strings := ss } ∧
      ss.used ≤ MAX_STRINGSPACE ∧ ss.Stored place string ∧
      ∀ p t, s.strings.Stored p t → ss.Stored p t := by
  rw [MAX_STRINGSPACE] at hroom hfits
  have hlen : Word.trunc 32 (string.length + 1) = string.length + 1 := Word.trunc_of_lt (by omega)
  have hsum : Word.trunc 32 (s.strings.used + (string.length + 1)) =
      s.strings.used + (string.length + 1) := Word.trunc_of_lt (by omega)
  have hused : (s.strings.turned string).used + string.length < MAX_STRINGSPACE := by
    rw [Stringspaces.turned, hlen, hsum, MAX_STRINGSPACE]
    split
    · dsimp only
      omega
    · omega
  have hold {p : Place} {t : CString} (h : s.strings.Stored p t) :
      (s.strings.turned string).Stored p t := by
    rw [Stringspaces.turned]
    split
    · refine ⟨h.1, .inl ?_⟩
      rcases h.2 with hlt | ⟨heq, -⟩
      · exact Nat.lt_succ_of_lt hlt
      · exact heq ▸ Nat.lt_succ_self _
    · exact h
  rw [stringspaceCopy_eq, if_pos hused, hlen]
  generalize s.strings.turned string = ss at hused hold
  rw [MAX_STRINGSPACE] at hused
  refine ⟨_, _, rfl, by dsimp only; rw [MAX_STRINGSPACE]; omega, ⟨?_, .inr ⟨rfl, ?_⟩⟩, ?_⟩
  · simp only [Function.update_self]
    exact CString.copy_holds _ _ _
  · dsimp only
    omega
  · intro p t h
    obtain ⟨hholds, hbelow⟩ := hold h
    by_cases hp : p.space = ss.current
    · have hout : p.offset + t.length < ss.used := by
        rcases hbelow with hlt | ⟨-, hlt⟩
        · omega
        · exact hlt
      refine ⟨?_, .inr ⟨hp, by dsimp only; omega⟩⟩
      simp only [hp, Function.update_self]
      rw [hp] at hholds
      exact CString.copy_other hholds (.inl hout)
    · refine ⟨?_, hbelow.imp_right fun hb => absurd hb.1 hp⟩
      simp only [Function.update_of_ne hp]
      exact hholds

theorem stringspaceCopy_overflow {string : CString} (hlong : MAX_STRINGSPACE ≤ string.length) :
    ∃ t, stringspaceCopy string s = .error (.fatal .bufferWrite) t := by
  rw [stringspaceCopy_eq, if_neg (by omega)]
  exact ⟨_, rfl⟩

/-! ## The table as a map -/

/-- The symbols have these names, and the first one of a name in its chain has the value of the
name. -/
structure Tabled (signed : Bool) (name : ℕ → CString) (m : CString → Option (BitVec 64))
    (s : Symtab) : Prop where
  room : s.strings.used ≤ MAX_STRINGSPACE
  stored : ∀ i < s.count, s.strings.Stored (s.symbol i).name (name i)
  chained : ∀ h, ∀ i ∈ s.symsByName h, i < s.count
  finds : ∀ n, ((s.symsByName (symHashName signed n)).find? fun i => decide (name i = n)).map
    (fun i => (s.symbol i).value) = m n

namespace Tabled
variable {name : ℕ → CString} {m : CString → Option (BitVec 64)}

theorem named_eq (h : Tabled signed name m s) {i : ℕ} (hi : i < s.count) (n : CString) :
    s.named n i = decide (name i = n) := by
  rw [Bool.eq_iff_iff, decide_eq_true_iff, Symtab.named, CString.equals_iff (h.stored i hi).1]
  exact eq_comm

theorem symFind1_eq (h : Tabled signed name m s) (n : CString) : s.symFind1 signed n 0 =
    (s.symsByName (symHashName signed n)).find? fun i => decide (name i = n) := by
  rw [Symtab.symFind1, List.find?_congr fun i hi => h.named_eq (h.chained _ i hi) n]
  cases (s.symsByName (symHashName signed n)).find? fun i => decide (name i = n) <;> simp

theorem symFind_eq (h : Tabled signed name m s) (n : CString) : s.symFind signed n 0 = m n := by
  rw [Symtab.symFind, h.symFind1_eq, h.finds]

/-- A new symbol hides an older one of its name. -/
theorem symAdd_run (h : Tabled signed name m s) {n : CString} (hfits : n.length < MAX_STRINGSPACE)
    (value : BitVec 64) (type : ℕ) : ∃ t, symAdd signed n value type s = .ok s.count t ∧
      Tabled signed (Function.update name s.count n) (Function.update m n (some value)) t := by
  obtain ⟨place, ss, hcopy, hroom, hnew, hold⟩ := stringspaceCopy_run h.room hfits
  rw [symAdd, run_bind_ok hcopy]
  refine ⟨_, rfl, hroom, ?_, ?_, ?_⟩
  · intro i hi
    by_cases hlast : i = s.count
    · subst hlast
      simpa using hnew
    · have hlt : i < s.count := Nat.lt_of_le_of_ne (Nat.le_of_lt_succ hi) hlast
      simpa [hlast] using hold _ _ (h.stored i hlt)
  · intro k i hi
    by_cases hk : k = symHashName signed n
    · subst hk
      rcases List.mem_cons.mp (by simpa using hi) with rfl | hrest
      · exact Nat.lt_succ_self _
      · exact Nat.lt_succ_of_lt (h.chained _ i hrest)
    · exact Nat.lt_succ_of_lt (h.chained k i (by simpa [hk] using hi))
  · intro n'
    -- in the old part of a chain neither the names nor the values have changed
    have hchain : (((s.symsByName (symHashName signed n')).find? fun i =>
        decide (Function.update name s.count n i = n')).map fun i =>
          (Function.update s.symbol s.count ⟨place, value, type⟩ i).value) = m n' := by
      rw [← h.finds n']
      have hsame : ∀ i ∈ s.symsByName (symHashName signed n'), i ≠ s.count := fun i hi =>
        Nat.ne_of_lt (h.chained _ i hi)
      rw [List.find?_congr fun i hi => by rw [Function.update_of_ne (hsame i hi)]]
      cases hfind : (s.symsByName (symHashName signed n')).find? fun i => decide (name i = n') with
      | none => rfl
      | some i =>
        have hne := hsame i (List.mem_of_find?_eq_some hfind)
        simp [hne]
    by_cases hn : n' = n
    · subst hn
      simp
    · have hn' : n ≠ n' := fun heq => hn heq.symm
      rw [Function.update_of_ne hn]
      by_cases hk : symHashName signed n' = symHashName signed n
      · rw [hk] at hchain
        simpa [hk, hn'] using hchain
      · simpa [hk] using hchain

/-- A symbol that exists is changed in place. -/
theorem symSet_run (h : Tabled signed name m s) {n : CString}
    (hfits : m n = none → n.length < MAX_STRINGSPACE) (value : BitVec 64) :
    ∃ name' t, symSet signed n value 0 s = .ok () t ∧
      Tabled signed name' (Function.update m n (some value)) t := by
  cases hfind : s.symFind1 signed n 0 with
  | none =>
    have hnone : m n = none := by rw [← h.symFind_eq, Symtab.symFind, hfind, Option.map_none]
    obtain ⟨t, hrun, ht⟩ := h.symAdd_run (hfits hnone) value 0
    refine ⟨_, t, ?_, ht⟩
    rw [symSet, run_bind_ok run_get, hfind]
    exact run_bind_ok hrun
  | some i =>
    rw [h.symFind1_eq] at hfind
    have hname : name i = n := by simpa using List.find?_some hfind
    refine ⟨name, { s with
      symbol := Function.update s.symbol i { s.symbol i with value := value } }, ?_, h.room, ?_,
      h.chained, ?_⟩
    · rw [symSet, run_bind_ok run_get, h.symFind1_eq, hfind]
      rfl
    · intro j hj
      by_cases hij : j = i
      · subst hij
        simpa using h.stored j hj
      · simpa [hij] using h.stored j hj
    · intro n'
      by_cases hn : n' = n
      · subst hn
        simp [hfind]
      · rw [Function.update_of_ne hn, ← h.finds n']
        cases hother : (s.symsByName (symHashName signed n')).find? fun j => decide (name j = n') with
        | none => simp
        | some j =>
          have hne : j ≠ i := by
            rintro rfl
            have hname' : name j = n' := by simpa using List.find?_some hother
            exact hn (hname'.symm.trans hname)
          simp [hne]

end Tabled

theorem symAdd_overflow {n : CString} (hlong : MAX_STRINGSPACE ≤ n.length) (value : BitVec 64)
    (type : ℕ) : ∃ t, symAdd signed n value type s = .error (.fatal .bufferWrite) t := by
  obtain ⟨t, hcopy⟩ := stringspaceCopy_overflow (s := s) hlong
  exact ⟨t, by rw [symAdd, run_bind_error hcopy]⟩

/-! ## Runs -/

namespace SymCall
variable {name : ℕ → CString} {m : CString → Option (BitVec 64)} {c : SymCall}

theorem perform_run (h : Tabled signed name m s) (hfits : c.name.length < MAX_STRINGSPACE) :
    ∃ name' t, c.perform signed s = .ok () t ∧
      Tabled signed name' (Function.update m c.name (some c.value)) t := by
  cases c with
  | add n value =>
    obtain ⟨t, hrun, ht⟩ := h.symAdd_run hfits value 0
    exact ⟨_, t, run_bind_ok hrun, ht⟩
  | set n value => exact h.symSet_run (fun _ => hfits) value

/-- The copy of a new name that does not fit leaves its buffer. -/
theorem perform_overflow (h : Tabled signed name m s) (hnone : m c.name = none)
    (hlong : MAX_STRINGSPACE ≤ c.name.length) :
    ∃ t, c.perform signed s = .error (.fatal .bufferWrite) t := by
  cases c with
  | add n value =>
    obtain ⟨t, hrun⟩ := @symAdd_overflow signed s n hlong value 0
    exact ⟨t, run_bind_error hrun⟩
  | set n value =>
    obtain ⟨t, hrun⟩ := @symAdd_overflow signed s n hlong value 0
    have hfind : s.symFind1 signed n 0 = none := by
      rw [← Option.map_eq_none_iff, ← Symtab.symFind, h.symFind_eq]
      exact hnone
    refine ⟨t, ?_⟩
    rw [perform, symSet, run_bind_ok run_get, hfind]
    exact run_bind_error hrun

end SymCall

theorem Tabled.runAll_iff {name : ℕ → CString} {m : CString → Option (BitVec 64)}
    (h : Tabled signed name m s) (hshort : ∀ n, m n ≠ none → n.length < MAX_STRINGSPACE)
    (cs : List SymCall) :
    (∃ t, runAll (SymCall.perform signed) cs s = .ok () t ∧ ∀ n, t.symFind signed n 0 =
        cs.foldl SymCall.apply m n) ↔
      ∀ c ∈ cs, c.name.length < MAX_STRINGSPACE := by
  induction cs generalizing name m s with
  | nil => exact iff_of_true ⟨s, rfl, h.symFind_eq⟩ (List.forall_mem_nil _)
  | cons c cs ih =>
    rw [List.forall_mem_cons, List.foldl_cons]
    by_cases hfits : c.name.length < MAX_STRINGSPACE
    · obtain ⟨name', u, hrun, hu⟩ := SymCall.perform_run h hfits
      have hshort' (n : CString) (hn : Function.update m c.name (some c.value) n ≠ none) :
          n.length < MAX_STRINGSPACE := by
        by_cases hc : n = c.name
        · exact hc ▸ hfits
        · exact hshort n (by rwa [Function.update_of_ne hc] at hn)
      rw [and_iff_right hfits, SymCall.apply, ← ih hu hshort', runAll, run_bind_ok hrun]
    · have hnone : m c.name = none := by
        by_contra hsome
        exact hfits (hshort _ hsome)
      obtain ⟨u, hrun⟩ := SymCall.perform_overflow h hnone (Nat.le_of_not_lt hfits)
      refine iff_of_false ?_ fun hall => hfits hall.1
      rintro ⟨t, hruns, -⟩
      rw [runAll, run_bind_error hrun] at hruns
      cases hruns

theorem Tabled.init {strings : Stringspaces} (hroom : strings.used ≤ MAX_STRINGSPACE)
    (symbol : ℕ → Symbol) (name : ℕ → CString) :
    Tabled signed name (fun _ => none) (Symtab.init strings symbol) where
  room := hroom
  stored := fun _ hi => absurd hi (Nat.not_lt_zero _)
  chained := fun _ _ hi => absurd hi List.not_mem_nil
  finds := fun _ => rfl

/-- From an empty table on, every name has the value it was last given exactly if all names fit
into a buffer. -/
theorem symFind_lastGiven_iff (signed : Bool) {strings : Stringspaces}
    (hroom : strings.used ≤ MAX_STRINGSPACE) (symbol : ℕ → Symbol) (cs : List SymCall) :
    (∃ t, runAll (SymCall.perform signed) cs (Symtab.init strings symbol) = .ok () t ∧
        ∀ n, t.symFind signed n 0 = lastGiven cs n) ↔
      ∀ c ∈ cs, c.name.length < MAX_STRINGSPACE := by
  have hinit : Tabled signed (fun _ => ⟨[], List.not_mem_nil⟩) (fun _ => none)
      (Symtab.init strings symbol) := Tabled.init hroom symbol _
  exact hinit.runAll_iff (fun n hn => absurd rfl hn) cs

/-- The buffers after `sym_init`, and symbols before they are allocated. -/
def emptySpaces : Stringspaces := ⟨fun _ _ => 0, 0, 0⟩

def noSymbol : ℕ → Symbol := fun _ => ⟨⟨0, 0⟩, 0, 0⟩

theorem symFind_lastGiven_empty :
    (∃ t, runAll (SymCall.perform true) [.add ⟨[], by simp⟩ 5, .set ⟨[], by simp⟩ 7]
        (Symtab.init emptySpaces noSymbol) = .ok () t ∧
        ∀ n, t.symFind true n 0 = lastGiven [.add ⟨[], by simp⟩ 5, .set ⟨[], by simp⟩ 7] n) ↔
      ∀ c ∈ [SymCall.add ⟨[], by simp⟩ 5, .set ⟨[], by simp⟩ 7], c.name.length < MAX_STRINGSPACE :=
  symFind_lastGiven_iff true (Nat.zero_le _) noSymbol _

/-- A name as long as a buffer. -/
def longName : CString := ⟨List.replicate MAX_STRINGSPACE 0x61, by simp⟩

/-- The end of such a name is written behind the buffer. -/
theorem symFind_longName : ¬∃ t, runAll (SymCall.perform true) [.add longName 1]
      (Symtab.init emptySpaces noSymbol) = .ok () t ∧
    ∀ n, t.symFind true n 0 = lastGiven [.add longName 1] n := by
  have hlong : MAX_STRINGSPACE ≤ longName.length := by simp [CString.length, longName]
  obtain ⟨u, hadd⟩ := @symAdd_overflow true (Symtab.init emptySpaces noSymbol) _ hlong 1 0
  have hrun : runAll (SymCall.perform true) [.add longName 1] (Symtab.init emptySpaces noSymbol) =
      .error (.fatal .bufferWrite) u := run_bind_error (run_bind_error hadd)
  rintro ⟨t, ht, -⟩
  rw [hrun] at ht
  cases ht

end Exec09.Debugger
