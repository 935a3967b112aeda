import Exec09.Debugger.Symtab

/-! # The two indexes of a symbol table

Every symbol is in a chain by name and in a chain by value. `sym_set` changes
the value and leaves the symbol in the chain of the value it was created with,
where `sym_lookup` of the new value does not search unless the two chains are
one.
-/
namespace Exec09.Debugger
open Foundation

/-- A call of `sym_add` or `sym_set`. -/
inductive TypedCall
  | add (name : CString) (value : BitVec 64) (type : ℕ)
  | set (name : CString) (value : BitVec 64) (type : ℕ)

def TypedCall.perform (signed : Bool) : TypedCall → SymM Unit
  | add name value type => do let _ ← symAdd signed name value type
  | set name value type => symSet signed name value type

namespace Symtab
variable {signed : Bool} {s : Symtab} {i : ℕ} {v : BitVec 64}

/-- A lookup of a value gives the name of a symbol that has it, and a name is found for every
value that a symbol has. -/
def LookupRight (s : Symtab) : Prop :=
  ∀ v, ((s.symLookup v).isSome = true ↔ ∃ i < s.count, (s.symbol i).value = v) ∧
    ∀ place, s.symLookup v = some place →
      ∃ i < s.count, (s.symbol i).name = place ∧ (s.symbol i).value = v

/-- The chains are of symbols that exist. -/
structure Chained (s : Symtab) : Prop where
  byName : ∀ h, ∀ i ∈ s.symsByName h, i < s.count
  byValue : ∀ h, ∀ i ∈ s.symsByValue h, i < s.count

/-- A symbol with the value is in the chain of the value. -/
def Found (s : Symtab) (v : BitVec 64) : Prop :=
  ∃ i ∈ s.symsByValue (symHashValue v), (s.symbol i).value = v

def Indexed (s : Symtab) : Prop := ∀ i < s.count, s.Found (s.symbol i).value

theorem symLookup_isSome (s : Symtab) (v : BitVec 64) :
    (s.symLookup v).isSome = true ↔ s.Found v := by
  rw [symLookup, Option.isSome_map, symLookup1, List.find?_isSome, Found]
  simp only [beq_iff_eq]
  exact exists_congr fun i => and_congr_right fun _ => eq_comm

theorem lookupRight_iff (h : s.Chained) : s.LookupRight ↔ s.Indexed := by
  constructor
  · intro hright i hi
    rw [← symLookup_isSome]
    exact (hright _).1.mpr ⟨i, hi, rfl⟩
  · intro hindexed v
    constructor
    · rw [symLookup_isSome]
      constructor
      · rintro ⟨i, hi, hv⟩
        exact ⟨i, h.byValue _ i hi, hv⟩
      · rintro ⟨i, hi, rfl⟩
        exact hindexed i hi
    · intro place hplace
      rw [symLookup, Option.map_eq_some_iff] at hplace
      obtain ⟨i, hfind, hname⟩ := hplace
      have hv : v = (s.symbol i).value := by simpa using List.find?_some hfind
      exact ⟨i, h.byValue _ i (List.mem_of_find?_eq_some hfind), hname, hv.symm⟩

/-! ## A new symbol -/

/-- The table with a symbol more. -/
def added (hash : ℕ) (symbol : Symbol) (s : Symtab) : Symtab :=
  { s with
    symbol := Function.update s.symbol s.count symbol
    count := s.count + 1
    symsByName := Function.update s.symsByName hash (s.count :: s.symsByName hash)
    symsByValue := Function.update s.symsByValue (symHashValue symbol.value)
      (s.count :: s.symsByValue (symHashValue symbol.value)) }

theorem mem_added {chains : ℕ → List ℕ} {h k n : ℕ} :
    i ∈ Function.update chains h (n :: chains h) k ↔ k = h ∧ i = n ∨ i ∈ chains k := by
  by_cases hk : k = h
  · subst hk
    simp
  · simp [hk]

theorem Chained.added (h : s.Chained) (hash : ℕ) (symbol : Symbol) : (s.added hash symbol).Chained where
  byName k i hi := by
    rcases mem_added.mp hi with ⟨-, rfl⟩ | hold
    · exact Nat.lt_succ_self _
    · exact Nat.lt_succ_of_lt (h.byName k i hold)
  byValue k i hi := by
    rcases mem_added.mp hi with ⟨-, rfl⟩ | hold
    · exact Nat.lt_succ_self _
    · exact Nat.lt_succ_of_lt (h.byValue k i hold)

theorem Indexed.added (hindexed : s.Indexed) (h : s.Chained) (hash : ℕ) (symbol : Symbol) :
    (s.added hash symbol).Indexed := by
  intro i hi
  by_cases hlast : i = s.count
  · subst hlast
    refine ⟨s.count, mem_added.mpr (.inl ⟨?_, rfl⟩), rfl⟩
    simp [Symtab.added]
  · have hlt : i < s.count := Nat.lt_of_le_of_ne (Nat.le_of_lt_succ hi) hlast
    obtain ⟨k, hk, hvalue⟩ := hindexed i hlt
    have hne : k ≠ s.count := Nat.ne_of_lt (h.byValue _ k hk)
    have hvalue_i : ((s.added hash symbol).symbol i).value = (s.symbol i).value := by
      simp [Symtab.added, hlast]
    have hvalue_k : ((s.added hash symbol).symbol k).value = (s.symbol k).value := by
      simp [Symtab.added, hne]
    rw [hvalue_i]
    exact ⟨k, mem_added.mpr (.inr hk), hvalue_k.trans hvalue⟩

/-- `stringspace_copy` touches the buffers only. -/
theorem stringspaceCopy_frame (string : CString) (s : Symtab) : ∃ ss,
    (∃ e, stringspaceCopy string s = .error e { s with strings := ss }) ∨
      ∃ place, stringspaceCopy string s = .ok place { s with strings := ss } := by
  rw [stringspaceCopy_eq]
  split
  · exact ⟨_, .inr ⟨_, rfl⟩⟩
  · exact ⟨_, .inl ⟨_, rfl⟩⟩

/-- `sym_add` adds a symbol, or it stops at a name that does not fit into a buffer. -/
theorem symAdd_final (signed : Bool) (name : CString) (value : BitVec 64) (type : ℕ) (s : Symtab) :
    ∃ ss, finalState (symAdd signed name value type s) = { s with strings := ss } ∨
      ∃ place, finalState (symAdd signed name value type s) =
        ({ s with strings := ss } : Symtab).added (symHashName signed name) ⟨place, value, type⟩ := by
  obtain ⟨ss, ⟨e, hcopy⟩ | ⟨place, hcopy⟩⟩ := stringspaceCopy_frame name s
  · exact ⟨ss, .inl (by rw [symAdd, run_bind_error hcopy]; rfl)⟩
  · exact ⟨ss, .inr ⟨place, by rw [symAdd, run_bind_ok hcopy]; rfl⟩⟩

/-! ## A symbol set -/

def changed (i : ℕ) (v : BitVec 64) (s : Symtab) : Symtab :=
  { s with symbol := Function.update s.symbol i { s.symbol i with value := v } }

theorem changed_value (i : ℕ) (v : BitVec 64) (s : Symtab) (j : ℕ) :
    ((s.changed i v).symbol j).value = if j = i then v else (s.symbol j).value := by
  by_cases hj : j = i
  · subst hj
    simp [changed]
  · simp [changed, hj]

/-- The symbol is in the chain of the value, or the value is found as it is. And no other symbol
relies on this one to have its value found. -/
def Changeable (i : ℕ) (v : BitVec 64) (s : Symtab) : Prop :=
  (i ∈ s.symsByValue (symHashValue v) ∨ (s.symLookup v).isSome = true) ∧
    (v = (s.symbol i).value ∨ ∀ j < s.count, j ≠ i → (s.symbol j).value = (s.symbol i).value →
      ∃ k ∈ s.symsByValue (symHashValue (s.symbol i).value),
        k ≠ i ∧ (s.symbol k).value = (s.symbol i).value)

theorem found_changed (i : ℕ) (v w : BitVec 64) (s : Symtab) : (s.changed i v).Found w ↔
    (w = v ∧ i ∈ s.symsByValue (symHashValue w)) ∨
      ∃ k ∈ s.symsByValue (symHashValue w), k ≠ i ∧ (s.symbol k).value = w := by
  constructor
  · rintro ⟨k, hk, hvalue⟩
    rw [changed_value] at hvalue
    by_cases hki : k = i
    · rw [if_pos hki] at hvalue
      exact .inl ⟨hvalue.symm, hki ▸ hk⟩
    · rw [if_neg hki] at hvalue
      exact .inr ⟨k, hk, hki, hvalue⟩
  · rintro (⟨rfl, hi⟩ | ⟨k, hk, hki, hvalue⟩)
    · exact ⟨i, hi, by rw [changed_value, if_pos rfl]⟩
    · exact ⟨k, hk, by rw [changed_value, if_neg hki, hvalue]⟩

theorem indexed_changed_iff (hindexed : s.Indexed) (hi : i < s.count) :
    (s.changed i v).Indexed ↔ s.Changeable i v := by
  rw [Changeable, symLookup_isSome]
  constructor
  · intro h
    constructor
    · have hnew := h i hi
      rw [changed_value, if_pos rfl, found_changed] at hnew
      rcases hnew with ⟨-, hmem⟩ | ⟨k, hk, -, hvalue⟩
      · exact .inl hmem
      · exact .inr ⟨k, hk, hvalue⟩
    · by_cases hv : v = (s.symbol i).value
      · exact .inl hv
      · refine .inr fun j hj hji hvalue => ?_
        have hother := h j hj
        rw [changed_value, if_neg hji, hvalue, found_changed] at hother
        exact hother.resolve_left fun hsame => hv hsame.1.symm
  · rintro ⟨hnew, hold⟩ j hj
    rw [found_changed, changed_value]
    by_cases hji : j = i
    · rw [if_pos hji]
      rcases hnew with hmem | ⟨k, hk, hvalue⟩
      · exact .inl ⟨rfl, hmem⟩
      · by_cases hki : k = i
        · exact .inl ⟨rfl, hki ▸ hk⟩
        · exact .inr ⟨k, hk, hki, hvalue⟩
    · rw [if_neg hji]
      obtain ⟨k, hk, hvalue⟩ := hindexed j hj
      by_cases hki : k = i
      · -- the symbol that is changed was the one found for `j`
        subst hki
        rcases hold with hv | hrest
        · exact .inl ⟨hvalue.symm.trans hv.symm, hk⟩
        · rw [← hvalue]
          exact .inr (hrest j hj hji hvalue.symm)
      · exact .inr ⟨k, hk, hki, hvalue⟩

theorem symFind1_lt (h : s.Chained) {name : CString} {type : ℕ}
    (hfind : s.symFind1 signed name type = some i) : i < s.count := by
  rw [symFind1] at hfind
  split at hfind
  · next j hj =>
    split at hfind
    · cases hfind
    · cases hfind
      exact h.byName _ _ (List.mem_of_find?_eq_some hj)
  · cases hfind

end Symtab

/-! ## Runs -/

namespace TypedCall
variable {signed : Bool} {s : Symtab}

/-- A call that leaves the indexes consistent: a new symbol, or a change that a lookup can follow. -/
def Follows (signed : Bool) : TypedCall → Symtab → Prop
  | add _ _ _, _ => True
  | set name value type, s => ∀ i ∈ s.symFind1 signed name type, s.Changeable i value

theorem symAdd_keeps (name : CString) (value : BitVec 64) (type : ℕ) (h : s.Chained) :
    (finalState (symAdd signed name value type s)).Chained ∧
      (s.Indexed → (finalState (symAdd signed name value type s)).Indexed) := by
  obtain ⟨ss, hsame | ⟨place, hadded⟩⟩ := Symtab.symAdd_final signed name value type s
  · rw [hsame]
    exact ⟨⟨h.byName, h.byValue⟩, id⟩
  · have hchained : ({ s with strings := ss } : Symtab).Chained := ⟨h.byName, h.byValue⟩
    rw [hadded]
    exact ⟨hchained.added _ _, fun hindexed =>
      Symtab.Indexed.added (s := { s with strings := ss }) hindexed hchained _ _⟩

theorem finalState_bind_unit {α : Type} (m : SymM α) (s : Symtab) :
    finalState ((do let _ ← m) s) = finalState (m s) := by
  cases hm : m s with
  | ok a t => rw [run_bind_ok hm]; rfl
  | error e t => rw [run_bind_error hm]; rfl

theorem perform_chained (c : TypedCall) (h : s.Chained) : (finalState (c.perform signed s)).Chained := by
  cases c with
  | add name value type =>
    rw [perform, finalState_bind_unit]
    exact (symAdd_keeps name value type h).1
  | set name value type =>
    rw [perform, symSet, run_bind_ok run_get]
    cases s.symFind1 signed name type with
    | some i => exact ⟨h.byName, h.byValue⟩
    | none =>
      rw [finalState_bind_unit]
      exact (symAdd_keeps name value type h).1

/-- What one call does to the index by value. -/
theorem perform_indexed_iff (c : TypedCall) (h : s.Chained) (hindexed : s.Indexed) :
    c.Follows signed s ↔ (finalState (c.perform signed s)).Indexed := by
  cases c with
  | add name value type =>
    rw [perform, finalState_bind_unit]
    exact iff_of_true trivial ((symAdd_keeps name value type h).2 hindexed)
  | set name value type =>
    rw [perform, symSet, run_bind_ok run_get, Follows]
    cases hfind : s.symFind1 signed name type with
    | some i =>
      have hi := Symtab.symFind1_lt h hfind
      have hset := Symtab.indexed_changed_iff (v := value) hindexed hi
      constructor
      · intro h
        exact hset.mpr (h i rfl)
      · rintro h j hj
        cases hj
        exact hset.mp h
    | none =>
      rw [finalState_bind_unit]
      exact iff_of_true (fun i hi => by cases hi) ((symAdd_keeps name value type h).2 hindexed)

end TypedCall

theorem Symtab.init_chained (strings : Stringspaces) (symbol : ℕ → Symbol) :
    (Symtab.init strings symbol).Chained :=
  ⟨fun _ _ hi => absurd hi List.not_mem_nil, fun _ _ hi => absurd hi List.not_mem_nil⟩

/-- The indexes agree after every part of a sequence of calls exactly if every `sym_set` of an
existing symbol is a change that a lookup can follow. -/
theorem lookup_right_iff (signed : Bool) (strings : Stringspaces) (symbol : ℕ → Symbol)
    (cs : List TypedCall) :
    (∀ cs', cs' <+: cs → (finalState (runAll (TypedCall.perform signed) cs'
        (Symtab.init strings symbol))).LookupRight) ↔
      Along (TypedCall.perform signed) (TypedCall.Follows signed) cs (Symtab.init strings symbol) := by
  have hstart : (Symtab.init strings symbol).Indexed := fun i hi => absurd hi (Nat.not_lt_zero i)
  refine (along_iff_ends (I := fun s => s.Chained ∧ s.Indexed) (P := Symtab.LookupRight) ?_ ?_ ?_
    ⟨Symtab.init_chained strings symbol, hstart⟩).symm
  · rintro s ⟨hchained, hindexed⟩
    exact (Symtab.lookupRight_iff hchained).mpr hindexed
  · rintro c s ⟨hchained, hindexed⟩
    rw [Symtab.lookupRight_iff (c.perform_chained hchained)]
    exact c.perform_indexed_iff hchained hindexed
  · rintro c s ⟨hchained, hindexed⟩ hfollows
    exact ⟨c.perform_chained hchained, (c.perform_indexed_iff hchained hindexed).mp hfollows⟩

/-- `sym_add` of `x` with 1 and `sym_set` to 2: there is a symbol with 2, and no lookup of 2 finds
it. -/
theorem lookup_wrong :
    ¬(finalState (runAll (TypedCall.perform true)
      [.add ⟨[0x78], by decide⟩ 1 0, .set ⟨[0x78], by decide⟩ 2 0]
      (Symtab.init emptySpaces noSymbol))).LookupRight := by
  intro h
  have hmissing : ((finalState (runAll (TypedCall.perform true)
      [.add ⟨[0x78], by decide⟩ 1 0, .set ⟨[0x78], by decide⟩ 2 0]
      (Symtab.init emptySpaces noSymbol))).symLookup 2).isSome = false := by decide +kernel
  have hpresent : ((finalState (runAll (TypedCall.perform true)
      [.add ⟨[0x78], by decide⟩ 1 0, .set ⟨[0x78], by decide⟩ 2 0]
      (Symtab.init emptySpaces noSymbol))).symbol 0).value = 2 := by decide +kernel
  have hcount : 0 < (finalState (runAll (TypedCall.perform true)
      [.add ⟨[0x78], by decide⟩ 1 0, .set ⟨[0x78], by decide⟩ 2 0]
      (Symtab.init emptySpaces noSymbol))).count := by decide +kernel
  have hsome := (h 2).1.mpr ⟨0, hcount, hpresent⟩
  rw [hmissing] at hsome
  exact Bool.false_ne_true hsome

end Exec09.Debugger
