import Exec09.Loader.RoundTrip
import Mathlib.Logic.Relation

/-! # Malformed image files

A store is good if its address is in the address space and its value is written
as two digits at the place where the loader reads. The loaders perform good stores
only, in a number of rounds that the length of the file bounds, exactly on the
files in which every record that they get to has sound data.
-/
namespace Exec09.Loader
open Foundation Text Relation

/-! ## Data in a text -/

/-- The byte that two digits spell after white space, and the text behind it. -/
def pairAt (t : Text) : Option (BitVec 8 × Text) :=
  match skipSpace t with
  | c :: d :: u =>
    match digitIn 16 c, digitIn 16 d with
    | some h, some l => some (BitVec.ofNat 8 (16 * h + l), u)
    | _, _ => none
  | _ => none

/-- The bytes spelled at the front of a text, at most `n`. -/
def pairs : ℕ → Text → List (BitVec 8) × Text
  | 0, t => ([], t)
  | n + 1, t =>
    match pairAt t with
    | some (b, u) => (b :: (pairs n u).1, (pairs n u).2)
    | none => ([], t)

/-- `n` bytes are spelled, or what follows them is rejected by `%2x` and is not the end of the
file; they have addresses below 0x10000. -/
def SoundData (n addr : ℕ) (t : Text) : Prop :=
  ((pairs n t).1 = [] ∨ addr + (pairs n t).1.length ≤ 0x10000) ∧
    ((pairs n t).1.length = n ∨ (scanf [.hex 2] (pairs n t).2).failure = some .mismatch)

/-- The text behind the data of a record. -/
def dataRest (n : ℕ) (t : Text) : Text :=
  if (pairs n t).1.length = n then (pairs n t).2 else (scanf [.hex 2] (pairs n t).2).rest

/-- The count and the address of a data record, and the text behind the header. -/
def Format.dataHeader (f : Format) (t : Text) : Option (ℕ × ℕ × Text) :=
  match f.fields (scanf f.header t).values with
  | some (type, count, addr) =>
    if type = f.dataType then some (count, addr, (scanf f.header t).rest) else none
  | none => none

/-- From the record at `t` the loader gets to a record at `v`: the checksum of the first one is
accepted. -/
def Format.Next (f : Format) (t v : Text) : Prop :=
  ∃ count addr u w, f.dataHeader t = some (count, addr, u) ∧
    scanf [.hex 2] (dataRest (f.dataCount count) u) = ⟨[f.close (Word.trunc 32
      (f.start f.dataType count addr + sumOf (pairs (f.dataCount count) u).1))], none, w⟩ ∧
    v = (scanf [.discard [13, 10]] w).rest

/-- Every data record that the loader gets to has sound data. -/
def Format.Sound (f : Format) (file : Text) : Prop :=
  ∀ t, ReflTransGen f.Next file t → ∀ count addr u, f.dataHeader t = some (count, addr, u) →
    SoundData (f.dataCount count) addr u

/-! ## Good stores -/

/-- The address is in the address space, and the value is spelled where it was read. -/
structure Store.Good (x : Store) : Prop where
  addr : x.addr ≤ 0xffff
  present : ∃ u, pairAt x.source = some (x.value, u)

/-- The loader comes to its end in a bounded number of rounds, with good stores only. -/
def Format.Harmless (f : Format) (data : ℕ) (file : Text) : Prop :=
  ∃ s, f.load data file = some s ∧ s.iterations ≤ file.length + 1 ∧ ∀ x ∈ s.stores, x.Good

/-! ## One number -/

/-- Two digits are read as the byte that they spell. -/
theorem scanf_pair {t u : Text} {b : BitVec 8} (h : pairAt t = some (b, u)) :
    scanf [.hex 2] t = ⟨[b.toNat], none, u⟩ ∧ u.length + 2 ≤ t.length := by
  have hlength := skipSpace_length t
  have hskip := scanHex_skipSpace 2 t
  unfold pairAt at h
  split at h
  · rename_i c d v heq
    rw [heq] at hlength hskip
    split at h
    · rename_i x y hc hd
      cases h
      have hx := digitIn_lt hc
      have hy := digitIn_lt hd
      have hhex : IsHex 2 (16 * x + y) [c, d] :=
        ⟨[x, y], .cons hc (.cons hd .nil), rfl, by simp [value, Nat.mul_comm]⟩
      have hscan := scanHex_isHex hhex (by decide) (by omega) u
      have hbyte : (BitVec.ofNat 8 (16 * x + y)).toNat = 16 * x + y := by
        rw [BitVec.toNat_ofNat]
        omega
      refine ⟨?_, hlength⟩
      have hwhole : [c, d] ++ u = c :: d :: u := rfl
      rw [hwhole, hskip] at hscan
      rw [scanf, Directive.scan, hscan, hbyte]
      rfl
    · cases h
  · cases h

/-! ## The data of a record -/

theorem soundData_pair {n addr : ℕ} {t u : Text} {b : BitVec 8} (h : pairAt t = some (b, u)) :
    SoundData (n + 1) addr t ↔ addr ≤ 0xffff ∧ SoundData n (addr + 1) u := by
  have hpairs : pairs (n + 1) t = (b :: (pairs n u).1, (pairs n u).2) := by rw [pairs, h]
  rw [SoundData, SoundData, hpairs]
  simp only [List.length_cons, reduceCtorEq, false_or, Nat.add_right_cancel_iff]
  rw [← and_assoc]
  refine and_congr_left fun _ => ?_
  rw [← List.length_eq_zero_iff]
  omega

theorem soundData_none {n addr : ℕ} {t : Text} (h : pairAt t = none) :
    SoundData (n + 1) addr t ↔ (scanf [.hex 2] t).failure = some .mismatch := by
  have hpairs : pairs (n + 1) t = ([], t) := by rw [pairs, h]
  rw [SoundData, hpairs]
  simp

theorem dataRest_pair {n : ℕ} {t u : Text} {b : BitVec 8} (h : pairAt t = some (b, u)) :
    dataRest (n + 1) t = dataRest n u := by
  have hpairs : pairs (n + 1) t = (b :: (pairs n u).1, (pairs n u).2) := by rw [pairs, h]
  rw [dataRest, dataRest, hpairs, List.length_cons]
  simp only [Nat.add_right_cancel_iff]

theorem dataRest_none {n : ℕ} {t : Text} (h : pairAt t = none) :
    dataRest (n + 1) t = (scanf [.hex 2] t).rest := by
  have hpairs : pairs (n + 1) t = ([], t) := by rw [pairs, h]
  rw [dataRest, hpairs]
  exact if_neg (Nat.succ_ne_zero n).symm

section Data
variable {n addr : ℕ} {s : Load}

theorem Load.stored_stores (s : Load) (addr v : ℕ) (u : Text) :
    s.stores <+: (s.stored addr v u).stores := List.prefix_append _ _

theorem loadData_stores (line n addr checksum : ℕ) (s : Load) :
    s.stores <+: (loadData line n addr checksum s).2.stores := by
  induction n generalizing addr checksum s with
  | zero => exact List.prefix_rfl
  | succ n ih =>
    obtain ⟨u, ⟨v, hscan⟩ | hscan | hscan⟩ := scanf_hex_cases 2 s.input
    · rw [loadData_value hscan]
      exact (s.stored_stores addr v u).trans (ih _ _ _)
    · rw [loadData_eof hscan]
      exact (s.stored_stores addr s.data u).trans (ih _ _ _)
    · rw [loadData_mismatch hscan]
      exact List.prefix_rfl

theorem trunc_add (x y : ℕ) : Word.trunc 32 (Word.trunc 32 x + y) = Word.trunc 32 (x + y) :=
  Nat.mod_add_mod _ _ _

theorem loadData_length (line n addr checksum : ℕ) (s : Load) :
    (loadData line n addr checksum s).2.input.length ≤ s.input.length := by
  induction n generalizing addr checksum s with
  | zero => exact Nat.le_refl _
  | succ n ih =>
    have hscan := scanf_values [.hex 2] s.input
    rw [loadData]
    dsimp only
    split
    · exact (ih _ _ _).trans ((Nat.le_add_right _ _).trans hscan)
    · exact (Nat.le_add_right _ _).trans hscan

/-- Sound data are stored, and the checksum is that of the bytes that are spelled. -/
theorem loadData_sound (line : ℕ) (h : SoundData n addr s.input) (x : ℕ) :
    ∃ s', loadData line n addr (Word.trunc 32 x) s =
        (Word.trunc 32 (x + sumOf (pairs n s.input).1), s') ∧
      s'.input = dataRest n s.input ∧ (∀ y ∈ s'.stores, y ∈ s.stores ∨ y.Good) ∧
      s'.iterations + s'.input.length ≤ s.iterations + s.input.length + 1 := by
  induction n generalizing addr x s with
  | zero => exact ⟨s, rfl, rfl, fun y hy => .inl hy, Nat.le_succ _⟩
  | succ n ih =>
    cases hpair : pairAt s.input with
    | some p =>
      obtain ⟨b, u⟩ := p
      obtain ⟨haddr, hrest⟩ := (soundData_pair hpair).mp h
      obtain ⟨hscan, hlength⟩ := scanf_pair hpair
      obtain ⟨s', hrun, hinput, hstores, hrounds⟩ :=
        ih (s := s.stored addr b.toNat u) hrest (x + b.toNat)
      have hnext : Word.trunc 32 (addr + 1) = addr + 1 := Nat.mod_eq_of_lt (by omega)
      refine ⟨s', ?_, ?_, fun y hy => ?_, ?_⟩
      · rw [loadData_value hscan, hnext, trunc_add, hrun, pairs, hpair]
        simp [sumOf, Load.stored, Nat.add_assoc]
      · rw [dataRest_pair hpair]
        exact hinput
      · rcases hstores y hy with hmem | hgood
        · rcases List.mem_append.mp hmem with hold | hnew
          · exact .inl hold
          · rw [List.mem_singleton.mp hnew]
            refine .inr ⟨haddr, u, ?_⟩
            simpa using hpair
        · exact .inr hgood
      · have hstored : (s.stored addr b.toNat u).iterations = s.iterations + 1 := rfl
        have hleft : (s.stored addr b.toNat u).input = u := rfl
        rw [hstored, hleft] at hrounds
        omega
    | none =>
      have hmismatch := (soundData_none hpair).mp h
      have hrest := scanf_values [.hex 2] s.input
      obtain ⟨u, ⟨v, hscan⟩ | hscan | hscan⟩ := scanf_hex_cases 2 s.input
      · rw [hscan] at hmismatch
        cases hmismatch
      · rw [hscan] at hmismatch
        cases hmismatch
      · rw [hscan] at hrest
        have hsum : sumOf (pairs (n + 1) s.input).1 = 0 := by rw [pairs, hpair]; rfl
        refine ⟨Load.report line .inconsistent
          { s with
            input := u
            iterations := s.iterations + 1 }, ?_, ?_, fun y hy => .inl hy, ?_⟩
        · rw [loadData_mismatch hscan, hsum]
          rfl
        · rw [dataRest_none hpair, hscan]
          rfl
        · have hleft : u.length ≤ s.input.length := hrest
          simp only [Load.report]
          omega

/-- Data that are not sound end in a store that is not good. -/
theorem loadData_unsound (line : ℕ) (h : ¬SoundData n addr s.input) (checksum : ℕ) :
    ∃ y ∈ (loadData line n addr checksum s).2.stores, ¬y.Good := by
  induction n generalizing addr checksum s with
  | zero => exact absurd ⟨.inl rfl, .inl rfl⟩ h
  | succ n ih =>
    have hstay (v : ℕ) (u : Text) (hbad : ¬Store.Good ⟨addr, BitVec.ofNat 8 v, s.input⟩)
        (checksum : ℕ) : ∃ y ∈ (loadData line n (Word.trunc 32 (addr + 1)) checksum
          (s.stored addr v u)).2.stores, ¬y.Good :=
      ⟨_, (loadData_stores _ _ _ _ _).subset (List.mem_append_right _ List.mem_cons_self), hbad⟩
    cases hpair : pairAt s.input with
    | some p =>
      obtain ⟨b, u⟩ := p
      rw [loadData_value (scanf_pair hpair).1]
      by_cases haddr : addr ≤ 0xffff
      · have hrest : ¬SoundData n (addr + 1) u := fun hsound =>
          h ((soundData_pair hpair).mpr ⟨haddr, hsound⟩)
        have hnext : Word.trunc 32 (addr + 1) = addr + 1 := Nat.mod_eq_of_lt (by omega)
        rw [hnext]
        exact ih hrest _
      · exact hstay _ _ (fun hgood => haddr hgood.addr) _
    | none =>
      have hmatched : (scanf [.hex 2] s.input).failure ≠ some .mismatch := fun hmismatch =>
        h ((soundData_none hpair).mpr hmismatch)
      have hbad (v : ℕ) : ¬Store.Good ⟨addr, BitVec.ofNat 8 v, s.input⟩ := by
        rintro ⟨-, u, hpresent⟩
        rw [hpair] at hpresent
        cases hpresent
      obtain ⟨u, ⟨v, hscan⟩ | hscan | hscan⟩ := scanf_hex_cases 2 s.input
      · rw [loadData_value hscan]
        exact hstay _ _ (hbad v) _
      · rw [loadData_eof hscan]
        exact hstay _ _ (hbad s.data) _
      · rw [hscan] at hmatched
        exact absurd rfl hmatched

end Data

/-! ## The records -/

theorem Format.dataHeader_iff {f : Format} {t u : Text} {count addr : ℕ} :
    f.dataHeader t = some (count, addr, u) ↔
      f.fields (scanf f.header t).values = some (f.dataType, count, addr) ∧
        (scanf f.header t).rest = u := by
  unfold Format.dataHeader
  cases f.fields (scanf f.header t).values with
  | none => simp
  | some p =>
    obtain ⟨type, count', addr'⟩ := p
    by_cases htype : type = f.dataType
    · simp [htype, and_assoc]
    · simp [htype]

theorem Format.sound_iff {f : Format} {t : Text} : f.Sound t ↔
    (∀ count addr u, f.dataHeader t = some (count, addr, u) →
      SoundData (f.dataCount count) addr u) ∧ ∀ v, f.Next t v → f.Sound v := by
  constructor
  · intro h
    exact ⟨h t .refl, fun v hv w hw => h w (.head hv hw)⟩
  · rintro ⟨hfirst, hnext⟩ w hw
    rcases hw.cases_head with rfl | ⟨v, hv, hw⟩
    · exact hfirst
    · exact hnext v hv w hw

section Checksum
variable (line checksum : ℕ) {s : Load}

theorem readChecksum_rejected {checksum : ℕ}
    (h : ∀ w, scanf [.hex 2] s.input ≠ ⟨[checksum], none, w⟩) :
    (readChecksum line checksum s).1 = false := by
  obtain ⟨w, ⟨v, hscan⟩ | hscan | hscan⟩ := scanf_hex_cases 2 s.input
  · have hne : v ≠ checksum := by
      rintro rfl
      exact h w hscan
    rw [readChecksum, hscan]
    simp [Scanned.result, hne]
  · rw [readChecksum, hscan]
    rfl
  · rw [readChecksum, hscan]
    rfl

theorem readChecksum_stores : (readChecksum line checksum s).2.stores = s.stores := by
  rw [readChecksum]
  dsimp only
  split <;> rfl

theorem readChecksum_iterations : (readChecksum line checksum s).2.iterations = s.iterations := by
  rw [readChecksum]
  dsimp only
  split <;> rfl

theorem readChecksum_length : (readChecksum line checksum s).2.input.length ≤ s.input.length := by
  have hscan := (Nat.le_add_right _ _).trans (scanf_values [.hex 2] s.input)
  rw [readChecksum]
  dsimp only
  split <;> exact hscan

end Checksum

/-- After a checksum that is accepted the next record is looked for. -/
theorem readChecksum_accepted (line : ℕ) {checksum : ℕ} {s : Load} {w : Text}
    (h : scanf [.hex 2] s.input = ⟨[checksum], none, w⟩) :
    ∃ s₁, (readChecksum line checksum s).1 = true ∧
      skipLineEnding (readChecksum line checksum s).2 = s₁ ∧
      s₁.input = (scanf [.discard [13, 10]] w).rest ∧ s₁.stores = s.stores ∧
      s₁.iterations = s.iterations ∧ s₁.input.length < s.input.length := by
  have hread : readChecksum line checksum s = (true, { s with
      input := w
      data := checksum }) := by
    rw [readChecksum, h]
    exact if_neg (by simp [Scanned.result])
  have hlast := scanf_values [.hex 2] s.input
  have hskip := scanf_values [.discard [13, 10]] w
  rw [h] at hlast
  rw [hread]
  refine ⟨_, rfl, rfl, rfl, rfl, rfl, ?_⟩
  simp only [List.length_singleton] at hlast
  simp only [skipLineEnding]
  omega

section Records
variable {k : Kind} {f : Format} {fuel line : ℕ} {s s' : Load}

/-- The stores of a loader stay. -/
theorem loadRecords_stores (h : f.loadRecords fuel line s = some s') : s.stores <+: s'.stores := by
  induction fuel generalizing line s with
  | zero => cases h
  | succ fuel ih =>
    cases hfields : f.fields (scanf f.header s.input).values with
    | none =>
      rw [loadRecords_invalid hfields] at h
      cases h
      exact List.prefix_rfl
    | some p =>
      obtain ⟨type, count, addr⟩ := p
      by_cases htype : type = f.dataType
      · subst htype
        rw [loadRecords_data hfields] at h
        have hdata : s.stores <+: _ := loadData_stores (line + 1) (f.dataCount count) addr
          (f.start f.dataType count addr) (f.headed s)
        generalize loadData (line + 1) (f.dataCount count) addr _ (f.headed s) = p at h hdata
        have hstay : (readChecksum (line + 1) (f.close p.1) p.2).2.stores = p.2.stores :=
          readChecksum_stores _ _
        rw [← hstay] at hdata
        dsimp only at h
        split at h
        · have hrest := ih h
          exact hdata.trans hrest
        · cases h
          exact hdata
      · rw [loadRecords_other hfields htype] at h
        split at h
        · cases h
          rw [readChecksum_stores]
          exact List.prefix_rfl
        · cases h
          exact List.prefix_rfl

/-- A header has three numbers. -/
theorem Kind.header_length (k : Kind) {t : Text} {p : ℕ × ℕ × ℕ}
    (h : k.format.fields (scanf k.format.header t).values = some p) :
    (scanf k.format.header t).rest.length + 3 ≤ t.length := by
  have hvalues := scanf_values k.format.header t
  have hthree : (scanf k.format.header t).values.length = 3 := by
    generalize (scanf k.format.header t).values = vs at h
    cases k <;> (
      unfold Kind.format at h
      simp only [Loader.s19, Loader.hex] at h
      split at h
      · rfl
      · cases h)
  omega

theorem Kind.start_trunc (k : Kind) (type count addr : ℕ) :
    ∃ x, k.format.start type count addr = Word.trunc 32 x := by
  cases k
  · exact ⟨_, rfl⟩
  · exact ⟨_, rfl⟩

/-- A file with sound data is read to an end, with good stores. -/
theorem loadRecords_sound (line : ℕ) (h : k.format.Sound s.input) (hfuel : s.input.length < fuel) :
    ∃ s', k.format.loadRecords fuel line s = some s' ∧ (∀ y ∈ s'.stores, y ∈ s.stores ∨ y.Good) ∧
      s'.iterations + s'.input.length ≤ s.iterations + s.input.length + 1 := by
  induction fuel generalizing line s with
  | zero => exact absurd hfuel (Nat.not_lt_zero _)
  | succ fuel ih =>
    obtain ⟨hfirst, hnext⟩ := Format.sound_iff.mp h
    have hheader := (Nat.le_add_right _ _).trans (scanf_values k.format.header s.input)
    have hrounds : (k.format.headed s).iterations + (k.format.headed s).input.length ≤
        s.iterations + s.input.length + 1 := by
      simp only [Format.headed]
      omega
    cases hfields : k.format.fields (scanf k.format.header s.input).values with
    | none => exact ⟨_, loadRecords_invalid hfields, fun y hy => .inl hy, hrounds⟩
    | some p =>
      obtain ⟨type, count, addr⟩ := p
      by_cases htype : type = k.format.dataType
      · subst htype
        have hdata : k.format.dataHeader s.input =
            some (count, addr, (k.format.headed s).input) :=
          Format.dataHeader_iff.mpr ⟨hfields, rfl⟩
        obtain ⟨x, hstart⟩ := k.start_trunc k.format.dataType count addr
        obtain ⟨s₁, hrun, hinput, hstores, hbound⟩ :=
          loadData_sound (line + 1) (s := k.format.headed s) (hfirst _ _ _ hdata) x
        have hthree := k.header_length hfields
        have hleft : s₁.input.length ≤ (k.format.headed s).input.length := by
          have hlength := loadData_length (line + 1) (k.format.dataCount count) addr
            (Word.trunc 32 x) (k.format.headed s)
          rwa [hrun] at hlength
        have hone : (k.format.headed s).iterations = s.iterations + 1 := rfl
        have hrest : (k.format.headed s).input.length + 3 ≤ s.input.length := hthree
        rw [loadRecords_data hfields, hstart, hrun]
        dsimp only
        generalize hclose : k.format.close _ = last
        by_cases haccepted : ∃ w, scanf [.hex 2] s₁.input = ⟨[last], none, w⟩
        · obtain ⟨w, hw⟩ := haccepted
          obtain ⟨s₂, haccept, hskip, hinput₂, hstores₂, hrounds₂, hlength₂⟩ :=
            readChecksum_accepted (line + 1) hw
          have hsound : k.format.Sound s₂.input := by
            refine hnext _ ⟨count, addr, _, w, hdata, ?_, hinput₂⟩
            rw [hstart, trunc_add, hclose, ← hw, hinput]
          obtain ⟨s', hrun', hstores', hbound'⟩ := ih (line + 1) hsound (by omega)
          rw [haccept, if_pos rfl, hskip]
          refine ⟨s', hrun', fun y hy => ?_, by omega⟩
          rcases hstores' y hy with hmem | hgood
          · rw [hstores₂] at hmem
            exact hstores y hmem
          · exact .inr hgood
        · rw [readChecksum_rejected _ (not_exists.mp haccepted), if_neg Bool.false_ne_true]
          refine ⟨_, rfl, fun y hy => ?_, ?_⟩
          · rw [readChecksum_stores] at hy
            exact hstores y hy
          · have hlast := readChecksum_length (line + 1) last (s := s₁)
            rw [readChecksum_iterations]
            omega
      · rw [loadRecords_other hfields htype]
        split
        · refine ⟨_, rfl, fun y hy => .inl ?_, ?_⟩
          · rw [readChecksum_stores] at hy
            exact hy
          · have hleft := readChecksum_length (line + 1)
              (k.format.close (k.format.start type count addr))
              (s := k.format.headed s)
            rw [readChecksum_iterations]
            omega
        · exact ⟨_, rfl, fun y hy => .inl hy, hrounds⟩

/-- Data that are not sound leave a store that is not good. -/
theorem loadRecords_unsound (h : ¬k.format.Sound s.input)
    (hrun : k.format.loadRecords fuel line s = some s') : ∃ y ∈ s'.stores, ¬y.Good := by
  induction fuel generalizing line s with
  | zero => cases hrun
  | succ fuel ih =>
    rw [Format.sound_iff] at h
    by_cases hfirst : ∀ count addr u, k.format.dataHeader s.input = some (count, addr, u) →
        SoundData (k.format.dataCount count) addr u
    · -- The data of this record are sound: the record behind its checksum is to blame.
      obtain ⟨v, hnext, hv⟩ : ∃ v, k.format.Next s.input v ∧ ¬k.format.Sound v := by
        simpa using not_and.mp h hfirst
      obtain ⟨count, addr, u, w, hdata, hscan, rfl⟩ := hnext
      obtain ⟨hfields, hrest⟩ := Format.dataHeader_iff.mp hdata
      have hhead : (k.format.headed s).input = u := hrest
      obtain ⟨x, hstart⟩ := k.start_trunc k.format.dataType count addr
      have hsound : SoundData (k.format.dataCount count) addr (k.format.headed s).input :=
        hhead ▸ hfirst _ _ _ hdata
      obtain ⟨s₁, hload, hinput, -⟩ := loadData_sound (line + 1) hsound x
      rw [hstart, trunc_add, ← hhead, ← hinput] at hscan
      obtain ⟨s₂, haccept, hskip, hinput₂, -⟩ := readChecksum_accepted (line + 1) hscan
      rw [loadRecords_data hfields, hstart, hload] at hrun
      dsimp only at hrun
      rw [haccept, if_pos rfl, hskip] at hrun
      rw [← hinput₂] at hv
      exact ih hv hrun
    · simp only [not_forall] at hfirst
      obtain ⟨count, addr, u, hdata, hunsound⟩ := hfirst
      obtain ⟨hfields, hrest⟩ := Format.dataHeader_iff.mp hdata
      have hhead : (k.format.headed s).input = u := hrest
      rw [← hhead] at hunsound
      obtain ⟨y, hy, hbad⟩ := loadData_unsound (line + 1) hunsound
        (k.format.start k.format.dataType count addr)
      rw [loadRecords_data hfields] at hrun
      generalize loadData _ _ _ _ _ = p at hrun hy
      have hstay : (readChecksum (line + 1) (k.format.close p.1) p.2).2.stores = p.2.stores :=
        readChecksum_stores _ _
      refine ⟨y, ?_, hbad⟩
      rw [← hstay] at hy
      dsimp only at hrun
      split at hrun
      · have hlater := loadRecords_stores hrun
        exact hlater.subset hy
      · cases hrun
        exact hy

end Records

/-- The loaders are harmless exactly on the files with sound data. -/
theorem load_harmless_iff (k : Kind) (data : ℕ) (file : Text) :
    k.format.Harmless data file ↔ k.format.Sound file := by
  constructor
  · rintro ⟨s, hrun, -, hgood⟩
    by_contra hunsound
    obtain ⟨y, hy, hbad⟩ := loadRecords_unsound (s := ⟨file, data, [], [], 0⟩) hunsound hrun
    exact hbad (hgood y hy)
  · intro h
    obtain ⟨s, hrun, hstores, hbound⟩ :=
      loadRecords_sound (s := ⟨file, data, [], [], 0⟩) 0 h (Nat.lt_succ_self _)
    refine ⟨s, hrun, by simpa using Nat.le_of_add_right_le hbound, fun y hy => ?_⟩
    rcases hstores y hy with hmem | hgood
    · exact absurd hmem List.not_mem_nil
    · exact hgood

/-- A file that ends behind a header: the byte of before is stored. -/
theorem load_truncated : ¬∀ (k : Kind) (data : ℕ) (file : Text), k.format.Harmless data file := by
  intro h
  obtain ⟨s, hrun, -, hgood⟩ := h .s19 0 (ofString "S104FFFF")
  have hload : Kind.s19.format.load 0 (ofString "S104FFFF") =
      some ⟨[], 0, [⟨0xffff, 0, []⟩], [(1, .checksum)], 2⟩ := by decide
  rw [hload] at hrun
  cases hrun
  obtain ⟨u, hpresent⟩ := (hgood _ List.mem_cons_self).present
  cases hpresent

end Exec09.Loader
