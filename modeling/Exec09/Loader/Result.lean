import Exec09.Loader.Malformed

/-! # The result of loading an image

Both loaders leave their loops for every reason with the result 0. It tells that
a format was recognised, and nothing of the records.
-/
namespace Exec09.Loader
open Foundation Text

/-! ## Files that are accepted -/

/-- So many numbers that `%2x` reads, and the text behind them. -/
def numbers : ℕ → Text → Option (List ℕ × Text)
  | 0, t => some ([], t)
  | n + 1, t =>
    match (scanf [.hex 2] t).values with
    | [] => none
    | v :: _ => (numbers n (scanf [.hex 2] t).rest).map fun p => (v :: p.1, p.2)

/-- A record of this type, with as many data as its count says and the correct checksum, up to
the text `w`. -/
def Format.Record (f : Format) (type : ℕ) (t w : Text) : Prop :=
  ∃ count addr vs v, f.fields (scanf f.header t).values = some (type, count, addr) ∧
    numbers (f.dataCount count) (scanf f.header t).rest = some (vs, v) ∧
    scanf [.hex 2] v =
      ⟨[f.close (Word.trunc 32 (f.start type count addr + vs.sum))], none, w⟩

/-- An end record. -/
def Format.Complete (f : Format) (t : Text) : Prop := ∃ w, f.Record f.endType t w

/-- What the loaders read of an end record: the checksum of its header stands behind the header. -/
def Format.EndChecked (f : Format) (t : Text) : Prop :=
  ∃ count addr w, f.fields (scanf f.header t).values = some (f.endType, count, addr) ∧
    scanf [.hex 2] (scanf f.header t).rest =
      ⟨[f.close (f.start f.endType count addr)], none, w⟩

/-- Data records lead to a text with the property `P`. -/
inductive Format.Leads (f : Format) (P : Text → Prop) : Text → Prop
  | last {t : Text} (h : P t) : Leads f P t
  | data {t w : Text} (hrecord : f.Record f.dataType t w)
      (hrest : Leads f P (scanf [.discard [13, 10]] w).rest) : Leads f P t

/-- The format that `load_image` recognises. -/
def selected (t : Text) : Option Kind :=
  if (scanf s19.header t).result = 3 then some .s19
  else if (scanf Loader.hex.header (scanf s19.header t).rest).result = 3 then some .hex
  else none

/-- `load_image` returns 0 only if its loader has accepted every record without a message, and the
records are complete up to an end record. -/
def ReportsRejected (data : ℕ) (file : Option Text) : Prop :=
  (loadImage data file).code = 0 → ∃ (k : Kind) (t : Text) (s : Load), file = some t ∧
    loadImage data file = k.loaded s ∧ s.messages = [] ∧ k.format.Leads k.format.Complete t

/-! ## The data of a record -/

section Data
variable {line n addr : ℕ} {s : Load}

variable (line addr) in
theorem loadData_numbers {vs : List ℕ} {v : Text} (h : numbers n s.input = some (vs, v)) (x : ℕ) :
    ∃ s', loadData line n addr (Word.trunc 32 x) s = (Word.trunc 32 (x + vs.sum), s') ∧
      s'.input = v ∧ s'.messages = s.messages := by
  induction n generalizing addr x s vs with
  | zero =>
    cases h
    exact ⟨s, rfl, rfl, rfl⟩
  | succ n ih =>
    rw [numbers] at h
    obtain ⟨u, ⟨y, hscan⟩ | hscan | hscan⟩ := scanf_hex_cases 2 s.input
    · rw [hscan] at h
      obtain ⟨⟨ys, w⟩, hrest, heq⟩ := Option.map_eq_some_iff.mp h
      cases heq
      obtain ⟨s', hrun, hinput, hmessages⟩ :=
        ih (Word.trunc 32 (addr + 1)) (s := s.stored addr y u) hrest (x + y)
      refine ⟨s', ?_, hinput, hmessages⟩
      rw [loadData_value hscan, trunc_add, hrun, List.sum_cons, Nat.add_assoc]
    · rw [hscan] at h
      cases h
    · rw [hscan] at h
      cases h

theorem scanf_hex_eof {t u : Text} (h : scanf [.hex 2] t = ⟨[], some .eof, u⟩) : u = [] := by
  rw [scanf, Directive.scan, scanHex] at h
  cases hskip : skipSpace t with
  | nil =>
    rw [hskip] at h
    cases h
    rfl
  | cons c v =>
    rw [hskip] at h
    simp only [scanNumber] at h
    split at h
    · rename_i heq
      split at heq
      · cases heq
        cases h
      · cases heq
    · simp [scanf] at h

/-- At the end of the file the data end silently. -/
theorem loadData_end (h : s.input = []) (checksum : ℕ) :
    (loadData line n addr checksum s).2.input = [] ∧
      (loadData line n addr checksum s).2.messages = s.messages := by
  induction n generalizing addr checksum s with
  | zero => exact ⟨h, rfl⟩
  | succ n ih =>
    have hscan : scanf [.hex 2] s.input = ⟨[], some .eof, []⟩ := by rw [h]; rfl
    rw [loadData_eof hscan]
    exact ih rfl _

variable (line addr) in
/-- Where data are missing, there is a message, or the file has ended. -/
theorem loadData_short (h : numbers n s.input = none) (checksum : ℕ) :
    (s.messages <+: (loadData line n addr checksum s).2.messages ∧
      (loadData line n addr checksum s).2.messages ≠ s.messages) ∨
    ((loadData line n addr checksum s).2.input = [] ∧
      (loadData line n addr checksum s).2.messages = s.messages) := by
  induction n generalizing addr checksum s with
  | zero => cases h
  | succ n ih =>
    rw [numbers] at h
    obtain ⟨u, ⟨y, hscan⟩ | hscan | hscan⟩ := scanf_hex_cases 2 s.input
    · rw [hscan] at h
      rw [loadData_value hscan]
      exact ih _ (s := s.stored addr y u) (Option.map_eq_none_iff.mp h) _
    · have hend : u = [] := scanf_hex_eof hscan
      subst hend
      rw [loadData_eof hscan]
      exact .inr (loadData_end (s := s.stored addr s.data []) rfl _)
    · rw [loadData_mismatch hscan]
      exact .inl ⟨List.prefix_append _ _, by simp [Load.report]⟩

end Data

/-! ## The checksum of a record -/

/-- A checksum that is not accepted leaves a message. -/
theorem readChecksum_messages (line checksum : ℕ) (s : Load) :
    s.messages <+: (readChecksum line checksum s).2.messages ∧
      ((readChecksum line checksum s).2.messages = s.messages ↔
        ∃ w, scanf [.hex 2] s.input = ⟨[checksum], none, w⟩) := by
  by_cases haccepted : ∃ w, scanf [.hex 2] s.input = ⟨[checksum], none, w⟩
  · obtain ⟨w, hw⟩ := haccepted
    have hsame : (readChecksum line checksum s).2.messages = s.messages := by
      rw [readChecksum, hw]
      simp [Scanned.result]
    rw [hsame]
    exact ⟨List.prefix_rfl, fun _ => ⟨w, hw⟩, fun _ => rfl⟩
  · have hrejected := readChecksum_rejected line (not_exists.mp haccepted)
    have hreport :
        (readChecksum line checksum s).2.messages = s.messages ++ [(line, .checksum)] := by
      rw [readChecksum] at hrejected ⊢
      dsimp only at hrejected ⊢
      split at hrejected
      · rename_i hbad
        rw [if_pos hbad]
        rfl
      · cases hrejected
    rw [hreport]
    exact ⟨List.prefix_append _ _, by simp, fun h => absurd h haccepted⟩

/-! ## The records -/

/-- The type of the first record, and where it leads to, are determined. -/
theorem Format.Record.unique {f : Format} {type type' : ℕ} {t w w' : Text}
    (h : f.Record type t w) (h' : f.Record type' t w') : type = type' ∧ w = w' := by
  obtain ⟨count, addr, vs, v, hfields, hdata, hsum⟩ := h
  obtain ⟨count', addr', vs', v', hfields', hdata', hsum'⟩ := h'
  rw [hfields] at hfields'
  cases hfields'
  rw [hdata] at hdata'
  cases hdata'
  rw [hsum] at hsum'
  cases hsum'
  exact ⟨rfl, rfl⟩

/-- The property of a text that begins with the header of an end record. -/
def Format.Ends (f : Format) (P : Text → Prop) : Prop :=
  ∀ t, P t → ∃ count addr, f.fields (scanf f.header t).values = some (f.endType, count, addr)

section Leads
variable {k : Kind} {P Q : Text → Prop} {t w : Text}

theorem Kind.complete_ends (k : Kind) : k.format.Ends k.format.Complete := by
  rintro t ⟨w, count, addr, vs, v, hfields, -⟩
  exact ⟨count, addr, hfields⟩

theorem Kind.endChecked_ends (k : Kind) : k.format.Ends k.format.EndChecked := by
  rintro t ⟨count, addr, w, hfields, -⟩
  exact ⟨count, addr, hfields⟩

/-- The header of an end record does not begin a data record. -/
theorem Kind.ends_record (hP : k.format.Ends P) (h : P t) :
    ¬k.format.Record k.format.dataType t w := by
  rintro ⟨count, addr, vs, v, hfields, -⟩
  obtain ⟨count', addr', hend⟩ := hP t h
  rw [hend] at hfields
  cases k <;> cases hfields

theorem Kind.leads_record (hP : k.format.Ends P) (h : k.format.Record k.format.dataType t w) :
    k.format.Leads P t ↔ k.format.Leads P (scanf [.discard [13, 10]] w).rest := by
  constructor
  · intro hleads
    cases hleads with
    | last hlast => exact absurd h (Kind.ends_record hP hlast)
    | data hrecord hrest =>
      obtain ⟨-, rfl⟩ := h.unique hrecord
      exact hrest
  · exact .data h

/-- Two properties of the end record are tested at the same one. -/
theorem Kind.leads_and (hP : k.format.Ends P) (hQ : k.format.Ends Q) :
    k.format.Leads (fun t => P t ∧ Q t) t ↔ k.format.Leads P t ∧ k.format.Leads Q t := by
  constructor
  · intro h
    induction h with
    | last h => exact ⟨.last h.1, .last h.2⟩
    | data hrecord _ ih => exact ⟨.data hrecord ih.1, .data hrecord ih.2⟩
  · rintro ⟨hleft, hright⟩
    induction hleft with
    | last hfirst =>
      cases hright with
      | last hsecond => exact .last ⟨hfirst, hsecond⟩
      | data hrecord _ => exact absurd hrecord (Kind.ends_record hP hfirst)
    | data hrecord _ ih =>
      rw [Kind.leads_record hQ hrecord] at hright
      exact .data hrecord (ih hright)

/-- The header of the first record, where a text leads to an end record. -/
theorem Kind.leads_header (hP : k.format.Ends P) (h : k.format.Leads P t) :
    ∃ type count addr, k.format.fields (scanf k.format.header t).values = some (type, count, addr) ∧
      (type = k.format.dataType ∨ type = k.format.endType ∧ P t) := by
  cases h with
  | last hlast =>
    obtain ⟨count, addr, hfields⟩ := hP t hlast
    exact ⟨_, count, addr, hfields, .inr ⟨rfl, hlast⟩⟩
  | data hrecord _ =>
    obtain ⟨count, addr, -, -, hfields, -⟩ := hrecord
    exact ⟨_, count, addr, hfields, .inl rfl⟩

end Leads

section Records
variable {k : Kind} {fuel : ℕ} {s : Load}

theorem Load.report_ne (line : ℕ) (m : Message) (s : Load) :
    (s.report line m).messages ≠ s.messages := by
  simp [Load.report]

/-- A message stays. -/
theorem ne_of_extended {α : Type} {a b c : List α} (h : a <+: b) (hne : b ≠ a) (hc : b <+: c) :
    c ≠ a := by
  rintro rfl
  exact hne (hc.eq_of_length_le h.length_le)

/-- A data record that is complete is passed silently, and any other one leaves a message. -/
theorem Kind.readRecord_cases (line : ℕ) {count addr : ℕ} {p : ℕ × Load} {q : Bool × Load}
    (hfields : k.format.fields (scanf k.format.header s.input).values =
      some (k.format.dataType, count, addr))
    (hp : p = loadData line (k.format.dataCount count) addr
      (k.format.start k.format.dataType count addr) (k.format.headed s))
    (hq : q = readChecksum line (k.format.close p.1) p.2) :
    (∃ w, k.format.Record k.format.dataType s.input w ∧ q.1 = true ∧
      q.2.messages = s.messages ∧
      (skipLineEnding q.2).input = (scanf [.discard [13, 10]] w).rest) ∨
    (∀ w, ¬k.format.Record k.format.dataType s.input w) ∧ s.messages <+: q.2.messages ∧
      q.2.messages ≠ s.messages := by
  obtain ⟨x, hstart⟩ := k.start_trunc k.format.dataType count addr
  have hchecksum := readChecksum_messages line (k.format.close p.1) p.2
  rw [← hq] at hchecksum
  cases hdata : numbers (k.format.dataCount count) (k.format.headed s).input with
  | none =>
    have hshort := loadData_short line addr hdata
      (k.format.start k.format.dataType count addr)
    rw [← hp] at hshort
    refine .inr ⟨?_, ?_⟩
    · rintro w ⟨count', addr', vs, v, hsome, hnumbers, -⟩
      rw [hfields] at hsome
      cases hsome
      have heq := hnumbers.symm.trans hdata
      cases heq
    · rcases hshort with ⟨hextends, hne⟩ | ⟨hinput, hsame⟩
      · exact ⟨hextends.trans hchecksum.1, ne_of_extended hextends hne hchecksum.1⟩
      · refine ⟨hsame ▸ hchecksum.1, fun hall => ?_⟩
        obtain ⟨w, hw⟩ := hchecksum.2.mp (hall.trans hsame.symm)
        rw [hinput] at hw
        cases hw
  | some r =>
    obtain ⟨vs, v⟩ := r
    obtain ⟨s₁, hrun, hinput, hmessages⟩ :=
      loadData_numbers line addr hdata x
    rw [hstart, hrun] at hp
    subst hp
    have hsame : s₁.messages = s.messages := hmessages
    rw [hsame, hinput] at hchecksum
    by_cases haccepted : ∃ w, scanf [.hex 2] v =
        ⟨[k.format.close (Word.trunc 32 (x + vs.sum))], none, w⟩
    · obtain ⟨w, hw⟩ := haccepted
      rw [← hinput] at hw
      obtain ⟨s₂, htrue, hskip, hnext, -⟩ := readChecksum_accepted line hw
      rw [← hq] at htrue hskip
      refine .inl ⟨w, ⟨count, addr, vs, v, hfields, hdata, ?_⟩, htrue, ?_, ?_⟩
      · rw [hstart, trunc_add, ← hinput, hw]
      · exact hchecksum.2.mpr ⟨w, hinput ▸ hw⟩
      · rw [hskip, hnext]
    · refine .inr ⟨?_, hchecksum.1, fun hall => haccepted (hchecksum.2.mp hall)⟩
      rintro w ⟨count', addr', vs', v', hsome, hnumbers, hsum⟩
      rw [hfields] at hsome
      cases hsome
      have heq := hnumbers.symm.trans hdata
      cases heq
      rw [hstart, trunc_add] at hsum
      exact haccepted ⟨w, hsum⟩

/-- What is left behind a data record is shorter. -/
theorem Kind.record_length (line : ℕ) {count addr : ℕ} {p : ℕ × Load} {q : Bool × Load}
    (hfields : k.format.fields (scanf k.format.header s.input).values =
      some (k.format.dataType, count, addr))
    (hp : p = loadData line (k.format.dataCount count) addr
      (k.format.start k.format.dataType count addr) (k.format.headed s))
    (hq : q = readChecksum line (k.format.close p.1) p.2) :
    (skipLineEnding q.2).input.length < s.input.length := by
  have hthree := k.header_length hfields
  have hdata := loadData_length line (k.format.dataCount count) addr
    (k.format.start k.format.dataType count addr) (k.format.headed s)
  have hchecksum := readChecksum_length line (k.format.close p.1) (s := p.2)
  have hskip := scanf_values [.discard [13, 10]] q.2.input
  have hhead : (k.format.headed s).input = (scanf k.format.header s.input).rest := rfl
  have hinput : (skipLineEnding q.2).input = (scanf [.discard [13, 10]] q.2.input).rest := rfl
  rw [← hp, hhead] at hdata
  rw [← hq] at hchecksum
  rw [hinput]
  omega

/-- A data record that is not complete leads nowhere. -/
theorem Kind.not_leads_data {count addr : ℕ}
    (hfields : k.format.fields (scanf k.format.header s.input).values =
      some (k.format.dataType, count, addr))
    (hnone : ∀ w, ¬k.format.Record k.format.dataType s.input w) :
    ¬k.format.Leads k.format.EndChecked s.input := by
  intro hleads
  cases hleads with
  | last hend =>
    obtain ⟨count', addr', hsome⟩ := k.endChecked_ends _ hend
    rw [hfields] at hsome
    exact absurd (congrArg Prod.fst (Option.some.inj hsome)).symm (dataType_ne_endType k)
  | data hrecord _ => exact hnone _ hrecord

/-- A header of another type leads to the end if it is an end record with its checksum. -/
theorem Kind.leads_other_iff {type count addr : ℕ}
    (hfields : k.format.fields (scanf k.format.header s.input).values = some (type, count, addr))
    (htype : type ≠ k.format.dataType) : k.format.Leads k.format.EndChecked s.input ↔
      type = k.format.endType ∧ k.format.EndChecked s.input := by
  constructor
  · intro hleads
    obtain ⟨type', count', addr', hsome, hkind⟩ := Kind.leads_header k.endChecked_ends hleads
    rw [hfields] at hsome
    cases hsome
    exact hkind.resolve_left htype
  · exact fun h => .last h.2

/-- A loader leaves no message exactly on the records that lead to an end record with the checksum
of its header. -/
theorem loadRecords_silent_iff (line : ℕ) (hfuel : s.input.length < fuel) :
    ∃ s', k.format.loadRecords fuel line s = some s' ∧ s.messages <+: s'.messages ∧
      (s'.messages = s.messages ↔ k.format.Leads k.format.EndChecked s.input) := by
  induction fuel generalizing line s with
  | zero => exact absurd hfuel (Nat.not_lt_zero _)
  | succ fuel ih =>
    cases hfields : k.format.fields (scanf k.format.header s.input).values with
    | none =>
      refine ⟨_, loadRecords_invalid hfields, List.prefix_append _ _, ?_⟩
      refine iff_of_false (Load.report_ne (line + 1) _ (k.format.headed s)) fun hleads => ?_
      obtain ⟨type, count, addr, hsome, -⟩ := Kind.leads_header k.endChecked_ends hleads
      rw [hfields] at hsome
      cases hsome
    | some p =>
      obtain ⟨type, count, addr⟩ := p
      by_cases htype : type = k.format.dataType
      · subst htype
        rw [loadRecords_data hfields]
        dsimp only
        generalize hp : loadData (line + 1) _ _ _ _ = p
        generalize hq : readChecksum (line + 1) _ _ = q
        have hshorter := k.record_length (line + 1) hfields hp.symm hq.symm
        obtain ⟨s', hrun, hextends, hsilent⟩ := ih (s := skipLineEnding q.2) (line + 1) (by omega)
        rcases k.readRecord_cases (line + 1) hfields hp.symm hq.symm with
          ⟨w, hrecord, htrue, hsame, hnext⟩ | ⟨hnone, hmore, hne⟩
        · rw [if_pos htrue]
          rw [hnext, ← Kind.leads_record k.endChecked_ends hrecord] at hsilent
          have hmessages : (skipLineEnding q.2).messages = s.messages := hsame
          rw [hmessages] at hextends hsilent
          exact ⟨s', hrun, hextends, hsilent⟩
        · have hnot := Kind.not_leads_data hfields hnone
          by_cases htrue : q.1 = true
          · rw [if_pos htrue]
            exact ⟨s', hrun, hmore.trans hextends,
              iff_of_false (ne_of_extended hmore hne hextends) hnot⟩
          · rw [if_neg htrue]
            exact ⟨_, rfl, hmore, iff_of_false hne hnot⟩
      · rw [loadRecords_other hfields htype, Kind.leads_other_iff hfields htype]
        by_cases hend : type = k.format.endType
        · subst hend
          rw [if_pos rfl, and_iff_right rfl]
          have hmessages := readChecksum_messages (line + 1)
            (k.format.close (k.format.start k.format.endType count addr)) (k.format.headed s)
          refine ⟨_, rfl, hmessages.1, hmessages.2.trans ?_⟩
          constructor
          · rintro ⟨w, hw⟩
            exact ⟨count, addr, w, hfields, hw⟩
          · rintro ⟨count', addr', w, hsome, hw⟩
            rw [hfields] at hsome
            cases hsome
            exact ⟨w, hw⟩
        · rw [if_neg hend]
          exact ⟨_, rfl, List.prefix_append _ _,
            iff_of_false (Load.report_ne (line + 1) _ (k.format.headed s)) fun h => hend h.1⟩

end Records

/-! ## `load_image` -/

theorem loadImage_none {data : ℕ} {t : Text} (h : selected t = none) :
    loadImage data (some t) = .unrecognised := by
  simp only [selected] at h
  simp only [loadImage]
  split at h
  · cases h
  · rename_i hs19
    rw [if_neg hs19]
    split at h
    · cases h
    · rename_i hhex
      rw [if_neg hhex]

theorem loadImage_some {data : ℕ} {t : Text} {k : Kind} {s : Load} (h : selected t = some k)
    (hrun : k.format.load data t = some s) : loadImage data (some t) = k.loaded s := by
  simp only [selected] at h
  simp only [loadImage]
  split at h
  · rename_i hs19
    cases h
    rw [if_pos hs19]
    exact congrArg Loaded.s19 hrun
  · rename_i hs19
    rw [if_neg hs19]
    split at h
    · rename_i hhex
      cases h
      rw [if_pos hhex]
      exact congrArg Loaded.hex hrun
    · cases h

theorem Kind.loaded_code (k : Kind) (s : Load) : (k.loaded s).code = 0 := by
  cases k <;> rfl

theorem Kind.loaded_inj {k k' : Kind} {s s' : Load} (h : k.loaded s = k'.loaded s') :
    k = k' ∧ s = s' := by
  cases k <;> cases k' <;> cases h <;> exact ⟨rfl, rfl⟩

/-- The result tells of the records exactly where there is nothing to tell. -/
theorem reportsRejected_iff (data : ℕ) (file : Option Text) :
    ReportsRejected data file ↔ ∀ t k, file = some t → selected t = some k →
      k.format.Leads (fun u => k.format.Complete u ∧ k.format.EndChecked u) t := by
  constructor
  · rintro h t k rfl hselected
    obtain ⟨s, hrun, -, hsilent⟩ := loadRecords_silent_iff (k := k)
      (s := ⟨t, data, [], [], 0⟩) 0 (Nat.lt_succ_self _)
    have hloaded := loadImage_some hselected hrun
    rw [ReportsRejected, hloaded] at h
    obtain ⟨k', t', s', ht, hsame, hmessages, hcomplete⟩ := h (k.loaded_code s)
    cases ht
    obtain ⟨rfl, rfl⟩ := Kind.loaded_inj hsame
    exact (Kind.leads_and k.complete_ends k.endChecked_ends).mpr ⟨hcomplete, hsilent.mp hmessages⟩
  · intro h hcode
    cases file with
    | none => cases hcode
    | some t =>
      cases hselected : selected t with
      | none =>
        rw [loadImage_none hselected] at hcode
        cases hcode
      | some k =>
        obtain ⟨s, hrun, -, hsilent⟩ := loadRecords_silent_iff (k := k)
          (s := ⟨t, data, [], [], 0⟩) 0 (Nat.lt_succ_self _)
        obtain ⟨hcomplete, hchecked⟩ :=
          (Kind.leads_and k.complete_ends k.endChecked_ends).mp (h t k rfl hselected)
        exact ⟨k, t, s, rfl, loadImage_some hselected hrun, hsilent.mpr hchecked, hcomplete⟩

/-- A data record with a wrong checksum: the result is 0. -/
theorem rejected_unreported : ¬∀ data file, ReportsRejected data file := by
  intro h
  obtain ⟨k, t, s, -, hloaded, hmessages, -⟩ :=
    h 0 (some (ofString "S104010055FF")) (by decide)
  have hload : loadImage 0 (some (ofString "S104010055FF")) =
      Kind.s19.loaded ⟨[], 255, [⟨0x100, 0x55, ofString "55FF"⟩], [(1, .checksum)], 2⟩ := by
    exact congrArg Loaded.s19 (by decide)
  obtain ⟨-, rfl⟩ := Kind.loaded_inj (hload.symm.trans hloaded)
  cases hmessages

end Exec09.Loader
