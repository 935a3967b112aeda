import Exec09.Loader.ImageFile

/-! # Loading what has been encoded

A well-formed record is given as a text that spells its fields: two hexadecimal
digits of either case for a byte, four for an address, and a last byte that
completes the checksum. The loaders perform the stores of the records of a file
in order.
-/
namespace Exec09.Loader
open Foundation Text

/-! ## Well-formed files -/

/-- The text spells these bytes. -/
inductive Spells : List (BitVec 8) → Text → Prop
  | nil : Spells [] []
  | cons {b : BitVec 8} {bs : List (BitVec 8)} {t u : Text} (hb : IsHex 2 b.toNat t)
      (hbs : Spells bs u) : Spells (b :: bs) (t ++ u)

def sumOf (bytes : List (BitVec 8)) : ℕ := (bytes.map BitVec.toNat).sum

/-- The format of a file. -/
inductive Kind
  | s19 | hex
  deriving DecidableEq, Repr

def Kind.format : Kind → Format
  | .s19 => Loader.s19
  | .hex => Loader.hex

/-- The count field of a record: that of an S-record includes the address and the checksum. -/
def Kind.countField : Kind → ℕ → ℕ
  | .s19, n => n + 3
  | .hex, n => n

/-- A header with these fields. -/
inductive Kind.Header : Kind → ℕ → ℕ → ℕ → Text → Prop
  | s19 {type count addr : ℕ} {t u v : Text} (htype : IsHex 1 type t) (hcount : IsHex 2 count u)
      (haddr : IsHex 4 addr v) : Header .s19 type count addr (83 :: (t ++ (u ++ v)))
  | hex {type count addr : ℕ} {t u v : Text} (hcount : IsHex 2 count t) (haddr : IsHex 4 addr u)
      (htype : IsHex 2 type v) : Header .hex type count addr (58 :: (t ++ (u ++ v)))

/-- The bytes of a record add up to 0xff or to 0, with the last one. -/
def Kind.Adds : Kind → ℕ → ℕ → ℕ → ℕ → ℕ → Prop
  | .s19, _, count, addr, sum, last => (count + addr / 256 + addr % 256 + sum + last) % 256 = 255
  | .hex, type, count, addr, sum, last =>
    (type + count + addr / 256 + addr % 256 + sum + last) % 256 = 0

/-- A correct record. -/
def Kind.Record (k : Kind) (type addr : ℕ) (bytes : List (BitVec 8)) (t : Text) : Prop :=
  ∃ h d s last, t = h ++ (d ++ s) ∧ k.Header type (k.countField bytes.length) addr h ∧
    Spells bytes d ∧ IsHex 2 last s ∧
    k.Adds type (k.countField bytes.length) addr (sumOf bytes) last

/-- Bytes at an address. -/
structure DataRecord where
  addr : ℕ
  bytes : List (BitVec 8)
  fits : addr + bytes.length ≤ 0x10000

/-- A file is a sequence of data records, each before a line ending, then an end record. -/
inductive Kind.Encodes (k : Kind) : List DataRecord → Text → Text → Prop
  | last {addr : ℕ} {t rest : Text} (ht : k.Record k.format.endType addr [] t) :
      Encodes k [] (t ++ rest) rest
  | data {r : DataRecord} {rs : List DataRecord} {t ending u rest : Text}
      (ht : k.Record k.format.dataType r.addr r.bytes t) (hending : ∀ c ∈ ending, c = 13 ∨ c = 10)
      (hrest : Encodes k rs u rest) : Encodes k (r :: rs) (t ++ (ending ++ u)) rest

/-- The stores of bytes from an address on. -/
def storesFrom : ℕ → List (BitVec 8) → List (ℕ × BitVec 8)
  | _, [] => []
  | addr, b :: bs => (addr, b) :: storesFrom (addr + 1) bs

def Load.performed (s : Load) : List (ℕ × BitVec 8) := s.stores.map fun x => (x.addr, x.value)

/-! ## The parts of a record -/

theorem scanf_fields {c : BitVec 8} {l m n x y z : ℕ} {t u v : Text} (ht : IsHex l x t)
    (hu : IsHex m y u) (hv : IsHex n z v) (hl : 0 < l ∧ l ≤ 8) (hm : 0 < m ∧ m ≤ 8)
    (hn : 0 < n ∧ n ≤ 8) (w : Text) :
    scanf [.literal c, .hex l, .hex m, .hex n] (c :: (t ++ (u ++ v)) ++ w) =
      ⟨[x, y, z], none, w⟩ := by
  rw [List.cons_append, List.append_assoc, List.append_assoc, scanf_literal,
    scanf_hex ht hl.1 hl.2, scanf_hex hu hm.1 hm.2, scanf_number hv hn.1 hn.2]

theorem Kind.Header.scanned {k : Kind} {type count addr : ℕ} {h : Text}
    (hh : k.Header type count addr h) (u : Text) :
    k.format.fields (scanf k.format.header (h ++ u)).values = some (type, count, addr) ∧
      (scanf k.format.header (h ++ u)).rest = u ∧ (scanf k.format.header (h ++ u)).result = 3 := by
  cases hh with
  | s19 htype hcount haddr =>
    have hscan := scanf_fields (c := 83) htype hcount haddr (by decide) (by decide) (by decide) u
    rw [Kind.format, Loader.s19, hscan]
    exact ⟨rfl, rfl, rfl⟩
  | hex hcount haddr htype =>
    have hscan := scanf_fields (c := 58) hcount haddr htype (by decide) (by decide) (by decide) u
    rw [Kind.format, Loader.hex, hscan]
    exact ⟨rfl, rfl, rfl⟩

theorem loadData_spells {bytes : List (BitVec 8)} {d : Text} (hd : Spells bytes d) (line : ℕ)
    (u : Text) {addr : ℕ} (haddr : addr + bytes.length ≤ 0x10000) (x : ℕ) {s : Load}
    (hs : s.input = d ++ u) :
    ∃ s', loadData line bytes.length addr (Word.trunc 32 x) s =
        (Word.trunc 32 (x + sumOf bytes), s') ∧ s'.input = u ∧ s'.messages = s.messages ∧
      s'.performed = s.performed ++ storesFrom addr bytes := by
  induction hd generalizing addr x s with
  | nil => exact ⟨s, rfl, hs, rfl, (List.append_nil _).symm⟩
  | @cons b bs t v hb hbs ih =>
    rw [List.length_cons] at haddr ⊢
    rw [List.append_assoc] at hs
    have hscan := scanf_number hb (by decide) (by decide) (v ++ u)
    rw [← hs] at hscan
    obtain ⟨s', hrun, hinput, hmessages, hperformed⟩ :=
      @ih (addr + 1) (by omega) (x + b.toNat) (s.stored addr b.toNat (v ++ u)) rfl
    have hnext : Word.trunc 32 (addr + 1) = addr + 1 := Nat.mod_eq_of_lt (by omega)
    have hsum : Word.trunc 32 (Word.trunc 32 x + b.toNat) = Word.trunc 32 (x + b.toNat) :=
      Nat.mod_add_mod _ _ _
    have hall : x + b.toNat + sumOf bs = x + sumOf (b :: bs) := by
      simp [sumOf, Nat.add_assoc]
    refine ⟨s', ?_, hinput, hmessages, ?_⟩
    · rw [loadData_value hscan, hnext, hsum, hrun, hall]
    · rw [hperformed, storesFrom]
      simp [Load.performed, Load.stored]

theorem readChecksum_isHex {last : ℕ} {t : Text} (ht : IsHex 2 last t) (line : ℕ) {u : Text}
    {s : Load} (hs : s.input = t ++ u) :
    readChecksum line last s = (true, { s with input := u, data := last }) := by
  rw [readChecksum, hs, scanf_number ht (by decide) (by decide) u]
  exact if_neg (by simp [Scanned.result])

/-- A checksum that fits is the one that the loader computes. -/
theorem Kind.Adds.close {k : Kind} {type count addr sum last : ℕ} (hlast : last < 256)
    (h : k.Adds type count addr sum last) : ∃ x,
    k.format.start type count addr = Word.trunc 32 x ∧
      k.format.close (Word.trunc 32 (x + sum)) = last := by
  cases k with
  | s19 =>
    refine ⟨count + (addr >>> 8) + (addr &&& 0xff), rfl, ?_⟩
    have hadds : (count + addr / 256 + addr % 256 + sum + last) % 256 = 255 := h
    simp only [Kind.format, Loader.s19, Word.trunc, Word.compl, Word.and_255,
      Nat.shiftRight_eq_div_pow]
    omega
  | hex =>
    refine ⟨count + (addr >>> 8) + (addr &&& 0xff) + type, rfl, ?_⟩
    have hadds : (type + count + addr / 256 + addr % 256 + sum + last) % 256 = 0 := h
    simp only [Kind.format, Loader.hex, Word.trunc, Word.sub, Word.and_255,
      Nat.shiftRight_eq_div_pow]
    omega

theorem Kind.dataCount_countField (k : Kind) {n : ℕ} (h : k.countField n < 256) :
    k.format.dataCount (k.countField n) = n := by
  cases k with
  | s19 =>
    simp only [Kind.countField] at h
    simp only [Kind.format, Loader.s19, Kind.countField, Word.sub]
    omega
  | hex => rfl

theorem Kind.Header.count_lt {k : Kind} {type count addr : ℕ} {h : Text}
    (hh : k.Header type count addr h) : count < 256 := by
  cases hh with
  | s19 htype hcount haddr => exact hcount.lt
  | hex hcount haddr htype => exact hcount.lt

/-- A line ending is skipped up to the mark of a record. -/
theorem scanf_lineEnding {ending u : Text} {c : BitVec 8} (hending : ∀ e ∈ ending, e = 13 ∨ e = 10)
    (hc : ¬(c = 13 ∨ c = 10)) :
    (scanf [.discard [13, 10]] (ending ++ c :: u)).rest = c :: u := by
  have hmem (e : BitVec 8) : e ∈ [(13 : BitVec 8), 10] ↔ e = 13 ∨ e = 10 := by simp
  cases ending with
  | nil =>
    rw [List.nil_append, scanf, Directive.scan, if_neg (mt (hmem c).mp hc)]
  | cons e ending =>
    have he := hending e List.mem_cons_self
    rw [List.cons_append, scanf, Directive.scan, if_pos ((hmem e).mpr he)]
    have hdrop : List.dropWhile (fun d => decide (d ∈ [(13 : BitVec 8), 10]))
        (e :: (ending ++ c :: u)) = c :: u := by
      rw [← List.cons_append, List.dropWhile_append_of_pos]
      · exact List.dropWhile_cons_of_neg (by simpa using hc)
      · intro d hd
        exact decide_eq_true ((hmem d).mpr (hending d hd))
    exact hdrop

/-- The mark of a record. -/
def Kind.mark : Kind → BitVec 8
  | .s19 => 83
  | .hex => 58

theorem Kind.Record.marked {k : Kind} {type addr : ℕ} {bytes : List (BitVec 8)} {t : Text}
    (h : k.Record type addr bytes t) : ∃ u, t = k.mark :: u := by
  obtain ⟨h, d, s, last, rfl, hh, -⟩ := h
  cases hh <;> exact ⟨_, rfl⟩

theorem Kind.Encodes.marked {k : Kind} {rs : List DataRecord} {t rest : Text}
    (h : k.Encodes rs t rest) : ∃ u, t = k.mark :: u := by
  cases h with
  | last ht =>
    obtain ⟨u, rfl⟩ := ht.marked
    exact ⟨_, rfl⟩
  | data ht =>
    obtain ⟨u, rfl⟩ := ht.marked
    exact ⟨_, rfl⟩

/-! ## The loop over the records -/

section Records
variable {k : Kind} {addr : ℕ} {bytes : List (BitVec 8)} {t : Text} {s : Load}

theorem dataType_ne_endType (k : Kind) : k.format.endType ≠ k.format.dataType := by
  cases k <;> decide

theorem loadRecords_last (ht : k.Record k.format.endType addr [] t) (fuel line : ℕ) {u : Text}
    (hs : s.input = t ++ u) :
    ∃ s', k.format.loadRecords (fuel + 1) line s = some s' ∧ s'.input = u ∧
      s'.messages = s.messages ∧ s'.performed = s.performed := by
  obtain ⟨h, d, c, last, rfl, hh, hd, hlast, hadds⟩ := ht
  cases hd
  obtain ⟨x, hstart, hclose⟩ := hadds.close hlast.lt
  rw [sumOf, List.map_nil, List.sum_nil, Nat.add_zero, ← hstart] at hclose
  rw [List.nil_append, List.append_assoc] at hs
  obtain ⟨hfields, hrest, -⟩ := hh.scanned (c ++ u)
  rw [← hs] at hfields hrest
  have hend := readChecksum_isHex hlast (line + 1) (s := k.format.headed s) hrest
  refine ⟨{ k.format.headed s with input := u, data := last }, ?_, rfl, rfl, rfl⟩
  rw [loadRecords_other hfields (dataType_ne_endType k), if_pos rfl, hclose, hend]

theorem loadRecords_record (ht : k.Record k.format.dataType addr bytes t)
    (hfits : addr + bytes.length ≤ 0x10000) (fuel line : ℕ) {u : Text} (hs : s.input = t ++ u) :
    ∃ s', k.format.loadRecords (fuel + 1) line s =
        k.format.loadRecords fuel (line + 1) (skipLineEnding s') ∧ s'.input = u ∧
      s'.messages = s.messages ∧ s'.performed = s.performed ++ storesFrom addr bytes := by
  obtain ⟨h, d, c, last, rfl, hh, hd, hlast, hadds⟩ := ht
  obtain ⟨x, hstart, hclose⟩ := hadds.close hlast.lt
  rw [List.append_assoc, List.append_assoc] at hs
  obtain ⟨hfields, hrest, -⟩ := hh.scanned (d ++ (c ++ u))
  rw [← hs] at hfields hrest
  obtain ⟨s₁, hdata, hinput, hmessages, hperformed⟩ :=
    loadData_spells hd (line + 1) (c ++ u) hfits x (s := k.format.headed s) hrest
  have hend := readChecksum_isHex hlast (line + 1) hinput
  refine ⟨{ s₁ with input := u, data := last }, ?_, rfl, hmessages, hperformed⟩
  rw [loadRecords_data hfields, k.dataCount_countField hh.count_lt, hstart, hdata]
  dsimp only
  rw [hclose, hend]
  rfl

/-- The loop over the records of an encoded file. -/
theorem loadRecords_encodes {rs : List DataRecord} {rest : Text} (h : k.Encodes rs t rest)
    (fuel line : ℕ) (hfuel : t.length < fuel) (hs : s.input = t) :
    ∃ s', k.format.loadRecords fuel line s = some s' ∧ s'.input = rest ∧
      s'.messages = s.messages ∧
      s'.performed = s.performed ++ rs.flatMap fun r => storesFrom r.addr r.bytes := by
  induction h generalizing fuel line s with
  | last ht =>
    cases fuel with
    | zero => exact absurd hfuel (Nat.not_lt_zero _)
    | succ fuel =>
      obtain ⟨s', hrun, hinput, hmessages, hperformed⟩ := loadRecords_last ht fuel line hs
      exact ⟨s', hrun, hinput, hmessages, by rw [hperformed, List.flatMap_nil, List.append_nil]⟩
  | @data r rs t ending u rest ht hending hrest ih =>
    cases fuel with
    | zero => exact absurd hfuel (Nat.not_lt_zero _)
    | succ fuel =>
      obtain ⟨s₁, hrun, hinput, hmessages, hperformed⟩ :=
        loadRecords_record ht r.fits fuel line hs
      have hskip : (skipLineEnding s₁).input = u := by
        obtain ⟨v, rfl⟩ := hrest.marked
        rw [skipLineEnding, hinput]
        exact scanf_lineEnding hending (by cases k <;> decide)
      obtain ⟨v, rfl⟩ := ht.marked
      obtain ⟨s', hrun', hinput', hmessages', hperformed'⟩ :=
        ih fuel (line + 1) (by simp at hfuel; omega) hskip
      refine ⟨s', hrun.trans hrun', hinput', hmessages'.trans hmessages, ?_⟩
      rw [hperformed', List.flatMap_cons, ← List.append_assoc, ← hperformed]
      rfl

end Records

/-- Loading an encoded file performs the stores of its records, and reports nothing. -/
theorem load_encodes {k : Kind} {rs : List DataRecord} {t rest : Text} (h : k.Encodes rs t rest)
    (data : ℕ) : ∃ s, k.format.load data t = some s ∧ s.input = rest ∧ s.messages = [] ∧
      s.performed = rs.flatMap fun r => storesFrom r.addr r.bytes :=
  loadRecords_encodes h _ 0 (Nat.lt_succ_self _) rfl

/-! ## The choice of the loader -/

theorem Kind.Record.headed {k : Kind} {type addr : ℕ} {bytes : List (BitVec 8)} {t : Text}
    (h : k.Record type addr bytes t) (u : Text) : (scanf k.format.header (t ++ u)).result = 3 := by
  obtain ⟨h, d, s, last, rfl, hh, -⟩ := h
  rw [List.append_assoc]
  exact (hh.scanned _).2.2

theorem Kind.Encodes.headed {k : Kind} {rs : List DataRecord} {t rest : Text}
    (h : k.Encodes rs t rest) : (scanf k.format.header t).result = 3 := by
  cases h with
  | last ht => exact ht.headed _
  | data ht => exact ht.headed _

def Kind.loaded : Kind → Load → Loaded
  | .s19, s => .s19 (some s)
  | .hex, s => .hex (some s)

/-- An encoded file is recognised, loaded in the order of its records, and read up to the end of
its last record, without a message. -/
theorem loadImage_encodes {k : Kind} {rs : List DataRecord} {t rest : Text}
    (h : k.Encodes rs t rest) (data : ℕ) :
    ∃ s, loadImage data (some t) = k.loaded s ∧ s.input = rest ∧ s.messages = [] ∧
      s.performed = rs.flatMap fun r => storesFrom r.addr r.bytes := by
  obtain ⟨s, hload, hs⟩ := load_encodes h data
  refine ⟨s, ?_, hs⟩
  cases k with
  | s19 =>
    have hheader : (scanf Loader.s19.header t).result = 3 := h.headed
    have hs19 : loadS19 data t = some s := hload
    rw [loadImage, if_pos hheader, hs19]
    rfl
  | hex =>
    have hhex : loadHex data t = some s := hload
    obtain ⟨u, rfl⟩ := h.marked
    have hheader : (scanf Loader.hex.header (58 :: u)).result = 3 := h.headed
    have hfirst : scanf s19.header (58 :: u) = ⟨[], some .mismatch, 58 :: u⟩ := rfl
    have hzero : ¬(⟨[], some .mismatch, 58 :: u⟩ : Scanned).result = 3 := by simp [Scanned.result]
    rw [loadImage, Kind.mark, hfirst, if_neg hzero]
    exact (if_pos hheader).trans (congrArg (fun r => Loaded.hex r) hhex)

theorem loadImage_encodes_s19 : ∃ s,
    loadImage 0 (some (ofString "S1050100aAFf50\r\nS9030000FC\n")) = .s19 (some s) ∧
      s.input = ofString "\n" ∧ s.messages = [] ∧ s.performed = [(0x100, 0xaa), (0x101, 0xff)] := by
  have hdata : Kind.Record .s19 1 0x100 [0xaa, 0xff] (ofString "S1050100aAFf50") :=
    ⟨ofString "S1050100", ofString "aAFf", ofString "50", 0x50, rfl,
      .s19 (t := ofString "1") (u := ofString "05") (v := ofString "0100") (by decide) (by decide)
        (by decide),
      .cons (t := ofString "aA") (by decide) (.cons (t := ofString "Ff") (by decide) .nil),
      by decide, rfl⟩
  have hend : Kind.Record .s19 9 0 [] (ofString "S9030000FC") :=
    ⟨ofString "S9030000", [], ofString "FC", 0xfc, rfl,
      .s19 (t := ofString "9") (u := ofString "03") (v := ofString "0000") (by decide) (by decide)
        (by decide),
      .nil, by decide, rfl⟩
  have hfile : Kind.Encodes .s19 [⟨0x100, [0xaa, 0xff], by decide⟩]
      (ofString "S1050100aAFf50" ++ (ofString "\r\n" ++ (ofString "S9030000FC" ++ ofString "\n")))
      (ofString "\n") := .data hdata (by decide) (.last hend)
  exact loadImage_encodes hfile 0

end Exec09.Loader
