import Exec09.Foundation.CText

/-! # Bytes in hexadecimal

The host monitor prints bytes as pairs of digits and reads them back from its
command line, where separators and prefixes may stand. The digits are collected
first, in a buffer for 4096 bytes.
-/
namespace Exec09.Hostmon
open Foundation

abbrev Byte := BitVec 8

def HOSTMON_MAX_HEX : ℕ := 4096

/-! ## The source -/

/-- Space, tab, `-`, `:` and `,`. -/
def isSeparator (c : Byte) : Bool := c == 32 || c == 9 || c == 45 || c == 58 || c == 44

def isHexDigit (c : Byte) : Bool :=
  (48 ≤ c && c ≤ 57) || (97 ≤ c && c ≤ 102) || (65 ≤ c && c ≤ 70)

/-- The first loop of `parse_hex_bytes`, with the digits collected so far. -/
def collectDigits (clean : Text) : Text → Option Text
  | 48 :: 120 :: s => collectDigits clean s
  | 48 :: 88 :: s => collectDigits clean s
  | c :: s =>
    if isSeparator c then collectDigits clean s
    else if isHexDigit c then
      if clean.length ≥ HOSTMON_MAX_HEX * 2 then none else collectDigits (clean ++ [c]) s
    else none
  | [] => some clean

/-- The second loop, over the pairs of digits. -/
def bytesOf : Text → List Byte
  | c :: d :: clean => ((Text.strtoul 16 [c, d]).getD 0).setWidth 8 :: bytesOf clean
  | _ => []

/-- The value returned, and the bytes stored from the start of `out` on. -/
def parseHexBytes (s : Text) (cap : ℤ) : ℤ × List Byte :=
  match collectDigits [] s with
  | none => (-1, [])
  | some clean =>
    if clean.length = 0 ∨ clean.length % 2 = 1 then (-1, [])
    else if cap < clean.length / 2 then (-1, [])
    else (clean.length / 2, bytesOf clean)

/-- A digit as `printf` writes it. -/
def hexDigit (upper : Bool) (n : ℕ) : Byte :=
  BitVec.ofNat 8 (if n < 10 then 48 + n else if upper then 55 + n else 87 + n)

def printHex : List Byte → Text
  | [] => [10]
  | b :: bs => hexDigit true (b.toNat / 16) :: hexDigit true (b.toNat % 16) ::
      (if bs = [] then [] else [32]) ++ printHex bs

/-! ## Renderings -/

/-- One byte with what stands before it. -/
structure Rendered where
  byte : Byte
  gap : List { c : Byte // isSeparator c = true }
  /-- Whether there is a prefix, and whether its letter is a capital. -/
  zeroX : Option Bool
  upperHigh : Bool
  upperLow : Bool

namespace Rendered

def mark : Option Bool → Text
  | none => []
  | some false => [48, 120]
  | some true => [48, 88]

/-- The two digits of the byte. -/
def digits (r : Rendered) : Text :=
  [hexDigit r.upperHigh (r.byte.toNat / 16), hexDigit r.upperLow (r.byte.toNat % 16)]

def text (r : Rendered) : Text := r.gap.map Subtype.val ++ mark r.zeroX ++ r.digits

end Rendered

def render (rs : List Rendered) : Text := rs.flatMap Rendered.text

/-- A text without the pairs `0x` and `0X`. -/
def deletePrefixes : Text → Text
  | 48 :: 120 :: s => deletePrefixes s
  | 48 :: 88 :: s => deletePrefixes s
  | c :: s => c :: deletePrefixes s
  | [] => []

/-- What is left without the pairs and then without the separators. -/
def stripped (s : Text) : Text := (deletePrefixes s).filter fun c => !isSeparator c

/-! ## The digits collected -/

theorem separator_not_digit : ∀ c : Byte, isSeparator c = true → isHexDigit c = false := by
  decide

theorem stripped_separator {c : Byte} {s : Text} (hc : isSeparator c = true)
    (hnext : deletePrefixes (c :: s) = c :: deletePrefixes s) : stripped (c :: s) = stripped s := by
  rw [stripped, hnext, List.filter_cons_of_neg (by simp [hc])]
  rfl

theorem stripped_other {c : Byte} {s : Text} (hc : ¬isSeparator c = true)
    (hnext : deletePrefixes (c :: s) = c :: deletePrefixes s) :
    stripped (c :: s) = c :: stripped s := by
  rw [stripped, hnext, List.filter_cons_of_pos (by simp [hc])]
  rfl

/-- The first loop succeeds on exactly what is left of the text. -/
theorem collectDigits_eq (clean s : Text) (hclean : clean.length ≤ HOSTMON_MAX_HEX * 2) :
    collectDigits clean s = if (stripped s).all isHexDigit = true ∧
        clean.length + (stripped s).length ≤ HOSTMON_MAX_HEX * 2 then
      some (clean ++ stripped s) else none := by
  fun_induction collectDigits clean s with
  | case1 clean s ih => exact ih hclean
  | case2 clean s ih => exact ih hclean
  | case3 clean c s hx hX hsep ih =>
    have hnext : deletePrefixes (c :: s) = c :: deletePrefixes s := deletePrefixes.eq_3 c s hx hX
    rw [ih hclean, stripped_separator hsep hnext]
  | case4 clean c s hx hX hsep hdigit hfull =>
    have hnext : deletePrefixes (c :: s) = c :: deletePrefixes s := deletePrefixes.eq_3 c s hx hX
    rw [stripped_other hsep hnext, if_neg]
    rintro ⟨-, hlength⟩
    rw [List.length_cons] at hlength
    omega
  | case5 clean c s hx hX hsep hdigit hfull ih =>
    have hnext : deletePrefixes (c :: s) = c :: deletePrefixes s := deletePrefixes.eq_3 c s hx hX
    have hroom : (clean ++ [c]).length ≤ HOSTMON_MAX_HEX * 2 := by
      rw [List.length_append, List.length_singleton]
      omega
    have hlength : (clean ++ [c]).length + (stripped s).length =
        clean.length + (c :: stripped s).length := by
      rw [List.length_append, List.length_singleton, List.length_cons]
      omega
    rw [ih hroom, stripped_other hsep hnext, List.all_cons, hdigit, Bool.true_and, hlength,
      List.append_assoc, List.singleton_append]
  | case6 clean c s hx hX hsep hdigit =>
    have hnext : deletePrefixes (c :: s) = c :: deletePrefixes s := deletePrefixes.eq_3 c s hx hX
    rw [stripped_other hsep hnext, List.all_cons, eq_false_of_ne_true hdigit, if_neg]
    exact fun h => Bool.false_ne_true h.1
  | case7 clean =>
    rw [if_pos ⟨by simp [stripped, deletePrefixes], by simpa [stripped, deletePrefixes] using hclean⟩]
    simp [stripped, deletePrefixes]

/-- What `parse_hex_bytes` returns, by what is left of the text. -/
theorem parseHexBytes_eq (s : Text) (cap : ℤ) : parseHexBytes s cap =
    if (stripped s).all isHexDigit = true ∧ (stripped s).length ≤ HOSTMON_MAX_HEX * 2 ∧
        (stripped s).length ≠ 0 ∧ (stripped s).length % 2 = 0 ∧ ((stripped s).length / 2 : ℤ) ≤ cap then
      (((stripped s).length / 2 : ℤ), bytesOf (stripped s)) else (-1, []) := by
  rw [parseHexBytes, collectDigits_eq [] s (Nat.zero_le _), List.nil_append, List.length_nil,
    Nat.zero_add]
  generalize stripped s = t
  by_cases hdigits : t.all isHexDigit = true ∧ t.length ≤ HOSTMON_MAX_HEX * 2
  · rw [if_pos hdigits]
    simp only [hdigits.1, hdigits.2, true_and]
    split_ifs <;> first | rfl | omega
  · rw [if_neg hdigits, if_neg fun h => hdigits ⟨h.1, h.2.1⟩]

theorem bytesOf_length : ∀ t : Text, t.length % 2 = 0 → 2 * (bytesOf t).length = t.length := by
  intro t
  fun_induction bytesOf t with
  | case1 c d t ih =>
    intro heven
    simp only [List.length_cons] at heven ⊢
    have htail := ih (by omega)
    omega
  | case2 t hshort =>
    intro heven
    match t, hshort, heven with
    | [], _, _ => rfl
    | [c], _, heven => cases heven
    | c :: d :: t, hshort, _ => exact absurd rfl (hshort c d t)

/-! ## Renderings are read back -/

theorem hexDigit_digit (upper : Bool) : ∀ n < 16, isHexDigit (hexDigit upper n) = true := by
  cases upper <;> decide

theorem strtoul_digits : ∀ (u v : Bool) (b : Byte), ((Text.strtoul 16
    [hexDigit u (b.toNat / 16), hexDigit v (b.toNat % 16)]).getD 0).setWidth 8 = b := by
  decide +kernel

/-- The text does not go on with the letter of a prefix. -/
def Plain (t : Text) : Prop := t.head? ≠ some 120 ∧ t.head? ≠ some 88

theorem deletePrefixes_cons {c : Byte} {t : Text} (h : c = 48 → Plain t) :
    deletePrefixes (c :: t) = c :: deletePrefixes t := by
  refine deletePrefixes.eq_3 c t (fun s hc ht => (h hc).1 ?_) fun s hc ht => (h hc).2 ?_
  · rw [ht]
    rfl
  · rw [ht]
    rfl

theorem stripped_digit {c : Byte} {t : Text} (hc : isHexDigit c = true) (ht : Plain t) :
    stripped (c :: t) = c :: stripped t := by
  have hsep : ¬isSeparator c = true := fun h =>
    Bool.false_ne_true ((separator_not_digit c h).symm.trans hc)
  exact stripped_other hsep (deletePrefixes_cons fun _ => ht)

theorem stripped_gap (gap : List { c : Byte // isSeparator c = true }) (t : Text) :
    stripped (gap.map Subtype.val ++ t) = stripped t := by
  induction gap with
  | nil => rfl
  | cons c gap ih =>
    have hzero : c.val ≠ 48 := by
      intro h
      have hc := c.property
      rw [h] at hc
      exact absurd hc (by decide)
    rw [List.map_cons, List.cons_append, stripped_separator c.property
      (deletePrefixes_cons fun h => absurd h hzero), ih]

theorem plain_cons {c : Byte} (hc : isSeparator c = true ∨ isHexDigit c = true) (t : Text) :
    Plain (c :: t) := by
  have hletters : ∀ c : Byte, isSeparator c = true ∨ isHexDigit c = true → c ≠ 120 ∧ c ≠ 88 := by
    decide
  rw [Plain, List.head?_cons, Ne, Ne, Option.some.injEq, Option.some.injEq]
  exact hletters c hc

theorem plain_gap (gap : List { c : Byte // isSeparator c = true }) {t : Text} (ht : Plain t) :
    Plain (gap.map Subtype.val ++ t) := by
  cases gap with
  | nil => exact ht
  | cons c gap => exact plain_cons (.inl c.property) _

namespace Rendered

theorem digits_digit (r : Rendered) : isHexDigit (hexDigit r.upperHigh (r.byte.toNat / 16)) = true ∧
    isHexDigit (hexDigit r.upperLow (r.byte.toNat % 16)) = true := by
  have hbyte : r.byte.toNat < 256 := r.byte.isLt
  exact ⟨hexDigit_digit _ _ (by omega), hexDigit_digit _ _ (by omega)⟩

theorem stripped_digits (r : Rendered) {t : Text} (ht : Plain t) :
    stripped (r.digits ++ t) = r.digits ++ stripped t := by
  obtain ⟨hhigh, hlow⟩ := r.digits_digit
  change stripped (_ :: _ :: t) = _ :: _ :: stripped t
  rw [stripped_digit hhigh (plain_cons (.inr hlow) t), stripped_digit hlow ht]

theorem stripped_mark (mark : Option Bool) (t : Text) :
    stripped (Rendered.mark mark ++ t) = stripped t := by
  rcases mark with _ | _ | _ <;> rfl

theorem plain_text (r : Rendered) (t : Text) : Plain (r.text ++ t) := by
  rw [text, List.append_assoc, List.append_assoc]
  refine plain_gap r.gap ?_
  rcases r.zeroX with _ | _ | _
  · exact plain_cons (.inr r.digits_digit.1) _
  · exact plain_cons (.inr (by decide)) _
  · exact plain_cons (.inr (by decide)) _

end Rendered

/-- What is left of a rendering are the digits of its bytes. -/
theorem stripped_render (rs : List Rendered) (gap : List { c : Byte // isSeparator c = true }) :
    Plain (render rs ++ gap.map Subtype.val) ∧
      stripped (render rs ++ gap.map Subtype.val) = rs.flatMap Rendered.digits := by
  induction rs with
  | nil =>
    have hgap := stripped_gap gap []
    have hplain : Plain (gap.map Subtype.val ++ []) := plain_gap gap (by simp [Plain])
    rw [List.append_nil] at hgap hplain
    exact ⟨hplain, hgap⟩
  | cons r rs ih =>
    have hcons : render (r :: rs) = r.text ++ render rs := rfl
    rw [hcons, List.flatMap_cons, List.append_assoc]
    refine ⟨r.plain_text _, ?_⟩
    rw [Rendered.text, List.append_assoc, List.append_assoc, stripped_gap, Rendered.stripped_mark,
      r.stripped_digits ih.1, ih.2]

theorem bytesOf_digits (rs : List Rendered) :
    bytesOf (rs.flatMap Rendered.digits) = rs.map Rendered.byte := by
  induction rs with
  | nil => rfl
  | cons r rs ih =>
    rw [List.flatMap_cons, List.map_cons, ← ih, Rendered.digits, List.cons_append, List.cons_append,
      List.nil_append, bytesOf, strtoul_digits]

theorem digits_length (rs : List Rendered) :
    (rs.flatMap Rendered.digits).length = 2 * rs.length := by
  simp [List.length_flatMap, Rendered.digits, Nat.mul_comm]

theorem digits_all (rs : List Rendered) :
    (rs.flatMap Rendered.digits).all isHexDigit = true := by
  rw [List.all_flatMap, List.all_eq_true]
  intro r _
  obtain ⟨hhigh, hlow⟩ := r.digits_digit
  simp [Rendered.digits, hhigh, hlow]

theorem parseHexBytes_render (rs : List Rendered) (gap : List { c : Byte // isSeparator c = true })
    (cap : ℤ) (hpos : 1 ≤ rs.length) (hle : (rs.length : ℤ) ≤ min cap HOSTMON_MAX_HEX) :
    parseHexBytes (render rs ++ gap.map Subtype.val) cap =
      ((rs.length : ℤ), rs.map Rendered.byte) := by
  obtain ⟨hcap, hmax⟩ := le_min_iff.mp hle
  have hhalf : ((2 * rs.length : ℕ) : ℤ) / 2 = rs.length := by omega
  rw [parseHexBytes_eq, (stripped_render rs gap).2, digits_length, hhalf, bytesOf_digits,
    if_pos ⟨digits_all rs, by omega, by omega, by omega, hcap⟩]

theorem parseHexBytes_sound (s : Text) (cap : ℤ) : parseHexBytes s cap = (-1, []) ∨
    0 < (parseHexBytes s cap).1 ∧ (parseHexBytes s cap).1 ≤ cap ∧
      (stripped s).all isHexDigit = true ∧
      ((stripped s).length : ℤ) = 2 * (parseHexBytes s cap).1 ∧
      ((parseHexBytes s cap).2.length : ℤ) = (parseHexBytes s cap).1 := by
  rw [parseHexBytes_eq]
  split_ifs with h
  · obtain ⟨hdigits, -, hne, heven, hcap⟩ := h
    have hbytes := bytesOf_length (stripped s) heven
    refine .inr ⟨?_, hcap, hdigits, ?_, ?_⟩ <;> dsimp only <;> omega
  · exact .inl rfl

/-- Any rendering of up to 4096 bytes is read back. What is accepted are pairs of digits, once the
prefixes and the separators are deleted, and as many bytes are stored as are returned. -/
theorem parseHexBytes_inverts :
    (∀ (rs : List Rendered) (gap : List { c : Byte // isSeparator c = true }) (cap : ℤ),
      1 ≤ rs.length → (rs.length : ℤ) ≤ min cap 4096 →
        parseHexBytes (render rs ++ gap.map Subtype.val) cap =
          ((rs.length : ℤ), rs.map Rendered.byte)) ∧
    ∀ (s : Text) (cap : ℤ), parseHexBytes s cap = (-1, []) ∨
      ∃ n : ℕ, 0 < n ∧ (n : ℤ) ≤ cap ∧ (parseHexBytes s cap).1 = n ∧
        (∀ c ∈ stripped s, isHexDigit c = true) ∧ (stripped s).length = 2 * n ∧
        (parseHexBytes s cap).2.length = n := by
  refine ⟨fun rs gap cap hpos hle => parseHexBytes_render rs gap cap hpos hle, fun s cap => ?_⟩
  rcases parseHexBytes_sound s cap with h | ⟨hpos, hcap, hdigits, hlength, hstored⟩
  · exact .inl h
  · refine .inr ⟨(parseHexBytes s cap).2.length, by omega, by omega, by omega,
      List.all_eq_true.mp hdigits, by omega, rfl⟩

/-- `00:0X0a - 1B`. -/
theorem parseHexBytes_mixed :
    parseHexBytes [48, 48, 58, 48, 88, 48, 97, 32, 45, 32, 49, 66] 4096 = (3, [0x00, 0x0A, 0x1B]) :=
  parseHexBytes_inverts.1 [⟨0x00, [], none, false, false⟩,
    ⟨0x0A, [⟨58, rfl⟩], some true, false, false⟩,
    ⟨0x1B, [⟨32, rfl⟩, ⟨45, rfl⟩, ⟨32, rfl⟩], none, true, true⟩] [] 4096 (by decide) (by decide)

/-! ## What is printed is read back -/

/-- A byte as it is printed. -/
def printed (b : Byte) (gap : List { c : Byte // isSeparator c = true }) : Rendered :=
  ⟨b, gap, none, true, true⟩

theorem printHex_eq (b : Byte) (bs : List Byte) : printHex (b :: bs) =
    render (printed b [] :: bs.map fun c => printed c [⟨32, rfl⟩]) ++ [10] := by
  induction bs generalizing b with
  | nil => rfl
  | cons c bs ih =>
    rw [printHex, if_neg (List.cons_ne_nil c bs), ih c]
    rfl

theorem parseHexBytes_printHex {bs : List Byte} {cap : ℤ} {t : Text} (hpos : bs ≠ [])
    (hle : (bs.length : ℤ) ≤ min cap HOSTMON_MAX_HEX) (ht : printHex bs = t ++ [10]) :
    parseHexBytes t cap = ((bs.length : ℤ), bs) := by
  obtain ⟨b, bs, rfl⟩ := List.exists_cons_of_ne_nil hpos
  rw [printHex_eq] at ht
  have hlength : (printed b [] :: bs.map fun c => printed c [⟨32, rfl⟩]).length = (b :: bs).length := by
    simp
  have hbytes : (printed b [] :: bs.map fun c => printed c [⟨32, rfl⟩]).map Rendered.byte =
      b :: bs := by
    simp [printed, Function.comp_def]
  have hparse := parseHexBytes_render (printed b [] :: bs.map fun c => printed c [⟨32, rfl⟩]) [] cap
    (by simp) (by rwa [hlength])
  rwa [List.map_nil, List.append_nil, List.append_cancel_right ht, hlength, hbytes] at hparse

end Exec09.Hostmon
