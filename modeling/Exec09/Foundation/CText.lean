import Mathlib.Data.List.Basic
import Mathlib.Data.Int.Notation
import Mathlib.Tactic

/-! # Text as the C library reads it

A text is the list of the bytes before the terminating zero. The functions are
those of `ctype.h`, `string.h` and `stdlib.h` in the C locale, on 64-bit `long`
and 32-bit `int`.
-/
namespace Exec09.Foundation

abbrev Text := List (BitVec 8)

namespace Text

/-- The bytes of an ASCII literal. -/
def ofString (s : String) : Text := s.toList.map fun c => BitVec.ofNat 8 c.toNat

def isSpace (c : BitVec 8) : Bool := c == 32 || (9 ≤ c && c ≤ 13)

def isDigit (c : BitVec 8) : Bool := 48 ≤ c && c ≤ 57

def isUpper (c : BitVec 8) : Bool := 65 ≤ c && c ≤ 90

def isLower (c : BitVec 8) : Bool := 97 ≤ c && c ≤ 122

def isAlpha (c : BitVec 8) : Bool := isUpper c || isLower c

/-- The value of a digit in the bases up to 36. -/
def digitValue (c : BitVec 8) : Option ℕ :=
  if isDigit c then some (c.toNat - 48)
  else if isUpper c then some (c.toNat - 55)
  else if isLower c then some (c.toNat - 87)
  else none

/-- The value of a digit in this base. -/
def digitIn (base : ℕ) (c : BitVec 8) : Option ℕ := (digitValue c).filter (· < base)

/-! ## Splitting at an operator -/

/-- The text before and after the first byte `c`, as `strchr` finds it. -/
def splitChar (c : BitVec 8) : Text → Option (Text × Text)
  | [] => none
  | d :: t => if d = c then some ([], t) else (splitChar c t).map fun p => (d :: p.1, p.2)

/-- The text before and after the first occurrence of `op`, as `strstr` finds it. -/
def splitText (op : Text) : Text → Option (Text × Text)
  | [] => if op = [] then some ([], []) else none
  | d :: t =>
    if op <+: d :: t then some ([], (d :: t).drop op.length)
    else (splitText op t).map fun p => (d :: p.1, p.2)

theorem splitChar_eq {c : BitVec 8} {t a b : Text} (h : splitChar c t = some (a, b)) :
    t = a ++ c :: b := by
  induction t generalizing a with
  | nil => cases h
  | cons d t ih =>
    rw [splitChar] at h
    by_cases hd : d = c
    · rw [if_pos hd] at h
      cases h
      rw [hd, List.nil_append]
    · rw [if_neg hd] at h
      obtain ⟨⟨a', b'⟩, hp, hab⟩ := Option.map_eq_some_iff.mp h
      cases hab
      rw [ih hp, List.cons_append]

theorem splitText_eq {op t a b : Text} (h : splitText op t = some (a, b)) : t = a ++ op ++ b := by
  induction t generalizing a with
  | nil =>
    rw [splitText] at h
    by_cases hop : op = []
    · rw [if_pos hop] at h
      cases h
      rw [hop]
      rfl
    · rw [if_neg hop] at h
      cases h
  | cons d t ih =>
    rw [splitText] at h
    by_cases hd : op <+: d :: t
    · rw [if_pos hd] at h
      cases h
      exact (List.prefix_iff_eq_append.mp hd).symm
    · rw [if_neg hd] at h
      obtain ⟨⟨a', b'⟩, hp, hab⟩ := Option.map_eq_some_iff.mp h
      cases hab
      rw [ih hp, List.cons_append, List.cons_append]

/-- Both sides of an operator are shorter than the whole. -/
theorem splitChar_lt {c : BitVec 8} {t a b : Text} (h : splitChar c t = some (a, b)) :
    a.length < t.length ∧ b.length < t.length := by
  have hlength := congrArg List.length (splitChar_eq h)
  rw [List.length_append, List.length_cons] at hlength
  omega

theorem splitText_lt {op t a b : Text} (hop : op ≠ []) (h : splitText op t = some (a, b)) :
    a.length < t.length ∧ b.length < t.length := by
  have hlength := congrArg List.length (splitText_eq h)
  have hpos := List.length_pos_iff.mpr hop
  rw [List.length_append, List.length_append] at hlength
  omega

/-! ## Numbers -/

/-- The digits at the front of a text, most significant first. -/
def digits (base : ℕ) : Text → List ℕ
  | [] => []
  | c :: t =>
    match digitIn base c with
    | some d => d :: digits base t
    | none => []

/-- The value of digits. -/
def value (base : ℕ) (ds : List ℕ) : ℕ := ds.foldl (fun v d => v * base + d) 0

def skipSpace (t : Text) : Text := t.dropWhile isSpace

/-- The sign of a number, true for minus, and the text after it. -/
def sign : Text → Bool × Text
  | 43 :: t => (false, t)
  | 45 :: t => (true, t)
  | t => (false, t)

/-- The base of a literal whose base is open, and its digits. A prefix counts if a digit follows. -/
def literal (base : ℕ) (t : Text) : ℕ × List ℕ :=
  match t with
  | 48 :: x :: u =>
    if (x = 120 ∨ x = 88) ∧ (base = 0 ∨ base = 16) ∧ digits 16 u ≠ [] then (16, digits 16 u)
    else if base = 0 then (8, digits 8 t) else (base, digits base t)
  | 48 :: _ => if base = 0 then (8, digits 8 t) else (base, digits base t)
  | _ => if base = 0 then (10, digits 10 t) else (base, digits base t)

/-- `strtoul`, if there is a number. -/
def strtoul (base : ℕ) (t : Text) : Option (BitVec 64) :=
  let (minus, t) := sign (skipSpace t)
  let (base, ds) := literal base t
  if ds = [] then none
  else if value base ds < 2 ^ 64 then
    let v := BitVec.ofNat 64 (value base ds)
    some (if minus then -v else v)
  else some (BitVec.allOnes 64)

/-- `atoi`, by way of `strtol`. -/
def atoi (t : Text) : ℤ :=
  let (minus, t) := sign (skipSpace t)
  let v : ℤ := value 10 (digits 10 t)
  let v := if minus then max (-v) (-2 ^ 63) else min v (2 ^ 63 - 1)
  v.bmod (2 ^ 32)

end Text

end Exec09.Foundation
