import Exec09.Foundation.CText
import Mathlib.Data.List.DropRight
import Mathlib.Data.List.Forall2

/-! # Formatted input

`fscanf` on a text, for the directives that read hexadecimal numbers. A number is
the longest prefix within the width that can begin a number, which may be no
number: then it has been consumed all the same. At the end of the text a
directive fails in another way, and `fscanf` returns EOF if nothing has been
converted.
-/
namespace Exec09.Foundation

namespace Text

/-- `%Nx`, a literal byte, and `%*[...]`. -/
inductive Directive
  | hex (width : ℕ)
  | literal (c : BitVec 8)
  | discard (set : List (BitVec 8))
  deriving DecidableEq, Repr

inductive Failure
  | eof | mismatch
  deriving DecidableEq, Repr

/-- The effect of one directive: the value it assigns, if any. -/
abbrev Converted := Except Failure (Option ℕ)

/-- Past `0x`, if the width has room for it. -/
def skipPrefix (w : ℕ) : Text → ℕ × Text
  | 48 :: x :: t => if 2 ≤ w ∧ (x = 120 ∨ x = 88) then (w - 2, t) else (w, 48 :: x :: t)
  | t => (w, t)

/-- A number at the front of a text that is not empty. -/
def scanNumber (w : ℕ) (t : Text) : Converted × Text :=
  let (minus, u) := sign t
  let (w, u) := skipPrefix (w - (t.length - u.length)) u
  let ds := digits 16 (u.take w)
  let v := value 16 ds
  (if ds = [] then .error .mismatch else .ok (some ((if minus then 2 ^ 32 - v else v) % 2 ^ 32)),
    u.drop ds.length)

/-- `%Nx` into an `unsigned int`. -/
def scanHex (w : ℕ) (t : Text) : Converted × Text :=
  match skipSpace t with
  | [] => (.error .eof, [])
  | c :: u => scanNumber w (c :: u)

def Directive.scan : Directive → Text → Converted × Text
  | .hex w, t => scanHex w t
  | .literal _, [] => (.error .eof, [])
  | .literal c, d :: t => if d = c then (.ok none, t) else (.error .mismatch, d :: t)
  | .discard _, [] => (.error .eof, [])
  | .discard set, d :: t =>
    if d ∈ set then (.ok none, (d :: t).dropWhile (· ∈ set)) else (.error .mismatch, d :: t)

/-- The values that are assigned, why `fscanf` has ended early, and the text it leaves. -/
structure Scanned where
  values : List ℕ
  failure : Option Failure
  rest : Text
  deriving DecidableEq, Repr

def scanf : List Directive → Text → Scanned
  | [], t => ⟨[], none, t⟩
  | d :: ds, t =>
    match d.scan t with
    | (.error e, u) => ⟨[], some e, u⟩
    | (.ok v, u) =>
      let r := scanf ds u
      { r with values := v.toList ++ r.values }

/-- The value of `fscanf`. -/
def Scanned.result (r : Scanned) : ℤ :=
  if r.values = [] ∧ r.failure = some .eof then -1 else r.values.length

example : scanf [.hex 2] (ofString " 1g") = ⟨[1], none, ofString "g"⟩ := by decide
example : scanf [.hex 2] (ofString "0x12") = ⟨[], some .mismatch, ofString "12"⟩ := by decide

/-! ## Numbers in full width -/

/-- `t` is `n` hexadecimal digits, of either case, with the value `v`. -/
def IsHex (n v : ℕ) (t : Text) : Prop :=
  ∃ ds, List.Forall₂ (fun c d => digitIn 16 c = some d) t ds ∧ ds.length = n ∧ value 16 ds = v

theorem digit_plain : ∀ c : BitVec 8, digitIn 16 c ≠ none →
    isSpace c = false ∧ c ≠ 43 ∧ c ≠ 45 ∧ c ≠ 120 ∧ c ≠ 88 := by decide

theorem digits_of_forall {t : Text} {ds : List ℕ}
    (h : List.Forall₂ (fun c d => digitIn 16 c = some d) t ds) : digits 16 t = ds := by
  induction h with
  | nil => rfl
  | cons hc _ ih => rw [digits, hc, ih]

theorem isHex_iff {n v : ℕ} {t : Text} : IsHex n v t ↔
    t.length = n ∧ (digits 16 t).length = n ∧ value 16 (digits 16 t) = v := by
  constructor
  · rintro ⟨ds, hds, rfl, rfl⟩
    rw [digits_of_forall hds]
    exact ⟨hds.length_eq, rfl, rfl⟩
  · rintro ⟨rfl, hlength, rfl⟩
    refine ⟨_, ?_, hlength, rfl⟩
    induction t with
    | nil => exact .nil
    | cons c t ih =>
      rw [digits] at hlength ⊢
      cases hc : digitIn 16 c with
      | none =>
        rw [hc] at hlength
        cases hlength
      | some d =>
        rw [hc] at hlength
        exact .cons hc (ih (Nat.succ.inj hlength))

instance {n v : ℕ} {t : Text} : Decidable (IsHex n v t) := decidable_of_iff _ isHex_iff.symm

theorem skipSpace_of_digit {c : BitVec 8} {t : Text} (hc : digitIn 16 c ≠ none) :
    skipSpace (c :: t) = c :: t := by
  rw [skipSpace, List.dropWhile_cons_of_neg]
  rw [(digit_plain c hc).1]
  exact Bool.false_ne_true

theorem sign_of_digit {c : BitVec 8} {t : Text} (hc : digitIn 16 c ≠ none) :
    sign (c :: t) = (false, c :: t) := by
  obtain ⟨-, hplus, hminus, -⟩ := digit_plain c hc
  unfold sign
  split
  · rename_i h
    exact absurd (List.cons.inj h).1 hplus
  · rename_i h
    exact absurd (List.cons.inj h).1 hminus
  · rfl

/-- Two digits are no prefix. -/
theorem skipPrefix_of_digits {w : ℕ} {t u : Text} {ds : List ℕ} (hw : ds.length = w)
    (h : List.Forall₂ (fun c d => digitIn 16 c = some d) t ds) :
    skipPrefix w (t ++ u) = (w, t ++ u) := by
  unfold skipPrefix
  split
  · rename_i x v heq
    refine (if_neg ?_).trans (by rw [heq]; rfl)
    rintro ⟨htwo, hx⟩
    cases h with
    | nil =>
      rw [List.length_nil] at hw
      omega
    | cons _ h =>
      cases h with
      | nil =>
        rw [List.length_singleton] at hw
        omega
      | cons hd _ =>
        obtain ⟨-, -, -, hlower, hupper⟩ := digit_plain _ (Option.ne_none_iff_exists'.mpr ⟨_, hd⟩)
        simp only [List.cons_append, List.cons.injEq] at heq
        rw [heq.2.1] at hlower hupper
        exact hx.elim hlower hupper
  · rfl

/-- A number that fills the width is read in full, whatever follows it. -/
theorem scanHex_isHex {n v : ℕ} {t : Text} (h : IsHex n v t) (hn : 0 < n) (hv : v < 2 ^ 32)
    (u : Text) : scanHex n (t ++ u) = (.ok (some v), u) := by
  obtain ⟨ds, hds, hlength, hvalue⟩ := h
  have hpos : ds ≠ [] := List.ne_nil_of_length_pos (hlength ▸ hn)
  have hdigits := digits_of_forall hds
  have ht : t.length = n := hds.length_eq.trans hlength
  have hskip := skipPrefix_of_digits (u := u) hlength hds
  cases hds with
  | nil => exact absurd rfl hpos
  | cons hc hrest =>
    rename_i c d t ds
    have hsome : digitIn 16 c ≠ none := Option.ne_none_iff_exists'.mpr ⟨_, hc⟩
    rw [List.cons_append] at hskip
    rw [List.cons_append, scanHex, skipSpace_of_digit hsome]
    simp only [scanNumber, sign_of_digit hsome, Nat.sub_self, Nat.sub_zero, hskip]
    rw [← List.cons_append, List.take_left' ht, hdigits, if_neg hpos, hvalue, hlength,
      List.drop_left' ht]
    simp only [Bool.false_eq_true, if_false, Nat.mod_eq_of_lt hv]

theorem digitIn_lt {base d : ℕ} {c : BitVec 8} (h : digitIn base c = some d) : d < base :=
  of_decide_eq_true (Option.filter_eq_some_iff.mp h).2

theorem foldl_lt {base : ℕ} {ds : List ℕ} (h : ∀ d ∈ ds, d < base) (v : ℕ) :
    ds.foldl (fun v d => v * base + d) v < (v + 1) * base ^ ds.length := by
  induction ds generalizing v with
  | nil => simp
  | cons d ds ih =>
    have hd := h d List.mem_cons_self
    have hrest := ih (fun e he => h e (List.mem_cons_of_mem _ he)) (v * base + d)
    have hstep : (v * base + d + 1) * base ^ ds.length ≤ (v + 1) * base * base ^ ds.length := by
      apply Nat.mul_le_mul_right
      rw [Nat.add_one_mul]
      omega
    rw [List.foldl_cons, List.length_cons, Nat.pow_succ, Nat.mul_comm (base ^ _), ← Nat.mul_assoc]
    exact Nat.lt_of_lt_of_le hrest hstep

theorem IsHex.lt {n v : ℕ} {t : Text} (h : IsHex n v t) : v < 16 ^ n := by
  obtain ⟨ds, hds, rfl, rfl⟩ := h
  have hsmall : ∀ d ∈ ds, d < 16 := by
    induction hds with
    | nil => simp
    | cons hc _ ih => exact List.forall_mem_cons.mpr ⟨digitIn_lt hc, ih⟩
  have hlt := foldl_lt hsmall 0
  rwa [Nat.zero_add, Nat.one_mul] at hlt

/-- A number in full width is converted, and the other directives see what follows it. -/
theorem scanf_hex {n v : ℕ} {t : Text} (h : IsHex n v t) (hn : 0 < n) (hle : n ≤ 8)
    (ds : List Directive) (u : Text) : scanf (.hex n :: ds) (t ++ u) =
      { scanf ds u with values := v :: (scanf ds u).values } := by
  have hv : v < 2 ^ 32 := Nat.lt_of_lt_of_le h.lt (Nat.pow_le_pow_right (by decide) hle)
  rw [scanf, Directive.scan, scanHex_isHex h hn hv]
  rfl

theorem scanf_number {n v : ℕ} {t : Text} (h : IsHex n v t) (hn : 0 < n) (hle : n ≤ 8) (u : Text) :
    scanf [.hex n] (t ++ u) = ⟨[v], none, u⟩ := scanf_hex h hn hle [] u

theorem scanf_literal (c : BitVec 8) (ds : List Directive) (t : Text) :
    scanf (.literal c :: ds) (c :: t) = scanf ds t := by
  rw [scanf, Directive.scan, if_pos rfl]
  rfl

/-! ## The text that is left -/

theorem sign_length (t : Text) : (sign t).2.length ≤ t.length := by
  unfold sign
  split <;> simp

theorem skipPrefix_length (w : ℕ) (t : Text) : (skipPrefix w t).2.length ≤ t.length := by
  unfold skipPrefix
  split
  · split
    · exact Nat.le_add_right _ 2
    · exact Nat.le_refl _
  · exact Nat.le_refl _

theorem scanNumber_length (w : ℕ) (t : Text) : (scanNumber w t).2.length ≤ t.length := by
  have hsign := sign_length t
  have hprefix := skipPrefix_length (w - (t.length - (sign t).2.length)) (sign t).2
  simp only [scanNumber, List.length_drop]
  omega

theorem digits_length (t : Text) : (digits 16 t).length ≤ t.length := by
  induction t with
  | nil => exact Nat.le_refl _
  | cons c t ih =>
    rw [digits]
    cases digitIn 16 c with
    | none => simp
    | some d => simpa using ih

/-- A number has digits. -/
theorem scanNumber_ok {w : ℕ} {t u : Text} {v : Option ℕ} (h : scanNumber w t = (.ok v, u)) :
    u.length < t.length := by
  have hsign := sign_length t
  have hprefix := skipPrefix_length (w - (t.length - (sign t).2.length)) (sign t).2
  simp only [scanNumber, Prod.mk.injEq] at h
  obtain ⟨hv, rfl⟩ := h
  generalize skipPrefix (w - (t.length - (sign t).2.length)) (sign t).2 = p at hv hprefix
  have hdigits := digits_length (p.2.take p.1)
  rw [List.length_take] at hdigits
  by_cases hnone : digits 16 (p.2.take p.1) = []
  · rw [if_pos hnone] at hv
    cases hv
  · have hpos := List.length_pos_iff.mpr hnone
    rw [List.length_drop]
    omega

theorem skipSpace_length (t : Text) : (skipSpace t).length ≤ t.length :=
  (List.dropWhile_suffix _).length_le

theorem scanHex_length (w : ℕ) (t : Text) : (scanHex w t).2.length ≤ t.length := by
  have hskip := skipSpace_length t
  unfold scanHex
  split
  · exact Nat.zero_le _
  · rename_i c u heq
    rw [heq] at hskip
    exact Nat.le_trans (scanNumber_length w (c :: u)) hskip

theorem scanHex_ok {w : ℕ} {t u : Text} {v : Option ℕ} (h : scanHex w t = (.ok v, u)) :
    u.length < t.length := by
  have hskip := skipSpace_length t
  unfold scanHex at h
  split at h
  · cases h
  · rename_i c t' heq
    rw [heq] at hskip
    exact Nat.lt_of_lt_of_le (scanNumber_ok h) hskip

theorem Directive.scan_length (d : Directive) (t : Text) : (d.scan t).2.length ≤ t.length := by
  cases d with
  | hex w => exact scanHex_length w t
  | literal c =>
    cases t with
    | nil => exact Nat.le_refl _
    | cons e t =>
      simp only [Directive.scan]
      split <;> simp
  | discard set =>
    cases t with
    | nil => exact Nat.le_refl _
    | cons e t =>
      simp only [Directive.scan]
      split
      · exact (List.dropWhile_suffix _).length_le
      · exact Nat.le_refl _

theorem Directive.scan_ok {d : Directive} {t u : Text} {v : Option ℕ} (h : d.scan t = (.ok v, u)) :
    u.length + v.toList.length ≤ t.length := by
  cases d with
  | hex w =>
    have hlt := scanHex_ok h
    have hone : v.toList.length ≤ 1 := by cases v <;> simp
    omega
  | literal c =>
    cases t with
    | nil => cases h
    | cons e t =>
      rw [Directive.scan] at h
      by_cases he : e = c
      · rw [if_pos he] at h
        cases h
        simp
      · rw [if_neg he] at h
        cases h
  | discard set =>
    cases t with
    | nil => cases h
    | cons e t =>
      rw [Directive.scan] at h
      by_cases he : e ∈ set
      · rw [if_pos he] at h
        cases h
        exact (List.dropWhile_suffix _).length_le
      · rw [if_neg he] at h
        cases h

/-- Each value that is assigned has a byte of its own. -/
theorem scanf_values (ds : List Directive) (t : Text) :
    (scanf ds t).rest.length + (scanf ds t).values.length ≤ t.length := by
  induction ds generalizing t with
  | nil => exact Nat.le_refl _
  | cons d ds ih =>
    have hd := d.scan_length t
    rw [scanf]
    cases hscan : d.scan t with
    | mk r u =>
      rw [hscan] at hd
      cases r with
      | error e => exact hd
      | ok v =>
        have hv := Directive.scan_ok hscan
        have hu := ih u
        simp only [List.length_append]
        omega

/-! ## The ends of one directive -/

theorem scanHex_skipSpace (w : ℕ) (t : Text) : scanHex w (skipSpace t) = scanHex w t := by
  have hskip : skipSpace (skipSpace t) = skipSpace t := List.dropWhile_idempotent _ _
  rw [scanHex, scanHex, hskip]

theorem scanf_hex_cases (w : ℕ) (t : Text) : ∃ u, (∃ v, scanf [.hex w] t = ⟨[v], none, u⟩) ∨
    scanf [.hex w] t = ⟨[], some .eof, u⟩ ∨ scanf [.hex w] t = ⟨[], some .mismatch, u⟩ := by
  refine ⟨(scanHex w t).2, ?_⟩
  rw [scanf, Directive.scan, scanHex]
  cases skipSpace t with
  | nil => exact .inr (.inl rfl)
  | cons c u =>
    simp only [scanNumber]
    split
    · rename_i heq
      split at heq
      · cases heq
        exact .inr (.inr rfl)
      · cases heq
    · rename_i heq
      split at heq
      · cases heq
      · cases heq
        exact .inl ⟨_, rfl⟩

end Text

end Exec09.Foundation
