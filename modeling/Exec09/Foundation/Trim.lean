import Exec09.Foundation.CText
import Mathlib.Data.List.DropRight

/-! # Text without the space around it

What is left of a text when the space before and after it is removed, and what
this does to a text that is put together from words and space.
-/
namespace Exec09.Foundation.Text

/-- All of the text is space. -/
def Space (t : Text) : Prop := ∀ c ∈ t, isSpace c = true

instance (t : Text) : Decidable (Space t) := inferInstanceAs (Decidable (∀ c ∈ t, _))

/-- No space at either end. -/
def Trimmed (t : Text) : Prop :=
  (∀ c ∈ t.head?, isSpace c = false) ∧ ∀ c ∈ t.getLast?, isSpace c = false

instance (t : Text) : Decidable (Trimmed t) := inferInstanceAs (Decidable (_ ∧ _))

def trimEnd (t : Text) : Text := t.rdropWhile isSpace

def trim (t : Text) : Text := trimEnd (skipSpace t)

variable {t u : Text}

theorem skipSpace_append (h : Space u) : skipSpace (u ++ t) = skipSpace t := by
  induction u with
  | nil => rfl
  | cons c u ih =>
    rw [skipSpace, List.cons_append, List.dropWhile_cons_of_pos (h c List.mem_cons_self)]
    exact ih fun d hd => h d (List.mem_cons_of_mem c hd)

theorem skipSpace_cons {c : BitVec 8} (h : isSpace c = false) : skipSpace (c :: t) = c :: t :=
  List.dropWhile_cons_of_neg (by simp [h])

theorem trimEnd_append (h : Space u) : trimEnd (t ++ u) = trimEnd t := by
  induction u using List.reverseRecOn with
  | nil => rw [List.append_nil]
  | append_singleton u c ih =>
    rw [← List.append_assoc, trimEnd,
      List.rdropWhile_concat_pos _ _ _ (h c (List.mem_append_right u (List.mem_singleton_self c)))]
    exact ih fun d hd => h d (List.mem_append_left _ hd)

theorem trimEnd_space (h : Space u) : trimEnd u = [] := List.rdropWhile_eq_nil_iff.mpr h

/-- A last character that is no space protects what is before it. -/
theorem trimEnd_concat {c : BitVec 8} (h : isSpace c = false) : trimEnd (t ++ [c]) = t ++ [c] :=
  List.rdropWhile_concat_neg _ _ _ (by simp [h])

theorem trimEnd_append_cons {c : BitVec 8} (h : isSpace c = false) :
    trimEnd (t ++ c :: u) = t ++ c :: trimEnd u := by
  induction u using List.reverseRecOn with
  | nil => exact trimEnd_concat h
  | append_singleton u d ih =>
    rw [← List.cons_append, ← List.append_assoc]
    by_cases hd : isSpace d = true
    · have hspace : Space [d] := fun e he => List.mem_singleton.mp he ▸ hd
      rw [trimEnd_append hspace, trimEnd_append hspace, ih]
    · rw [Bool.not_eq_true] at hd
      rw [trimEnd_concat hd, trimEnd_concat hd, List.append_assoc, List.cons_append]

theorem Trimmed.trimEnd (h : Trimmed t) : trimEnd t = t := by
  rcases List.eq_nil_or_concat t with rfl | ⟨u, c, rfl⟩
  · rfl
  · rw [List.concat_eq_append] at h ⊢
    exact trimEnd_concat (h.2 c (by rw [List.getLast?_concat]; rfl))

theorem Trimmed.skipSpace (h : Trimmed t) : skipSpace t = t := by
  cases t with
  | nil => rfl
  | cons c t => exact skipSpace_cons (h.1 c rfl)

/-- The space around a trimmed text goes, the text stays. -/
theorem trim_around (ht : Trimmed t) {a b : Text} (ha : Space a) (hb : Space b) :
    trim (a ++ (t ++ b)) = t := by
  rw [trim, skipSpace_append ha]
  cases t with
  | nil =>
    rw [List.nil_append]
    have hskip : Text.skipSpace b = [] := List.dropWhile_eq_nil_iff.mpr hb
    rw [hskip]
    rfl
  | cons c t =>
    rw [List.cons_append, skipSpace_cons (ht.1 c rfl), ← List.cons_append, trimEnd_append hb]
    exact ht.trimEnd

/-- The first character that is no space. -/
theorem space_or (t : Text) :
    Space t ∨ ∃ a c b, t = a ++ c :: b ∧ Space a ∧ isSpace c = false := by
  induction t with
  | nil => exact .inl fun _ h => by cases h
  | cons c t ih =>
    by_cases hc : isSpace c = true
    · rcases ih with hall | ⟨a, d, b, rfl, ha, hd⟩
      · exact .inl (List.forall_mem_cons.mpr ⟨hc, hall⟩)
      · exact .inr ⟨c :: a, d, b, rfl, List.forall_mem_cons.mpr ⟨hc, ha⟩, hd⟩
    · exact .inr ⟨[], c, t, rfl, fun _ h => (by cases h), by simpa using hc⟩

/-- To trim the end first changes nothing. -/
theorem trim_trimEnd (t : Text) : trim (trimEnd t) = trim t := by
  rcases space_or t with hall | ⟨a, c, b, rfl, ha, hc⟩
  · have hskip : skipSpace t = [] := List.dropWhile_eq_nil_iff.mpr hall
    rw [trimEnd_space hall, trim, trim, hskip]
    rfl
  · have hcons (u : Text) : trimEnd (c :: u) = c :: trimEnd u := trimEnd_append_cons (t := []) hc
    rw [trimEnd_append_cons hc, trim, trim, skipSpace_append ha, skipSpace_append ha,
      skipSpace_cons hc, skipSpace_cons hc, hcons, hcons]
    exact congrArg (c :: ·) (List.rdropWhile_idempotent _ _)

end Exec09.Foundation.Text
