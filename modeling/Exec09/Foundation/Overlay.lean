import Mathlib.Data.List.Basic

/-! # Layers laid over a table

A layer covers some keys and has a value for each of them. Laid over a table it
replaces the values of the keys it covers, except those the table holds fast.
The table under a pile of layers is read off the pile: the first layer that
holds a key fast decides it, and otherwise the last one that covers it.
-/
namespace Exec09.Foundation

structure Layer (κ α : Type) where
  covers : κ → Bool
  value : κ → α

namespace Layer
variable {κ α : Type} (fast : α → Bool)

/-- The table with the layer laid over it. -/
def stamp (l : Layer κ α) (table : κ → α) : κ → α := fun k =>
  if l.covers k && !fast (table k) then l.value k else table k

def lay : List (Layer κ α) → (κ → α) → κ → α
  | [], table => table
  | l :: ls, table => lay ls (l.stamp fast table)

/-- The layer whose value `k` has in the end. -/
def deciding (ls : List (Layer κ α)) (k : κ) : Option (Layer κ α) :=
  (ls.find? fun l => l.covers k && fast (l.value k)).or (ls.findRev? fun l => l.covers k)

variable {fast} {table : κ → α} {k : κ}

theorem stamp_covered {l : Layer κ α} (hl : l.covers k = true) (hk : fast (table k) = false) :
    l.stamp fast table k = l.value k := by
  simp [stamp, hl, hk]

theorem stamp_of_fast (l : Layer κ α) (hk : fast (table k) = true) : l.stamp fast table k = table k := by
  simp [stamp, hk]

theorem stamp_uncovered {l : Layer κ α} (hl : l.covers k = false) :
    l.stamp fast table k = table k := by
  simp [stamp, hl]

theorem lay_of_fast (ls : List (Layer κ α)) (hk : fast (table k) = true) :
    lay fast ls table k = table k := by
  induction ls generalizing table with
  | nil => rfl
  | cons l ls ih =>
    have hl : l.stamp fast table k = table k := stamp_of_fast l hk
    rw [lay, ih (by rw [hl, hk]), hl]

theorem lay_apply (ls : List (Layer κ α)) (hk : fast (table k) = false) :
    lay fast ls table k = ((deciding fast ls k).map fun l => l.value k).getD (table k) := by
  induction ls generalizing table with
  | nil => rfl
  | cons l ls ih =>
    rw [lay]
    by_cases hl : l.covers k = true
    · have hv : l.stamp fast table k = l.value k := stamp_covered hl hk
      by_cases hf : fast (l.value k) = true
      · rw [lay_of_fast ls (by rw [hv, hf]), hv]
        simp [deciding, hl, hf]
      · rw [ih (by simpa [hv] using hf), hv]
        simp only [deciding, List.find?_cons, List.findRev?, hl, hf]
        cases ls.find? fun l => l.covers k && fast (l.value k) with
        | some m => simp
        | none => cases ls.findRev? fun l => l.covers k <;> simp
    · have hv : l.stamp fast table k = table k := stamp_uncovered (by simpa using hl)
      rw [ih (by rw [hv, hk]), hv]
      simp only [deciding, List.find?_cons, List.findRev?, hl, Bool.false_and]
      cases ls.find? fun l => l.covers k && fast (l.value k) with
      | some m => simp
      | none => cases ls.findRev? fun l => l.covers k <;> simp

/-- Layers that hold nothing fast leave nothing fast that was not so before. -/
theorem lay_free {ls : List (Layer κ α)} (hls : ∀ l ∈ ls, ∀ k, fast (l.value k) = false)
    (hk : fast (table k) = false) : fast (lay fast ls table k) = false := by
  induction ls generalizing table with
  | nil => exact hk
  | cons l ls ih =>
    apply ih fun m hm => hls m (List.mem_cons_of_mem l hm)
    by_cases hl : l.covers k = true
    · rw [stamp_covered hl hk]
      exact hls l List.mem_cons_self k
    · rwa [stamp_uncovered (by simpa using hl)]

end Layer

end Exec09.Foundation
