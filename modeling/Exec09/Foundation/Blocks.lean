import Mathlib.Data.List.Basic
import Mathlib.Tactic

/-! # Block transfers to and from an image

An image is a sequence of `length` elements that is read and written in blocks
of `n`. `Transfers n img ts img'`: the transfers `ts`, first one first, are
possible from `img` and leave `img'`.
-/
namespace Exec09.Foundation.Blocks

variable {α : Type} {n : ℕ}

structure Image (α : Type) where
  bytes : ℕ → α
  length : ℕ

inductive Transfer (α : Type) where
  | read (block : ℕ) (data : List α)
  | write (block : ℕ) (data : List α)
deriving DecidableEq

namespace Image
variable {img : Image α} {L M : ℕ} {d : List α}

/-- `d` is what block `L` of the image holds, as far as the image reaches. -/
def Shows (n : ℕ) (img : Image α) (L : ℕ) (d : List α) : Prop :=
  d.length = n ∧ ∀ i (h : i < d.length), n * L + i < img.length → d[i] = img.bytes (n * L + i)

/-- The image with the elements `d` from position `a` on. -/
def store (img : Image α) (a : ℕ) (d : List α) : Image α where
  bytes x := if a ≤ x then d.getD (x - a) (img.bytes x) else img.bytes x
  length := max img.length (a + d.length)

/-- The `n` elements from position `a` on. -/
def cut (img : Image α) (a n : ℕ) : List α := (List.range n).map fun i => img.bytes (a + i)

/-- Block `L` lies within the image and holds `d`. -/
structure Holds (n : ℕ) (img : Image α) (L : ℕ) (d : List α) : Prop where
  length_eq : d.length = n
  inside : n * L + n ≤ img.length
  element : ∀ i (h : i < d.length), img.bytes (n * L + i) = d[i]

theorem store_holds (img : Image α) (hd : d.length = n) : (img.store (n * L) d).Holds n L d where
  length_eq := hd
  inside := by
    rw [store, hd]
    exact le_max_right _ _
  element := by
    intro i hi
    simp [store, hi]

/-- The first elements of a buffer, one by one. -/
theorem eq_buffer {buf : ℕ → α} (hn : d.length = n) (h : ∀ i (hi : i < d.length), d[i] = buf i) :
    d = (List.range n).map buf := by
  apply List.ext_getElem (by simp [hn])
  intro i hi hi'
  rw [h i hi]
  simp

theorem prefix_buffer {buf : ℕ → α} (hn : d.length ≤ n)
    (h : ∀ i (hi : i < d.length), d[i] = buf i) : d <+: (List.range n).map buf := by
  rw [eq_buffer rfl h]
  obtain ⟨m, rfl⟩ := Nat.exists_eq_add_of_le hn
  rw [List.range_add, List.map_append]
  exact List.prefix_append _ _

/-- Different blocks have no place in common. -/
theorem block_ne (hLM : L ≠ M) {i j : ℕ} (hi : i < n) (hj : j < n) : n * L + i ≠ n * M + j := by
  intro h
  have hdiv : (n * L + i) / n = (n * M + j) / n := congrArg (· / n) h
  rw [Nat.mul_add_div (by omega), Nat.mul_add_div (by omega), Nat.div_eq_of_lt hi,
    Nat.div_eq_of_lt hj] at hdiv
  exact hLM (by omega)

theorem Holds.store {e : List α} (h : img.Holds n L d) (hLM : L ≠ M) (he : e.length = n) :
    (img.store (n * M) e).Holds n L d where
  length_eq := h.length_eq
  inside := le_trans h.inside (le_max_left _ _)
  element := by
    intro i hi
    have hi' : i < n := h.length_eq ▸ hi
    rw [← h.element i hi, Image.store]
    by_cases hle : n * M ≤ n * L + i
    · have hout : e.length ≤ n * L + i - n * M := by
        by_contra hin
        have hj : n * L + i - n * M < n := by omega
        exact block_ne hLM hi' hj (by omega)
      simp only [if_pos hle]
      rw [List.getD_eq_getElem?_getD, List.getElem?_eq_none hout, Option.getD_none]
    · simp only [if_neg hle]

theorem Holds.eq_of_shows {e : List α} (h : img.Holds n L d) (hs : img.Shows n L e) : e = d := by
  apply List.ext_getElem (hs.1.trans h.length_eq.symm)
  intro i hi hi'
  have hin : n * L + i < img.length := by
    have := h.inside
    have := h.length_eq
    omega
  rw [hs.2 i hi hin, h.element i hi']

end Image

/-- Every read shows its block of the image as the writes before it left it. -/
def Transfers (n : ℕ) : Image α → List (Transfer α) → Image α → Prop
  | img, [], img' => img' = img
  | img, .read L d :: ts, img' => img.Shows n L d ∧ Transfers n img ts img'
  | img, .write L d :: ts, img' => d.length = n ∧ Transfers n (img.store (n * L) d) ts img'

namespace Transfers
variable {img img₁ img₂ : Image α} {ts us before mid after : List (Transfer α)} {L : ℕ} {d e : List α}

theorem append (h : Transfers n img ts img₁) (h' : Transfers n img₁ us img₂) :
    Transfers n img (ts ++ us) img₂ := by
  induction ts generalizing img with
  | nil =>
    obtain rfl : img₁ = img := h
    exact h'
  | cons t ts ih =>
    cases t with
    | read L d => exact ⟨h.1, ih h.2⟩
    | write L d => exact ⟨h.1, ih h.2⟩

theorem of_append (h : Transfers n img (ts ++ us) img₂) :
    ∃ img₁, Transfers n img ts img₁ ∧ Transfers n img₁ us img₂ := by
  induction ts generalizing img with
  | nil => exact ⟨img, rfl, h⟩
  | cons t ts ih =>
    cases t with
    | read L d =>
      obtain ⟨img₁, hts, hus⟩ := ih h.2
      exact ⟨img₁, ⟨h.1, hts⟩, hus⟩
    | write L d =>
      obtain ⟨img₁, hts, hus⟩ := ih h.2
      exact ⟨img₁, ⟨h.1, hts⟩, hus⟩

/-- A block keeps what it holds while no transfer writes it. -/
theorem holds (h : Transfers n img ts img₁) (hd : img.Holds n L d)
    (hts : ∀ e, .write L e ∉ ts) : img₁.Holds n L d := by
  induction ts generalizing img with
  | nil =>
    obtain rfl : img₁ = img := h
    exact hd
  | cons t ts ih =>
    have hrest : ∀ e, .write L e ∉ ts := fun e he => hts e (List.mem_cons_of_mem t he)
    cases t with
    | read M e => exact ih h.2 hd hrest
    | write M e =>
      have hLM : L ≠ M := by
        rintro rfl
        exact hts e List.mem_cons_self
      exact ih h.2 (hd.store hLM h.1) hrest

/-- A read returns what was last written to its block. -/
theorem read_after_write
    (h : Transfers n img (before ++ .write L d :: mid ++ .read L e :: after) img₂)
    (hmid : ∀ d', .write L d' ∉ mid) : e = d := by
  obtain ⟨img₁, hwrite, hread⟩ := of_append h
  obtain ⟨img₀, _, hd, hrest⟩ := of_append hwrite
  exact (hrest.holds (Image.store_holds img₀ hd) hmid).eq_of_shows hread.1

end Transfers

end Exec09.Foundation.Blocks
