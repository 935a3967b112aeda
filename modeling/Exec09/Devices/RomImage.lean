import Exec09.Bus.Setup

/-! # The contents of a ROM

`rom_create` reads the image file to the front of the buffer and copies it
forward, one length of the image at a time, until no byte is left. The count of
the bytes left is unsigned, so the copies meet the end of the buffer only if the
size of the image divides that of the buffer.
-/
namespace Exec09.Rom
open Foundation
variable {σ : Type}

/-- The file's size, an `int`, as it is assigned to `image_size`. -/
def sizeofFile (image : List U8) : ℕ := Word.trunc 32 image.length

/-- `fread` of the image into the buffer of `size` bytes. -/
def readImage (image : List U8) (size : ℕ) (buf : ℕ → U8) : Except Stop (ℕ → U8) :=
  if sizeofFile image ≤ size then
    .ok fun i => if i < sizeofFile image then image.getD i 0 else buf i
  else .error (.fatal .bufferWrite)

/-- `memcpy` of `n` bytes from `base` to the place behind them. -/
def copyForward (n base : ℕ) (buf : ℕ → U8) (i : ℕ) : U8 :=
  if base + n ≤ i ∧ i < base + n + n then buf (i - n) else buf i

/-- The loop of `rom_create`, with `left` for what `maxsize` has become. -/
def fill (n size : ℕ) : ℕ → ℕ → ℕ → (ℕ → U8) → Except Stop (ℕ → U8)
  | 0, _, _, _ => .error .hang
  | fuel + 1, base, left, buf =>
    if 0 < left then
      if base + n + n ≤ size then
        fill n size fuel (base + n) (Word.sub 32 left n) (copyForward n base buf)
      else .error (.fatal .bufferWrite)
    else .ok buf

/-- The buffer of a ROM, given what `malloc` leaves in it, in at most so many rounds. -/
def contents (fuel : ℕ) (image : List U8) (maxsize : BitVec 32) (buf : ℕ → U8) :
    Except Stop (ℕ → U8) := do
  let buf ← readImage image maxsize.toNat buf
  fill (sizeofFile image) maxsize.toNat fuel 0
    (Word.sub 32 maxsize.toNat (sizeofFile image)) buf

/-- `rom_create` with an image file. -/
def create (fuel : ℕ) (image : List U8) (maxsize : BitVec 32) (buf : ℕ → U8) : BoardM σ ℕ := do
  let dev ← deviceAttach ⟨.rom, maxsize.toNat⟩ nullReset
  match contents fuel image maxsize buf with
  | .ok buf => do
    modify fun s => { s with mem := fun d a => if d = dev then buf a else s.mem d a }
    return dev
  | .error e => throw e

/-- The image is loaded in a finite number of rounds, inside the buffer, again and again. -/
def Loads (image : List U8) (maxsize : BitVec 32) (buf : ℕ → U8) : Prop :=
  ∃ fuel buf', contents fuel image maxsize buf = .ok buf' ∧
    ∀ i < maxsize.toNat, buf' i = image.getD (i % image.length) 0

/-- The size that the loader sees divides that of the buffer, and the image repeats itself from
there on. A file of less than 4 GiB is seen whole, so that the rest of it is nothing. -/
structure Fits (image : List U8) (maxsize : BitVec 32) : Prop where
  divides : sizeofFile image ∣ maxsize.toNat
  le : sizeofFile image ≤ maxsize.toNat
  repeats : ∀ i < maxsize.toNat,
    image.getD (i % sizeofFile image) 0 = image.getD (i % image.length) 0

/-- A ROM that is loaded is the one with these contents. -/
theorem create_eq {fuel : ℕ} {image : List U8} {maxsize : BitVec 32} {buf buf' : ℕ → U8}
    (h : contents fuel image maxsize buf = .ok buf') :
    (create fuel image maxsize buf : BoardM σ ℕ) = romCreate buf' maxsize.toNat := by
  rw [create, h]
  rfl

/-! ## The loop -/

section Loop
variable {n size fuel base left : ℕ} {buf : ℕ → U8}

/-- The bytes below `k` repeat those below `n`. -/
def Periodic (n k : ℕ) (first buf : ℕ → U8) : Prop := ∀ i < k, buf i = first (i % n)

theorem copyForward_periodic {first : ℕ → U8} (h : Periodic n (base + n) first buf) :
    Periodic n (base + n + n) first (copyForward n base buf) := by
  intro i hi
  rw [copyForward]
  by_cases hnew : base + n ≤ i
  · have hmod : (i - n) % n = i % n := by
      conv_rhs => rw [← Nat.sub_add_cancel (show n ≤ i by omega), Nat.add_mod_right]
    rw [if_pos ⟨hnew, hi⟩, h _ (by omega), hmod]
  · rw [if_neg (fun hboth => hnew hboth.1)]
    exact h i (by omega)

theorem sub_of_le (h : n ≤ left) (hleft : left < 2 ^ 32) : Word.sub 32 left n = left - n := by
  rw [Word.sub]
  omega

/-- If what is left is a multiple of the size of the image, the loop comes to an end. -/
theorem fill_of_dvd (hn : 0 < n) (hsize : size < 2 ^ 32) (hdvd : n ∣ left)
    (hsum : base + n + left = size) (hfuel : left < fuel) :
    ∃ buf', fill n size fuel base left buf = .ok buf' := by
  induction fuel generalizing base left buf with
  | zero => exact absurd hfuel (Nat.not_lt_zero _)
  | succ fuel ih =>
    rw [fill]
    by_cases hleft : 0 < left
    · have hle := Nat.le_of_dvd hleft hdvd
      rw [if_pos hleft, if_pos (by omega), sub_of_le hle (by omega)]
      exact ih (Nat.dvd_sub hdvd (dvd_refl n)) (by omega) (by omega)
    · rw [if_neg hleft]
      exact ⟨buf, rfl⟩

/-- It comes to an end only then, and with a full buffer. -/
theorem dvd_of_fill {first buf' : ℕ → U8} (hsize : size < 2 ^ 32)
    (hsum : base + n + left = size) (hbuf : Periodic n (base + n) first buf)
    (h : fill n size fuel base left buf = .ok buf') : n ∣ left ∧ Periodic n size first buf' := by
  induction fuel generalizing base left buf with
  | zero => cases h
  | succ fuel ih =>
    rw [fill] at h
    by_cases hleft : 0 < left
    · rw [if_pos hleft] at h
      by_cases hin : base + n + n ≤ size
      · have hle : n ≤ left := by omega
        rw [if_pos hin, sub_of_le hle (by omega)] at h
        obtain ⟨hdvd, hfull⟩ := ih (by omega) (copyForward_periodic hbuf) h
        exact ⟨(Nat.dvd_sub_iff_left hle (dvd_refl n)).mp hdvd, hfull⟩
      · rw [if_neg hin] at h
        cases h
    · rw [if_neg hleft] at h
      cases h
      have hzero : left = 0 := by omega
      rw [hzero, Nat.add_zero] at hsum
      rw [hzero, ← hsum]
      exact ⟨dvd_zero n, hbuf⟩

end Loop

/-! ## Loading -/

section Load
variable {image : List U8} {maxsize : BitVec 32} {buf : ℕ → U8}

/-- The buffer behind `fread`. -/
def front (image : List U8) (buf : ℕ → U8) (i : ℕ) : U8 :=
  if i < sizeofFile image then image.getD i 0 else buf i

theorem contents_of_le (h : sizeofFile image ≤ maxsize.toNat) (fuel : ℕ) :
    contents fuel image maxsize buf = fill (sizeofFile image) maxsize.toNat fuel 0
      (maxsize.toNat - sizeofFile image) (front image buf) := by
  rw [contents, readImage, if_pos h, sub_of_le h maxsize.isLt]
  rfl

theorem contents_of_lt (h : maxsize.toNat < sizeofFile image) (fuel : ℕ) :
    contents fuel image maxsize buf = .error (.fatal .bufferWrite) := by
  rw [contents, readImage, if_neg (by omega)]
  rfl

theorem front_periodic (image : List U8) (buf : ℕ → U8) :
    Periodic (sizeofFile image) (0 + sizeofFile image) (fun i => image.getD i 0)
      (front image buf) := by
  intro i hi
  rw [Nat.zero_add] at hi
  rw [front, if_pos hi, Nat.mod_eq_of_lt hi]

variable (buf) in
theorem contents_ok (hdvd : sizeofFile image ∣ maxsize.toNat)
    (hle : sizeofFile image ≤ maxsize.toNat) : ∃ fuel buf',
      contents fuel image maxsize buf = .ok buf' := by
  refine ⟨maxsize.toNat + 1, ?_⟩
  rw [contents_of_le hle]
  rcases Nat.eq_zero_or_pos (sizeofFile image) with hzero | hpos
  · rw [hzero, Nat.zero_dvd] at hdvd
    rw [hdvd, Nat.zero_sub]
    exact ⟨_, rfl⟩
  · exact fill_of_dvd hpos maxsize.isLt (Nat.dvd_sub hdvd (dvd_refl _)) (by omega) (by omega)

/-- Whatever the number of rounds, the loading succeeds only if the copies meet the end of the
buffer, and each byte then comes from its place in the image. -/
theorem contents_periodic {fuel : ℕ} {buf' : ℕ → U8}
    (h : contents fuel image maxsize buf = .ok buf') :
    sizeofFile image ∣ maxsize.toNat ∧ sizeofFile image ≤ maxsize.toNat ∧
      ∀ i < maxsize.toNat, buf' i = image.getD (i % sizeofFile image) 0 := by
  have hle : sizeofFile image ≤ maxsize.toNat := by
    by_contra hlt
    rw [contents_of_lt (by omega)] at h
    cases h
  rw [contents_of_le hle] at h
  obtain ⟨hdvd, hfull⟩ := dvd_of_fill maxsize.isLt (by omega) (front_periodic image buf) h
  exact ⟨(Nat.dvd_sub_iff_left hle (dvd_refl _)).mp hdvd, hle, hfull⟩

/-- The image is loaded as documented exactly if it fits. -/
theorem loads_iff (image : List U8) (maxsize : BitVec 32) (buf : ℕ → U8) :
    Loads image maxsize buf ↔ Fits image maxsize := by
  constructor
  · rintro ⟨fuel, buf', hload, hbytes⟩
    obtain ⟨hdvd, hle, hperiodic⟩ := contents_periodic hload
    exact ⟨hdvd, hle, fun i hi => (hperiodic i hi).symm.trans (hbytes i hi)⟩
  · rintro ⟨hdvd, hle, hrepeats⟩
    obtain ⟨fuel, buf', hload⟩ := contents_ok buf hdvd hle
    obtain ⟨-, -, hperiodic⟩ := contents_periodic hload
    exact ⟨fuel, buf', hload, fun i hi => (hperiodic i hi).trans (hrepeats i hi)⟩

/-- A file below 4 GiB fits exactly if its size divides that of the buffer. -/
theorem fits_iff (hsize : image.length < 2 ^ 32) (hempty : image ≠ []) :
    Fits image maxsize ↔ image.length ∣ maxsize.toNat ∧ 0 < maxsize.toNat := by
  have hseen : sizeofFile image = image.length := Word.trunc_of_lt hsize
  have hpos := List.length_pos_iff.mpr hempty
  constructor
  · rintro ⟨hdvd, hle, -⟩
    rw [hseen] at hdvd hle
    exact ⟨hdvd, by omega⟩
  · rintro ⟨hdvd, hpos'⟩
    rw [← hseen] at hdvd
    exact ⟨hdvd, Nat.le_of_dvd hpos' hdvd, fun i _ => by rw [hseen]⟩

/-- An image of three bytes does not fit a ROM of eight. -/
theorem three_in_eight : ¬∀ (image : List U8) (maxsize : BitVec 32) (buf : ℕ → U8), image ≠ [] →
    Loads image maxsize buf := by
  intro h
  obtain ⟨fuel, buf', hload, -⟩ := h [1, 2, 3] 8 (fun _ => 0) (by simp)
  obtain ⟨hdvd, -⟩ := contents_periodic hload
  revert hdvd
  decide

end Load

end Exec09.Rom
