import Exec09.Devices.Disk

/-! # The disk as an array of sectors

A sector is selected by a write to `DSK_SECTOR` and one to `DSK_SECTOR+1`. The
variable that takes the high byte also takes the byte offset that results, so
a second low byte is added to an offset. And the position in the file, which
the selection sets, moves on with every sector that is transferred. As long as
each transfer has a selection of its own, the drive is an array of sectors.
-/
namespace Exec09.Disk
open Foundation

/-- A write of the guest to a register of the drive. -/
structure Write where
  addr : ℕ
  val : U8
  deriving DecidableEq, Repr

/-- The drive and the contents of the RAM device after a write. -/
def step (x : Disk × (ℕ → U8)) (w : Write) : Disk × (ℕ → U8) := x.1.diskWrite w.addr w.val x.2

def run (ws : List Write) (x : Disk × (ℕ → U8)) : Disk × (ℕ → U8) := ws.foldl step x

def Write.Reads (w : Write) : Prop := w.addr = 0 ∧ w.val.toNat &&& 0x1 ≠ 0

/-- The write is a read, write or erase command. -/
def Write.Transfers (w : Write) : Prop :=
  w.addr = 0 ∧ (w.val.toNat &&& 0x1 ≠ 0 ∨ w.val.toNat &&& 0x2 ≠ 0 ∨ w.val.toNat &&& 0x8 ≠ 0)

instance (w : Write) : Decidable w.Reads := inferInstanceAs (Decidable (_ ∧ _))

instance (w : Write) : Decidable w.Transfers := inferInstanceAs (Decidable (_ ∧ _))

/-- What the writes so far say of the selection. -/
structure History where
  /-- The value last written to `DSK_SECTOR`. -/
  hi : U8
  /-- The values written to `DSK_SECTOR+1` since then, latest first. -/
  lows : List U8
  /-- The sector that the last write to `DSK_SECTOR+1` selects. -/
  sector : ℕ
  /-- There was a transfer since then. -/
  moved : Bool

namespace History

/-- After a reset, which selects sector 0. -/
def start : History := ⟨0, [0], 0, false⟩

def after (h : History) (w : Write) : History :=
  match w.addr with
  | 2 => { h with hi := w.val, lows := [] }
  | 3 => ⟨h.hi, w.val :: h.lows, 256 * h.hi.toNat + w.val.toNat, false⟩
  | _ => { h with moved := h.moved || decide w.Transfers }

def of (ws : List Write) : History := ws.foldl after start

/-- The variable `offset` of the drive. -/
def offset (h : History) : ℕ :=
  h.lows.foldr (fun lo off => 512 * (256 * off + lo.toNat) % 2 ^ 64) h.hi.toNat

end History

/-! ## The selection -/

theorem shifted_or (off : ℕ) (lo : U8) :
    Word.trunc 64 ((Word.trunc 64 (off <<< 8) ||| lo.toNat) * SECTOR_SIZE) =
      512 * (256 * off + lo.toNat) % 2 ^ 64 := by
  have hlo : lo.toNat < 2 ^ 8 := lo.isLt
  have hshift : Word.trunc 64 (off <<< 8) = 2 ^ 8 * (off % 2 ^ 56) := by
    rw [Word.trunc, Nat.shiftLeft_eq]
    omega
  rw [hshift, ← Nat.two_pow_add_eq_or_of_lt hlo, Word.trunc, SECTOR_SIZE]
  omega

theorem step_offset {h : History} {x : Disk × (ℕ → U8)} (hx : x.1.offset = h.offset) (w : Write) :
    (step x w).1.offset = (h.after w).offset := by
  rcases w with ⟨_ | _ | _ | _ | addr, val⟩
  · change (x.1.control val x.2).1.offset = h.offset
    unfold control
    split_ifs <;> exact hx
  · exact hx
  · rfl
  · change Word.trunc 64 ((Word.trunc 64 (x.1.offset <<< 8) ||| val.toNat) * SECTOR_SIZE) =
      512 * (256 * h.offset + val.toNat) % 2 ^ 64
    rw [shifted_or, hx]
  · exact hx

theorem run_offset {h : History} {x : Disk × (ℕ → U8)} (hx : x.1.offset = h.offset)
    (ws : List Write) : (run ws x).1.offset = (ws.foldl History.after h).offset := by
  induction ws generalizing h x with
  | nil => exact hx
  | cons w ws ih => exact ih (step_offset hx w)

/-- A write to `DSK_SECTOR+1` adds its value to the variable as it is. -/
theorem step_low (x : Disk × (ℕ → U8)) (lo : U8) : step x ⟨3, lo⟩ =
    ({ x.1 with
        offset := 512 * (256 * x.1.offset + lo.toNat) % 2 ^ 64
        fp := x.1.fp.seekLong (512 * (256 * x.1.offset + lo.toNat) % 2 ^ 64) }, x.2) := by
  rw [← shifted_or]
  rfl

theorem seekLong_bytes (offset : ℕ) (f : File) : (f.seekLong offset).bytes = f.bytes := by
  rw [File.seekLong]
  split <;> rfl

theorem seekLong_eq {n : ℕ} (hn : n < 2 ^ 63) (f : File) : f.seekLong n = f.seek n := if_pos hn

/-- A low byte selects the right sector. -/
def History.Selects (h : History) : Prop :=
  h.lows = [] ∨ h.hi = 0 ∧ h.lows.getD 0 0 = 0 ∧ h.lows.getD 1 0 = 0 ∧ 16 ∣ (h.lows.getD 2 0).toNat

instance (h : History) : Decidable h.Selects := inferInstanceAs (Decidable (_ ∨ _))

theorem zero_iff (v : U8) : v = 0 ↔ v.toNat = 0 := by
  rw [← BitVec.toNat_inj]
  rfl

/-- Only the last 47 bits of the variable matter. -/
theorem History.selects_iff (h : History) : h.Selects ↔ h.offset % 2 ^ 47 = h.hi.toNat := by
  rcases h with ⟨hi, lows, sector, moved⟩
  have hhi : hi.toNat < 2 ^ 8 := hi.isLt
  rw [Selects, offset]
  dsimp only
  rcases lows with _ | ⟨a, _ | ⟨b, _ | ⟨c, rest⟩⟩⟩
  · simp only [List.foldr_nil, true_or, true_iff]
    omega
  · have ha : a.toNat < 2 ^ 8 := a.isLt
    simp only [List.foldr_cons, List.foldr_nil, zero_iff]
    simp
    omega
  · have ha : a.toNat < 2 ^ 8 := a.isLt
    have hb : b.toNat < 2 ^ 8 := b.isLt
    simp only [List.foldr_cons, List.foldr_nil, zero_iff]
    simp
    omega
  · have ha : a.toNat < 2 ^ 8 := a.isLt
    have hb : b.toNat < 2 ^ 8 := b.isLt
    have hc : c.toNat < 2 ^ 8 := c.isLt
    simp only [List.foldr_cons, zero_iff]
    generalize rest.foldr (fun lo off => 512 * (256 * off + lo.toNat) % 2 ^ 64) hi.toNat = off
    simp
    omega

/-- After any writes a low byte selects its sector of the group exactly when the high byte was
written last, or when all that the variable still holds of the bytes before it is zero. -/
theorem offset_right_iff (d : Disk) (mem : ℕ → U8) (ws : List Write) (lo : U8) :
    ((run (ws ++ [⟨3, lo⟩]) (d.reset, mem)).1.offset =
          512 * (256 * (History.of ws).hi.toNat + lo.toNat) ∧
        (run (ws ++ [⟨3, lo⟩]) (d.reset, mem)).1.fp.pos =
          512 * (256 * (History.of ws).hi.toNat + lo.toNat)) ↔
      (History.of ws).Selects := by
  have hhi : (History.of ws).hi.toNat < 2 ^ 8 := (History.of ws).hi.isLt
  have hlo : lo.toNat < 2 ^ 8 := lo.isLt
  have hstart : (d.reset, mem).1.offset = History.start.offset := rfl
  have hbefore : (run ws (d.reset, mem)).1.offset = (History.of ws).offset := run_offset hstart ws
  have hlast : run (ws ++ [⟨3, lo⟩]) (d.reset, mem) = step (run ws (d.reset, mem)) ⟨3, lo⟩ := by
    rw [run, List.foldl_append]
    rfl
  rw [hlast, step_low, hbefore, History.selects_iff]
  dsimp only
  generalize (History.of ws).hi.toNat = hi at hhi
  constructor
  · rintro ⟨hoffset, -⟩
    omega
  · intro hmod
    have hoffset : 512 * (256 * (History.of ws).offset + lo.toNat) % 2 ^ 64 =
        512 * (256 * hi + lo.toNat) := by omega
    rw [hoffset, seekLong_eq (by omega)]
    exact ⟨rfl, rfl⟩

/-- Sector 1 and then sector 2 of the first group, with the high byte written once. -/
theorem offset_wrong :
    let after := (run [⟨2, 0⟩, ⟨3, 1⟩, ⟨3, 2⟩] (reset ⟨⟨fun _ => 0, 2048, 0⟩, 0, 0⟩, fun _ => 0)).1
    let sector := 256 * (History.of [⟨2, 0⟩, ⟨3, 1⟩]).hi.toNat + 2
    ¬(after.offset = 512 * sector ∧ after.fp.pos = 512 * sector) := by
  decide

/-- `disk_reset` is four writes to the registers. -/
theorem reset_eq (d : Disk) (mem : ℕ → U8) :
    run [⟨1, 0⟩, ⟨2, 0⟩, ⟨3, 0⟩, ⟨0, 4⟩] (d, mem) = (d.reset, mem) := by
  have hlow := step_low ({ d with ram := 0, offset := 0 }, mem) 0
  have hram : step (d, mem) ⟨1, 0⟩ = ({ d with ram := 0 }, mem) := rfl
  have hhigh : step ({ d with ram := 0 }, mem) ⟨2, 0⟩ = ({ d with ram := 0, offset := 0 }, mem) := rfl
  have hflush : ∀ x : Disk × (ℕ → U8), step x ⟨0, 4⟩ = x := fun x => rfl
  dsimp only at hlow
  rw [show 512 * (256 * 0 + (0 : U8).toNat) % 2 ^ 64 = 0 by decide, seekLong_eq (by decide)] at hlow
  rw [run, List.foldl_cons, List.foldl_cons, List.foldl_cons, List.foldl_cons, List.foldl_nil, hram,
    hhigh, hlow, hflush]
  rfl

/-! ## Transfers -/

/-- Each write to `DSK_SECTOR+1` comes after one to `DSK_SECTOR`. -/
def InPairs : History → List Write → Prop
  | _, [] => True
  | h, w :: ws => (w.addr = 3 → h.lows = []) ∧ InPairs (h.after w) ws

/-- A command moves the 512 bytes of the selected sector. -/
def Right (h : History) (w : Write) (d : Disk) : Prop :=
  d.fp.pos = 512 * h.sector ∧ (w.Reads → 512 * h.sector + 512 ≤ d.fp.length)

/-- A command is the first one since its selection, and a read is of a sector of the file. -/
def First (h : History) (w : Write) (d : Disk) : Prop :=
  h.moved = false ∧ (w.Reads → 512 * h.sector + 512 ≤ d.fp.length)

/-- Every transfer of the run meets the condition. -/
def Throughout (ok : History → Write → Disk → Prop) : History → List Write → Disk × (ℕ → U8) → Prop
  | _, [], _ => True
  | h, w :: ws, x => (w.Transfers → ok h w x.1) ∧ Throughout ok (h.after w) ws (step x w)

/-- Where the position is, by the writes so far. -/
structure Placed (h : History) (d : Disk) : Prop where
  offset : h.lows = [] → d.offset = h.hi.toNat
  fresh : h.moved = false → d.fp.pos = 512 * h.sector
  later : h.moved = true → 512 * h.sector < d.fp.pos

theorem Placed.right_iff {h : History} {d : Disk} (hd : Placed h d) (w : Write) :
    Right h w d ↔ First h w d := by
  refine and_congr_left fun _ => ⟨fun hpos => ?_, hd.fresh⟩
  cases hm : h.moved with
  | false => rfl
  | true => exact absurd hpos (hd.later hm).ne'

theorem start_placed (d : Disk) : Placed History.start d.reset where
  offset := nofun
  fresh _ := rfl
  later := nofun

/-- A command that does not transfer leaves the drive. -/
theorem control_idle (d : Disk) (mem : ℕ → U8) {val : U8} (h : ¬(Write.mk 0 val).Transfers) :
    d.control val mem = (d, mem) := by
  simp only [Write.Transfers, true_and, not_or, not_not] at h
  rw [control, if_neg (by simp [h.1]), if_neg (by simp [h.2.1]), if_neg (by simp [h.2.2])]

/-- A transfer moves the position behind the sector. -/
theorem control_pos (d : Disk) (mem : ℕ → U8) {val : U8} (h : (Write.mk 0 val).Transfers)
    (hread : (Write.mk 0 val).Reads → d.fp.pos + 512 ≤ d.fp.length) :
    (d.control val mem).1.fp.pos = d.fp.pos + 512 := by
  rw [control]
  by_cases h1 : val.toNat &&& 0x1 ≠ 0
  · have hin := hread ⟨rfl, h1⟩
    have havail : d.fp.available SECTOR_SIZE = 512 := by
      rw [File.available, SECTOR_SIZE]
      omega
    rw [if_pos h1, havail]
    rfl
  · rw [if_neg h1]
    by_cases h2 : val.toNat &&& 0x2 ≠ 0
    · rw [if_pos h2]
      rfl
    · have h8 : val.toNat &&& 0x8 ≠ 0 := (h.2.resolve_left h1).resolve_left h2
      rw [if_neg h2, if_pos h8]
      rfl

theorem control_offset (d : Disk) (mem : ℕ → U8) (val : U8) :
    (d.control val mem).1.offset = d.offset := by
  rw [control]
  split_ifs <;> rfl

theorem step_placed {h : History} {x : Disk × (ℕ → U8)} (hx : Placed h x.1) {w : Write}
    (hpair : w.addr = 3 → h.lows = []) (hfirst : w.Transfers → First h w x.1) :
    Placed (h.after w) (step x w).1 := by
  rcases w with ⟨_ | _ | _ | _ | addr, val⟩
  · by_cases ht : (Write.mk 0 val).Transfers
    · obtain ⟨hm, hread⟩ := hfirst ht
      have hpos := hx.fresh hm
      have hend := control_pos x.1 x.2 ht fun hr => hpos ▸ hread hr
      have hmoved : (h.after ⟨0, val⟩).moved = true := by simp [History.after, ht]
      refine ⟨fun hlows => (control_offset _ _ _).trans (hx.offset hlows), fun hf => ?_, fun _ => ?_⟩
      · rw [hmoved] at hf
        cases hf
      · change 512 * h.sector < (x.1.control val x.2).1.fp.pos
        omega
    · have hsame : step x ⟨0, val⟩ = x := control_idle x.1 x.2 ht
      have hmoved : (h.after ⟨0, val⟩).moved = h.moved := by simp [History.after, ht]
      rw [hsame]
      exact ⟨hx.offset, fun hf => hx.fresh (hmoved ▸ hf), fun hf => hx.later (hmoved ▸ hf)⟩
  · have hmoved : (h.after ⟨1, val⟩).moved = h.moved := by simp [History.after, Write.Transfers]
    exact ⟨hx.offset, fun hf => hx.fresh (hmoved ▸ hf), fun hf => hx.later (hmoved ▸ hf)⟩
  · exact ⟨fun _ => rfl, hx.fresh, hx.later⟩
  · have hhi : h.hi.toNat < 2 ^ 8 := h.hi.isLt
    have hval : val.toNat < 2 ^ 8 := val.isLt
    have hoffset := hx.offset (hpair rfl)
    have hplace : 512 * (256 * x.1.offset + val.toNat) % 2 ^ 64 =
        512 * (256 * h.hi.toNat + val.toNat) := by
      rw [hoffset]
      omega
    refine ⟨nofun, fun _ => ?_, nofun⟩
    rw [step_low]
    dsimp only
    rw [hplace, seekLong_eq (by omega)]
    rfl
  · have hmoved : (h.after ⟨addr + 4, val⟩).moved = h.moved := by
      simp [History.after, Write.Transfers]
    exact ⟨hx.offset, fun hf => hx.fresh (hmoved ▸ hf), fun hf => hx.later (hmoved ▸ hf)⟩

theorem throughout_iff {h : History} {ws : List Write} {x : Disk × (ℕ → U8)} (hx : Placed h x.1)
    (hpairs : InPairs h ws) : Throughout Right h ws x ↔ Throughout First h ws x := by
  induction ws generalizing h x with
  | nil => exact Iff.rfl
  | cons w ws ih =>
    obtain ⟨hpair, hrest⟩ := hpairs
    have hhead : (w.Transfers → Right h w x.1) ↔ (w.Transfers → First h w x.1) :=
      imp_congr_right fun _ => hx.right_iff w
    rw [Throughout, Throughout, hhead]
    exact and_congr_right fun hfirst => ih (step_placed hx hpair hfirst) hrest

/-! ## The array -/

/-- An array of sectors beside the contents of the RAM device. -/
structure Sectors where
  data : ℕ → ℕ → U8
  ram : ℕ
  mem : ℕ → U8

namespace Sectors

def read (n : ℕ) (a : Sectors) : Sectors :=
  { a with mem := fun i => if a.ram ≤ i ∧ i < a.ram + 512 then a.data n (i - a.ram) else a.mem i }

def store (n : ℕ) (bytes : ℕ → U8) (a : Sectors) : Sectors :=
  { a with data := Function.update a.data n bytes }

/-- A register write, with the selection that the history tells. -/
def step (h : History) (w : Write) (a : Sectors) : Sectors :=
  match w.addr with
  | 0 =>
    if w.val.toNat &&& 0x1 ≠ 0 then a.read h.sector
    else if w.val.toNat &&& 0x2 ≠ 0 then a.store h.sector fun i => a.mem (a.ram + i)
    else if w.val.toNat &&& 0x8 ≠ 0 then a.store h.sector fun _ => 0xff
    else a
  | 1 => { a with ram := w.val.toNat * 512 }
  | _ => a

def run : History → List Write → Sectors → Sectors
  | _, [], a => a
  | h, w :: ws, a => run (h.after w) ws (a.step h w)

end Sectors

/-- The array that the file of a drive is. -/
def sectors (x : Disk × (ℕ → U8)) : Sectors where
  data n i := x.1.fp.bytes (512 * n + i)
  ram := x.1.ram
  mem := x.2

/-- The drive behaves as the array. -/
structure Agree (x : Disk × (ℕ → U8)) (a : Sectors) : Prop where
  data : ∀ n i, i < 512 → x.1.fp.bytes (512 * n + i) = a.data n i
  ram : x.1.ram = a.ram
  mem : x.2 = a.mem

theorem agree_read {d : Disk} {mem : ℕ → U8} {a : Sectors} (hx : Agree (d, mem) a) {n : ℕ}
    (hpos : d.fp.pos = 512 * n) (hin : 512 * n + 512 ≤ d.fp.length) :
    d.readSector mem = (a.read n).mem := by
  have havail : d.fp.available SECTOR_SIZE = 512 := by
    rw [File.available, SECTOR_SIZE]
    omega
  have hmem : mem = a.mem := hx.mem
  have hram : d.ram = a.ram := hx.ram
  ext1 i
  rw [readSector, Sectors.read, havail, hram, hpos, hmem]
  dsimp only
  by_cases hi : a.ram ≤ i ∧ i < a.ram + 512
  · rw [if_pos hi, if_pos hi]
    exact hx.data n (i - a.ram) (by omega)
  · rw [if_neg hi, if_neg hi]

theorem agree_write {d : Disk} {mem : ℕ → U8} {a : Sectors} (hx : Agree (d, mem) a) {n : ℕ}
    (hpos : d.fp.pos = 512 * n) (bytes : ℕ → U8) :
    Agree ({ d with fp := d.fp.write SECTOR_SIZE bytes }, mem) (a.store n bytes) where
  data := by
    intro m i hi
    change (if d.fp.pos ≤ 512 * m + i ∧ 512 * m + i < d.fp.pos + 512 then
      bytes (512 * m + i - d.fp.pos) else d.fp.bytes (512 * m + i)) = Function.update a.data n bytes m i
    rw [hpos]
    by_cases hm : m = n
    · subst hm
      rw [if_pos (by omega), Function.update_self]
      congr 1
      omega
    · rw [if_neg (by omega), Function.update_of_ne hm]
      exact hx.data m i hi
  ram := hx.ram
  mem := hx.mem

theorem step_agree {h : History} {x : Disk × (ℕ → U8)} {a : Sectors} (hx : Agree x a)
    (hplaced : Placed h x.1) {w : Write} (hfirst : w.Transfers → First h w x.1) :
    Agree (step x w) (a.step h w) := by
  have hmem : x.2 = a.mem := hx.mem
  have hram : x.1.ram = a.ram := hx.ram
  have hpos (ht : w.Transfers) : x.1.fp.pos = 512 * h.sector := hplaced.fresh (hfirst ht).1
  rcases w with ⟨_ | _ | _ | _ | addr, val⟩
  · change Agree (x.1.control val x.2) (if _ then _ else _)
    rw [control]
    by_cases h1 : val.toNat &&& 0x1 ≠ 0
    · have ht : (Write.mk 0 val).Transfers := ⟨rfl, .inl h1⟩
      rw [if_pos h1, if_pos h1]
      exact ⟨hx.data, hx.ram, agree_read hx (hpos ht) ((hfirst ht).2 ⟨rfl, h1⟩)⟩
    · rw [if_neg h1, if_neg h1]
      by_cases h2 : val.toNat &&& 0x2 ≠ 0
      · have hbytes : (fun i => a.mem (a.ram + i)) = fun i => x.2 (x.1.ram + i) := by
          rw [hmem, hram]
        rw [if_pos h2, if_pos h2, hbytes]
        exact agree_write hx (hpos ⟨rfl, .inr (.inl h2)⟩) _
      · rw [if_neg h2, if_neg h2]
        by_cases h8 : val.toNat &&& 0x8 ≠ 0
        · rw [if_pos h8, if_pos h8]
          exact agree_write hx (hpos ⟨rfl, .inr (.inr h8)⟩) _
        · rw [if_neg h8, if_neg h8]
          exact hx
  · exact ⟨hx.data, rfl, hx.mem⟩
  · exact ⟨hx.data, hx.ram, hx.mem⟩
  · have hsame : a.step h ⟨3, val⟩ = a := rfl
    rw [step_low, hsame]
    generalize 512 * (256 * x.1.offset + val.toNat) % 2 ^ 64 = offset
    have hbytes := seekLong_bytes offset x.1.fp
    exact ⟨fun n i hi => (congrFun hbytes _).trans (hx.data n i hi), hx.ram, hx.mem⟩
  · exact hx

theorem run_agree {h : History} {ws : List Write} {x : Disk × (ℕ → U8)} {a : Sectors}
    (hx : Agree x a) (hplaced : Placed h x.1) (hpairs : InPairs h ws)
    (hfirst : Throughout First h ws x) : Agree (run ws x) (a.run h ws) := by
  induction ws generalizing h x a with
  | nil => exact hx
  | cons w ws ih =>
    obtain ⟨hpair, hrest⟩ := hpairs
    obtain ⟨hhead, htail⟩ := hfirst
    exact ih (step_agree hx hplaced hhead) (step_placed hplaced hpair hhead) hrest htail

/-- Every command moves the selected sector exactly if every command has a selection of its own
and what is read exists; then the drive is an array of sectors. -/
theorem transfers_right_iff (d : Disk) (mem : ℕ → U8) (ws : List Write)
    (hpairs : InPairs History.start ws) :
    (Throughout Right History.start ws (d.reset, mem) ↔
        Throughout First History.start ws (d.reset, mem)) ∧
      (Throughout First History.start ws (d.reset, mem) →
        Agree (run ws (d.reset, mem)) ((sectors (d.reset, mem)).run History.start ws)) :=
  ⟨throughout_iff (start_placed d) hpairs,
    run_agree ⟨fun _ _ _ => rfl, rfl, rfl⟩ (start_placed d) hpairs⟩

/-- A drive with two sectors, of zeros and of ones. -/
def twoSectors : Disk := ⟨⟨fun a => if a < 512 then 0 else 1, 1024, 0⟩, 0, 0⟩

theorem transfers_right_once :
    (Throughout Right History.start [⟨2, 0⟩, ⟨3, 1⟩, ⟨0, 1⟩] (twoSectors.reset, fun _ => 0) ↔
        Throughout First History.start [⟨2, 0⟩, ⟨3, 1⟩, ⟨0, 1⟩] (twoSectors.reset, fun _ => 0)) ∧
      (Throughout First History.start [⟨2, 0⟩, ⟨3, 1⟩, ⟨0, 1⟩] (twoSectors.reset, fun _ => 0) →
        Agree (run [⟨2, 0⟩, ⟨3, 1⟩, ⟨0, 1⟩] (twoSectors.reset, fun _ => 0))
          ((sectors (twoSectors.reset, fun _ => 0)).run History.start [⟨2, 0⟩, ⟨3, 1⟩, ⟨0, 1⟩])) :=
  transfers_right_iff twoSectors (fun _ => 0) [⟨2, 0⟩, ⟨3, 1⟩, ⟨0, 1⟩]
    ⟨nofun, fun _ => rfl, nofun, trivial⟩

/-- Sector 0 selected once and read twice: the second time it is sector 1 that arrives. -/
theorem second_read_wrong :
    InPairs History.start [⟨2, 0⟩, ⟨3, 0⟩, ⟨0, 1⟩, ⟨0, 1⟩] ∧
    ¬Throughout Right History.start [⟨2, 0⟩, ⟨3, 0⟩, ⟨0, 1⟩, ⟨0, 1⟩]
      (twoSectors.reset, fun _ => 0) ∧
    (run [⟨2, 0⟩, ⟨3, 0⟩, ⟨0, 1⟩, ⟨0, 1⟩] (twoSectors.reset, fun _ => 0)).2 0 = 1 ∧
    twoSectors.fp.bytes 0 = 0 := by
  refine ⟨⟨nofun, fun _ => rfl, nofun, nofun, trivial⟩, fun h => ?_, by decide, by decide⟩
  obtain ⟨-, -, -, hsecond, -⟩ := h
  exact absurd (hsecond (by decide)).1 (by decide)

/-! ## Formatting -/

/-- The writes of `disk_format` for one sector. -/
def formatSector (sector : ℕ) : List Write :=
  [⟨2, BitVec.ofNat 8 (sector >>> 8)⟩, ⟨3, BitVec.ofNat 8 (sector &&& 0xFF)⟩, ⟨0, 0x8⟩]

/-- `disk_format`; the drive has `DISK_SECTOR_COUNT` sectors. -/
def diskFormat (x : Disk × (ℕ → U8)) : Disk × (ℕ → U8) :=
  run ((List.range 65536).flatMap formatSector ++ [⟨0, 0x4⟩]) x

theorem formatSector_fp {n : ℕ} (hn : n < 65536) (x : Disk × (ℕ → U8)) :
    (run (formatSector n) x).1.fp = (x.1.fp.seek (512 * n)).write 512 fun _ => 0xff := by
  have hshift : n >>> 8 = n / 256 := Nat.shiftRight_eq_div_pow n 8
  have hhi : (BitVec.ofNat 8 (n >>> 8)).toNat = n / 256 := by
    rw [hshift, BitVec.toNat_ofNat]
    omega
  have hlo : (BitVec.ofNat 8 (n &&& 0xFF)).toNat = n % 256 := by
    rw [Word.and_255, BitVec.toNat_ofNat]
    omega
  have hplace : 512 * (256 * (n / 256) + n % 256) % 2 ^ 64 = 512 * n := by omega
  have hhigh : step x ⟨2, BitVec.ofNat 8 (n >>> 8)⟩ = ({ x.1 with offset := n / 256 }, x.2) := by
    rw [← hhi]
    rfl
  rw [run, formatSector, List.foldl_cons, List.foldl_cons, List.foldl_cons, List.foldl_nil, hhigh,
    step_low]
  dsimp only
  rw [hlo, hplace, seekLong_eq (by omega)]
  rfl

theorem format_bytes {n : ℕ} (hn : n ≤ 65536) (x : Disk × (ℕ → U8)) (a : ℕ) :
    (run ((List.range n).flatMap formatSector) x).1.fp.bytes a =
      if a < 512 * n then 0xff else x.1.fp.bytes a := by
  induction n with
  | zero => rfl
  | succ n ih =>
    have hlast : run ((List.range (n + 1)).flatMap formatSector) x =
        run (formatSector n) (run ((List.range n).flatMap formatSector) x) := by
      rw [List.range_succ, List.flatMap_append, List.flatMap_singleton, run, List.foldl_append]
      rfl
    rw [hlast, formatSector_fp (by omega)]
    change (if 512 * n ≤ a ∧ a < 512 * n + 512 then 0xff else
      (run ((List.range n).flatMap formatSector) x).1.fp.bytes a) = _
    rw [ih (by omega)]
    split_ifs <;> first | rfl | omega

theorem run_flush (ws : List Write) (x : Disk × (ℕ → U8)) : run (ws ++ [⟨0, 0x4⟩]) x = run ws x := by
  rw [run, List.foldl_append]
  rfl

/-- A new disk is erased. -/
theorem diskFormat_erased (x : Disk × (ℕ → U8)) {a : ℕ} (ha : a < 512 * 65536) :
    (diskFormat x).1.fp.bytes a = 0xff := by
  rw [diskFormat, run_flush, format_bytes le_rfl, if_pos ha]

end Exec09.Disk
