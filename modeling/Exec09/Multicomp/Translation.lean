import Exec09.Multicomp.Mapper

/-! # Address translation on multicomp09

Whatever has been written to the registers of the mapper, each address outside
the I/O registers is served by the ROM, by the fixed block of the RAM, or by
the block that the mapper selects, also through the slots of the expander.
-/
namespace Exec09.Multicomp
open Foundation Access

namespace Mapper
variable {m : Mapper} {blk a : ℕ}

/-! ## The rule -/

/-- Which half of the block registers is in use. -/
def tr (m : Mapper) : ℕ := if m.mmuadr &&& 0x40 = 0 then 0 else 1

/-- The register that maps a block. -/
def register (blk : ℕ) (m : Mapper) : U8 := m.pblk (blk + 8 * m.tr)

def page (blk : ℕ) (m : Mapper) : ℕ :=
  if m.enabled then (m.register blk).toNat % 128 else blk

/-- The device that serves an address, and the offset there. -/
def served (a : ℕ) (m : Mapper) : ℕ × ℕ :=
  if m.romdis = false ∧ 0xE000 ≤ a then (2, a - 0xE000)
  else if m.mmufrt = true ∧ 0xFE00 ≤ a then (1, 7 * 8192 + a % 8192)
  else (1, 8192 * m.page (a / 8192) + a % 8192)

/-- The permission that `sdmapper_remap` gives to an address. -/
def permission (a : ℕ) (m : Mapper) : ℕ :=
  if 0xFF80 ≤ a then MAP_READWRITE
  else if a < 0xE000 then m.mmuFlags (a / 8192)
  else if m.romdis = false then MAP_READABLE
  else if a < 0xFE00 ∨ m.mmufrt = true then m.mmuFlags 7
  else MAP_READWRITE

/-! ## The calls -/

theorem index_eq (h : blk < 8) (m : Mapper) : m.index blk = blk + 8 * m.tr := by
  have hbit : ∀ x : U8, (x.toNat &&& 0x40) >>> 3 = if x &&& 0x40 = 0 then 0 else 8 := by decide
  have hor : ∀ b < 8, b ||| 8 = b + 8 := by decide
  rw [index, tr, hbit]
  by_cases htr : m.mmuadr &&& 0x40 = 0
  · rw [if_pos htr, if_pos htr, Nat.or_zero, Nat.mul_zero, Nat.add_zero]
  · rw [if_neg htr, if_neg htr, hor blk h]

theorem mmuOffset_eq (h : blk < 8) (m : Mapper) : m.mmuOffset blk = 8192 * m.page blk := by
  have hmask (x : ℕ) : x &&& 0x7f = x % 128 := Nat.and_two_pow_sub_one_eq_mod x 7
  rw [mmuOffset, page, index_eq h, hmask, Nat.shiftLeft_eq, Nat.shiftLeft_eq]
  by_cases hm : m.enabled = true
  · rw [if_pos hm, if_pos hm, register]
    ring
  · rw [if_neg hm, if_neg hm]
    ring

theorem page_lt (h : blk < 8) (m : Mapper) : m.page blk < 128 := by
  rw [page]
  split <;> omega

theorem mmuFlags_cases (blk : ℕ) (m : Mapper) :
    m.mmuFlags blk = MAP_READABLE ∨ m.mmuFlags blk = MAP_READWRITE := by
  rw [mmuFlags]
  split
  · split
    · exact .inl rfl
    · exact .inr rfl
  · exact .inr rfl

/-- Block `blk` as a whole. -/
def blockCall (blk : ℕ) (m : Mapper) : MapCall :=
  ⟨8192 * blk, 1, m.mmuOffset blk, 0x2000, m.mmuFlags blk⟩

/-- The first part of block 7. -/
def highCall (m : Mapper) : MapCall :=
  if m.romdis then ⟨0xE000, 1, m.mmuOffset 7, 0x1E00, m.mmuFlags 7⟩
  else ⟨0xE000, 2, 0x0000, 0x1E00, MAP_READABLE⟩

def topCall (m : Mapper) : MapCall :=
  if m.romdis then
    if m.mmufrt then ⟨0xFE00, 1, 0x1E00 + FRT_BLOCK <<< 13, 0x180, m.mmuFlags 7⟩
    else ⟨0xFE00, 1, 0x1E00 + m.mmuOffset 7, 0x180, MAP_READWRITE⟩
  else ⟨0xFE00, 2, 0x1E00, 0x180, MAP_READABLE⟩

def expanderCall : MapCall := ⟨0xFF80, 5, 0x0000, 128, MAP_READWRITE⟩

theorem calls_eq (m : Mapper) : m.calls = (List.range 7).map (fun blk => m.blockCall blk) ++
    [m.highCall, m.topCall, expanderCall] := rfl

theorem highCall_range (m : Mapper) : m.highCall.addr = 0xE000 ∧ m.highCall.len = 0x1E00 := by
  rw [highCall]
  split <;> exact ⟨rfl, rfl⟩

theorem topCall_range (m : Mapper) : m.topCall.addr = 0xFE00 ∧ m.topCall.len = 0x180 := by
  rw [topCall]
  split
  · split <;> exact ⟨rfl, rfl⟩
  · exact ⟨rfl, rfl⟩

theorem mem_calls {c : MapCall} : c ∈ m.calls ↔
    (∃ blk < 7, m.blockCall blk = c) ∨ c = m.highCall ∨ c = m.topCall ∨ c = expanderCall := by
  simp [calls_eq]

theorem calls_ascending (m : Mapper) : Ascending m.calls := by
  obtain ⟨hhigh, hhighlen⟩ := m.highCall_range
  obtain ⟨htop, htoplen⟩ := m.topCall_range
  rw [calls_eq, Ascending, List.pairwise_append]
  refine ⟨?_, ?_, ?_⟩
  · refine List.pairwise_map.mpr (List.pairwise_lt_range.imp fun {i j} hij => ?_)
    simp only [blockCall]
    omega
  · simp [hhigh, hhighlen, htop, htoplen, expanderCall]
  · intro c hc d hd
    obtain ⟨blk, hblk, rfl⟩ := List.mem_map.mp hc
    have hlt : blk < 7 := List.mem_range.mp hblk
    simp only [List.mem_cons, List.not_mem_nil, or_false] at hd
    simp only [blockCall]
    rcases hd with rfl | rfl | rfl
    · omega
    · omega
    · simp only [expanderCall]
      omega

theorem calls_aligned {c : MapCall} (hc : c ∈ m.calls) : c.Aligned := by
  have haligned (blk : ℕ) (h : blk < 8) : 128 ∣ m.mmuOffset blk ∧ m.mmuOffset blk < 2 ^ 21 := by
    have hpage := page_lt h m
    rw [mmuOffset_eq h]
    omega
  have h7 := haligned 7 (by decide)
  rcases mem_calls.mp hc with ⟨blk, hblk, rfl⟩ | rfl | rfl | rfl
  · have hoffset := haligned blk (by omega)
    constructor <;> simp only [blockCall] <;> omega
  · rw [highCall]
    split
    · constructor <;> simp only [] <;> omega
    · constructor <;> decide
  · rw [topCall]
    split
    · split
      · constructor <;> simp only [FRT_BLOCK] <;> decide
      · constructor <;> simp only [] <;> omega
    · constructor <;> decide
  · constructor <;> decide

theorem calls_free {c : MapCall} (hc : c ∈ m.calls) : c.fixed = false := by
  have hflags (blk : ℕ) : m.mmuFlags blk &&& MAP_FIXED = 0 := by
    rcases m.mmuFlags_cases blk with h | h <;> rw [h] <;> rfl
  rcases mem_calls.mp hc with ⟨blk, hblk, rfl⟩ | rfl | rfl | rfl
  · simp [MapCall.fixed, blockCall, hflags]
  · rw [highCall]
    split
    · simp [MapCall.fixed, hflags]
    · rfl
  · rw [topCall]
    split
    · split
      · simp [MapCall.fixed, hflags]
      · simp [MapCall.fixed, MAP_READWRITE, MAP_FIXED]
    · rfl
  · rfl

/-! ## Where the calls send an address -/

theorem mmuFlags_lt (blk : ℕ) (m : Mapper) : m.mmuFlags blk < 2 ^ 8 := by
  rcases m.mmuFlags_cases blk with h | h <;> rw [h] <;> decide

theorem frt_offset : FRT_BLOCK <<< 13 = 57344 := by decide

theorem served_rom (hrom : m.romdis = false) (ha : 0xE000 ≤ a) : m.served a = (2, a - 0xE000) :=
  if_pos ⟨hrom, ha⟩

theorem served_fixed (hrom : m.romdis = true) (hfrt : m.mmufrt = true) (ha : 0xFE00 ≤ a) :
    m.served a = (1, 7 * 8192 + a % 8192) := by
  rw [served, if_neg (by simp [hrom]), if_pos ⟨hfrt, ha⟩]

theorem served_block (hrom : m.romdis = true ∨ a < 0xE000) (hfrt : m.mmufrt = false ∨ a < 0xFE00) :
    m.served a = (1, 8192 * m.page (a / 8192) + a % 8192) := by
  have hram : ¬(m.romdis = false ∧ 0xE000 ≤ a) := by
    rintro ⟨hoff, hle⟩
    rcases hrom with hon | hlt
    · simp [hon] at hoff
    · omega
  have hmapped : ¬(m.mmufrt = true ∧ 0xFE00 ≤ a) := by
    rintro ⟨hon, hle⟩
    rcases hfrt with hoff | hlt
    · simp [hoff] at hon
    · omega
  rw [served, if_neg hram, if_neg hmapped]

theorem blockCall_place (ha : a < 0xE000) : (m.blockCall (a / 8192)).place a =
    ⟨(m.served a).1, (m.served a).2, m.permission a⟩ := by
  have hblk : a / 8192 < 8 := by omega
  have hpage := page_lt hblk m
  rw [served_block (.inr ha) (.inr (by omega)), permission, if_neg (by omega), if_pos ha, blockCall,
    mmuOffset_eq hblk]
  exact MapCall.place_eq (by dsimp only; omega) (by omega) (m.mmuFlags_lt _)

theorem highCall_place (hlow : 0xE000 ≤ a) (ha : a < 0xFE00) : m.highCall.place a =
    ⟨(m.served a).1, (m.served a).2, m.permission a⟩ := by
  have hpage := page_lt (show 7 < 8 by decide) m
  have hblk : a / 8192 = 7 := by omega
  rw [permission, if_neg (by omega), if_neg (by omega), highCall]
  cases hrom : m.romdis with
  | false =>
    rw [served_rom hrom hlow]
    simp only [Bool.false_eq_true, if_true, if_false]
    exact MapCall.place_eq (by dsimp only; omega) (by omega) (by decide)
  | true =>
    rw [served_block (.inl hrom) (.inr ha), hblk, mmuOffset_eq (by decide)]
    simp only [if_true, ha, true_or, Bool.true_eq_false, if_false]
    exact MapCall.place_eq (by dsimp only; omega) (by omega) (m.mmuFlags_lt _)

theorem topCall_place (hlow : 0xFE00 ≤ a) (ha : a < 0xFF80) : m.topCall.place a =
    ⟨(m.served a).1, (m.served a).2, m.permission a⟩ := by
  have hpage := page_lt (show 7 < 8 by decide) m
  have hblk : a / 8192 = 7 := by omega
  have hout : ¬a < 0xFE00 := by omega
  rw [permission, if_neg (by omega), if_neg (by omega), topCall]
  cases hrom : m.romdis with
  | false =>
    rw [served_rom hrom (by omega)]
    simp only [Bool.false_eq_true, if_true, if_false]
    exact MapCall.place_eq (by dsimp only; omega) (by omega) (by decide)
  | true =>
    cases hfrt : m.mmufrt with
    | true =>
      rw [served_fixed hrom hfrt hlow]
      simp only [if_true, or_true, Bool.true_eq_false, if_false]
      exact MapCall.place_eq (by dsimp only; rw [frt_offset]; omega) (by omega) (m.mmuFlags_lt _)
    | false =>
      rw [served_block (.inl hrom) (.inl hfrt), hblk, mmuOffset_eq (by decide)]
      simp only [if_true, hout, or_self, Bool.true_eq_false, Bool.false_eq_true, if_false]
      exact MapCall.place_eq (by dsimp only; omega) (by omega) (by dsimp only; decide)

/-- Below the expander one call covers the address and sends it where the rule says. -/
theorem call_served (ha : a < 0xFF80) : ∃ c ∈ m.calls, c.covers a = true ∧
    c.place a = ⟨(m.served a).1, (m.served a).2, m.permission a⟩ := by
  by_cases hlow : a < 0xE000
  · refine ⟨m.blockCall (a / 8192), mem_calls.mpr (.inl ⟨_, by omega, rfl⟩), ?_,
      blockCall_place hlow⟩
    rw [MapCall.covers_iff, blockCall]
    dsimp only
    omega
  · by_cases hhigh : a < 0xFE00
    · refine ⟨m.highCall, mem_calls.mpr (.inr (.inl rfl)), ?_, highCall_place (by omega) hhigh⟩
      rw [MapCall.covers_iff, m.highCall_range.1, m.highCall_range.2]
      omega
    · refine ⟨m.topCall, mem_calls.mpr (.inr (.inr (.inl rfl))), ?_, topCall_place (by omega) ha⟩
      rw [MapCall.covers_iff, m.topCall_range.1, m.topCall_range.2]
      omega

/-- In a slot that is not an I/O device the rule holds as well. -/
theorem slot_served (hlow : 0xFF80 ≤ a) (ha : a < 0x10000) (hio : ¬(0xFFD0 ≤ a ∧ a ≤ 0xFFDF)) :
    (m.slot ((a - 0xFF80) / 8)).1 = (m.served a).1 ∧
      a % 8 + (m.slot ((a - 0xFF80) / 8)).2 = (m.served a).2 := by
  have hblk : a / 8192 = 7 := by omega
  have h10 : (a - 0xFF80) / 8 ≠ 10 := by omega
  have h11 : (a - 0xFF80) / 8 ≠ 11 := by omega
  rw [slot, if_neg h10, if_neg h11, frt_offset]
  cases hrom : m.romdis with
  | false =>
    rw [served_rom hrom (by omega)]
    refine ⟨rfl, ?_⟩
    simp only [Bool.false_eq_true, if_false]
    omega
  | true =>
    cases hfrt : m.mmufrt with
    | true =>
      rw [served_fixed hrom hfrt (by omega)]
      refine ⟨rfl, ?_⟩
      simp only [if_true]
      omega
    | false =>
      rw [served_block (.inl hrom) (.inl hfrt), hblk, mmuOffset_eq (by decide)]
      refine ⟨rfl, ?_⟩
      simp only [if_true, Bool.false_eq_true, if_false]
      omega

end Mapper

/-! ## The machine -/

/-- The map and the expander are as the registers of the mapper say. -/
structure Mapped (s : Board Priv) : Prop where
  devices : s.devices = devices
  free : ∀ b, (s.busmaps b).fixed = false
  maps : ∀ c ∈ s.priv.mapper.calls, ∀ a, c.covers a = true → resolve s.busmaps a = c.place a
  slots : ∀ i < 16, s.priv.expander.ios i = some (s.priv.mapper.slot i).1 ∧
    s.priv.expander.offset i = (s.priv.mapper.slot i).2

/-- The state after `sdmapper_remap`. -/
def remapped (op : ℕ) (val : U8) (s : Board Priv) : Board Priv :=
  let m := s.priv.mapper.load op val
  { s with
    busmaps := Layer.lay BusEntry.fixed (m.calls.map MapCall.layer) s.busmaps
    priv := { s.priv with
      mapper := m
      expander := IoExpand.attachAll m.slot 16 s.priv.expander } }

theorem sdmapperRemap_run (op : ℕ) (val : U8) (s : Board Priv) :
    sdmapperRemap op val s = .ok () (remapped op val s) := by
  have hload : (modify (setMapper (Mapper.load op val)) : M Unit) s =
      .ok () (setMapper (Mapper.load op val) s) := rfl
  have haligned : ∀ c ∈ (s.priv.mapper.load op val).calls, c.Aligned :=
    fun c hc => Mapper.calls_aligned hc
  have hcalls := runAll_mapBus haligned (setMapper (Mapper.load op val) s)
  rw [sdmapperRemap, run_bind_ok hload, run_bind_ok run_get]
  exact run_bind_ok hcalls

theorem remapped_mapped (op : ℕ) (val : U8) {s : Board Priv} (hdevs : s.devices = devices)
    (hfree : ∀ b, (s.busmaps b).fixed = false) : Mapped (remapped op val s) where
  devices := hdevs
  free := by
    intro b
    refine Layer.lay_free ?_ (hfree b)
    intro l hl k
    obtain ⟨c, hc, rfl⟩ := List.mem_map.mp hl
    rw [MapCall.layer_fixed, Mapper.calls_free hc]
  maps := fun c hc a ha => resolve_of_ascending (fun d hd => Mapper.calls_aligned hd)
    (Mapper.calls_ascending _) hc ha (hfree _)
  slots := fun i hi => IoExpand.attachAll_slot _ hi _

namespace Mapped
variable {s : Board Priv} {a : ℕ}

theorem attached (h : Mapped s) {id : ℕ} (hid : id < 6) : s.unattached id = false := by
  have hall : ∀ id < 6, (Word.trunc 8 id == INVALID_DEVID || decide (6 ≤ Word.trunc 8 id)) = false := by
    decide
  rw [Board.unattached, h.devices]
  exact hall id hid

theorem resolve_served (h : Mapped s) (ha : a < 0xFF80) : resolve s.busmaps a =
    ⟨(s.priv.mapper.served a).1, (s.priv.mapper.served a).2, s.priv.mapper.permission a⟩ := by
  obtain ⟨c, hc, hcov, hplace⟩ := Mapper.call_served (m := s.priv.mapper) ha
  rw [h.maps c hc a hcov, hplace]

theorem resolve_expander (h : Mapped s) (hlow : 0xFF80 ≤ a) (ha : a < 0x10000) :
    resolve s.busmaps a = ⟨5, a - 0xFF80, MAP_READWRITE⟩ := by
  have hcov : Mapper.expanderCall.covers a = true := by
    rw [MapCall.covers_iff]
    exact ⟨hlow, ha⟩
  rw [h.maps _ (Mapper.mem_calls.mpr (.inr (.inr (.inr rfl)))) a hcov]
  exact MapCall.place_eq (Nat.zero_add _) (by omega) (by decide)

/-- The expander passes an access on to the device in its slot. -/
theorem throughExpander_run (h : Mapped s) (hlow : 0xFF80 ≤ a) (ha : a < 0x10000) :
    throughExpander 5 (a - 0xFF80) s = .ok ((s.priv.mapper.slot ((a - 0xFF80) / 8)).1,
      Word.trunc 64 (a % 8 + (s.priv.mapper.slot ((a - 0xFF80) / 8)).2)) s := by
  obtain ⟨hdev, hoff⟩ := h.slots ((a - 0xFF80) / 8) (by omega)
  have hmod : (a - 0xFF80) % 8 = a % 8 := by omega
  rw [throughExpander, run_bind_ok run_get, h.devices, if_pos (by decide),
    IoExpand.target_run (by omega) hdev hoff, hmod]

theorem throughExpander_other {dev offset : ℕ} (h : Mapped s) (hdev : dev = 1 ∨ dev = 2) :
    throughExpander dev offset s = .ok (dev, offset) s := by
  rw [throughExpander, run_bind_ok run_get, h.devices]
  rcases hdev with rfl | rfl <;> rfl

theorem record (h : Mapped s) (e : BusEvent) : Mapped (s.record e) :=
  ⟨h.devices, h.free, h.maps, h.slots⟩

theorem size_ram (h : Mapped s) : s.size 1 = 0x80000 := by
  rw [Board.size, h.devices]
  rfl

theorem size_rom (h : Mapped s) : s.size 2 = 0x2000 := by
  rw [Board.size, h.devices]
  rfl

theorem classRead_memory (h : Mapped s) (read8 : ℕ → M U8) (pc : ℕ) {dev offset : ℕ}
    (hdev : dev = 1 ∨ dev = 2) (hin : offset < s.size dev) :
    classRead read8 pc dev offset s = .ok (s.mem dev offset) s := by
  have hread : ramRead dev offset s = .ok (s.mem dev offset) s := by
    rw [ramRead, run_bind_ok run_get, if_pos hin]
    rfl
  rw [classRead, run_bind_ok run_get, h.devices]
  rcases hdev with rfl | rfl
  · exact hread
  · exact hread

theorem classWrite_memory (h : Mapped s) {dev offset : ℕ} (val : U8)
    (hdev : dev = 1 ∨ dev = 2) (hin : offset < s.size dev) :
    classWrite dev offset val s = .ok () (s.setMem dev offset val) := by
  have hwrite : ramWrite dev offset val s = .ok () (s.setMem dev offset val) := by
    rw [ramWrite, run_bind_ok run_get, if_pos hin]
    rfl
  rw [classWrite, run_bind_ok run_get, h.devices]
  rcases hdev with rfl | rfl
  · exact hwrite
  · exact hwrite

end Mapped

theorem Mapper.served_dev (m : Mapper) (a : ℕ) : (m.served a).1 = 1 ∨ (m.served a).1 = 2 := by
  rw [served]
  split
  · exact .inr rfl
  · split <;> exact .inl rfl

theorem Mapper.permission_readable (m : Mapper) (a : ℕ) : m.permission a &&& MAP_READABLE ≠ 0 := by
  have hflags (blk : ℕ) : m.mmuFlags blk &&& MAP_READABLE ≠ 0 := by
    rcases m.mmuFlags_cases blk with h | h <;> rw [h] <;> decide
  rw [permission]
  split
  · decide
  · split
    · exact hflags _
    · split
      · decide
      · split
        · exact hflags _
        · decide

/-- The place that serves an address lies in its device. -/
def Inside (a : ℕ) (s : Board Priv) : Prop :=
  (s.priv.mapper.served a).2 < s.size (s.priv.mapper.served a).1

theorem Mapped.inside_lt {s : Board Priv} (h : Mapped s) {a : ℕ} (hin : Inside a s) :
    (s.priv.mapper.served a).2 < 2 ^ 64 := by
  rw [Inside] at hin
  rcases s.priv.mapper.served_dev a with h1 | h2
  · rw [h1, h.size_ram] at hin
    omega
  · rw [h2, h.size_rom] at hin
    omega

/-- The map leads an access, directly or through the expander, to the place that serves its
address. -/
theorem Mapped.reaches {s : Board Priv} (h : Mapped s) {a : ℕ} (ha : a < 0x10000)
    (hio : ¬(0xFFD0 ≤ a ∧ a ≤ 0xFFDF)) (hin : Inside a s) :
    ∃ dev offset, resolve s.busmaps a = ⟨dev, offset, s.priv.mapper.permission a⟩ ∧
      s.unattached dev = false ∧ ∀ t, Mapped t → t.priv = s.priv →
        throughExpander (Word.trunc 8 dev) offset t = .ok (s.priv.mapper.served a) t := by
  have hdev := s.priv.mapper.served_dev a
  by_cases hlow : a < 0xFF80
  · have hid : Word.trunc 8 (s.priv.mapper.served a).1 = (s.priv.mapper.served a).1 :=
      Word.trunc_of_lt (by omega)
    refine ⟨_, _, h.resolve_served hlow, h.attached (by omega), fun t ht _ => ?_⟩
    rw [hid]
    exact ht.throughExpander_other hdev
  · have hperm : s.priv.mapper.permission a = MAP_READWRITE := if_pos (by omega)
    refine ⟨5, a - 0xFF80, ?_, h.attached (by decide), fun t ht hpriv => ?_⟩
    · rw [h.resolve_expander (by omega) ha, hperm]
    · obtain ⟨hsame, hplace⟩ := Mapper.slot_served (m := s.priv.mapper) (by omega) ha hio
      refine (ht.throughExpander_run (a := a) (by omega) ha).trans ?_
      rw [hpriv, hsame, hplace, Word.trunc_of_lt (h.inside_lt hin)]

/-- A read gets the byte at the place that serves its address. -/
theorem Mapped.cpuRead8_served {s : Board Priv} (h : Mapped s) (pc : ℕ) {a : ℕ} (ha : a < 0x10000)
    (hio : ¬(0xFFD0 ≤ a ∧ a ≤ 0xFFDF)) (hin : Inside a s) :
    ∃ e, cpuRead8 hardware pc a s = .ok
      (s.mem (s.priv.mapper.served a).1 (s.priv.mapper.served a).2) (s.record e) := by
  obtain ⟨dev, offset, hresolve, hattached, hthrough⟩ := h.reaches ha hio hin
  obtain ⟨e, hrun⟩ := cpuRead8_resolved hardware pc ha hresolve hattached
    (s.priv.mapper.permission_readable a)
  refine ⟨e, hrun.trans ((run_bind_ok (hthrough _ (h.record e) rfl)).trans ?_)⟩
  exact (h.record e).classRead_memory _ pc (s.priv.mapper.served_dev a) hin

/-! ## Writes to the mapper -/

/-- A guest write to MMUDAT or MMUADR. -/
structure MapperWrite where
  pc : ℕ
  dat : Bool
  val : U8

namespace MapperWrite

def perform (w : MapperWrite) : M Unit :=
  cpuWrite8 hardware w.pc (if w.dat then 0xFFDF else 0xFFDE) w.val

/-- The registers after the write. -/
def apply (w : MapperWrite) (m : Mapper) : Mapper :=
  if w.dat then m.load 1 w.val else if w.val &&& 0x10 = 0 then m.load 2 w.val else m

theorem controller_run (w : MapperWrite) {s : Board Priv} (h : Mapped s) :
    ∃ t, sdmapperWrite (if w.dat then 7 else 6) w.val s = .ok () t ∧ Mapped t ∧
      t.priv.mapper = w.apply s.priv.mapper ∧ t.cpuRunning = s.cpuRunning ∧ t.mem = s.mem := by
  cases hdat : w.dat with
  | true =>
    refine ⟨remapped 1 w.val s, sdmapperRemap_run 1 w.val s, remapped_mapped 1 w.val h.devices h.free,
      ?_, rfl, rfl⟩
    rw [apply, hdat]
    rfl
  | false =>
    have hwrite : sdmapperWrite 6 w.val s =
        (if w.val &&& 0x10 = 0 then sdmapperRemap 2 w.val else pure ()) s := rfl
    by_cases hnmi : w.val &&& 0x10 = 0
    · rw [if_pos hnmi] at hwrite
      refine ⟨remapped 2 w.val s, hwrite.trans (sdmapperRemap_run 2 w.val s),
        remapped_mapped 2 w.val h.devices h.free, ?_, rfl, rfl⟩
      rw [apply, hdat, if_neg (by simp), if_pos hnmi]
      rfl
    · rw [if_neg hnmi] at hwrite
      refine ⟨s, hwrite, h, ?_, rfl, rfl⟩
      rw [apply, hdat, if_neg (by simp), if_neg hnmi]

/-- The write reaches the mapper through slot 11 of the expander. -/
theorem perform_run (w : MapperWrite) {s : Board Priv} (h : Mapped s) :
    ∃ t, w.perform s = .ok () t ∧ Mapped t ∧ t.priv.mapper = w.apply s.priv.mapper ∧
      t.cpuRunning = s.cpuRunning ∧ t.mem = s.mem := by
  obtain ⟨t, hrun, ht, hmapper, hrunning, hmem⟩ := w.controller_run h
  generalize haddr : (if w.dat then 0xFFDF else 0xFFDE) = a
  have hreg : a = 0xFFD8 + if w.dat then 7 else 6 := by
    rw [← haddr]
    split <;> rfl
  have hlow : 0xFF80 ≤ a := by
    rw [hreg]
    omega
  have hhigh : a < 0x10000 := by
    rw [hreg]
    split <;> omega
  have hattached : s.unattached 5 = false := h.attached (by decide)
  have hwritable : MAP_READWRITE &&& MAP_WRITABLE ≠ 0 := by decide
  obtain ⟨e, hcpu⟩ := cpuWrite8_resolved hardware w.pc hhigh w.val
    (h.resolve_expander hlow hhigh) hattached (.inr hwritable)
  have hthrough : throughExpander 5 (a - 0xFF80) s = .ok (4, if w.dat then 7 else 6) s := by
    rw [h.throughExpander_run hlow hhigh, hreg]
    cases w.dat <;> rfl
  have hclass : classWrite 4 (if w.dat then 7 else 6) w.val s = .ok () t := by
    rw [classWrite, run_bind_ok run_get, h.devices]
    exact hrun
  have hdevice : deviceWrite 5 (a - 0xFF80) w.val s = .ok () t :=
    (run_bind_ok hthrough).trans hclass
  refine ⟨t.record e, ?_, ht.record e, hmapper, hrunning, hmem⟩
  rw [perform, haddr, hcpu]
  exact run_bind_ok hdevice

end MapperWrite

/-! ## Initialisation and runs -/

theorem sdmapperRemap_mapped (val : U8) {E : Board Priv → Prop} :
    Triple (Board.Has devices initialBusmaps fun p => p.mapper = Priv.start.mapper)
      (sdmapperRemap 0 val) (fun _ s => Mapped s ∧ s.priv.mapper = Priv.start.mapper) E := by
  intro s h
  rw [sdmapperRemap_run]
  refine ⟨remapped_mapped 0 val h.devices fun b => ?_, h.priv⟩
  rw [h.busmaps]
  simp [initialBusmaps, BusEntry.fixed]

theorem multicomp09Init_mapped (bootRom : ℕ → U8) (batchFile : Option (List U8))
    (sdFile : Option File) :
    Triple (Board.Has [⟨.null, 0⟩] initialBusmaps fun p => p.mapper = Priv.start.mapper)
      (multicomp09Init bootRom batchFile sdFile)
      (fun _ s => Mapped s ∧ s.priv.mapper = Priv.start.mapper) (fun _ => False) := by
  apply Triple.value (ramCreate_has (by decide))
  apply Triple.value (romCreate_has (by decide))
  apply Triple.value (deviceAttach_has (by decide) (nullReset_has _))
  apply Triple.value (deviceAttach_has (by decide) (nullReset_has _))
  apply Triple.value (deviceAttach_has (by decide) (nullReset_has _))
  apply (sdmapperRemap_mapped 0).bind
  intro _
  apply Triple.modify
  rintro s ⟨h, hmapper⟩
  exact ⟨⟨h.devices, h.free, h.maps, h.slots⟩, hmapper⟩

theorem init_mapped (bootRom : ℕ → U8) (batchFile : Option (List U8)) (sdFile : Option File) :
    Triple (fun s => s.devices = [] ∧ s.priv.mapper = Priv.start.mapper)
      (init bootRom batchFile sdFile)
      (fun _ s => Mapped s ∧ s.priv.mapper = Priv.start.mapper) (fun _ => False) := by
  apply machineInit_has (multicomp09Init_mapped bootRom batchFile sdFile)
  rintro s ⟨h, hmapper⟩
  exact ⟨⟨h.devices, h.free, h.maps, h.slots⟩, hmapper⟩

/-- The machine initialised, the CPU started, and a sequence of writes made to the mapper. -/
def configured (bootRom : ℕ → U8) (batchFile : Option (List U8)) (sdFile : Option File)
    (ws : List MapperWrite) : M Unit := do
  init bootRom batchFile sdFile
  modify fun s => { s with cpuRunning := true }
  runAll MapperWrite.perform ws

/-- The registers after a sequence of writes. -/
def mapperAfter (ws : List MapperWrite) : Mapper := ws.foldl (fun m w => w.apply m) Priv.start.mapper

theorem runAll_mapped {s : Board Priv} (h : Mapped s) (ws : List MapperWrite) :
    ∃ t, runAll MapperWrite.perform ws s = .ok () t ∧ Mapped t ∧
      t.priv.mapper = ws.foldl (fun m w => w.apply m) s.priv.mapper ∧
      t.cpuRunning = s.cpuRunning := by
  induction ws generalizing s with
  | nil => exact ⟨s, rfl, h, rfl, rfl⟩
  | cons w ws ih =>
    obtain ⟨u, hrun, hu, hmapper, hrunning, -⟩ := w.perform_run h
    obtain ⟨t, hruns, ht, hmappers, hrunnings⟩ := ih hu
    refine ⟨t, ?_, ht, ?_, hrunnings.trans hrunning⟩
    · rw [runAll, run_bind_ok hrun, hruns]
    · rw [hmappers, hmapper, List.foldl_cons]

theorem configured_run (debug : Bool) (bootRom : ℕ → U8) (batchFile : Option (List U8))
    (sdFile : Option File) (ws : List MapperWrite) :
    ∃ s, configured bootRom batchFile sdFile ws (Board.start .fault debug Priv.start) = .ok () s ∧
      Mapped s ∧ s.priv.mapper = mapperAfter ws ∧ s.cpuRunning = true := by
  obtain ⟨_, u, hinit, hu, hmapper⟩ := (init_mapped bootRom batchFile sdFile).total
    (s := Board.start .fault debug Priv.start) ⟨rfl, rfl⟩
  have hstarted : Mapped { u with cpuRunning := true } := ⟨hu.devices, hu.free, hu.maps, hu.slots⟩
  obtain ⟨s, hrun, hs, hmappers, hrunning⟩ := runAll_mapped hstarted ws
  refine ⟨s, ?_, hs, ?_, hrunning⟩
  · rw [configured, run_bind_ok hinit]
    exact hrun
  · rw [hmappers, mapperAfter, ← hmapper]

/-- All physical blocks lie in the RAM. -/
def Mapper.InRam (m : Mapper) : Prop := ∀ i, (m.pblk i).toNat % 128 < 64

theorem MapperWrite.apply_inRam {w : MapperWrite} {m : Mapper} (hm : m.InRam)
    (hw : w.dat = true → w.val.toNat % 128 < 64) : (w.apply m).InRam := by
  rw [apply]
  split
  · rename_i hdat
    intro i
    simp only [Mapper.load, Function.update_apply]
    split
    · exact hw hdat
    · exact hm i
  · split
    · exact hm
    · exact hm

theorem mapperAfter_inRam {ws : List MapperWrite}
    (hws : ∀ w ∈ ws, w.dat = true → w.val.toNat % 128 < 64) : (mapperAfter ws).InRam := by
  have hfold (m : Mapper) (hm : m.InRam) : (ws.foldl (fun m w => w.apply m) m).InRam := by
    induction ws generalizing m with
    | nil => exact hm
    | cons w ws ih =>
      rw [List.foldl_cons]
      exact ih (fun v hv => hws v (List.mem_cons_of_mem w hv)) _
        (MapperWrite.apply_inRam hm (hws w List.mem_cons_self))
  have hzero : (0 : U8).toNat % 128 < 64 := by decide
  exact hfold _ fun _ => hzero

theorem Mapped.inside {s : Board Priv} (h : Mapped s) (hram : s.priv.mapper.InRam) {a : ℕ}
    (ha : a < 0x10000) : Inside a s := by
  have hpage : s.priv.mapper.page (a / 8192) < 64 := by
    rw [Mapper.page]
    split
    · exact hram _
    · omega
  rw [Inside, Mapper.served]
  split
  · rw [h.size_rom]
    omega
  · split
    · rw [h.size_ram]
      omega
    · rw [h.size_ram]
      omega

/-- ROM disabled and the MMU enabled with block 7 at physical block 9, then the ROM bit cleared. -/
def romdisWrites : List MapperWrite :=
  [⟨0, false, 0x87⟩, ⟨0, true, 0x09⟩, ⟨0, false, 0xA0⟩, ⟨0, false, 0x20⟩]

end Exec09.Multicomp
