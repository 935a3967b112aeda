import Exec09.Foundation.Word
import Exec09.Foundation.Overlay

/-! # The bus map

`busmaps` cuts the address space of the CPU into 512 blocks of 128 bytes, and
says of each block which device answers there, from which offset on, and which
accesses are allowed. `bus_map` fills the entries of a range of blocks, but an
entry with `MAP_FIXED` keeps its contents. A loop that leaves the array yields
no map at all.
-/
namespace Exec09
open Foundation

structure BusEntry where
  devid : ℕ
  offset : ℕ
  flags : ℕ
  deriving DecidableEq, Repr

def MAP_READABLE : ℕ := 0x1
def MAP_WRITABLE : ℕ := 0x2
def MAP_READWRITE : ℕ := 0x3
def MAP_FIXED : ℕ := 0x4
def MAP_IGNOREWRITE : ℕ := 0x8
def INVALID_DEVID : ℕ := 0xff

namespace BusEntry

def readable (e : BusEntry) : Bool := e.flags &&& MAP_READABLE != 0
def writable (e : BusEntry) : Bool := e.flags &&& MAP_WRITABLE != 0
def fixed (e : BusEntry) : Bool := e.flags &&& MAP_FIXED != 0
def ignoreWrite (e : BusEntry) : Bool := e.flags &&& MAP_IGNOREWRITE != 0

end BusEntry

/-- The entries by block number. -/
abbrev BusMaps := ℕ → BusEntry

/-- The map before the machine maps its devices. -/
def initialBusmaps : BusMaps := fun _ => ⟨INVALID_DEVID, 0, 0⟩

/-- A `w`-bit number rounded up to a multiple of `BUS_MAP_SIZE`. -/
def roundUp (w n : ℕ) : ℕ := Word.trunc w (n + 127) / 128 * 128

/-- The loop of `bus_map`. -/
def mapBlocks (devid flags : ℕ) : (count block offset : ℕ) → BusMaps → Option BusMaps
  | 0, _, _, maps => some maps
  | count + 1, block, offset, maps =>
    if block < 512 then
      mapBlocks devid flags count (block + 1) (Word.trunc 64 (offset + 128))
        (if (maps block).fixed then maps
          else Function.update maps block ⟨devid, offset, flags⟩)
    else none

/-- The arguments of a call of `bus_map`. -/
structure MapCall where
  addr : ℕ
  devid : ℕ
  offset : ℕ
  len : ℕ
  flags : ℕ
  deriving DecidableEq, Repr

def busMap (c : MapCall) (maps : BusMaps) : Option BusMaps :=
  mapBlocks c.devid (Word.trunc 8 c.flags) (roundUp 32 c.len / 128) (roundUp 32 c.addr / 128)
    (roundUp 64 c.offset) maps

def busUnmap (addr len : ℕ) (defaultBusmaps maps : BusMaps) : Option BusMaps :=
  let start := roundUp 32 addr / 128
  let count := roundUp 32 len / 128
  if start + count ≤ 512 then
    some fun b => if start ≤ b ∧ b < start + count then defaultBusmaps b else maps b
  else none

def findMap (maps : BusMaps) (addr : ℕ) : BusEntry := maps (addr / 128)

/-! ## The loop as a layer -/

/-- What a call of `bus_map` puts over the map. -/
def MapCall.layer (c : MapCall) : Layer ℕ BusEntry where
  covers b := c.addr / 128 ≤ b && b < (c.addr + c.len) / 128
  value b := ⟨c.devid, Word.trunc 64 (c.offset + 128 * (b - c.addr / 128)), Word.trunc 8 c.flags⟩

/-- The arguments that callers pass: whole blocks inside the address space. -/
structure MapCall.Aligned (c : MapCall) : Prop where
  addr : 128 ∣ c.addr
  len : 128 ∣ c.len
  offset : 128 ∣ c.offset
  inside : c.addr + c.len ≤ 0x10000
  offset_lt : c.offset < 2 ^ 64

instance (c : MapCall) : Decidable c.Aligned :=
  decidable_of_iff (128 ∣ c.addr ∧ 128 ∣ c.len ∧ 128 ∣ c.offset ∧ c.addr + c.len ≤ 0x10000 ∧
    c.offset < 2 ^ 64)
    ⟨fun ⟨a, l, o, i, b⟩ => ⟨a, l, o, i, b⟩, fun ⟨a, l, o, i, b⟩ => ⟨a, l, o, i, b⟩⟩

theorem roundUp_of_dvd {w n : ℕ} (h : 128 ∣ n) (hn : n + 127 < 2 ^ w) : roundUp w n = n := by
  rw [roundUp, Word.trunc_of_lt hn]
  omega

theorem mapBlocks_eq (devid flags count block offset : ℕ) (maps : BusMaps)
    (h : block + count ≤ 512) (ho : offset < 2 ^ 64) :
    mapBlocks devid flags count block offset maps = some fun b =>
      if (block ≤ b ∧ b < block + count) ∧ (maps b).fixed = false
      then ⟨devid, Word.trunc 64 (offset + 128 * (b - block)), flags⟩ else maps b := by
  induction count generalizing block offset maps with
  | zero =>
    simp only [mapBlocks, Option.some.injEq]
    ext1 b
    rw [if_neg (by omega)]
  | succ count ih =>
    have hb : block < 512 := by omega
    rw [mapBlocks, if_pos hb, ih (block + 1) _ _ (by omega) (Word.trunc_lt _ _)]
    congr 1
    ext1 b
    by_cases hbb : b = block
    · subst hbb
      have hoff : Word.trunc 64 offset = offset := Word.trunc_of_lt ho
      by_cases hf : (maps b).fixed = true <;> simp [hf, hoff]
    · have hsame : (if (maps block).fixed = true then maps
          else Function.update maps block ⟨devid, offset, flags⟩) b = maps b := by
        by_cases hf : (maps block).fixed = true <;> simp [hf, hbb]
      have hrange : (block + 1 ≤ b ∧ b < block + 1 + count) ↔
          (block ≤ b ∧ b < block + (count + 1)) := by omega
      rw [hsame]
      simp only [hrange]
      by_cases hin : (block ≤ b ∧ b < block + (count + 1)) ∧ (maps b).fixed = false
      · have hoff : Word.trunc 64 (Word.trunc 64 (offset + 128) + 128 * (b - (block + 1))) =
            Word.trunc 64 (offset + 128 * (b - block)) := by
          rw [Word.trunc, Word.trunc, Word.trunc, Nat.mod_add_mod]
          congr 1
          omega
        rw [if_pos hin, if_pos hin, hoff]
      · rw [if_neg hin, if_neg hin]

theorem busMap_eq {c : MapCall} (hc : c.Aligned) (maps : BusMaps) :
    busMap c maps = some (c.layer.stamp BusEntry.fixed maps) := by
  obtain ⟨ha, hl, ho, hin, ho64⟩ := hc
  have hrange (b : ℕ) : (c.addr / 128 ≤ b ∧ b < c.addr / 128 + c.len / 128) ↔
      (c.addr / 128 ≤ b ∧ b < (c.addr + c.len) / 128) := by omega
  rw [busMap, roundUp_of_dvd hl (by omega), roundUp_of_dvd ha (by omega),
    roundUp_of_dvd ho (by omega), mapBlocks_eq _ _ _ _ _ _ (by omega) ho64]
  congr 1
  ext1 b
  simp only [Layer.stamp, MapCall.layer, hrange, Bool.and_eq_true, decide_eq_true_eq,
    Bool.not_eq_true']

/-- One entry after a call, where the offset and the flags fit. -/
theorem MapCall.stamp_eq {c : MapCall} {maps : BusMaps} {b : ℕ} (hfree : (maps b).fixed = false)
    (hoffset : c.offset + 128 * b < 2 ^ 64) (hflags : c.flags < 2 ^ 8) :
    c.layer.stamp BusEntry.fixed maps b =
      if c.addr / 128 ≤ b ∧ b < (c.addr + c.len) / 128 then
        ⟨c.devid, c.offset + 128 * (b - c.addr / 128), c.flags⟩
      else maps b := by
  have hplace : c.offset + 128 * (b - c.addr / 128) < 2 ^ 64 := by omega
  simp [Layer.stamp, MapCall.layer, hfree, Word.trunc_of_lt hplace, Word.trunc_of_lt hflags]

/-! ## Sequences of calls -/

/-- What `find_map` says of one address: the device, the offset there, the permissions. -/
structure Resolution where
  devid : ℕ
  offset : ℕ
  flags : ℕ
  deriving DecidableEq, Repr

def BusEntry.resolution (e : BusEntry) (addr : ℕ) : Resolution :=
  ⟨e.devid, Word.trunc 64 (e.offset + addr % 128), e.flags⟩

def resolve (maps : BusMaps) (addr : ℕ) : Resolution := (findMap maps addr).resolution addr

def mapAll : List MapCall → BusMaps → Option BusMaps
  | [], maps => some maps
  | c :: cs, maps => (busMap c maps).bind (mapAll cs)

namespace MapCall

def covers (c : MapCall) (addr : ℕ) : Bool := c.addr ≤ addr && addr < c.addr + c.len

theorem covers_iff {c : MapCall} {addr : ℕ} :
    c.covers addr = true ↔ c.addr ≤ addr ∧ addr < c.addr + c.len := by
  rw [covers, Bool.and_eq_true, decide_eq_true_eq, decide_eq_true_eq]

def fixed (c : MapCall) : Bool := c.flags &&& MAP_FIXED != 0

/-- Where a call sends an address of its range. -/
def place (c : MapCall) (addr : ℕ) : Resolution :=
  ⟨c.devid, Word.trunc 64 (c.offset + (addr - c.addr)), Word.trunc 8 c.flags⟩

theorem place_eq {c : MapCall} {addr offset : ℕ} (ho : c.offset + (addr - c.addr) = offset)
    (hlt : offset < 2 ^ 64) (hf : c.flags < 2 ^ 8) : c.place addr = ⟨c.devid, offset, c.flags⟩ := by
  rw [place, ho, Word.trunc_of_lt hlt, Word.trunc_of_lt hf]

end MapCall

/-- The first fixed call that covers the address, or else the last one that covers it. -/
def decidingCall (cs : List MapCall) (addr : ℕ) : Option MapCall :=
  (cs.find? fun c => c.covers addr && c.fixed).or (cs.findRev? fun c => c.covers addr)

theorem mapAll_eq {cs : List MapCall} (hcs : ∀ c ∈ cs, c.Aligned) (maps : BusMaps) :
    mapAll cs maps = some (Layer.lay BusEntry.fixed (cs.map MapCall.layer) maps) := by
  induction cs generalizing maps with
  | nil => rfl
  | cons c cs ih =>
    rw [mapAll, busMap_eq (hcs c List.mem_cons_self), Option.bind_some,
      ih fun d hd => hcs d (List.mem_cons_of_mem c hd)]
    rfl

theorem MapCall.layer_covers {c : MapCall} (hc : c.Aligned) (addr : ℕ) :
    c.layer.covers (addr / 128) = c.covers addr := by
  have ha : 128 ∣ c.addr := hc.addr
  have hl : 128 ∣ c.len := hc.len
  have h1 : c.addr / 128 ≤ addr / 128 ↔ c.addr ≤ addr := by omega
  have h2 : addr / 128 < (c.addr + c.len) / 128 ↔ addr < c.addr + c.len := by omega
  simp only [layer, covers, h1, h2]

theorem MapCall.layer_fixed (c : MapCall) (b : ℕ) : (c.layer.value b).fixed = c.fixed := by
  have hbit : Word.trunc 8 c.flags &&& 2 ^ 2 = c.flags &&& 2 ^ 2 := by
    rw [Word.trunc, Nat.and_two_pow, Nat.and_two_pow, Nat.testBit_mod_two_pow]
    simp
  simp only [layer, BusEntry.fixed, fixed, MAP_FIXED]
  exact congrArg (· != 0) hbit

theorem MapCall.layer_place {c : MapCall} (hc : c.Aligned) {addr : ℕ} (h : c.covers addr = true) :
    (c.layer.value (addr / 128)).resolution addr = c.place addr := by
  obtain ⟨k, hk⟩ := hc.addr
  rw [covers_iff] at h
  have hoff : c.offset + 128 * (addr / 128 - c.addr / 128) + addr % 128 =
      c.offset + (addr - c.addr) := by omega
  simp only [layer, BusEntry.resolution, place, Resolution.mk.injEq, true_and, and_true]
  rw [Word.trunc, Word.trunc, Word.trunc, Nat.mod_add_mod, hoff]

theorem deciding_layer {cs : List MapCall} (hcs : ∀ c ∈ cs, c.Aligned) (addr : ℕ) :
    Layer.deciding BusEntry.fixed (cs.map MapCall.layer) (addr / 128) =
      (decidingCall cs addr).map MapCall.layer := by
  have hfirst : (cs.map MapCall.layer).find?
      (fun l => l.covers (addr / 128) && (l.value (addr / 128)).fixed) =
      (cs.find? fun c => c.covers addr && c.fixed).map MapCall.layer := by
    rw [List.find?_map]
    congr 1
    apply List.find?_congr
    intro c hc
    simp only [Function.comp_apply, MapCall.layer_covers (hcs c hc), MapCall.layer_fixed]
  have hlast : (cs.map MapCall.layer).reverse.find? (fun l => l.covers (addr / 128)) =
      (cs.reverse.find? fun c => c.covers addr).map MapCall.layer := by
    rw [← List.map_reverse, List.find?_map]
    congr 1
    apply List.find?_congr
    intro c hc
    exact MapCall.layer_covers (hcs c (List.mem_reverse.mp hc)) addr
  simp only [Layer.deciding, decidingCall, List.findRev?_eq_find?_reverse, hfirst, hlast]
  cases cs.find? fun c => c.covers addr && c.fixed <;> rfl

theorem covers_of_decidingCall {cs : List MapCall} {addr : ℕ} {c : MapCall}
    (h : decidingCall cs addr = some c) : c ∈ cs ∧ c.covers addr = true := by
  rw [decidingCall, Option.or_eq_some_iff] at h
  rcases h with h | ⟨_, h⟩
  · have hc := List.find?_some h
    simp only [Bool.and_eq_true] at hc
    exact ⟨List.mem_of_find?_eq_some h, hc.1⟩
  · rw [List.findRev?_eq_find?_reverse] at h
    have hc : c.covers addr = true := by simpa using List.find?_some h
    exact ⟨List.mem_reverse.mp (List.mem_of_find?_eq_some h), hc⟩

/-- After any sequence of calls an address that was not fixed before resolves as its deciding
call says, or as before if no call covers it. -/
theorem resolve_mapAll {cs : List MapCall} (hcs : ∀ c ∈ cs, c.Aligned) {maps : BusMaps} {addr : ℕ}
    (h : (maps (addr / 128)).fixed = false) :
    resolve (Layer.lay BusEntry.fixed (cs.map MapCall.layer) maps) addr =
      ((decidingCall cs addr).map fun c => c.place addr).getD (resolve maps addr) := by
  have hlay := Layer.lay_apply (cs.map MapCall.layer) h
  rw [resolve, findMap, hlay, deciding_layer hcs]
  cases hd : decidingCall cs addr with
  | none => rfl
  | some c =>
    obtain ⟨hmem, hcov⟩ := covers_of_decidingCall hd
    exact MapCall.layer_place (hcs c hmem) hcov

theorem decidingCall_eq {cs : List MapCall} {addr : ℕ} {c : MapCall} (hc : c ∈ cs)
    (hcov : c.covers addr = true) (hunique : ∀ d ∈ cs, d.covers addr = true → d = c) :
    decidingCall cs addr = some c := by
  cases hd : decidingCall cs addr with
  | none =>
    rw [decidingCall, Option.or_eq_none_iff, List.findRev?_eq_find?_reverse] at hd
    exact absurd hcov (List.find?_eq_none.mp hd.2 c (List.mem_reverse.mpr hc))
  | some d =>
    obtain ⟨hmem, hdcov⟩ := covers_of_decidingCall hd
    rw [hunique d hmem hdcov]

/-- The ranges of the calls follow each other. -/
def Ascending (cs : List MapCall) : Prop := cs.Pairwise fun c d => c.addr + c.len ≤ d.addr

theorem Ascending.eq_of_covers {cs : List MapCall} (h : Ascending cs) {addr : ℕ} {c d : MapCall}
    (hc : c ∈ cs) (hd : d ∈ cs) (hcov : c.covers addr = true) (hdcov : d.covers addr = true) :
    d = c := by
  rw [MapCall.covers_iff] at hcov hdcov
  induction cs with
  | nil => cases hc
  | cons e cs ih =>
    obtain ⟨hlow, hrest⟩ := List.pairwise_cons.mp h
    rcases List.mem_cons.mp hc with rfl | hc'
    · rcases List.mem_cons.mp hd with rfl | hd'
      · rfl
      · have := hlow d hd'
        omega
    · rcases List.mem_cons.mp hd with rfl | hd'
      · have := hlow c hc'
        omega
      · exact ih hrest hc' hd'

/-- After ascending calls an address in the range of one of them resolves as that call says. -/
theorem resolve_of_ascending {cs : List MapCall} (hcs : ∀ c ∈ cs, c.Aligned) (h : Ascending cs)
    {maps : BusMaps} {addr : ℕ} {c : MapCall} (hc : c ∈ cs) (hcov : c.covers addr = true)
    (hfree : (maps (addr / 128)).fixed = false) :
    resolve (Layer.lay BusEntry.fixed (cs.map MapCall.layer) maps) addr = c.place addr := by
  have hdeciding := decidingCall_eq hc hcov fun d hd hdcov => h.eq_of_covers hc hd hcov hdcov
  rw [resolve_mapAll hcs hfree, hdeciding]
  rfl

theorem busUnmap_eq {addr len : ℕ} (ha : 128 ∣ addr) (hl : 128 ∣ len) (h : addr + len ≤ 0x10000)
    (defaults maps : BusMaps) :
    busUnmap addr len defaults maps =
      some fun b => if addr / 128 ≤ b ∧ b < (addr + len) / 128 then defaults b else maps b := by
  have hsum : addr / 128 + len / 128 = (addr + len) / 128 := by omega
  have hra : roundUp 32 addr = addr := roundUp_of_dvd ha (by omega)
  have hrl : roundUp 32 len = len := roundUp_of_dvd hl (by omega)
  simp only [busUnmap, hra, hrl, hsum]
  rw [if_pos (by omega)]

/-- The map is an overlay in which the last writer wins and fixed entries stay; unmapping
uncovers the default entries of the range. -/
theorem busMap_overlay (cs : List MapCall) (hcs : ∀ c ∈ cs, c.Aligned)
    {start len : ℕ} (hs : 128 ∣ start) (hl : 128 ∣ len) (hin : start + len ≤ 0x10000)
    (defaultBusmaps : BusMaps) :
    ∃ maps, mapAll cs initialBusmaps = some maps ∧
      (∀ addr < 0x10000, resolve maps addr =
        ((decidingCall cs addr).map fun c => c.place addr).getD ⟨INVALID_DEVID, addr % 128, 0⟩) ∧
      ∀ before, ∃ after, busUnmap start len defaultBusmaps before = some after ∧
        ∀ addr < 0x10000, resolve after addr =
          if start ≤ addr ∧ addr < start + len then resolve defaultBusmaps addr
          else resolve before addr := by
  refine ⟨_, mapAll_eq hcs initialBusmaps, ?_, ?_⟩
  · intro addr _
    have hfree : (initialBusmaps (addr / 128)).fixed = false := by
      simp [initialBusmaps, BusEntry.fixed]
    rw [resolve_mapAll hcs hfree]
    have hlow : Word.trunc 64 (0 + addr % 128) = addr % 128 := by
      rw [Nat.zero_add]
      exact Word.trunc_of_lt (by omega)
    congr 1
    exact congrArg (Resolution.mk INVALID_DEVID · 0) hlow
  · intro before
    refine ⟨_, busUnmap_eq hs hl hin defaultBusmaps before, ?_⟩
    intro addr _
    have hrange : (start / 128 ≤ addr / 128 ∧ addr / 128 < (start + len) / 128) ↔
        (start ≤ addr ∧ addr < start + len) := by omega
    simp only [resolve, findMap, hrange]
    by_cases h : start ≤ addr ∧ addr < start + len
    · rw [if_pos h, if_pos h]
    · rw [if_neg h, if_neg h]

/-- A fixed hole, a call over it and its surroundings, and a third call over the lower part. -/
def holeCalls : List MapCall :=
  [⟨0xE000, 2, 0, 0x100, MAP_READWRITE ||| MAP_FIXED⟩, ⟨0xC000, 1, 0x8000, 0x4000, MAP_READWRITE⟩,
    ⟨0xC000, 3, 0, 0x1000, MAP_READABLE⟩]

theorem holeCalls_aligned : ∀ c ∈ holeCalls, c.Aligned := by
  intro c hc
  simp only [holeCalls, List.mem_cons, List.not_mem_nil, or_false] at hc
  rcases hc with rfl | rfl | rfl
  · constructor <;> decide
  · constructor <;> decide
  · constructor <;> decide

theorem busMap_overlay_fixedHole : ∃ maps, mapAll holeCalls initialBusmaps = some maps ∧
    (∀ addr < 0x10000, resolve maps addr = ((decidingCall holeCalls addr).map
      fun c => c.place addr).getD ⟨INVALID_DEVID, addr % 128, 0⟩) ∧
    ∀ before, ∃ after, busUnmap 0xC000 0x1000 initialBusmaps before = some after ∧
      ∀ addr < 0x10000, resolve after addr =
        if 0xC000 ≤ addr ∧ addr < 0xC000 + 0x1000 then resolve initialBusmaps addr
        else resolve before addr :=
  busMap_overlay holeCalls holeCalls_aligned (by decide) (by decide) (by decide) initialBusmaps

end Exec09
