import Exec09.Bus.Views
import Exec09.Bus.Traffic
import Exec09.Bus.Setup
import Exec09.Cpu.CodeFetch

/-! # The code as the processor and the debugger see it

The processor fetches an instruction over the bus map, the disassembler reads it
at absolute addresses. Both see the same bytes where these are contiguous in one
device.
-/
namespace Exec09.Debugger
open Foundation Access
variable {σ : Type}

/-- The bus of a board. -/
@[reducible] def boardBus (hw : Hardware σ) : Bus (Board σ) where
  cpuRead8 := Access.cpuRead8 hw
  cpuRead16 := Access.cpuRead16 hw
  cpuWrite8 := Access.cpuWrite8 hw
  simError := Access.simError
  cpuIsRunning s := { s with cpuRunning := true }

/-- The `n` bytes from `pc` on lie in one device, and the monitor reads them as `mem` says. -/
structure CodeOn (hw : Hardware σ) (mem : ℕ → U8) (pc n : ℕ) (s : Board σ) : Prop where
  below : pc + n ≤ 0x10000
  packable : Packable s
  attached : s.unattached (resolve s.busmaps pc).devid = false
  readable : ∀ i < n, (findMap s.busmaps (pc + i)).readable = true
  contiguous : ∀ i < n, (resolve s.busmaps (pc + i)).devid = (resolve s.busmaps pc).devid ∧
    (resolve s.busmaps (pc + i)).offset = (resolve s.busmaps pc).offset + i
  reads : ∀ p i log m, i < n → ∃ log' m',
    absRead8 hw p (toAbsolute s.busmaps pc + i) (s.traced log m) =
      .ok (mem (toAbsolute s.busmaps pc + i)) (s.traced log' m')

section
variable {hw : Hardware σ} {mem : ℕ → U8} {pc n : ℕ} {s : Board σ}

theorem CodeOn.absolute (h : CodeOn hw mem pc n s) {i : ℕ} (hi : i < n) :
    toAbsolute s.busmaps (pc + i) = toAbsolute s.busmaps pc + i := by
  have hbelow := h.below
  obtain ⟨hdev, hoff⟩ := h.contiguous i hi
  rw [toAbsolute_eq h.packable (by omega), toAbsolute_eq h.packable (by omega), hdev, hoff,
    Nat.add_assoc]

/-- The device and the place in it of a byte of the code. -/
theorem CodeOn.target (h : CodeOn hw mem pc n s) {i : ℕ} (hi : i < n) :
    s.target (pc + i) = ((s.target pc).1, (s.target pc).2 + i) := by
  obtain ⟨hdev, hoff⟩ := h.contiguous i hi
  have hdevid : (findMap s.busmaps (pc + i)).devid = (findMap s.busmaps pc).devid := hdev
  refine Prod.ext ?_ hoff
  simp only [Board.target, hdevid]

theorem CodeOn.stops (h : CodeOn hw mem pc n s) {i : ℕ} (hi : i < n) :
    s.readStops (pc + i) = false := by
  have hdev : s.unattached (findMap s.busmaps (pc + i)).devid = false := by
    rw [← h.attached]
    exact congrArg s.unattached (h.contiguous i hi).1
  rw [Board.readStops, hdev, h.readable i hi]
  simp

/-- The device function gives the byte that the monitor reads. -/
theorem CodeOn.device (h : CodeOn hw mem pc n s) {i : ℕ} (hi : i < n) (p : ℕ) (log : List BusEvent)
    (m : Bool) : ∃ log' m', hw.read p (s.target pc).1 ((s.target pc).2 + i) (s.traced log m) =
      .ok (mem (toAbsolute s.busmaps pc + i)) (s.traced log' m') := by
  have hbelow := h.below
  have hpc : pc + i < 0x10000 := by omega
  obtain ⟨log', m', hread⟩ := h.reads p i log m hi
  refine ⟨log', m', ?_⟩
  have hdev : s.unattached (findMap s.busmaps (pc + i)).devid = false := by
    rw [← h.attached]
    exact congrArg s.unattached (h.contiguous i hi).1
  have hpack : Packable (s.traced log m) := h.packable
  have htarget := absTarget_toAbsolute hpack hpc
  have hfind := findDevice_attached (Word.trunc 32 (toAbsolute s.busmaps (pc + i)))
    (s := s.traced log m) hdev
  have hwhere : (Word.trunc 8 (findMap s.busmaps (pc + i)).devid, (s.target (pc + i)).2) =
      s.target (pc + i) := by
    refine Prod.ext ?_ rfl
    simp only [Board.target, hdev]
    rfl
  have habs : absTarget (toAbsolute s.busmaps (pc + i)) (s.traced log m) =
      .ok (s.target (pc + i)) (s.traced log m) := by
    refine htarget.trans ?_
    rw [← hwhere]
    exact run_bind_ok hfind
  rw [absRead8, ← h.absolute hi, run_bind_ok habs, h.target hi] at hread
  rw [← h.absolute hi]
  exact hread

theorem CodeOn.lookup (h : CodeOn hw mem pc n s) {i : ℕ} (hi : i < n) (log : List BusEvent)
    (m : Bool) : ∃ log' m', readTarget (pc + i) (s.traced log m) =
      .ok ((s.target pc).1, (s.target pc).2 + i) (s.traced log' m') := by
  have hbelow := h.below
  have hstops : (s.traced log m).readStops (pc + i) = false := h.stops hi
  obtain ⟨m', hread⟩ := readTarget_ok (by omega) hstops
  have htarget : (s.traced log m).target (pc + i) = ((s.target pc).1, (s.target pc).2 + i) :=
    h.target hi
  rw [htarget] at hread
  exact ⟨_, m', hread⟩

theorem CodeOn.byte (h : CodeOn hw mem pc n s) {i : ℕ} (hi : i < n) (p : ℕ) (log : List BusEvent)
    (m : Bool) : ∃ log' m', cpuRead8 hw p (pc + i) (s.traced log m) =
      .ok (mem (toAbsolute s.busmaps pc + i)) (s.traced log' m') := by
  obtain ⟨log₁, m₁, hlookup⟩ := h.lookup hi log m
  obtain ⟨log', m', hdevice⟩ := h.device hi p log₁ m₁
  refine ⟨log', m', ?_⟩
  rw [cpuRead8, run_bind_ok hlookup]
  exact hdevice

theorem CodeOn.word (h : CodeOn hw mem pc n s) {i : ℕ} (hi : i + 1 < n) (p : ℕ)
    (log : List BusEvent) (m : Bool) : ∃ log' m', cpuRead16 hw p (pc + i) (s.traced log m) =
      .ok (mem (toAbsolute s.busmaps pc + i) ++ mem (toAbsolute s.busmaps pc + (i + 1)))
        (s.traced log' m') := by
  have hfirst : i < n := by omega
  obtain ⟨log₁, m₁, hlookup⟩ := h.lookup hfirst log m
  obtain ⟨log₂, m₂, hhigh⟩ := h.device hfirst p log₁ m₁
  obtain ⟨log', m', hlow⟩ := h.device hi p log₂ m₂
  have hbelow := h.below
  have hnextpc : pc + (i + 1) < 0x10000 := by omega
  have hoffset := (h.packable.resolve hnextpc).1
  rw [(h.contiguous (i + 1) hi).2] at hoffset
  have hnext : Word.trunc 64 ((s.target pc).2 + i + 1) = (s.target pc).2 + (i + 1) := by
    have hsame : (s.target pc).2 = (resolve s.busmaps pc).offset := rfl
    rw [Nat.add_assoc]
    exact Word.trunc_of_lt (by omega)
  refine ⟨log', m', ?_⟩
  rw [cpuRead16, run_bind_ok hlookup]
  dsimp only
  rw [run_bind_ok hhigh, hnext, run_bind_ok hlow]
  rfl

/-- The processor sees the bytes that the monitor reads. -/
def CodeOn.seen (h : CodeOn hw mem pc n s) : @CodeSeen (Board σ) (boardBus hw) mem :=
  @CodeSeen.mk (Board σ) (boardBus hw) mem pc (toAbsolute s.busmaps pc) n
    (fun t => ∃ log m, t = s.traced log m) h.below
    (by
      rintro p i t ⟨log, m, rfl⟩ hi
      obtain ⟨log', m', hread⟩ := h.byte hi p log m
      exact ⟨s.traced log' m', hread, log', m', rfl⟩)
    (by
      rintro p i t ⟨log, m, rfl⟩ hi
      obtain ⟨log', m', hread⟩ := h.word hi p log m
      exact ⟨s.traced log' m', hread, log', m', rfl⟩)

end

/-! ## A board with one device -/

/-- One device from the first address on. -/
def linearMaps : BusMaps := fun b => ⟨1, 128 * b, MAP_READWRITE⟩

theorem linearMaps_resolve {a : ℕ} (ha : a < 0x10000) :
    resolve linearMaps a = ⟨1, a, MAP_READWRITE⟩ := by
  have hsplit : 128 * (a / 128) + a % 128 = a := Nat.div_add_mod a 128
  have hoffset : resolve linearMaps a =
      ⟨1, Word.trunc 64 (128 * (a / 128) + a % 128), MAP_READWRITE⟩ := rfl
  rw [hoffset, hsplit, Word.trunc_of_lt (by omega)]

theorem linearMaps_absolute {a : ℕ} (ha : a < 0x10000) : toAbsolute linearMaps a = 0x10000000 + a := by
  have hpacked : toAbsolute linearMaps a =
      absoluteFromReladdr (resolve linearMaps a).devid (resolve linearMaps a).offset :=
    if_neg (by omega)
  rw [hpacked, linearMaps_resolve ha, absoluteFromReladdr, Word.trunc_of_lt (by dsimp only; omega)]
  dsimp only

def ramHardware : Hardware Unit where
  read _ dev offset := ramRead dev offset
  write _ dev offset v := ramWrite dev offset v

/-- 64K of RAM that hold `image`. -/
def ramBoard (image : ℕ → U8) : Board Unit where
  devices := [⟨.null, 0⟩, ⟨.ram, 0x10000⟩]
  attached := by decide
  busmaps := linearMaps
  defaultBusmaps := linearMaps
  machineFault := .fault
  cpuRunning := true
  debugEnabled := false
  monitorOn := false
  mem _ a := image a
  log := []
  priv := ()

instance ramBus : Bus (Board Unit) := boardBus ramHardware

/-- The memory of the board at absolute addresses. -/
def absoluteImage (image : ℕ → U8) (a : ℕ) : U8 := image (a - 0x10000000)

/-- A byte of the RAM by its absolute address. -/
theorem ramBoard_read (image : ℕ → U8) (p : ℕ) {a : ℕ} (ha : a < 0x10000) (log : List BusEvent)
    (m : Bool) : absRead8 ramHardware p (0x10000000 + a) ((ramBoard image).traced log m) =
      .ok (image a) ((ramBoard image).traced log m) := by
  have hid : Word.trunc 32 ((0x10000000 + a) >>> 28) = 1 := by
    rw [Nat.shiftRight_eq_div_pow, Word.trunc_of_lt (by omega)]
    omega
  have hplace : (0x10000000 + a) &&& 0xFFFFFFF = a := by
    rw [Nat.and_two_pow_sub_one_eq_mod _ 28]
    omega
  have hattached : ((ramBoard image).traced log m).unattached 1 = false := rfl
  have htarget : absTarget (0x10000000 + a) ((ramBoard image).traced log m) =
      .ok (1, a) ((ramBoard image).traced log m) := by
    rw [absTarget, hid, hplace, run_bind_ok (findDevice_attached _ hattached)]
    rfl
  have hsize : a < ((ramBoard image).traced log m).size 1 := ha
  rw [absRead8, run_bind_ok htarget]
  dsimp only [ramHardware]
  rw [ramRead, run_bind_ok run_get, if_pos hsize]
  rfl

theorem ramBoard_code (image : ℕ → U8) (pc n : ℕ) (h : pc + n ≤ 0x10000) (hn : 0 < n) :
    CodeOn ramHardware (absoluteImage image) pc n (ramBoard image) where
  below := h
  packable b hb := by
    have hoffset : 128 * b + 127 < 2 ^ 28 := by omega
    exact ⟨hoffset, .inl (by decide : 1 < 2)⟩
  attached := rfl
  readable i hi := by
    have hflags : (findMap (ramBoard image).busmaps (pc + i)).flags = MAP_READWRITE := rfl
    rw [BusEntry.readable, hflags]
    rfl
  contiguous i hi := by
    have hmaps : (ramBoard image).busmaps = linearMaps := rfl
    rw [hmaps, linearMaps_resolve (by omega), linearMaps_resolve (by omega)]
    exact ⟨rfl, rfl⟩
  reads p i log m hi := by
    have hmaps : (ramBoard image).busmaps = linearMaps := rfl
    have hplace : 0x10000000 + (pc + i) - 0x10000000 = pc + i := by omega
    rw [hmaps, linearMaps_absolute (by omega), Nat.add_assoc, absoluteImage, hplace]
    exact ⟨log, m, ramBoard_read image p (by omega) log m⟩

end Exec09.Debugger
