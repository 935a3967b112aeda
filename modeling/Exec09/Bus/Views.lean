import Exec09.Bus.Access

/-! # Three views of memory

The CPU reads bytes by `cpu_read8` and words by `cpu_read16`, and the monitor
and the breakpoints use absolute addresses, which pack a device number and an
offset into one number. The absolute view agrees with the byte view for every
bus map. The word view does not: it looks up, checks and reports the first
byte only.
-/
namespace Exec09
open Foundation
namespace Access
variable {σ : Type}

/-! ## The absolute view -/

/-- The entries for which an absolute address has room. -/
def Packable (s : Board σ) : Prop :=
  ∀ b < 512, (s.busmaps b).offset + 127 < 2 ^ 28 ∧
    ((s.busmaps b).devid < s.devices.length ∨ (s.busmaps b).devid = INVALID_DEVID)

theorem Packable.resolve {s : Board σ} (h : Packable s) {addr : ℕ} (ha : addr < 0x10000) :
    (resolve s.busmaps addr).offset < 2 ^ 28 ∧ (resolve s.busmaps addr).devid < 2 ^ 8 := by
  obtain ⟨hoff, hdev⟩ := h (addr / 128) (by omega)
  have hcount : s.devices.length ≤ 32 := s.attached
  have hlow : addr % 128 < 128 := Nat.mod_lt _ (by decide)
  constructor
  · have hlt : (s.busmaps (addr / 128)).offset + addr % 128 < 2 ^ 64 := by omega
    have htrunc : (Exec09.resolve s.busmaps addr).offset =
        (s.busmaps (addr / 128)).offset + addr % 128 := Word.trunc_of_lt hlt
    rw [htrunc]
    omega
  · change (s.busmaps (addr / 128)).devid < 2 ^ 8
    rw [INVALID_DEVID] at hdev
    omega

theorem toAbsolute_eq {s : Board σ} (h : Packable s) {addr : ℕ} (ha : addr < 0x10000) :
    toAbsolute s.busmaps addr =
      (resolve s.busmaps addr).devid * 2 ^ 28 + (resolve s.busmaps addr).offset := by
  obtain ⟨hoff, hdev⟩ := h.resolve ha
  have hlt : (resolve s.busmaps addr).devid * 2 ^ 28 + (resolve s.busmaps addr).offset < 2 ^ 64 := by
    omega
  rw [toAbsolute, if_neg (by omega)]
  exact Word.trunc_of_lt hlt

/-- Device and offset can be read off the absolute address again. -/
theorem toAbsolute_inj {s : Board σ} (h : Packable s) {a b : ℕ} (ha : a < 0x10000)
    (hb : b < 0x10000) : toAbsolute s.busmaps a = toAbsolute s.busmaps b ↔
      (resolve s.busmaps a).devid = (resolve s.busmaps b).devid ∧
        (resolve s.busmaps a).offset = (resolve s.busmaps b).offset := by
  obtain ⟨hoffa, _⟩ := h.resolve ha
  obtain ⟨hoffb, _⟩ := h.resolve hb
  rw [toAbsolute_eq h ha, toAbsolute_eq h hb]
  omega

theorem absTarget_toAbsolute {s : Board σ} (h : Packable s) {addr : ℕ} (ha : addr < 0x10000) :
    absTarget (toAbsolute s.busmaps addr) s = (do
      let dev ← findDevice (Word.trunc 32 (toAbsolute s.busmaps addr)) (findMap s.busmaps addr).devid
      return (dev, (s.target addr).2)) s := by
  obtain ⟨hoff, hdev⟩ := h.resolve ha
  have habs := toAbsolute_eq h ha
  have hid : Word.trunc 32 (toAbsolute s.busmaps addr >>> 28) = (findMap s.busmaps addr).devid := by
    rw [habs, Nat.shiftRight_eq_div_pow, Nat.add_comm, Nat.add_mul_div_right _ _ (Nat.two_pow_pos 28),
      Nat.div_eq_of_lt hoff, Nat.zero_add]
    exact Word.trunc_of_lt (by omega)
  have hphy : toAbsolute s.busmaps addr &&& 0xFFFFFFF = (s.target addr).2 := by
    rw [habs, Nat.and_two_pow_sub_one_eq_mod _ 28, Nat.mul_add_mod_self_right, Nat.mod_eq_of_lt hoff]
    rfl
  rw [absTarget, hid, hphy]

theorem cpuWrite8_hook {hw : Hardware σ} {pc addr : ℕ} {val : U8} {s t : Board σ}
    (ha : addr < 0x10000) (h : cpuWrite8 hw pc addr val s = .ok () t) :
    t.log.head? = some (.writeHook (toAbsolute s.busmaps addr) val) := by
  rw [cpuWrite8, run_bind_ok (entry_run ha s)] at h
  obtain ⟨dev, s₁, _, h⟩ := of_run_bind_ok h
  obtain ⟨_, s₂, _, h⟩ := of_run_bind_ok h
  cases h
  rw [toAbsolute, if_neg (by omega)]
  rfl

/-- Same physical byte. -/
def Alias (s : Board σ) (a b : ℕ) : Prop :=
  (resolve s.busmaps a).devid = (resolve s.busmaps b).devid ∧
    (resolve s.busmaps a).offset = (resolve s.busmaps b).offset

/-- A board with two devices in neighbouring blocks. -/
def splitBoard : Board Unit where
  devices := [⟨.null, 0⟩, ⟨.ram, 0x80⟩, ⟨.ram, 0x80⟩]
  attached := by decide
  busmaps b := if b = 0 then ⟨1, 0, MAP_READWRITE⟩
    else if b = 1 then ⟨2, 0, MAP_READWRITE⟩ else ⟨INVALID_DEVID, 0, 0⟩
  defaultBusmaps := initialBusmaps
  machineFault := .fault
  cpuRunning := true
  debugEnabled := false
  monitorOn := false
  mem _ _ := 0
  log := []
  priv := ()

theorem packable_splitBoard : Packable splitBoard := by
  intro b _
  by_cases h₀ : b = 0
  · simp [splitBoard, h₀]
  · by_cases h₁ : b = 1 <;> simp [splitBoard, h₀, h₁]

/-- A machine whose device functions work on the private data alone. -/
structure Devices (σ : Type) where
  read : (dev offset : ℕ) → σ → U8 × σ
  write : (dev offset : ℕ) → U8 → σ → σ

def Devices.hardware (d : Devices σ) : Hardware σ where
  read _ dev offset s := .ok (d.read dev offset s.priv).1 { s with priv := (d.read dev offset s.priv).2 }
  write _ dev offset v s := .ok () { s with priv := d.write dev offset v s.priv }

/-- The word at `addr` by two calls of `cpu_read8`. -/
def readBytes (hw : Hardware σ) (pc addr : ℕ) : BoardM σ U16 := do
  let high ← cpuRead8 hw pc addr
  let low ← cpuRead8 hw pc ((addr + 1) % 0x10000)
  return high ++ low

def hooked : List BusEvent → List ℕ :=
  List.filterMap fun e => match e with
    | .readHook addr => some addr
    | _ => none

def faulting : List BusEvent → List ℕ :=
  List.filterMap fun e => match e with
    | .fault addr _ => some addr
    | _ => none

/-- The same word or the same end, the same hooks called, the same bytes at fault. -/
def SameRead : EStateM.Result Stop (Board σ) U16 → EStateM.Result Stop (Board σ) U16 → Prop
  | .ok v s, .ok w t => v = w ∧ hooked s.log = hooked t.log ∧ faulting s.log = faulting t.log
  | .error e s, .error f t => e = f ∧ hooked s.log = hooked t.log ∧ faulting s.log = faulting t.log
  | _, _ => False

/-- If the first byte is reached, the two ways differ: the second byte is never looked up,
checked or reported by `cpu_read16`. -/
theorem readStops_of_sameRead (d : Devices σ) (pc : ℕ) (s : Board σ) {addr : ℕ} (ha : addr < 0x10000)
    (hsame : SameRead (cpuRead16 d.hardware pc addr s) (readBytes d.hardware pc addr s)) :
    s.readStops addr = true := by
  by_contra hs
  obtain ⟨m, hfirst⟩ := readTarget_ok ha (by simpa using hs)
  generalize ht : { s with
    monitorOn := m
    log := .readHook (toAbsolute s.busmaps addr) :: (s.readFaults addr ++ s.log) } = s₁ at hfirst
  have hword : ∃ w s₂, cpuRead16 d.hardware pc addr s = .ok w s₂ ∧ s₂.log = s₁.log :=
    ⟨_, _, run_bind_ok hfirst, rfl⟩
  have hbyte : ∃ v s₂, cpuRead8 d.hardware pc addr s = .ok v s₂ ∧ s₂.log = s₁.log :=
    ⟨_, _, run_bind_ok hfirst, rfl⟩
  obtain ⟨w, s₂, hword, hlog₂⟩ := hword
  obtain ⟨v, s₃, hbyte, hlog₃⟩ := hbyte
  have hnext : (addr + 1) % 0x10000 < 0x10000 := Nat.mod_lt _ (by decide)
  rw [hword, readBytes, run_bind_ok hbyte] at hsame
  by_cases hs₃ : s₃.readStops ((addr + 1) % 0x10000) = true
  · obtain ⟨t, he⟩ := readTarget_error hnext hs₃
    have hlow : cpuRead8 d.hardware pc ((addr + 1) % 0x10000) s₃ = .error (.exit 2) t :=
      run_bind_error he
    rw [run_bind_error hlow] at hsame
    exact hsame
  · obtain ⟨m', hsecond⟩ := readTarget_ok hnext (by simpa using hs₃)
    have hlow : ∃ u s₄, cpuRead8 d.hardware pc ((addr + 1) % 0x10000) s₃ = .ok u s₄ ∧
        s₄.log = .readHook (toAbsolute s₃.busmaps ((addr + 1) % 0x10000)) ::
          (s₃.readFaults ((addr + 1) % 0x10000) ++ s₃.log) :=
      ⟨_, _, run_bind_ok hsecond, rfl⟩
    obtain ⟨u, s₄, hlow, hlog₄⟩ := hlow
    rw [run_bind_ok hlow] at hsame
    -- one more hook has been called
    have hhooks : hooked s₂.log = hooked s₄.log := hsame.2.1
    have hlength := congrArg List.length hhooks
    rw [hlog₂, hlog₄, hlog₃] at hlength
    simp [hooked, List.filterMap_append] at hlength
    omega

/-- A word read does what two byte reads do exactly if the access to the first byte already
ends the emulator. -/
theorem cpuRead16_iff (d : Devices σ) (pc : ℕ) (s : Board σ) {addr : ℕ} (ha : addr < 0x10000) :
    SameRead (cpuRead16 d.hardware pc addr s) (readBytes d.hardware pc addr s) ↔
      s.readStops addr = true := by
  constructor
  · exact readStops_of_sameRead d pc s ha
  · intro hs
    obtain ⟨t, he⟩ := readTarget_error ha hs
    have hword : cpuRead16 d.hardware pc addr s = .error (.exit 2) t := run_bind_error he
    have hbyte : cpuRead8 d.hardware pc addr s = .error (.exit 2) t := run_bind_error he
    have hbytes : readBytes d.hardware pc addr s = .error (.exit 2) t := run_bind_error hbyte
    rw [hword, hbytes]
    exact ⟨rfl, rfl, rfl⟩

/-- Device 1 reads as `0x11` everywhere, any other as `0x22`. -/
def twoRams : Devices Unit where
  read dev _ _ := (if dev = 1 then 0x11 else 0x22, ())
  write _ _ _ _ := ()

theorem cpuRead16_iff_unmapped :
    SameRead (cpuRead16 twoRams.hardware 0 0x100 splitBoard)
      (readBytes twoRams.hardware 0 0x100 splitBoard) ↔ splitBoard.readStops 0x100 = true :=
  cpuRead16_iff twoRams 0 splitBoard (by decide)

/-- The word at the last address of a block has both bytes from the device of the first. -/
theorem cpuRead16_straddling :
    ¬SameRead (cpuRead16 twoRams.hardware 0 0x7F splitBoard)
      (readBytes twoRams.hardware 0 0x7F splitBoard) := by
  intro h
  have hword : (0x1111 : U16) = 0x1122 := h.1
  exact absurd hword (by decide)

end Access
end Exec09
