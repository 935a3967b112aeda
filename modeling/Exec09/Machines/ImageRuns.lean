import Exec09.Loader.RoundTrip
import Exec09.Machines.SingleBoardTraffic

/-! # From an image file to a running program

The loader and the machine together: what an image file says stands in the
memory when the CPU begins, at the address that its reset vector names.
-/
namespace Exec09.Machines
open Foundation Loader Text

/-- The byte that a record has for an address. -/
def DataRecord.byteAt (r : DataRecord) (a : ℕ) : Option U8 :=
  if r.addr ≤ a then r.bytes[a - r.addr]? else none

/-- The byte that the records have for an address; a later record counts for more. -/
def fileByte : List DataRecord → ℕ → Option U8
  | [], _ => none
  | r :: rs, a => (fileByte rs a).or (DataRecord.byteAt r a)

/-- The memory before anything is loaded. -/
def SingleBoard.blank (m : SingleBoard) (bootRom : ℕ → U8) (a : ℕ) : U8 :=
  match m.block (a / 128) with
  | .rom _ => bootRom (m.place a).2
  | _ => 0

/-- The memory with the image. -/
def SingleBoard.imaged (m : SingleBoard) (bootRom : ℕ → U8) (rs : List DataRecord) (a : ℕ) : U8 :=
  (fileByte rs a).getD (m.blank bootRom a)

/-! ## The stores of a file -/

section Stores
variable {a addr : ℕ} {bytes : List U8} {rs : List DataRecord}

/-- What stores leave at an address, in their order. -/
def finalByte (a : ℕ) : List (ℕ × U8) → Option U8
  | [] => none
  | (a', v) :: l => (finalByte a l).or (if a' = a then some v else none)

theorem finalByte_append (l l' : List (ℕ × U8)) :
    finalByte a (l ++ l') = (finalByte a l').or (finalByte a l) := by
  induction l with
  | nil => simp [finalByte]
  | cons p l ih => rw [List.cons_append, finalByte, finalByte, ih, Option.or_assoc]

theorem finalByte_storesFrom : finalByte a (storesFrom addr bytes) =
    if addr ≤ a then bytes[a - addr]? else none := by
  induction bytes generalizing addr with
  | nil => simp [storesFrom, finalByte]
  | cons b bytes ih =>
    rw [storesFrom, finalByte, ih]
    rcases lt_trichotomy addr a with h | rfl | h
    · rw [if_pos (by omega), if_neg (by omega), Option.or_none, if_pos (by omega),
        show a - addr = a - (addr + 1) + 1 by omega, List.getElem?_cons_succ]
    · simp
    · rw [if_neg (by omega), if_neg (by omega), if_neg (by omega)]
      rfl

theorem finalByte_records : finalByte a (rs.flatMap fun r => storesFrom r.addr r.bytes) =
    fileByte rs a := by
  induction rs with
  | nil => rfl
  | cons r rs ih =>
    rw [List.flatMap_cons, finalByte_append, ih, finalByte_storesFrom]
    rfl

theorem lastStore_loaded (image : List Store) : lastStore a (loaded image) =
    finalByte a (image.map fun x => (x.addr, x.value)) := by
  induction image with
  | nil => rfl
  | cons x image ih =>
    have hloaded : loaded (x :: image) = loaded image ++ [.write8 x.addr x.value.toNat] := by
      simp [loaded]
    rw [hloaded, lastStore_append, ih, List.map_cons, finalByte, lastStore_write]
    congr 1
    split
    · rw [BitVec.ofNat_toNat, BitVec.setWidth_eq]
    · rfl

theorem storesFrom_range {p : ℕ × U8} (h : p ∈ storesFrom addr bytes) :
    addr ≤ p.1 ∧ p.1 < addr + bytes.length := by
  induction bytes generalizing addr with
  | nil => cases h
  | cons b bytes ih =>
    rcases List.mem_cons.mp h with rfl | h
    · simp
    · have := ih h
      simp only [List.length_cons]
      omega

end Stores

/-! ## The reset after the loader -/

section Reset
variable {m : SingleBoard} {k : Kind} {rs : List DataRecord} {t rest : Text}

/-- The bytes of the reset vector are memory on every machine. -/
theorem vector_memory (m : SingleBoard) :
    (m.block (0xFFFE / 128)).isMemory = true ∧ (m.block (0xFFFF / 128)).isMemory = true := by
  cases m <;> decide

theorem read16_vector (c : Computer m) :
    Computer.read16 0xFFFE c = .ok (c.mem 0xFFFE ++ c.mem 0xFFFF) c := by
  have hhigh := (vector_memory m).1
  rw [Computer.read16, if_pos (by decide)]
  cases hb : m.block (0xFFFE / 128) with
  | ram | rom quiet =>
    dsimp only
    rw [if_pos ⟨by decide, rfl⟩]
    rfl
  | console | sink | vacant => rw [hb] at hhigh; cases hhigh

theorem cpuReset_run (s : Cpu (Computer m)) : ∃ u, cpuReset s = .ok () u ∧
    u.PC = (s.bus.mem 0xFFFE ++ s.bus.mem 0xFFFF).toNat ∧ u.bus.mem = s.bus.mem := by
  have hread (u : Cpu (Computer m)) : Exec09.read16 0xfffe u =
      .ok (u.bus.mem 0xFFFE ++ u.bus.mem 0xFFFF).toNat
        { u with trace := .read16 0xfffe :: u.trace } := by
    rw [read16_run, show Bus.cpuRead16 (getPc u) 0xfffe u.bus =
      .ok (u.bus.mem 0xFFFE ++ u.bus.mem 0xFFFF) u.bus from read16_vector u.bus]
  have hlow : (s.bus.mem 0xFFFE ++ s.bus.mem 0xFFFF).toNat &&& 0xffff =
      (s.bus.mem 0xFFFE ++ s.bus.mem 0xFFFF).toNat := by
    rw [Nat.and_two_pow_sub_one_eq_mod _ 16]
    exact Nat.mod_eq_of_lt (BitVec.isLt _)
  rw [cpuReset, run_bind_ok (run_modify _), run_bind_ok (hread _)]
  exact ⟨_, rfl, hlow, rfl⟩

/-- The loader stores what a correct image file says, record by record. -/
theorem stores_image (h : k.Encodes rs t rest) (data : ℕ) (m : SingleBoard)
    (hexit : m = .simple → ∀ r ∈ rs, ¬(r.addr ≤ 0xFF01 ∧ 0xFF01 < r.addr + r.bytes.length))
    (bootRom : ℕ → U8) (debug : Bool) (console : Terminal) :
    ∃ s u, k.format.load data t = some s ∧
      runAll (fun x : Store => Exec09.write8 x.addr x.value.toNat) s.stores
        (Cpu.powerOn (Computer.start m bootRom debug console)) = .ok () u ∧
      ∀ a, (m.block (a / 128)).isMemory = true → u.bus.mem a = m.imaged bootRom rs a := by
  obtain ⟨s, hload, -, -, hperformed⟩ := load_encodes h data
  have hstores {x : Store} (hx : x ∈ s.stores) :
      ∃ r ∈ rs, r.addr ≤ x.addr ∧ x.addr < r.addr + r.bytes.length := by
    have hmem : (x.addr, x.value) ∈ s.performed := List.mem_map_of_mem hx
    rw [hperformed] at hmem
    obtain ⟨r, hr, hrange⟩ := List.mem_flatMap.mp hmem
    exact ⟨r, hr, storesFrom_range hrange⟩
  have haddr : ∀ x ∈ s.stores, x.addr < 0x10000 := by
    intro x hx
    obtain ⟨r, -, -, hlast⟩ := hstores hx
    have := r.fits
    omega
  have hquiet : m = .simple → ∀ x ∈ s.stores, x.addr ≠ 0xFF01 := by
    rintro hm x hx hport
    obtain ⟨r, hr, hrange⟩ := hstores hx
    exact hexit hm r hr (by rwa [hport] at hrange)
  obtain ⟨u, hrun, -, hmem⟩ := stores_run hquiet haddr
    (s := Cpu.powerOn (Computer.start m bootRom debug console)) rfl
  refine ⟨s, u, hload, hrun, fun a ha => ?_⟩
  rw [hmem a ha, lastStore_loaded, show s.stores.map (fun x => (x.addr, x.value)) = s.performed
    from rfl, hperformed, finalByte_records]
  rfl

/-- A correct image file is loaded as it says, record by record, and then the program starts where
the reset vector points, with the image in the memory. -/
theorem load_and_reset (h : k.Encodes rs t rest) (data : ℕ) (m : SingleBoard)
    (hexit : m = .simple → ∀ r ∈ rs, ¬(r.addr ≤ 0xFF01 ∧ 0xFF01 < r.addr + r.bytes.length))
    (bootRom : ℕ → U8) (debug : Bool) (console : Terminal) :
    ∃ s u, k.format.load data t = some s ∧
      m.emulate bootRom s.stores [] (Cpu.powerOn (Board.start .fault debug console)) = .ok () u ∧
      u.PC = (m.imaged bootRom rs 0xFFFE ++ m.imaged bootRom rs 0xFFFF).toNat ∧
      ∀ a < 0x10000, (m.block (a / 128)).isMemory = true →
        Board.mem u.bus (m.place a).1 (m.place a).2 = m.imaged bootRom rs a := by
  obtain ⟨s, u, hload, hrun, himage⟩ := stores_image h data m hexit bootRom debug console
  obtain ⟨v, hreset, hpc, hkept⟩ := cpuReset_run u
  have hsession : session s.stores [] (Cpu.powerOn (Computer.start m bootRom debug console)) =
      .ok () v := by
    rw [session, run_bind_ok hrun, run_bind_ok hreset]
    rfl
  have hboard := emulate_corresponds m bootRom debug console s.stores []
  rw [hsession] at hboard
  obtain ⟨w, hw, c, hc, hv⟩ := hboard.of_ok
  obtain ⟨hhigh, hlow⟩ := vector_memory m
  refine ⟨s, w, hload, hw, ?_, fun a ha hb => ?_⟩
  · rw [← himage _ hhigh, ← himage _ hlow, ← hpc, hv]
    rfl
  · rw [← himage a hb, ← hkept, hv]
    exact hc.memory a ha hb

theorem load_and_reset_s19 : ∃ s u,
    Kind.s19.format.load 0 (ofString "S105FFFE1234B7\nS9030000FC\n") = some s ∧
      SingleBoard.kipper1.emulate (fun _ => 0) s.stores []
        (Cpu.powerOn (Board.start .fault false ⟨[], [], [], 0⟩)) = .ok () u ∧ u.PC = 0x1234 := by
  have hdata : Kind.Record .s19 1 0xFFFE [0x12, 0x34] (ofString "S105FFFE1234B7") :=
    ⟨ofString "S105FFFE", ofString "1234", ofString "B7", 0xb7, rfl,
      .s19 (t := ofString "1") (u := ofString "05") (v := ofString "FFFE") (by decide) (by decide)
        (by decide),
      .cons (t := ofString "12") (by decide) (.cons (t := ofString "34") (by decide) .nil),
      by decide, rfl⟩
  have hend : Kind.Record .s19 9 0 [] (ofString "S9030000FC") :=
    ⟨ofString "S9030000", [], ofString "FC", 0xfc, rfl,
      .s19 (t := ofString "9") (u := ofString "03") (v := ofString "0000") (by decide) (by decide)
        (by decide),
      .nil, by decide, rfl⟩
  have hfile : Kind.Encodes .s19 [⟨0xFFFE, [0x12, 0x34], by decide⟩]
      (ofString "S105FFFE1234B7" ++ (ofString "\n" ++ (ofString "S9030000FC" ++ ofString "\n")))
      (ofString "\n") := .data hdata (by decide) (.last hend)
  obtain ⟨s, u, hload, hrun, hpc, -⟩ := load_and_reset hfile 0 .kipper1 (fun h => by cases h)
    (fun _ => 0) false ⟨[], [], [], 0⟩
  exact ⟨s, u, hload, hrun, hpc.trans (by decide)⟩

end Reset

end Exec09.Machines
