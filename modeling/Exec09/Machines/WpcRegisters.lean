import Exec09.Machines.WpcPaging

/-! # The arrays of the wpc ASIC

Four registers index an array by what was stored before: the lamps and the
switches by the number of a bit of their strobe, the visible pages by the
phase, and the display memory by the visible pages. The phase stays below
three. But without a bit in the lamp strobe the index is -1, the last strobe of
the other board type is behind the switches, and a page is not compared with the
size of the display memory.
-/
namespace Exec09.Wpc
open Foundation

/-- An access of the guest to a register, by its offset in the device. -/
inductive AsicAccess
  | read (addr : ℕ)
  | write (addr : ℕ) (val : U8)
  deriving DecidableEq

/-- An access with the value of `get_cycles` at its time. -/
structure Timed where
  cycles : ℕ
  access : AsicAccess
  deriving DecidableEq

def AsicAccess.perform : AsicAccess → M Unit
  | read addr => do let _ ← wpcAsicRead addr
  | write addr val => wpcAsicWrite addr val

def Timed.perform (e : Timed) : M Unit := do
  setPriv fun p => { p with cycles := e.cycles }
  e.access.perform

/-- A page is not ignored by the display: enough time has passed since the last one. -/
def Shown (p : Priv) : Prop := 1850 * 8 < Word.sub 64 p.cycles p.lastFirqTime

/-- The condition under which the register is accessed within its array. -/
def AsicAccess.InRange (p : Priv) : AsicAccess → Prop
  | read addr => addr + WPC_ASIC_BASE = 0x3FE9 → p.asic.switchStrobe ≠ 0x1F
  | write addr val => (addr + WPC_ASIC_BASE = 0x3FE4 → p.asic.lampStrobe ≠ 0) ∧
      (addr + WPC_ASIC_BASE = 0x3FBF → Shown p → val.toNat < 16)

def Timed.InRange (e : Timed) (s : Board Priv) : Prop :=
  e.access.InRange { s.priv with cycles := e.cycles }

/-- The fields that a register does not name. -/
def Asic.elsewhere (reg : ℕ) (a : Asic) : Asic :=
  match reg with
  | 0x3FBE => { a with dmdMaps := Function.update a.dmdMaps 0 0 }
  | 0x3FBC => { a with dmdMaps := Function.update a.dmdMaps 1 0 }
  | 0x3FBF => { a with dmdVisibles := fun _ => 0, dmdPhase := 0, dmdLastVisibles := fun _ => 0 }
  | 0x3FF2 => { a with led := 0 }
  | 0x3FFF => { a with wdogTimer := 0 }
  | 0x3FFC => { a with rombank := 0 }
  | 0x3FFD => { a with ramUnlocked := 0 }
  | 0x3FFE => { a with ramLockSize := 0 }
  | 0x3FF4 => { a with shiftaddr := a.shiftaddr &&& 0x00FF }
  | 0x3FF5 => { a with shiftaddr := a.shiftaddr &&& 0xFF00 }
  | 0x3FF6 => { a with shiftbit := 0 }
  | 0x3FE4 => { a with lampMx := Function.update a.lampMx (scanbit a.lampStrobe).toNat 0 }
  | 0x3FE5 => { a with lampStrobe := 0 }
  | 0x3FEA => { a with switchStrobe := 0 }
  | _ => a

/-- An access leaves alone all fields but those that its register names; a read all of them. -/
def AsicAccess.Confined (a b : Asic) : AsicAccess → Prop
  | read _ => b = a
  | write addr _ => b.elsewhere (addr + WPC_ASIC_BASE) = a.elsewhere (addr + WPC_ASIC_BASE)

/-- The run makes no access outside an array, and each access is confined to its register. -/
def WithinArrays (es : List Timed) (s : Board Priv) : Prop :=
  returned (runAll Timed.perform es s) = true ∧
    ∀ front e, front ++ [e] <+: es → OnReturn (runAll Timed.perform front) s fun _ t =>
      OnReturn e.perform t fun _ u => e.access.Confined t.priv.asic u.priv.asic

/-- A board after the reset of the ASIC. -/
def asicReset (ramDev dmdDev : ℕ) (s : Board Priv) : Board Priv :=
  { s with priv := { s.priv with asic :=
    { wpcWriteSwitch 19 true Asic.zero with ramDev := ramDev, dmdDev := dmdDev } } }

/-- The phase and the pages are within their arrays. -/
structure Asic.Bounded (a : Asic) : Prop where
  phase : a.dmdPhase < 3
  visibles : ∀ i < 3, (a.dmdVisibles i).toNat < 16
  lastVisibles : ∀ i < 3, (a.dmdLastVisibles i).toNat < 16

variable {s : Board Priv}

/-! ## Reads -/

theorem scanbit_bounds (val : U8) : -1 ≤ scanbit val ∧ scanbit val ≤ 7 := by
  unfold scanbit
  split_ifs <;> decide

theorem wpcReadSwitchColumn_run {col : ℤ} (hcol : 0 ≤ col ∧ col < 10) (s : Board Priv) :
    ∃ v, wpcReadSwitchColumn col s = .ok v s := by
  rw [wpcReadSwitchColumn, run_bind_ok run_get]
  simp only [if_pos hcol]
  exact ⟨_, rfl⟩

theorem wpcReadSwitchColumn_stops {col : ℤ} (hcol : ¬(0 ≤ col ∧ col < 10)) (s : Board Priv) :
    wpcReadSwitchColumn col s = .error (.fatal .arrayIndex) s := by
  rw [wpcReadSwitchColumn, run_bind_ok run_get]
  simp only [if_neg hcol]
  rfl

/-- The column that the switch strobe selects. -/
def strobed (strobe : U8) : ℤ :=
  if 0x16 ≤ strobe ∧ strobe ≤ 0x1F then strobe.toNat - 0x16 + 1 else 1 + scanbit strobe

theorem strobed_iff (strobe : U8) : (0 ≤ strobed strobe ∧ strobed strobe < 10) ↔ strobe ≠ 0x1F := by
  have hscan := scanbit_bounds strobe
  have hlast : strobe = 0x1F ↔ strobe.toNat = 0x1F := BitVec.toNat_inj.symm
  rw [strobed, Ne, hlast]
  split_ifs with hrange
  · change 0x16 ≤ strobe.toNat ∧ strobe.toNat ≤ 0x1F at hrange
    omega
  · change ¬(0x16 ≤ strobe.toNat ∧ strobe.toNat ≤ 0x1F) at hrange
    omega

theorem readRegister_row (s : Board Priv) :
    readRegister 0x3FE9 s = wpcReadSwitchColumn (strobed s.priv.asic.switchStrobe) s := by
  rw [readRegister, run_bind_ok run_get, strobed]
  split_ifs <;> rfl

theorem wpcConsoleRead_run (s : Board Priv) :
    ∃ v t, wpcConsoleRead s = .ok v t ∧ t.priv.asic = s.priv.asic := by
  rw [wpcConsoleRead, run_bind_ok run_get]
  by_cases hinited : s.priv.consoleInited = true
  · rw [if_pos hinited]
    cases s.priv.input with
    | nil => exact ⟨_, _, rfl, rfl⟩
    | cons c rest => exact ⟨_, _, rfl, rfl⟩
  · rw [if_neg hinited]
    exact ⟨_, _, rfl, rfl⟩

/-- The other registers are read without an index that was stored. -/
theorem readRegister_run {reg : ℕ} (hreg : reg ≠ 0x3FE9) (s : Board Priv) :
    ∃ v t, readRegister reg s = .ok v t ∧ t.priv.asic = s.priv.asic := by
  have hcolumn {col : ℤ} (hcol : 0 ≤ col ∧ col < 10) :
      ∃ v t, wpcReadSwitchColumn col s = .ok v t ∧ t.priv.asic = s.priv.asic := by
    obtain ⟨v, hrun⟩ := wpcReadSwitchColumn_run hcol s
    exact ⟨v, s, hrun, rfl⟩
  rw [readRegister, run_bind_ok run_get]
  split
  case h_4 => exact wpcConsoleRead_run s
  case h_8 => exact absurd rfl hreg
  case h_10 => exact hcolumn (by decide)
  case h_11 => exact hcolumn (by decide)
  case h_12 => exact hcolumn (by decide)
  case h_13 => exact hcolumn (by decide)
  all_goals exact ⟨_, _, rfl, rfl⟩

/-! ## Writes -/

/-- `wpc_update_ram` changes the map only. -/
theorem wpcUpdateRam_returns (s : Board Priv) :
    ∃ maps, wpcUpdateRam s = .ok () { s with busmaps := maps } := by
  have hcases := Regs.limit_cases ⟨s.priv.asic.ramUnlocked, s.priv.asic.ramLockSize, none, none, none⟩
  rw [Regs.limit] at hcases
  rw [wpcUpdateRam, run_bind_ok run_get]
  dsimp only at hcases ⊢
  generalize sizeWritable s.priv.asic.ramUnlocked s.priv.asic.ramLockSize = w at hcases ⊢
  have hlow : (⟨0, s.priv.asic.ramDev, 0, w, MAP_READWRITE⟩ : MapCall).Aligned := by
    constructor <;> simp only [] <;> omega
  have hhigh : (⟨w, s.priv.asic.ramDev, w, WPC_RAM_SIZE - w, MAP_READABLE⟩ : MapCall).Aligned := by
    constructor <;> simp only [WPC_RAM_SIZE] <;> omega
  rw [run_bind_ok (mapBus_run hlow s)]
  by_cases hfull : w < WPC_RAM_SIZE
  · rw [if_pos hfull, mapBus_run hhigh]
    exact ⟨_, rfl⟩
  · rw [if_neg hfull]
    exact ⟨_, rfl⟩

theorem scanbit_nonneg_iff : ∀ val : U8, 0 ≤ scanbit val ↔ val ≠ 0 := by
  decide

theorem lampRow_run (val : U8) (hstrobe : s.priv.asic.lampStrobe ≠ 0) : lampRow val s =
    setAsic (fun a => { a with
      lampMx := Function.update a.lampMx (scanbit s.priv.asic.lampStrobe).toNat val }) s := by
  have hscan := scanbit_bounds s.priv.asic.lampStrobe
  have hcol : 0 ≤ scanbit s.priv.asic.lampStrobe ∧ scanbit s.priv.asic.lampStrobe < 8 :=
    ⟨(scanbit_nonneg_iff _).mpr hstrobe, by omega⟩
  rw [lampRow, run_bind_ok run_get]
  simp only [if_pos hcol]

theorem lampRow_stops (val : U8) (hstrobe : s.priv.asic.lampStrobe = 0) :
    lampRow val s = .error (.fatal .arrayIndex) s := by
  have hcol : ¬(0 ≤ scanbit s.priv.asic.lampStrobe ∧ scanbit s.priv.asic.lampStrobe < 8) :=
    fun h => (scanbit_nonneg_iff _).mp h.1 hstrobe
  rw [lampRow, run_bind_ok run_get]
  simp only [if_neg hcol]
  rfl

/-- A page that is shown gets into the visible pages. -/
theorem showPhase_spec {a : Asic} (h : a.Bounded) (elapsed : ℕ) (val : U8) :
    ∃ b, showPhase elapsed val a = some b ∧ b.elsewhere 0x3FBF = a.elsewhere 0x3FBF ∧
      b.dmdPhase < 3 ∧ b.dmdLastVisibles = a.dmdLastVisibles ∧ (∃ i < 3, b.dmdVisibles i = val) ∧
      ∀ i < 3, b.dmdVisibles i = val ∨ b.dmdVisibles i = a.dmdVisibles i := by
  rw [showPhase]
  by_cases hlong : elapsed ≥ 1850 * 8 * 5
  · rw [if_pos hlong]
    refine ⟨_, rfl, rfl, by simp, rfl, ⟨0, by simp⟩, fun i hi => .inl ?_⟩
    simp [hi]
  · rw [if_neg hlong, if_pos h.phase]
    have hphase := h.phase
    refine ⟨_, rfl, rfl, ?_, rfl, ⟨a.dmdPhase, hphase, Function.update_self _ _ _⟩, fun i _ => ?_⟩
    · dsimp only
      split_ifs <;> omega
    · by_cases hi : i = a.dmdPhase
      · exact .inl (by rw [hi]; exact Function.update_self _ _ _)
      · exact .inr (Function.update_of_ne hi _ _)

theorem sendVisibles_run (h : ∀ i < 3, (s.priv.asic.dmdVisibles i).toNat < 16) :
    ∃ sent, sendVisibles s = .ok () { s with priv := { s.priv with sent := sent } } := by
  have hpages : (((List.range 3).map s.priv.asic.dmdVisibles).all fun page => page.toNat < 16) =
      true := by
    simpa [List.all_eq_true] using h
  rw [sendVisibles, run_bind_ok run_get]
  simp only [hpages, if_true]
  exact ⟨_, rfl⟩

theorem sendVisibles_stops {i : ℕ} (hi : i < 3) (h : ¬(s.priv.asic.dmdVisibles i).toNat < 16) :
    sendVisibles s = .error (.fatal .arrayIndex) s := by
  have hpages : ¬(((List.range 3).map s.priv.asic.dmdVisibles).all fun page => page.toNat < 16) =
      true := by
    simp only [List.all_eq_true, List.mem_map, List.mem_range, decide_eq_true_eq]
    exact fun hall => h (hall _ ⟨i, hi, rfl⟩)
  rw [sendVisibles, run_bind_ok run_get]
  simp only [hpages]
  rfl

theorem wpcDmdSetVisible_ignored (val : U8) (h : ¬Shown s.priv) :
    wpcDmdSetVisible val s = .ok () s := by
  rw [wpcDmdSetVisible, run_bind_ok run_get]
  simp only [if_pos (Nat.not_lt.mp h)]
  rfl

/-- The visible pages are as before, or they are sent. -/
theorem wpcDmdSetVisible_shown {val : U8} (h : Shown s.priv) {b : Asic}
    (hb : showPhase (Word.sub 64 s.priv.cycles s.priv.lastFirqTime) val s.priv.asic = some b) :
    (∃ t, wpcDmdSetVisible val s = .ok () t ∧ t.priv.asic = b ∧
      ∀ i < 3, b.dmdVisibles i = b.dmdLastVisibles i) ∨
    ∃ t, wpcDmdSetVisible val s = sendVisibles t ∧ t.priv.asic = { b with
      dmdLastVisibles := fun i => if i < 3 then b.dmdVisibles i else b.dmdLastVisibles i } := by
  rw [wpcDmdSetVisible, run_bind_ok run_get]
  simp only [if_neg (Nat.not_le.mpr h), hb]
  generalize hu : ({ s with priv := { s.priv with
    asic := b
    lastFirqTime := s.priv.cycles
    noChangeCount := s.priv.noChangeCount + 1 } } : Board Priv) = u
  have hasic : u.priv.asic = b := by rw [← hu]
  cases hsame : ((List.range 3).all fun i => b.dmdVisibles i == b.dmdLastVisibles i) with
  | false => exact .inr ⟨_, rfl, rfl⟩
  | true =>
    by_cases hcount : s.priv.noChangeCount + 1 < 100
    · have hquiet : (true && decide (u.priv.noChangeCount < 100)) = true := by
        simpa [← hu] using hcount
      refine .inl ⟨u, ?_, hasic, by simpa using hsame⟩
      subst hu
      exact congrFun (if_pos hquiet) _
    · have hsent : ¬(true && decide (u.priv.noChangeCount < 100)) = true := by
        simpa [← hu] using hcount
      refine .inr ⟨{ u with priv := { u.priv with
        noChangeCount := 0
        asic := { b with
          dmdLastVisibles := fun i => if i < 3 then b.dmdVisibles i else b.dmdLastVisibles i } } },
        ?_, rfl⟩
      subst hu
      exact congrFun (if_neg hsent) _

theorem wpcDmdSetVisible_run {val : U8} (hs : s.priv.asic.Bounded)
    (hval : Shown s.priv → val.toNat < 16) : ∃ t, wpcDmdSetVisible val s = .ok () t ∧
      t.priv.asic.elsewhere 0x3FBF = s.priv.asic.elsewhere 0x3FBF ∧ t.priv.asic.Bounded := by
  by_cases hshown : Shown s.priv
  · obtain ⟨b, hb, hsame, hphase, hlast, -, hpages⟩ :=
      showPhase_spec hs (Word.sub 64 s.priv.cycles s.priv.lastFirqTime) val
    have hvisibles : ∀ i < 3, (b.dmdVisibles i).toNat < 16 := by
      intro i hi
      rcases hpages i hi with heq | heq <;> rw [heq]
      · exact hval hshown
      · exact hs.visibles i hi
    rcases wpcDmdSetVisible_shown hshown hb with ⟨t, hrun, rfl, -⟩ | ⟨t, hrun, hasic⟩
    · exact ⟨t, hrun, hsame, hphase, hvisibles, by rw [hlast]; exact hs.lastVisibles⟩
    · obtain ⟨sent, hsend⟩ := sendVisibles_run (s := t) (by rw [hasic]; exact hvisibles)
      refine ⟨_, hrun.trans hsend, ?_⟩
      dsimp only
      rw [hasic]
      refine ⟨hsame, hphase, hvisibles, fun i hi => ?_⟩
      simpa [hi] using hvisibles i hi
  · exact ⟨s, wpcDmdSetVisible_ignored val hshown, rfl, hs⟩

/-- A page behind the display memory is sent at once. -/
theorem wpcDmdSetVisible_stops {val : U8} (hs : s.priv.asic.Bounded) (hshown : Shown s.priv)
    (hval : ¬val.toNat < 16) : returned (wpcDmdSetVisible val s) = false := by
  obtain ⟨b, hb, -, -, hlast, ⟨i, hi, hpage⟩, -⟩ :=
    showPhase_spec hs (Word.sub 64 s.priv.cycles s.priv.lastFirqTime) val
  rcases wpcDmdSetVisible_shown hshown hb with ⟨t, -, -, hsame⟩ | ⟨t, hrun, hasic⟩
  · have hold := hs.lastVisibles i hi
    rw [← hlast, ← hsame i hi, hpage] at hold
    exact absurd hold hval
  · rw [hrun, sendVisibles_stops hi (by rw [hasic, hpage]; exact hval)]
    rfl

theorem shiftaddr_high (a : U16) (val : U8) :
    (a &&& 0x00FF ||| val.setWidth 16 <<< 8) &&& 0x00FF = a &&& 0x00FF := by
  ext i hi
  interval_cases i <;> simp

theorem shiftaddr_low (a : U16) (val : U8) :
    (a &&& 0xFF00 ||| val.setWidth 16) &&& 0xFF00 = a &&& 0xFF00 := by
  ext i hi
  interval_cases i <;> simp

/-- A write in range returns, and it changes the fields of its register only. -/
theorem writeRegister_run {reg : ℕ} {val : U8} (hs : s.priv.asic.Bounded)
    (hlamp : reg = 0x3FE4 → s.priv.asic.lampStrobe ≠ 0)
    (hpage : reg = 0x3FBF → Shown s.priv → val.toNat < 16) :
    ∃ t, writeRegister reg val s = .ok () t ∧
      t.priv.asic.elsewhere reg = s.priv.asic.elsewhere reg ∧ t.priv.asic.Bounded := by
  have hset {f : Asic → Asic} (hf : (f s.priv.asic).elsewhere reg = s.priv.asic.elsewhere reg)
      (hbounded : (f s.priv.asic).Bounded) : ∃ t, setAsic f s = .ok () t ∧
        t.priv.asic.elsewhere reg = s.priv.asic.elsewhere reg ∧ t.priv.asic.Bounded :=
    ⟨_, rfl, hf, hbounded⟩
  have hram {f : Asic → Asic} (hf : (f s.priv.asic).elsewhere reg = s.priv.asic.elsewhere reg)
      (hbounded : (f s.priv.asic).Bounded) : ∃ t, (do setAsic f; wpcUpdateRam) s = .ok () t ∧
        t.priv.asic.elsewhere reg = s.priv.asic.elsewhere reg ∧ t.priv.asic.Bounded := by
    obtain ⟨maps, hrun⟩ := wpcUpdateRam_returns
      { s with priv := { s.priv with asic := f s.priv.asic } }
    exact ⟨_, (run_bind_ok (setAsic_run f s)).trans hrun, hf, hbounded⟩
  have hdmd {map : ℕ} (hmap : map < 2) (hreg : ({ s.priv.asic with
        dmdMaps := Function.update s.priv.asic.dmdMaps map val }).elsewhere reg =
          s.priv.asic.elsewhere reg) : ∃ t, wpcSetDmdPage map val s = .ok () t ∧
        t.priv.asic.elsewhere reg = s.priv.asic.elsewhere reg ∧ t.priv.asic.Bounded := by
    obtain ⟨a, hrun, ha⟩ := wpcSetDmdPage_run hmap val s
    refine ⟨_, hrun, ?_⟩
    subst ha
    exact ⟨hreg, hs.phase, hs.visibles, hs.lastVisibles⟩
  unfold writeRegister
  split
  case h_1 => exact hdmd (by decide) (by simp [Asic.elsewhere])
  case h_2 => exact hdmd (by decide) (by simp [Asic.elsewhere])
  case h_3 => exact wpcDmdSetVisible_run hs (hpage rfl)
  case h_4 => exact hset rfl ⟨hs.phase, hs.visibles, hs.lastVisibles⟩
  case h_5 => exact hset rfl ⟨hs.phase, hs.visibles, hs.lastVisibles⟩
  case h_6 =>
    exact ⟨_, (run_bind_ok (setAsic_run _ s)).trans (wpcSetRomPage_run val _), rfl,
      hs.phase, hs.visibles, hs.lastVisibles⟩
  case h_7 => exact ⟨_, rfl, rfl, hs⟩
  case h_8 => exact hram rfl ⟨hs.phase, hs.visibles, hs.lastVisibles⟩
  case h_9 => exact hram rfl ⟨hs.phase, hs.visibles, hs.lastVisibles⟩
  case h_10 =>
    exact hset (by simp only [Asic.elsewhere, shiftaddr_high])
      ⟨hs.phase, hs.visibles, hs.lastVisibles⟩
  case h_11 =>
    exact hset (by simp only [Asic.elsewhere, shiftaddr_low])
      ⟨hs.phase, hs.visibles, hs.lastVisibles⟩
  case h_12 => exact hset rfl ⟨hs.phase, hs.visibles, hs.lastVisibles⟩
  case h_13 =>
    rw [lampRow_run val (hlamp rfl)]
    exact hset (by simp [Asic.elsewhere]) ⟨hs.phase, hs.visibles, hs.lastVisibles⟩
  case h_14 => exact hset rfl ⟨hs.phase, hs.visibles, hs.lastVisibles⟩
  case h_15 => exact hset rfl ⟨hs.phase, hs.visibles, hs.lastVisibles⟩
  case h_16 => exact ⟨s, rfl, rfl, hs⟩

/-! ## Runs -/

theorem returned_of_ok {m : M Unit} {t : Board Priv} (h : m s = .ok () t) : returned (m s) = true := by
  rw [h]
  rfl

/-- An access in range stays within its array and its register. -/
theorem Timed.perform_run (e : Timed) (hs : s.priv.asic.Bounded) (hrange : e.InRange s) :
    ∃ t, e.perform s = .ok () t ∧ e.access.Confined s.priv.asic t.priv.asic ∧
      t.priv.asic.Bounded := by
  have hset : setPriv (fun p => { p with cycles := e.cycles }) s =
      .ok () { s with priv := { s.priv with cycles := e.cycles } } := rfl
  generalize hu : ({ s with priv := { s.priv with cycles := e.cycles } } : Board Priv) = u at hset
  have hasic : u.priv.asic = s.priv.asic := by rw [← hu]
  have hin : e.access.InRange u.priv := by
    rw [← hu]
    exact hrange
  have hbounded : u.priv.asic.Bounded := by rwa [hasic]
  rw [Timed.perform, run_bind_ok hset, ← hasic]
  cases haccess : e.access with
  | read addr =>
    rw [haccess] at hin
    obtain ⟨v, t, hrun, ht⟩ : ∃ v t, wpcAsicRead addr u = .ok v t ∧
        t.priv.asic = u.priv.asic := by
      rw [wpcAsicRead]
      by_cases hrow : addr + WPC_ASIC_BASE = 0x3FE9
      · obtain ⟨v, hrun⟩ := wpcReadSwitchColumn_run ((strobed_iff _).mpr (hin hrow)) u
        exact ⟨v, u, by rw [hrow, readRegister_row, hrun], rfl⟩
      · exact readRegister_run hrow u
    exact ⟨t, run_bind_ok hrun, ht, by rwa [ht]⟩
  | write addr val =>
    rw [haccess] at hin
    rw [AsicAccess.perform, wpcAsicWrite]
    exact writeRegister_run hbounded hin.1 hin.2

theorem Timed.inRange_of_returned (e : Timed) (hs : s.priv.asic.Bounded)
    (hreturned : returned (e.perform s) = true) : e.InRange s := by
  have hset : setPriv (fun p => { p with cycles := e.cycles }) s =
      .ok () { s with priv := { s.priv with cycles := e.cycles } } := rfl
  rw [Timed.perform, run_bind_ok hset] at hreturned
  rw [Timed.InRange]
  generalize hu : ({ s with priv := { s.priv with cycles := e.cycles } } : Board Priv) = u
    at hreturned
  have hasic : u.priv.asic = s.priv.asic := by rw [← hu]
  have hpriv : { s.priv with cycles := e.cycles } = u.priv := by rw [← hu]
  rw [← hasic] at hs
  rw [hpriv]
  cases haccess : e.access with
  | read addr =>
    rw [haccess, AsicAccess.perform, wpcAsicRead] at hreturned
    intro hrow
    by_contra hlast
    have hstops := wpcReadSwitchColumn_stops (mt (strobed_iff _).mp (not_not.mpr hlast)) u
    rw [hrow, run_bind_error ((readRegister_row u).trans hstops)] at hreturned
    cases hreturned
  | write addr val =>
    rw [haccess, AsicAccess.perform, wpcAsicWrite] at hreturned
    refine ⟨fun hrow hzero => ?_, fun hpage hshown => ?_⟩
    · rw [hrow, writeRegister, lampRow_stops val hzero] at hreturned
      cases hreturned
    · by_contra hval
      rw [hpage, writeRegister, wpcDmdSetVisible_stops hs hshown hval] at hreturned
      cases hreturned

theorem asicReset_bounded (ramDev dmdDev : ℕ) (s : Board Priv) :
    (asicReset ramDev dmdDev s).priv.asic.Bounded :=
  ⟨Nat.zero_lt_succ 2, fun _ _ => Nat.zero_lt_succ 15, fun _ _ => Nat.zero_lt_succ 15⟩

/-- From the reset of the ASIC on, a run of accesses stays within the arrays exactly if each
lamp row is written with a strobe, no switch row is read with the last strobe of the other board
type, and no page behind the display memory is shown. -/
theorem withinArrays_iff (ramDev dmdDev : ℕ) (es : List Timed) (s : Board Priv) :
    Along Timed.perform Timed.InRange es (asicReset ramDev dmdDev s) ↔
      WithinArrays es (asicReset ramDev dmdDev s) := by
  have hbounded := asicReset_bounded ramDev dmdDev s
  rw [WithinArrays, returned_runAll_iff]
  constructor
  · intro h
    refine ⟨h.imp (I := fun t => t.priv.asic.Bounded) hbounded fun e t ht hrange => ?_,
      along_iff_next.mp (h.imp (I := fun t => t.priv.asic.Bounded) hbounded fun e t ht hrange => ?_)⟩
    · obtain ⟨u, hrun, -, hu⟩ := e.perform_run ht hrange
      exact ⟨returned_of_ok hrun, (onReturn_ok hrun).mpr hu⟩
    · obtain ⟨u, hrun, hconfined, hu⟩ := e.perform_run ht hrange
      exact ⟨(onReturn_ok hrun).mpr hconfined, (onReturn_ok hrun).mpr hu⟩
  · rintro ⟨h, -⟩
    refine h.imp (I := fun t => t.priv.asic.Bounded) hbounded fun e t ht hreturned => ?_
    have hrange := e.inRange_of_returned ht hreturned
    obtain ⟨u, hrun, -, hu⟩ := e.perform_run ht hrange
    exact ⟨hrange, (onReturn_ok hrun).mpr hu⟩

/-- The lamps are written before the first strobe. -/
theorem lamps_unstrobed : ¬∀ (es : List Timed) (s : Board Priv), WithinArrays es (asicReset 2 4 s) := by
  intro h
  have hrun := (h [⟨0, .write 0x3E4 0xFF⟩] (Board.start .wpcFault false Priv.start)).1
  have hreturned := (returned_runAll_iff.mp hrun).1
  have hrange := Timed.inRange_of_returned _ (asicReset_bounded 2 4 _) hreturned
  exact hrange.1 rfl rfl

end Exec09.Wpc
