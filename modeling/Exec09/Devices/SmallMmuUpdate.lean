import Exec09.Devices.SmallMmu

/-! # Two ways of mapping a slot

A write to the page or the flags of a slot maps it, and `small_mmu_update_slot`
maps it from the registers. The first multiplies the page by the size of a page,
but the second passes the number of the page as an offset, which `bus_map` rounds
up to at most two blocks. So they agree on page 0 only, and where every block of
the slot is fixed.
-/
namespace Exec09.SmallMmu
open Foundation

/-- The call of `bus_map` in `small_mmu_update_slot`. -/
def updateCall (m : SmallMmu) (slot : ℕ) : MapCall :=
  { m.slotCall slot with offset := (m.slotRegs slot 0).toNat }

def updateSlot (slot : ℕ) : M Unit := do
  if slot < 16 then
    let s ← get
    match busMap (s.1.updateCall slot) s.2 with
    | some maps => modify fun s => (s.1, maps)
    | none => throw (.fatal .mapIndex)
  else throw (.fatal .arrayIndex)

def updateCurrent : M Unit := do
  let s ← get
  updateSlot (s.1.globalRegs 0).toNat

def updateFrom : (count slot : ℕ) → M Unit
  | 0, _ => pure ()
  | count + 1, slot => do
    updateSlot slot
    updateFrom count (slot + 1)

def updateAll : M Unit := updateFrom 16 0

variable {m : SmallMmu} {maps : BusMaps} {slot b : ℕ} {s t : SmallMmu × BusMaps}

/-- What `bus_map` makes of the call. -/
def roundedCall (m : SmallMmu) (slot : ℕ) : MapCall :=
  { m.slotCall slot with offset := roundUp 64 (m.slotRegs slot 0).toNat }

theorem roundUp_page (page : U8) : roundUp 64 page.toNat ≤ 256 ∧ 128 ∣ roundUp 64 page.toNat := by
  have hpage : page.toNat < 2 ^ 8 := page.isLt
  rw [roundUp, Word.trunc_of_lt (by omega)]
  omega

theorem roundedCall_aligned (m : SmallMmu) (h : slot < 16) : (m.roundedCall slot).Aligned := by
  obtain ⟨hle, hdvd⟩ := roundUp_page (m.slotRegs slot 0)
  obtain ⟨haddr, hlen, -, hinside, -⟩ := slotCall_aligned m h
  exact ⟨haddr, hlen, hdvd, hinside, by simp only [roundedCall]; omega⟩

theorem updateSlot_run (h : slot < 16) (s : SmallMmu × BusMaps) :
    updateSlot slot s = .ok () (s.1, (s.1.roundedCall slot).layer.stamp BusEntry.fixed s.2) := by
  have hrounded : busMap (s.1.updateCall slot) s.2 = busMap (s.1.roundedCall slot) s.2 := by
    obtain ⟨hle, hdvd⟩ := roundUp_page (s.1.slotRegs slot 0)
    have htwice := roundUp_of_dvd (w := 64) hdvd (by omega)
    simp only [busMap, updateCall, roundedCall, htwice]
  rw [updateSlot, if_pos h, run_bind_ok run_get, hrounded,
    busMap_eq (roundedCall_aligned s.1 h)]
  rfl

theorem slotCall_covers (m : SmallMmu) (slot b : ℕ) :
    (m.slotCall slot).layer.covers b = decide (b / 32 = slot) := by
  have hstart : slot * 0x1000 / 128 = 32 * slot := by omega
  have hend : (slot * 0x1000 + 0x1000) / 128 = 32 * slot + 32 :=
    Nat.div_eq_of_eq_mul_left (by decide) (by ring)
  have hin : 32 * slot ≤ b ∧ b < 32 * slot + 32 ↔ b / 32 = slot := by omega
  rw [← decide_eq_decide.mpr hin, Bool.decide_and]
  simp only [MapCall.layer, slotCall, hstart, hend]

theorem roundedCall_covers (m : SmallMmu) (slot b : ℕ) :
    (m.roundedCall slot).layer.covers b = decide (b / 32 = slot) := slotCall_covers m slot b

/-- The two calls give a block of the slot the same entry exactly if the page is 0. -/
theorem value_eq_iff (hb : b / 32 = slot) :
    (m.roundedCall slot).layer.value b = (m.slotCall slot).layer.value b ↔ m.slotRegs slot 0 = 0 := by
  have hpage : (m.slotRegs slot 0).toNat < 2 ^ 8 := (m.slotRegs slot 0).isLt
  obtain ⟨hle, -⟩ := roundUp_page (m.slotRegs slot 0)
  have hround : roundUp 64 (m.slotRegs slot 0).toNat = 0 ↔ (m.slotRegs slot 0).toNat = 0 := by
    rw [roundUp, Word.trunc_of_lt (by omega)]
    omega
  have hplace : b - slot * 0x1000 / 128 < 32 := by omega
  rw [← BitVec.toNat_inj]
  simp only [MapCall.layer, roundedCall, slotCall, BusEntry.mk.injEq, true_and, and_true]
  rw [Word.trunc_of_lt (by omega), Word.trunc_of_lt (by omega)]
  change _ ↔ (m.slotRegs slot 0).toNat = 0
  omega

/-- The page is 0, or nothing of the slot can be mapped. -/
def Unshifted (m : SmallMmu) (maps : BusMaps) (slot : ℕ) : Prop :=
  m.slotRegs slot 0 = 0 ∨ ∀ b, b / 32 = slot → (maps b).fixed = true

theorem stamp_eq_iff : (m.roundedCall slot).layer.stamp BusEntry.fixed maps =
    (m.slotCall slot).layer.stamp BusEntry.fixed maps ↔ Unshifted m maps slot := by
  simp only [funext_iff, Layer.stamp, roundedCall_covers, slotCall_covers]
  constructor
  · intro h
    rw [Unshifted, or_iff_not_imp_right]
    intro hfree
    obtain ⟨b, hb, hunfixed⟩ := by simpa using hfree
    have hvalue := h b
    simp only [hb, hunfixed, decide_true, Bool.not_false, Bool.and_true, if_true] at hvalue
    exact (value_eq_iff hb).mp hvalue
  · intro h b
    by_cases hb : b / 32 = slot
    · rcases h with hpage | hfixed
      · rw [(value_eq_iff hb).mpr hpage]
      · simp [hfixed b hb]
    · simp [hb]

/-- The two paths agree on a slot. -/
theorem updateSlot_eq_iff (h : slot < 16) (s : SmallMmu × BusMaps) :
    updateSlot slot s = remap slot s ↔ Unshifted s.1 s.2 slot := by
  rw [updateSlot_run h, remap_run h, EStateM.Result.ok.injEq, Prod.mk.injEq, stamp_eq_iff]
  simp

/-! ## After writes to the registers -/

/-- The access is a write to the page or the flags of the selected slot. -/
def RegAccess.Remaps : RegAccess → Prop
  | .read _ => False
  | .write reg _ => 6 ≤ reg.val

/-- One of the accesses maps slot `n`; `slot` is the selection before them. -/
def Programmed (n : ℕ) : (slot : ℕ) → List RegAccess → Prop
  | _, [] => False
  | slot, e :: es => (slot = n ∧ e.Remaps) ∨ Programmed n (e.select slot) es

/-- The free blocks of slot `n` are mapped as its registers say. -/
def Mapped (n : ℕ) (s : SmallMmu × BusMaps) : Prop :=
  ∀ b, b / 32 = n → (s.2 b).fixed = false → s.2 b = (s.1.slotCall n).layer.value b

theorem Mapped.global {n : ℕ} (h : Mapped n s) (reg : ℕ) (val : U8) :
    Mapped n (s.1.setGlobal reg val, s.2) := h

/-- A stamped slot is mapped. -/
theorem stamp_mapped (m : SmallMmu) (maps : BusMaps) (n : ℕ) :
    Mapped n (m, (m.slotCall n).layer.stamp BusEntry.fixed maps) := by
  intro b hb hfree
  change ((m.slotCall n).layer.stamp BusEntry.fixed maps b).fixed = false at hfree
  have hcovers : (m.slotCall n).layer.covers b = true := by simp [slotCall_covers, hb]
  by_cases hfixed : (maps b).fixed = true
  · rw [Layer.stamp_of_fast _ hfixed, hfixed] at hfree
    cases hfree
  · exact Layer.stamp_covered hcovers (by simpa using hfixed)

/-- The registers and the blocks of the other slots stay as they are. -/
theorem Mapped.other {n : ℕ} (h : Mapped n s) (hne : slot ≠ n) (reg : ℕ) (val : U8) :
    Mapped n (s.1.setSlot slot reg val,
      ((s.1.setSlot slot reg val).slotCall slot).layer.stamp BusEntry.fixed s.2) := by
  have hcall : (s.1.setSlot slot reg val).slotCall n = s.1.slotCall n := by
    simp [slotCall, setSlot, hne.symm]
  intro b hb hfree
  change (((s.1.setSlot slot reg val).slotCall slot).layer.stamp BusEntry.fixed s.2 b).fixed = false
    at hfree
  change ((s.1.setSlot slot reg val).slotCall slot).layer.stamp BusEntry.fixed s.2 b = _
  have huncovered : ((s.1.setSlot slot reg val).slotCall slot).layer.covers b = false := by
    simp [slotCall_covers, hb, hne.symm]
  rw [Layer.stamp_uncovered huncovered] at hfree ⊢
  rw [hcall]
  exact h b hb hfree

theorem smallMmuRead_state {addr : ℕ} {v : U8} (h : smallMmuRead addr s = .ok v t) : t = s := by
  have hkeeps : Keeps (· = s) (smallMmuRead addr) := by
    unfold smallMmuRead selected
    infer_instance
  have hstate := hkeeps.keeps s rfl
  rwa [h] at hstate

/-- An access leaves a slot mapped, and maps the one whose page or flags it writes. -/
theorem RegAccess.perform_mapped (e : RegAccess) {n : ℕ} (hrun : e.perform s = .ok () t)
    (h : Mapped n s ∨ ((s.1.globalRegs 0).toNat = n ∧ e.Remaps)) : Mapped n t := by
  cases e with
  | read reg =>
    obtain ⟨v, u, hread, hreturn⟩ := of_run_bind_ok hrun
    cases hreturn
    rw [smallMmuRead_state hread]
    exact h.resolve_right fun hmaps => hmaps.2
  | write reg val =>
    change smallMmuWrite reg val s = .ok () t at hrun
    by_cases hreg : reg.val < 6
    · rw [smallMmuWrite_global hreg] at hrun
      cases hrun
      exact (h.resolve_right fun hmaps => absurd hmaps.2 (Nat.not_le.mpr hreg)).global reg val
    · by_cases hslot : (s.1.globalRegs 0).toNat < 16
      · rw [smallMmuWrite_slot (by omega) val hslot] at hrun
        cases hrun
        by_cases hsel : (s.1.globalRegs 0).toNat = n
        · rw [hsel]
          exact stamp_mapped _ _ n
        · exact (h.resolve_right fun hmaps => hsel hmaps.1).other hsel _ val
      · rw [smallMmuWrite_outside hreg val hslot] at hrun
        cases hrun

/-- By induction on the accesses: what they have mapped stays so. -/
theorem runAll_mapped {n : ℕ} (es : List RegAccess) (hrun : runAll RegAccess.perform es s = .ok () t)
    (h : Mapped n s ∨ Programmed n (s.1.globalRegs 0).toNat es) : Mapped n t := by
  induction es generalizing s with
  | nil =>
    cases hrun
    exact h.resolve_right id
  | cons e es ih =>
    obtain ⟨_, u, hfirst, hrest⟩ := of_run_bind_ok hrun
    have hselect : (u.1.globalRegs 0).toNat = e.select (s.1.globalRegs 0).toNat := by
      by_cases hin : 6 ≤ e.reg.val → (s.1.globalRegs 0).toNat < 16
      · obtain ⟨v, hok, hv⟩ := e.perform_ok hin
        rw [hok] at hfirst
        cases hfirst
        exact hv
      · obtain ⟨v, herror⟩ := e.perform_error hin
        rw [herror] at hfirst
        cases hfirst
    apply ih hrest
    rw [hselect]
    rcases h with hmapped | hnow | hlater
    · exact .inl (e.perform_mapped hfirst (.inl hmapped))
    · exact .inl (e.perform_mapped hfirst (.inr hnow))
    · exact .inr hlater

/-- The map after the update of some slots. -/
theorem updateFrom_run (count slot : ℕ) (hend : slot + count ≤ 16) (s : SmallMmu × BusMaps) :
    updateFrom count slot s = .ok () (s.1, fun b =>
      if slot ≤ b / 32 ∧ b / 32 < slot + count ∧ (s.2 b).fixed = false
      then (s.1.roundedCall (b / 32)).layer.value b else s.2 b) := by
  induction count generalizing slot s with
  | zero =>
    have hnone (b : ℕ) : ¬(slot ≤ b / 32 ∧ b / 32 < slot + 0 ∧ (s.2 b).fixed = false) := by omega
    simp only [hnone, if_false]
    rfl
  | succ count ih =>
    rw [updateFrom, run_bind_ok (updateSlot_run (by omega) s), ih (slot + 1) (by omega)]
    congr 2
    ext1 b
    have hstamp : (s.1.roundedCall slot).layer.stamp BusEntry.fixed s.2 b =
        if b / 32 = slot ∧ (s.2 b).fixed = false then (s.1.roundedCall slot).layer.value b
        else s.2 b := by
      simp [Layer.stamp, roundedCall_covers]
    by_cases hb : b / 32 = slot
    · simp only [hstamp, hb, true_and]
      rw [if_neg (by omega)]
      simp
    · have hlater : slot + 1 ≤ b / 32 ↔ slot ≤ b / 32 := by omega
      have hbound : b / 32 < slot + 1 + count ↔ b / 32 < slot + (count + 1) := by omega
      simp only [hstamp, hb, false_and, if_false, hlater, hbound]

/-- The update of all slots leaves the map alone. -/
theorem updateAll_noop_iff (hmapped : ∀ n < 16, Mapped n s) :
    updateAll s = .ok () s ↔ ∀ n < 16, Unshifted s.1 s.2 n := by
  have hnoop : updateAll s = .ok () s ↔ ∀ b, (0 ≤ b / 32 ∧ b / 32 < 0 + 16 ∧
      (s.2 b).fixed = false) → (s.1.roundedCall (b / 32)).layer.value b = s.2 b := by
    rw [updateAll, updateFrom_run 16 0 (by decide), EStateM.Result.ok.injEq, Prod.ext_iff]
    simp only [true_and, funext_iff, ite_eq_right_iff]
  rw [hnoop]
  constructor
  · intro h n hn
    rw [Unshifted, or_iff_not_imp_right]
    intro hopen
    obtain ⟨b, rfl, hfree⟩ := by simpa using hopen
    have hvalue := h b ⟨Nat.zero_le _, by omega, hfree⟩
    rw [hmapped (b / 32) hn b rfl hfree] at hvalue
    exact (value_eq_iff rfl).mp hvalue
  · rintro h b ⟨-, hb, hfree⟩
    have hpage : s.1.slotRegs (b / 32) 0 = 0 := by
      refine (h (b / 32) (by omega)).resolve_right fun hfixed => ?_
      rw [hfixed b rfl] at hfree
      cases hfree
    rw [(value_eq_iff rfl).mpr hpage, hmapped (b / 32) (by omega) b rfl hfree]

/-- The two paths agree on a slot exactly if its page is 0 or all of its blocks are fixed, and after
writes to the registers of all slots the update of all of them leaves the map alone exactly if this
is so for every slot. -/
theorem update_agrees_iff (s : SmallMmu × BusMaps) :
    (∀ n < 16, (updateSlot n s = remap n s ↔ Unshifted s.1 s.2 n) ∧
        ((s.1.globalRegs 0).toNat = n → (updateCurrent s = remap n s ↔ Unshifted s.1 s.2 n))) ∧
      ∀ (es : List RegAccess) (t : SmallMmu × BusMaps), runAll RegAccess.perform es s = .ok () t →
        (∀ n < 16, Programmed n (s.1.globalRegs 0).toNat es) →
          (updateAll t = .ok () t ↔ ∀ n < 16, Unshifted t.1 t.2 n) := by
  refine ⟨fun n hn => ⟨updateSlot_eq_iff hn s, ?_⟩, fun es t hrun hprogrammed => ?_⟩
  · rintro rfl
    exact updateSlot_eq_iff hn s
  · exact updateAll_noop_iff fun n hn => runAll_mapped es hrun (.inr (hprogrammed n hn))

/-- Page 1 is mapped at 4096 by a write and at 128 by an update. -/
theorem update_differs : ¬∀ (s : SmallMmu × BusMaps), ∀ n < 16, updateSlot n s = remap n s := by
  intro h
  have hunshifted := (updateSlot_eq_iff (by decide) _).mp
    (h (⟨fun _ => 0, fun _ _ => 1, 1⟩, initialBusmaps) 0 (by decide))
  rcases hunshifted with hpage | hfixed
  · exact absurd hpage (by decide)
  · exact absurd (hfixed 0 rfl) (by decide)

/-- With page 0 in every slot the update of all leaves the map alone. -/
theorem zeroPages_update : ∃ t : SmallMmu × BusMaps,
    runAll RegAccess.perform ((List.range 16).flatMap fun n =>
      [.write 0 (BitVec.ofNat 8 n), .write 6 0, .write 7 3])
        (⟨fun _ => 0, fun _ _ => 0, 1⟩, initialBusmaps) = .ok () t ∧
      (updateAll t = .ok () t ↔ ∀ n < 16, Unshifted t.1 t.2 n) := by
  refine ⟨finalState _, eq_ok_finalState ?returns,
    (update_agrees_iff _).2 _ _ (eq_ok_finalState ?returns) ?programmed⟩
  case returns =>
    rw [returned_accesses]
    simp [List.range_succ, SlotInRange, RegAccess.select, RegAccess.reg]
  case programmed =>
    intro n hn
    interval_cases n <;> simp [List.range_succ, Programmed, RegAccess.select, RegAccess.Remaps]

end Exec09.SmallMmu
