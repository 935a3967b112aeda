import Exec09.Multicomp.Translation

/-! # Write protection on multicomp09

The protect bit of the register that maps a block is meant to decide over its
bytes, and the fixed block at the top to be free. In the upper part of block 7
the map takes the bit into account exactly where it should not, and the slots
of the expander ignore it.
-/
namespace Exec09.Multicomp
open Foundation Access

namespace Mapper
variable {m : Mapper} {a blk : ℕ}

/-- Writes to the address are meant to be possible. -/
def Permitted (a : ℕ) (m : Mapper) : Prop :=
  m.enabled = false ∨ (m.mmufrt = true ∧ 0xFE00 ≤ a) ∨ (m.register (a / 8192)).toNat < 128

instance : Decidable (m.Permitted a) := inferInstanceAs (Decidable (_ ∨ _ ∨ _))

/-- The upper part of a protected block 7, except for the slots in the fixed block. -/
def Misprotected (a : ℕ) (m : Mapper) : Prop :=
  m.enabled = true ∧ 128 ≤ (m.register 7).toNat ∧ 0xFE00 ≤ a ∧ (a < 0xFF80 ∨ m.mmufrt = false)

instance : Decidable (m.Misprotected a) := inferInstanceAs (Decidable (_ ∧ _ ∧ _ ∧ _))

theorem mmuFlags_writable (h : blk < 8) : m.mmuFlags blk &&& MAP_WRITABLE ≠ 0 ↔
    m.enabled = false ∨ (m.register blk).toNat < 128 := by
  have hbit : ∀ x : U8, x.toNat >>> 7 = 1 ↔ ¬x.toNat < 128 := by decide
  have hreg : m.pblk (blk + 8 * m.tr) = m.register blk := rfl
  rw [mmuFlags, index_eq h, hreg]
  cases hm : m.enabled with
  | false => simp [MAP_READWRITE, MAP_WRITABLE]
  | true =>
    rw [if_pos rfl]
    by_cases hp : (m.register blk).toNat < 128
    · rw [if_neg fun h => (hbit _).mp h hp]
      exact iff_of_true (by decide) (.inr hp)
    · rw [if_pos ((hbit _).mpr hp)]
      exact iff_of_false (by decide) (by simp [hp])

theorem romdis_of_served (hdev : (m.served a).1 = 1) (ha : 0xE000 ≤ a) : m.romdis = true := by
  cases hrom : m.romdis with
  | true => rfl
  | false =>
    rw [served_rom hrom ha] at hdev
    cases hdev

/-- The map gives the permission where it is meant to be, or the address is misprotected. -/
theorem permission_writable_iff (hdev : (m.served a).1 = 1) (ha : a < 0x10000) :
    (m.permission a &&& MAP_WRITABLE ≠ 0 ↔ m.Permitted a) ↔ ¬m.Misprotected a := by
  have hfree : MAP_READWRITE &&& MAP_WRITABLE ≠ 0 := by decide
  have hseven := mmuFlags_writable (m := m) (show 7 < 8 by decide)
  by_cases hlow : a < 0xE000
  · have hperm : m.permission a = m.mmuFlags (a / 8192) := by
      rw [permission, if_neg (by omega), if_pos hlow]
    rw [hperm, mmuFlags_writable (by omega), Permitted, Misprotected]
    have htop : ¬0xFE00 ≤ a := by omega
    simp [htop]
  · have hrom : ¬m.romdis = false := by simp [romdis_of_served hdev (by omega)]
    have hblk : a / 8192 = 7 := by omega
    rw [Permitted, Misprotected, hblk]
    by_cases hslot : 0xFF80 ≤ a
    · have hperm : m.permission a = MAP_READWRITE := if_pos hslot
      have hout : ¬a < 0xFF80 := by omega
      have htop : 0xFE00 ≤ a := by omega
      rw [hperm, iff_true_left hfree]
      cases m.enabled <;> cases m.mmufrt <;> simp [hout, htop]
    · have hbelow : a < 0xFF80 := by omega
      by_cases htop : 0xFE00 ≤ a
      · have hout : ¬a < 0xFE00 := by omega
        cases hfrt : m.mmufrt with
        | true =>
          have hperm : m.permission a = m.mmuFlags 7 := by
            rw [permission, if_neg hslot, if_neg hlow, if_neg hrom, if_pos (.inr hfrt)]
          rw [hperm, hseven]
          cases m.enabled <;> simp [hbelow, htop]
        | false =>
          have hperm : m.permission a = MAP_READWRITE := by
            rw [permission, if_neg hslot, if_neg hlow, if_neg hrom, if_neg (by simp [hout, hfrt])]
          rw [hperm, iff_true_left hfree]
          cases m.enabled <;> simp [hbelow, htop]
      · have hperm : m.permission a = m.mmuFlags 7 := by
          rw [permission, if_neg hslot, if_neg hlow, if_neg hrom, if_pos (.inl (by omega))]
        rw [hperm, hseven]
        simp [htop]

end Mapper

/-- A write stores its byte if the map permits it, and otherwise leaves the place as it is. -/
theorem Mapped.cpuWrite8_served {s : Board Priv} (h : Mapped s) (hrunning : s.cpuRunning = true)
    (pc : ℕ) {a : ℕ} (ha : a < 0x10000) (hio : ¬(0xFFD0 ≤ a ∧ a ≤ 0xFFDF)) (hin : Inside a s)
    (val : U8) : (finalState (cpuWrite8 hardware pc a val s)).mem
        (s.priv.mapper.served a).1 (s.priv.mapper.served a).2 =
      if s.priv.mapper.permission a &&& MAP_WRITABLE ≠ 0 then val
      else s.mem (s.priv.mapper.served a).1 (s.priv.mapper.served a).2 := by
  obtain ⟨dev, offset, hresolve, hattached, hthrough⟩ := h.reaches ha hio hin
  by_cases hperm : s.priv.mapper.permission a &&& MAP_WRITABLE ≠ 0
  · obtain ⟨e, hrun⟩ := cpuWrite8_resolved hardware pc ha val hresolve hattached (.inr hperm)
    have hclass := h.classWrite_memory val (s.priv.mapper.served_dev a) hin
    have hdevice : deviceWrite (Word.trunc 8 dev) offset val s = .ok () (s.setMem
        (s.priv.mapper.served a).1 (s.priv.mapper.served a).2 val) :=
      (run_bind_ok (hthrough s h rfl)).trans hclass
    have hwrite : cpuWrite8 hardware pc a val s = .ok () ((s.setMem
        (s.priv.mapper.served a).1 (s.priv.mapper.served a).2 val).record e) :=
      hrun.trans (run_bind_ok hdevice)
    rw [hwrite, if_pos hperm]
    simp [finalState, Board.record, Board.setMem]
  · obtain ⟨log, m, hrun⟩ := cpuWrite8_denied hardware pc ha val hresolve hattached hrunning
      (not_not.mp hperm)
    rw [hrun, if_neg hperm]

/-- After any writes to the mapper, a write to an address that the RAM serves does what the
protection rule says unless the address is misprotected, or the byte is there already. -/
theorem protection_iff (debug : Bool) (bootRom : ℕ → U8) (batchFile : Option (List U8))
    (sdFile : Option File) (ws : List MapperWrite) :
    ∃ s, configured bootRom batchFile sdFile ws (Board.start .fault debug Priv.start) = .ok () s ∧
      s.priv.mapper = mapperAfter ws ∧
      ∀ pc a val, a < 0x10000 → ¬(0xFFD0 ≤ a ∧ a ≤ 0xFFDF) →
        (s.priv.mapper.served a).1 = 1 → (s.priv.mapper.served a).2 < 0x80000 →
        ((finalState (cpuWrite8 hardware pc a val s)).mem 1 (s.priv.mapper.served a).2 =
            (if s.priv.mapper.Permitted a then val else s.mem 1 (s.priv.mapper.served a).2) ↔
          s.mem 1 (s.priv.mapper.served a).2 = val ∨ ¬s.priv.mapper.Misprotected a) := by
  obtain ⟨s, hrun, hs, hmapper, hrunning⟩ := configured_run debug bootRom batchFile sdFile ws
  refine ⟨s, hrun, hmapper, fun pc a val ha hio hdev hram => ?_⟩
  have hin : Inside a s := by
    rw [Inside, hdev, hs.size_ram]
    exact hram
  have hmem := hs.cpuWrite8_served hrunning pc ha hio hin val
  rw [hdev] at hmem
  rw [hmem, ← Mapper.permission_writable_iff hdev ha]
  by_cases hsame : s.mem 1 (s.priv.mapper.served a).2 = val
  · simp [hsame]
  · have hdiff : ¬val = s.mem 1 (s.priv.mapper.served a).2 := fun h => hsame h.symm
    by_cases hperm : s.priv.mapper.permission a &&& MAP_WRITABLE ≠ 0
    · by_cases hpermitted : s.priv.mapper.Permitted a
      · simp [hperm, hpermitted]
      · simp [hperm, hpermitted, hsame, hdiff]
    · by_cases hpermitted : s.priv.mapper.Permitted a
      · simp [hperm, hpermitted, hsame]
      · simp [hperm, hpermitted]

/-- ROM disabled, the MMU enabled and block 7 of the first map at the protected physical block 9. -/
def protectedWrites : List MapperWrite := [⟨0, false, 0x87⟩, ⟨0, true, 0x89⟩, ⟨0, false, 0xA0⟩]

/-- Then a write to the last part of block 7 changes the protected physical block. -/
theorem protection_lost : ∃ s,
    configured (fun _ => 0) none none protectedWrites (Board.start .fault false Priv.start) =
      .ok () s ∧
    s.priv.mapper.served 0xFE00 = (1, 0x13E00) ∧ ¬s.priv.mapper.Permitted 0xFE00 ∧
      ∃ val, s.mem 1 0x13E00 ≠ val ∧
        (finalState (cpuWrite8 hardware 0 0xFE00 val s)).mem 1 0x13E00 = val := by
  obtain ⟨s, hrun, hs, hmapper, hrunning⟩ :=
    configured_run false (fun _ => 0) none none protectedWrites
  have hserved : s.priv.mapper.served 0xFE00 = (1, 0x13E00) := by
    rw [hmapper]
    decide
  have hpermission : s.priv.mapper.permission 0xFE00 &&& MAP_WRITABLE ≠ 0 := by
    rw [hmapper]
    decide
  have hpermitted : ¬s.priv.mapper.Permitted 0xFE00 := by
    rw [hmapper]
    decide
  have hin : Inside 0xFE00 s := by
    rw [Inside, hserved, hs.size_ram]
    decide
  have hmem := hs.cpuWrite8_served hrunning 0 (show 0xFE00 < 0x10000 by decide) (by decide) hin
    (s.mem 1 0x13E00 + 1)
  rw [hserved, if_pos hpermission] at hmem
  have hother (b : U8) : b ≠ b + 1 := by simp
  exact ⟨s, hrun, hserved, hpermitted, _, hother _, hmem⟩

end Exec09.Multicomp
