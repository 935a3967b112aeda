import Exec09.Multicomp.Translation

/-! # The fixed RAM of multicomp09 as a latch

A write to MMUADR that would enable the ROM while the MMU is enabled sets a flag
instead, and the ROM stays disabled. The flag is cleared together with the MMU.
-/
namespace Exec09.Multicomp
open Foundation

variable {m : Mapper} {w : MapperWrite}

namespace MapperWrite

/-- A write to MMUADR that is not dropped for its single-step bit. -/
def Heard (w : MapperWrite) : Prop := w.dat = false ∧ w.val &&& 0x10 = 0

/-- MMUEN is set and ROMDIS is clear in a write that is made while both are set. -/
def Cue (w : MapperWrite) (m : Mapper) : Prop :=
  w.Heard ∧ w.val.getLsbD 5 = true ∧ w.val.getLsbD 7 = false ∧ m.romdis = true ∧ m.enabled = true

/-- MMUEN is clear in the write. -/
def Disables (w : MapperWrite) : Prop := w.Heard ∧ w.val.getLsbD 5 = false

end MapperWrite

/-! ## One write -/

theorem Mapper.romdis_eq (m : Mapper) : m.romdis = m.mmuadr.getLsbD 7 := by
  have hbit : ∀ x : U8, (x &&& 0x80 != 0) = x.getLsbD 7 := by decide
  exact hbit m.mmuadr

theorem Mapper.enabled_eq (m : Mapper) : m.enabled = m.mmuadr.getLsbD 5 := by
  have hbit : ∀ x : U8, (x &&& 0x20 != 0) = x.getLsbD 5 := by decide
  exact hbit m.mmuadr

/-- What a write to MMUADR does to the two bits and to the flag. -/
theorem Mapper.load_mmuadr (m : Mapper) (val : U8) :
    (m.load 2 val).enabled = val.getLsbD 5 ∧
    (m.load 2 val).romdis =
      (val.getLsbD 7 || m.romdis && m.enabled && val.getLsbD 5) ∧
    (m.load 2 val).mmufrt =
      (val.getLsbD 5 && (m.mmufrt || m.romdis && m.enabled && !val.getLsbD 7)) := by
  have hboth : ∀ x : U8, (x &&& 0xa0 == 0xa0) = (x.getLsbD 7 && x.getLsbD 5) := by decide
  have hcue : ∀ x : U8, (x &&& 0xa0 == 0x20) = (!x.getLsbD 7 && x.getLsbD 5) := by decide
  have hoff : ∀ x : U8, (x &&& 0x20 == 0) = !x.getLsbD 5 := by decide
  have hset : ∀ x : U8, (x ||| 0x80).getLsbD 5 = x.getLsbD 5 ∧ (x ||| 0x80).getLsbD 7 = true := by
    decide
  rw [Mapper.enabled_eq, Mapper.romdis_eq, Mapper.romdis_eq, Mapper.enabled_eq]
  simp only [Mapper.load, hboth, hcue]
  generalize m.mmuadr.getLsbD 7 = r
  generalize m.mmuadr.getLsbD 5 = e
  have h5 := (hset val).1
  have h7 := (hset val).2
  cases hv5 : val.getLsbD 5 <;> cases hv7 : val.getLsbD 7 <;> cases r <;> cases e <;>
    simp_all

/-- The flag is set only while the ROM is disabled and the MMU enabled. -/
def Mapper.Latched (m : Mapper) : Prop := m.mmufrt = true → m.romdis = true ∧ m.enabled = true

/-- What a write does to the flag and to the ROM, from the registers `m` to the registers `n`. -/
structure MapperWrite.Moves (w : MapperWrite) (m n : Mapper) : Prop where
  sets : m.mmufrt = false → (n.mmufrt = true ↔ w.Cue m)
  disabled : w.Cue m → n.romdis = true
  clears : m.mmufrt = true → (n.mmufrt = false ↔ w.Disables)
  holds : m.mmufrt = true → n.romdis = false → w.Disables

namespace MapperWrite

theorem apply_heard (h : w.Heard) : w.apply m = m.load 2 w.val := by
  rw [apply, if_neg (by simp [h.1]), if_pos h.2]

/-- The other writes leave MMUADR and the flag alone. -/
theorem apply_unheard (h : ¬w.Heard) :
    (w.apply m).mmuadr = m.mmuadr ∧ (w.apply m).mmufrt = m.mmufrt := by
  rw [apply]
  by_cases hdat : w.dat = true
  · rw [if_pos hdat]
    exact ⟨rfl, rfl⟩
  · have hnmi : ¬w.val &&& 0x10 = 0 := fun hval => h ⟨by simpa using hdat, hval⟩
    rw [if_neg hdat, if_neg hnmi]
    exact ⟨rfl, rfl⟩

theorem apply_latched (hm : m.Latched) : (w.apply m).Latched := by
  by_cases hheard : w.Heard
  · obtain ⟨henabled, hromdis, hfrt⟩ := m.load_mmuadr w.val
    rw [apply_heard hheard, Mapper.Latched, henabled, hromdis, hfrt]
    rw [Mapper.Latched] at hm
    cases w.val.getLsbD 5 with
    | false => simp
    | true =>
      simp only [Bool.true_and, Bool.and_true, Bool.or_eq_true, Bool.and_eq_true]
      tauto
  · obtain ⟨hadr, hfrt⟩ := apply_unheard (m := m) hheard
    rw [Mapper.Latched, Mapper.romdis_eq, Mapper.enabled_eq, hadr, hfrt, ← Mapper.romdis_eq,
      ← Mapper.enabled_eq]
    exact hm

theorem apply_moves (hm : m.Latched) : w.Moves m (w.apply m) := by
  by_cases hheard : w.Heard
  · obtain ⟨-, hromdis, hfrt⟩ := m.load_mmuadr w.val
    rw [apply_heard hheard]
    refine ⟨fun hclear => ?_, fun hcue => ?_, fun hset => ?_, fun hset hrom => ?_⟩
    · rw [hfrt, hclear, Cue]
      simp only [hheard, true_and]
      cases w.val.getLsbD 5 <;> cases w.val.getLsbD 7 <;> simp
    · obtain ⟨-, h5, -, hr, he⟩ := hcue
      rw [hromdis, hr, he, h5]
      simp
    · rw [hfrt, hset, Disables]
      simp [hheard]
    · obtain ⟨hr, he⟩ := hm hset
      rw [hromdis, hr, he] at hrom
      simp only [Bool.and_true, Bool.true_and, Bool.or_eq_false_iff] at hrom
      exact ⟨hheard, hrom.2⟩
  · obtain ⟨hadr, hfrt⟩ := apply_unheard (m := m) hheard
    refine ⟨fun hclear => ?_, fun hcue => absurd hcue.1 hheard, fun hset => ?_, fun hset hrom => ?_⟩
    · rw [hfrt, hclear]
      exact iff_of_false Bool.false_ne_true fun hcue => hheard hcue.1
    · rw [hfrt, hset]
      exact iff_of_false Bool.false_ne_true.symm fun hoff => hheard hoff.1
    · rw [Mapper.romdis_eq, hadr, ← Mapper.romdis_eq, (hm hset).1] at hrom
      cases hrom

end MapperWrite

/-! ## Runs -/

theorem mapperAfter_append (ws : List MapperWrite) (w : MapperWrite) :
    mapperAfter (ws ++ [w]) = w.apply (mapperAfter ws) := by
  rw [mapperAfter, List.foldl_append]
  rfl

theorem mapperAfter_latched (ws : List MapperWrite) : (mapperAfter ws).Latched := by
  induction ws using List.reverseRecOn with
  | nil => exact fun h => absurd h Bool.false_ne_true
  | append_singleton ws w ih =>
    rw [mapperAfter_append]
    exact MapperWrite.apply_latched ih

/-- The flag is set exactly if there was a cue and the MMU has not been disabled since. -/
def Cued (ws : List MapperWrite) : Prop :=
  ∃ us w vs, ws = us ++ w :: vs ∧ w.Cue (mapperAfter us) ∧ ∀ v ∈ vs, ¬v.Disables

theorem cued_append (ws : List MapperWrite) (w : MapperWrite) :
    Cued (ws ++ [w]) ↔ w.Cue (mapperAfter ws) ∨ Cued ws ∧ ¬w.Disables := by
  constructor
  · rintro ⟨us, v, vs, heq, hcue, hnone⟩
    rcases List.eq_nil_or_concat vs with rfl | ⟨vs, x, rfl⟩
    · obtain ⟨rfl, hlast⟩ := List.append_inj' heq rfl
      cases hlast
      exact .inl hcue
    · rw [List.concat_eq_append, ← List.cons_append, ← List.append_assoc] at heq
      obtain ⟨rfl, hlast⟩ := List.append_inj' heq rfl
      cases hlast
      rw [List.concat_eq_append] at hnone
      exact .inr ⟨⟨us, v, vs, rfl, hcue, fun y hy => hnone y (List.mem_append_left _ hy)⟩,
        hnone w (List.mem_append_right _ List.mem_cons_self)⟩
  · rintro (hcue | ⟨⟨us, v, vs, rfl, hcue, hnone⟩, hw⟩)
    · exact ⟨ws, w, [], rfl, hcue, fun v hv => absurd hv List.not_mem_nil⟩
    · refine ⟨us, v, vs ++ [w], by simp, hcue, fun y hy => ?_⟩
      rcases List.mem_append.mp hy with hold | hnew
      · exact hnone y hold
      · rwa [List.mem_singleton.mp hnew]

theorem mmufrt_iff_cued (ws : List MapperWrite) : (mapperAfter ws).mmufrt = true ↔ Cued ws := by
  induction ws using List.reverseRecOn with
  | nil =>
    refine iff_of_false Bool.false_ne_true ?_
    rintro ⟨us, w, vs, heq, -⟩
    simp at heq
  | append_singleton ws w ih =>
    have hmoves := MapperWrite.apply_moves (w := w) (mapperAfter_latched ws)
    rw [mapperAfter_append, cued_append, ← ih]
    cases hfrt : (mapperAfter ws).mmufrt with
    | false => simpa using hmoves.sets hfrt
    | true =>
      have hcue : w.Cue (mapperAfter ws) → ¬w.Disables := by
        rintro ⟨-, h5, -⟩ ⟨-, hoff⟩
        rw [h5] at hoff
        cases hoff
      have hstays := not_congr (hmoves.clears hfrt)
      rw [Bool.not_eq_false] at hstays
      rw [hstays]
      tauto

/-- After any writes to the mapper the flag is the latch of its cues, and any next write moves it
as a latch. -/
theorem mmufrt_latch (debug : Bool) (bootRom : ℕ → U8) (batchFile : Option (List U8))
    (sdFile : Option File) (ws : List MapperWrite) :
    ∃ s, configured bootRom batchFile sdFile ws (Board.start .fault debug Priv.start) = .ok () s ∧
      s.priv.mapper.Latched ∧ (s.priv.mapper.mmufrt = true ↔ Cued ws) ∧
      ∀ w : MapperWrite, ∃ t, w.perform s = .ok () t ∧ w.Moves s.priv.mapper t.priv.mapper := by
  obtain ⟨s, hrun, hs, hmapper, -⟩ := configured_run debug bootRom batchFile sdFile ws
  have hlatched := mapperAfter_latched ws
  rw [← hmapper] at hlatched
  refine ⟨s, hrun, hlatched, ?_, fun w => ?_⟩
  · rw [hmapper]
    exact mmufrt_iff_cued ws
  · obtain ⟨t, hwrite, -, ht, -⟩ := w.perform_run hs
    refine ⟨t, hwrite, ?_⟩
    rw [ht]
    exact MapperWrite.apply_moves hlatched

end Exec09.Multicomp
