import Exec09.Machines.EonBounds
import Exec09.Machines.WpcBounds
import Exec09.Multicomp.Bounds

/-! # Which accesses stay within the buffers

Nothing checks an offset against the size of its device. Three mappers compute
offsets from bytes that the guest chooses, and each of them can be made to
leave the RAM or the ROM.
-/
namespace Exec09.Machines
open Foundation

/-- After any writes to the mapping registers, an access stays within the buffers exactly if the
registers do not put it beyond them. -/
theorem inBounds_iff (debug : Bool) (bootRom : ℕ → U8) :
    (∀ priv ws, ∃ s, Eon.rewritten bootRom ws (Board.start .fault debug priv) = .ok () s ∧
      ∀ e, ¬Overruns Eon.hardware e s ↔ ¬Eon.Beyond {p | ∃ w ∈ ws, w.page = p} e s) ∧
    (∀ priv ws, ∃ s, Wpc.repaged bootRom ws (Board.start .wpcFault debug priv) = .ok () s ∧
      ∀ e, ¬Overruns Wpc.hardware e s ↔ ¬(Wpc.regsAfter ws).Beyond e) ∧
    ∀ batchFile sdFile ws, ∃ s, Multicomp.configured bootRom batchFile sdFile ws
        (Board.start .fault debug Multicomp.Priv.start) = .ok () s ∧
      ∀ e, ¬Overruns Multicomp.hardware e s ↔ ¬(Multicomp.mapperAfter ws).Beyond e := by
  refine ⟨fun priv ws => ?_, fun priv ws => ?_, fun batchFile sdFile ws => ?_⟩
  · obtain ⟨s, hrun, hs, hrunning⟩ := Eon.rewritten_run debug priv bootRom ws
    exact ⟨s, hrun, fun e => not_congr (hs.overruns_iff hrunning e)⟩
  · obtain ⟨s, hrun, hs, hrunning⟩ := Wpc.repaged_run debug priv bootRom ws
    exact ⟨s, hrun, fun e => not_congr (hs.overruns_iff hrunning e)⟩
  · obtain ⟨s, hrun, hs, hmapper, hrunning⟩ :=
      Multicomp.configured_run debug bootRom batchFile sdFile ws
    refine ⟨s, hrun, fun e => ?_⟩
    rw [← hmapper]
    exact not_congr (hs.overruns_iff hrunning e)

/-- The MMU of multicomp09 enabled and block 0 at the physical block 64. -/
def farWrites : List Multicomp.MapperWrite := [⟨0, false, 0x20⟩, ⟨0, true, 64⟩]

/-- Then a read of the address 0 is behind the RAM. -/
theorem overrun_block : ∃ s, Multicomp.configured (fun _ => 0) none none farWrites
      (Board.start .fault false Multicomp.Priv.start) = .ok () s ∧
    Overruns Multicomp.hardware (.read8 0 0) s := by
  obtain ⟨s, hrun, hs, hmapper, hrunning⟩ :=
    Multicomp.configured_run false (fun _ => 0) none none farWrites
  refine ⟨s, hrun, (hs.overruns_iff hrunning _).mpr ⟨by decide, .inl ⟨by decide, ?_⟩⟩⟩
  have hserved : (Multicomp.mapperAfter farWrites).served 0 = (1, 0x80000) := by decide
  rw [hmapper, Multicomp.Mapper.Past, hserved]
  exact ⟨rfl, le_refl _⟩

end Exec09.Machines
