import Exec09.Machines.EonReach
import Exec09.Machines.Eon2Reach
import Exec09.Machines.WpcReach
import Exec09.Multicomp.Reach
import Exec09.Multicomp.Protection

/-! # What keeps the ROM as it is

The class of the ROM has the write function of the RAM, so only the map keeps
the CPU from changing it. On eon2 it always does. On the other machines there
are registers that put the ROM where it can be written.
-/
namespace Exec09.Machines
open Foundation Access

/-- A run of CPU accesses keeps the ROM unless one of its writes goes where the ROM is selected:
by the MMU registers on eon, by the display pages on wpc, by the expander on multicomp09. -/
theorem romImmutable_of_spared (debug : Bool) (bootRom : ℕ → U8) (es : List CpuAccess) :
    (∀ priv, ∃ s, Eon.started bootRom (Board.start .fault debug priv) = .ok () s ∧
      (Along (CpuAccess.perform Eon.hardware) Eon.RomSpared es s → RomKept Eon.hardware es s)) ∧
    (∀ priv fin fout hostfile, ∃ s,
      Eon2.started bootRom fin fout hostfile (Board.start .fault debug priv) = .ok () s ∧
      RomKept Eon2.hardware es s) ∧
    (∀ priv, ∃ s, Wpc.started bootRom (Board.start .wpcFault debug priv) = .ok () s ∧
      (Wpc.Regs.start.Spared es → RomKept Wpc.hardware es s)) ∧
    ∀ batchFile sdFile, ∃ s, Multicomp.configured bootRom batchFile sdFile []
        (Board.start .fault debug Multicomp.Priv.start) = .ok () s ∧
      (Along (CpuAccess.perform Multicomp.hardware) Multicomp.RomSpared es s →
        RomKept Multicomp.hardware es s) := by
  refine ⟨fun priv => ?_, fun priv fin fout hostfile => ?_, fun priv => ?_,
    fun batchFile sdFile => ?_⟩
  · obtain ⟨s, hrun, hs, hrunning⟩ := Eon.started_run debug priv bootRom
    exact ⟨s, hrun, fun hes => Eon.romKept_of_spared hs hrunning hes⟩
  · obtain ⟨s, hrun, hs, hrunning⟩ := Eon2.started_run debug priv bootRom fin fout hostfile
    exact ⟨s, hrun, Eon2.romKept hs hrunning es⟩
  · obtain ⟨s, hrun, hs, hrunning⟩ := Wpc.started_run debug priv bootRom
    exact ⟨s, hrun, fun hes => Wpc.romKept_of_spared hs hrunning hes⟩
  · obtain ⟨s, hrun, hs, -, hrunning⟩ := Multicomp.configured_run debug bootRom batchFile sdFile []
    exact ⟨s, hrun, fun hes => Multicomp.romKept_of_spared hs hrunning hes⟩

/-- On multicomp09 after its start a write to the first slot of the expander changes the ROM. -/
theorem rom_written : ∃ s,
    Multicomp.configured (fun _ => 0) none none [] (Board.start .fault false Multicomp.Priv.start) =
      .ok () s ∧
    ∃ val, ¬RomKept Multicomp.hardware [.write8 0 0xFF80 val] s := by
  obtain ⟨s, hrun, hs, hmapper, hrunning⟩ :=
    Multicomp.configured_run false (fun _ => 0) none none []
  have hserved : s.priv.mapper.served 0xFF80 = (2, 0x1F80) := by
    rw [hmapper]
    decide
  have hpermission : s.priv.mapper.permission 0xFF80 &&& MAP_WRITABLE ≠ 0 := by
    rw [hmapper]
    decide
  have hin : Multicomp.Inside 0xFF80 s := by
    rw [Multicomp.Inside, hserved, hs.size_rom]
    decide
  have hmem := hs.cpuWrite8_served hrunning 0 (show 0xFF80 < 0x10000 by decide) (by decide) hin
    (s.mem 2 0x1F80 + 1)
  rw [hserved, if_pos hpermission] at hmem
  refine ⟨s, hrun, s.mem 2 0x1F80 + 1, fun hkept => ?_⟩
  have hrom : (s.devices.getD 2 ⟨.null, 0⟩).cls = .rom := by
    rw [hs.devices]
    rfl
  have hsame := hkept _ List.prefix_rfl 2 hrom 0x1F80
  have hone : finalState (runAll (CpuAccess.perform Multicomp.hardware)
      [.write8 0 0xFF80 (s.mem 2 0x1F80 + 1)] s) =
      finalState (cpuWrite8 Multicomp.hardware 0 0xFF80 (s.mem 2 0x1F80 + 1) s) :=
    finalState_runAll_single _ _ s
  rw [hone, hmem] at hsame
  simp at hsame

end Exec09.Machines
