import Exec09.Hostmon.Commands

/-! # The receive buffer of the host monitor

The loop that reads stores no more bytes than it is asked for. Two commands ask
for as many as they have sent, which is at most the size of the buffer. The
other two take the number from their command line and do not compare it.
-/
namespace Exec09.Hostmon
open Foundation

/-- The bytes stored fit into the buffer. -/
def Progress.Within : Progress → Prop
  | waiting rx => rx.length ≤ HOSTMON_MAX_HEX
  | returned _ rx => rx.length ≤ HOSTMON_MAX_HEX
  | undefined => False

/-- The baud rate that `cmd_transceive` ends up with. -/
def selectedBaud (cfg : Setting) (argv : List Text) : ℤ :=
  (scanOptions 80 (resolveTarget cfg (argv.getD 2 []) DEFAULT_BAUD).2 (argv.drop 5)).2

/-- The number of bytes to read fits into the buffer, or the command ends before it reads. -/
def ReadFits (cfg : Setting) (argv : List Text) : Prop :=
  argv.length < 5 ∨ (parseHexBytes (argv.getD 3 []) HOSTMON_MAX_HEX).1 < 0 ∨
    baudToSpeed (selectedBaud cfg argv) = 0 ∨ Text.atoi (argv.getD 4 []) ≤ HOSTMON_MAX_HEX

instance (cfg : Setting) (argv : List Text) : Decidable (ReadFits cfg argv) :=
  inferInstanceAs (Decidable (_ ∨ _))

/-- The condition on the command line of each command. -/
def Command.LineFits (cfg : Setting) (argv : List Text) : Command → Prop
  | transceive => ReadFits cfg argv
  | plug => argv.length < 3 ∨
      ¬((fakeArgv argv).length < 16 ∧ (fakeArgv argv).length - 2 + 3 < argv.length) ∧
        ReadFits cfg (fakeArgv argv)
  | loopback | linkTest => True

/-! ## The loop -/

/-- One pass stores no more than is left to read. -/
theorem readSomeWait_pass {maxlen : ℤ} {buf : List Byte} (hexit : (readSomeWait maxlen).exit buf = none)
    (reply : ReadReply) : ((readSomeWait maxlen).pass buf reply).elim
      (fun buf' => (buf'.length : ℤ) ≤ maxlen) fun result => (result.2.length : ℤ) ≤ maxlen := by
  have hleft : (buf.length : ℤ) < maxlen := by
    by_contra hfull
    simp [readSomeWait, hfull] at hexit
  cases reply with
  | ready bytes =>
    simp only [readSomeWait]
    split_ifs
    · exact hleft.le
    · simp only [Sum.elim_inl, List.length_append, List.length_take]
      omega
  | _ => exact hleft.le

/-- Whatever the calls return, no more is stored than is asked for. -/
theorem readSomeWait_stored (maxlen : ℤ) (reads : List ReadReply) :
    ((readSomeWait maxlen).run reads []).elim (fun buf => (buf.length : ℤ) ≤ max 0 maxlen)
      fun result => (result.2.length : ℤ) ≤ max 0 maxlen := by
  refine Dialogue.run_invariant (fun buf result hbuf hexit => ?_) (fun buf reply _ hexit => ?_) reads
    (le_max_left 0 maxlen)
  · simp only [readSomeWait] at hexit
    split_ifs at hexit
    cases hexit
    exact hbuf
  · have hpass := readSomeWait_pass hexit reply
    cases hr : (readSomeWait maxlen).pass buf reply with
    | inl buf' =>
      rw [hr] at hpass
      exact le_max_of_le_right hpass
    | inr result =>
      rw [hr] at hpass
      exact le_max_of_le_right hpass

theorem within_of_read {maxlen : ℤ} (hmax : maxlen ≤ HOSTMON_MAX_HEX) (reads : List ReadReply) :
    ((readSomeWait maxlen).run reads []).elim (fun buf => buf.length ≤ HOSTMON_MAX_HEX)
      fun result => result.2.length ≤ HOSTMON_MAX_HEX := by
  have hstored := readSomeWait_stored maxlen reads
  cases hr : (readSomeWait maxlen).run reads [] with
  | inl buf =>
    rw [hr] at hstored
    have hle : (buf.length : ℤ) ≤ max 0 maxlen := hstored
    simp only [Sum.elim_inl]
    omega
  | inr result =>
    rw [hr] at hstored
    have hle : (result.2.length : ℤ) ≤ max 0 maxlen := hstored
    simp only [Sum.elim_inr]
    omega

/-! ## The calls -/

theorem transceiveOnFd_within {c : Call} (hlen : c.readlen ≤ HOSTMON_MAX_HEX) (host : Host) :
    (transceiveOnFd host c).Within := by
  have hread := within_of_read hlen host.reads
  rw [transceiveOnFd]
  cases (writeAll c.tx.length).run host.writes 0 with
  | inl off => exact Nat.zero_le _
  | inr sent =>
    cases hr : (readSomeWait c.readlen).run host.reads [] with
    | inl rx =>
      rw [hr] at hread
      dsimp only
      split_ifs
      · exact Nat.zero_le _
      · exact hread
    | inr result =>
      rw [hr] at hread
      dsimp only
      split_ifs <;> first | exact Nat.zero_le _ | exact hread

/-- All bytes are sent at once, and more are there than the buffer holds. -/
def flood (txlen : ℕ) : Host where
  opens _ _ := true
  writes := [.wrote txlen]
  reads := [.ready (List.replicate (HOSTMON_MAX_HEX + 1) 0)]

theorem flood_written (txlen : ℕ) :
    (writeAll txlen).run (flood txlen).writes 0 = .inr (txlen : ℤ) := by
  have hend : (writeAll txlen).exit txlen = some (txlen : ℤ) := if_neg (lt_irrefl txlen)
  by_cases hpos : 0 < txlen
  · have hwrite : (writeAll txlen).pass 0 (.wrote txlen) = .inl txlen := by simp [writeAll]
    have hstart : (writeAll txlen).exit 0 = none := if_pos hpos
    rw [flood, Dialogue.run_next hstart hwrite, Dialogue.run_exit hend]
  · obtain rfl : txlen = 0 := by omega
    exact Dialogue.run_exit hend _

theorem flood_read {maxlen : ℤ} (hlen : ¬maxlen ≤ HOSTMON_MAX_HEX) (txlen : ℕ) :
    ∃ rx, rx.length = HOSTMON_MAX_HEX + 1 ∧
      ((readSomeWait maxlen).run (flood txlen).reads [] = .inl rx ∨
        (readSomeWait maxlen).run (flood txlen).reads [] = .inr ((rx.length : ℤ), rx)) := by
  have hstart : (readSomeWait maxlen).exit [] = none := by
    refine if_pos ?_
    rw [List.length_nil]
    omega
  have hpass : (readSomeWait maxlen).pass [] (.ready (List.replicate (HOSTMON_MAX_HEX + 1) 0)) =
      .inl (List.replicate (HOSTMON_MAX_HEX + 1) 0) := by
    have hall : (List.replicate (HOSTMON_MAX_HEX + 1) (0 : Byte)).take maxlen.toNat =
        List.replicate (HOSTMON_MAX_HEX + 1) 0 := by
      refine List.take_of_length_le ?_
      rw [List.length_replicate]
      omega
    have hsome : List.replicate (HOSTMON_MAX_HEX + 1) (0 : Byte) ≠ [] := by
      rw [List.replicate_succ]
      exact List.cons_ne_nil _ _
    simp only [readSomeWait, if_neg hsome, List.nil_append, List.length_nil, Nat.cast_zero, sub_zero,
      hall]
  refine ⟨List.replicate (HOSTMON_MAX_HEX + 1) 0, List.length_replicate, ?_⟩
  rw [flood, Dialogue.run_next hstart hpass, Dialogue.run]
  generalize List.replicate (HOSTMON_MAX_HEX + 1) (0 : Byte) = rx
  by_cases hmore : (rx.length : ℤ) < maxlen
  · have hexit : (readSomeWait maxlen).exit rx = none := if_pos hmore
    rw [hexit]
    exact .inl rfl
  · have hexit : (readSomeWait maxlen).exit rx = some ((rx.length : ℤ), rx) := if_neg hmore
    rw [hexit]
    exact .inr rfl

theorem flood_overrun {c : Call} (hbaud : baudToSpeed c.baud ≠ 0)
    (hlen : ¬c.readlen ≤ HOSTMON_MAX_HEX) :
    ¬(cmdTransceiveLike (flood c.tx.length) c).Within := by
  have hopen : openSerial (flood c.tx.length) 0 c.dev c.baud = true := by
    simp [openSerial, flood, hbaud]
  obtain ⟨rx, hrx, hrun⟩ := flood_read hlen c.tx.length
  have hover : ¬rx.length ≤ HOSTMON_MAX_HEX := by omega
  have hsent : ¬(c.tx.length : ℤ) < 0 := by omega
  have hgot : ¬(rx.length : ℤ) < 0 := by omega
  rw [cmdTransceiveLike, if_pos hopen, transceiveOnFd, flood_written]
  rcases hrun with hrun | hrun
  · simp only [if_neg hsent, hrun]
    exact hover
  · simp only [if_neg hsent, hrun, if_neg hgot]
    split_ifs <;> exact hover

theorem Leads.within_iff (l : Leads) : (∀ host, (l.run host).Within) ↔
    match l with
    | .returns _ => True
    | .calls c => baudToSpeed c.baud = 0 ∨ c.readlen ≤ HOSTMON_MAX_HEX
    | .undefined => False := by
  cases l with
  | returns code => exact iff_of_true (fun _ => Nat.zero_le _) trivial
  | undefined => exact iff_of_false (fun h => h (flood 0)) id
  | calls c =>
    constructor
    · intro h
      by_contra hnot
      obtain ⟨hbaud, hlen⟩ := not_or.mp hnot
      exact flood_overrun hbaud hlen (h _)
    · intro h host
      change (cmdTransceiveLike host c).Within
      rw [cmdTransceiveLike]
      split_ifs with hopen
      · have hbaud : baudToSpeed c.baud ≠ 0 := by
          rw [openSerial, Bool.and_eq_true] at hopen
          simpa using hopen.2
        exact transceiveOnFd_within (h.resolve_left hbaud) host
      · exact Nat.zero_le _

/-! ## The commands -/

theorem cmdTransceive_within_iff (cfg : Setting) (argv : List Text) :
    (∀ host, ((cmdTransceive cfg argv).run host).Within) ↔ ReadFits cfg argv := by
  rw [Leads.within_iff, cmdTransceive, ReadFits, selectedBaud]
  split_ifs with hargc
  · exact iff_of_true trivial (.inl hargc)
  · rw [or_iff_right hargc]
    dsimp only
    split_ifs with hhex
    · exact iff_of_true trivial (.inl hhex)
    · exact (or_iff_right hhex).symm

theorem cmdPlug_within_iff (cfg : Setting) (argv : List Text) :
    (∀ host, ((cmdPlug cfg argv).run host).Within) ↔ Command.plug.LineFits cfg argv := by
  rw [Command.LineFits, cmdPlug]
  split_ifs with hargc hleft
  · exact iff_of_true (fun _ => Nat.zero_le _) (.inl hargc)
  · exact iff_of_false (fun h => h (flood 0)) fun h => h.elim hargc fun h => h.1 hleft
  · rw [cmdTransceive_within_iff, or_iff_right hargc, and_iff_right hleft]

theorem bytesAt_length {argv : List Text} {i : ℕ} {tx : List Byte} (h : bytesAt argv i = some tx) :
    tx.length ≤ HOSTMON_MAX_HEX := by
  rw [bytesAt] at h
  split_ifs at h with hgiven
  · dsimp only at h
    split_ifs at h with hhex
    cases h
    rcases parseHexBytes_sound (argv.getD i []) HOSTMON_MAX_HEX with hfail | ⟨-, hcap, -, -, hlength⟩
    · rw [hfail] at hhex
      exact absurd (by decide) hhex
    · omega
  · cases h
    decide

theorem cmdLoopback_within (host : Host) (cfg : Setting) (argv : List Text) :
    ((cmdLoopback cfg argv).run host).Within := by
  refine (Leads.within_iff _).mpr ?_ host
  rw [cmdLoopback]
  split_ifs with hargc
  · trivial
  · cases hbytes : bytesAt argv 3 with
    | none => trivial
    | some tx => exact .inr (Int.ofNat_le.mpr (bytesAt_length hbytes))

theorem cmdLinkTest_within (host : Host) (cfg : Setting) (argv : List Text) :
    (cmdLinkTest host cfg argv).Within := by
  rw [cmdLinkTest]
  split_ifs with hargc
  · exact Nat.zero_le _
  · cases hbytes : bytesAt argv 4 with
    | none => exact Nat.zero_le _
    | some tx =>
      have hread := within_of_read (Int.ofNat_le.mpr (bytesAt_length hbytes)) host.reads
      dsimp only
      split_ifs
      · exact Nat.zero_le _
      · exact Nat.zero_le _
      · cases (writeAll tx.length).run host.writes 0 with
        | inl off => exact Nat.zero_le _
        | inr sent =>
          cases hr : (readSomeWait tx.length).run host.reads [] with
          | inl rx =>
            rw [hr] at hread
            dsimp only
            split_ifs
            · exact Nat.zero_le _
            · exact hread
          | inr result =>
            rw [hr] at hread
            dsimp only
            split_ifs <;> first | exact Nat.zero_le _ | exact hread

/-- Whatever the environment replies, a command stores no more bytes than its buffer holds exactly
if its command line fits; those of `loopback` and `link-test` always do. -/
theorem stored_within_iff (cmd : Command) (cfg : Setting) (argv : List Text) :
    (∀ host, (cmd.run host cfg argv).Within) ↔ cmd.LineFits cfg argv := by
  cases cmd with
  | transceive => exact cmdTransceive_within_iff cfg argv
  | plug => exact cmdPlug_within_iff cfg argv
  | loopback => exact iff_of_true (fun host => cmdLoopback_within host cfg argv) trivial
  | linkTest => exact iff_of_true (fun host => cmdLinkTest_within host cfg argv) trivial

/-- `transceive A 00 5000 --baud 9600`. -/
def longRead : List Text := [Text.ofString "exec09-monitor", Text.ofString "transceive",
  Text.ofString "A", Text.ofString "00", Text.ofString "5000", baudOption, Text.ofString "9600"]

theorem longRead_overrun : ¬∀ (cmd : Command) (cfg : Setting) (argv : List Text) (host : Host),
    (cmd.run host cfg argv).Within := by
  intro h
  have hlong : ¬ReadFits ⟨[], []⟩ longRead := by decide +kernel
  exact hlong ((cmdTransceive_within_iff ⟨[], []⟩ longRead).mp (h .transceive ⟨[], []⟩ longRead))

end Exec09.Hostmon
