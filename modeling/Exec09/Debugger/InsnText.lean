import Exec09.Debugger.Disassembler
import Exec09.Debugger.MapFile
import Exec09.Debugger.SymbolIndexes
import Exec09.Foundation.Printf

/-! # The text of an instruction

`dasm` writes into an array of 64 characters of `print_insn` or
`print_insn_long`, and the names of addresses are made in arrays of their own. A
branch target has the first 16 characters of its symbol, any other address has
all of them, as many as a line of a map file can give.
-/
namespace Exec09.Debugger
open Foundation

/-- The texts of `os9syscall`. -/
def os9syscall (op : ℕ) : String :=
  ["F$Link", "F$Load", "F$UnLink", "F$Fork", "F$Wait", "F$Chain", "F$Exit", "F$Mem", "F$Send",
    "F$Icpt", "F$Sleep", "F$SSpd", "F$ID", "F$SPrior", "F$SSWI", "F$PErr", "F$PrsNam", "F$CmpNam",
    "F$SchBit", "F$AllBit", "F$DelBit", "F$Time", "F$STime", "F$CRC", "F$GPrDsc", "F$GBlkMp",
    "F$GModDr", "F$CpyMem", "F$SUser", "F$UnLoad", "F$Alarm", "F$1F", "F$20", "F$NMLink",
    "F$NMLoad", "F$Debu", "F$24", "F$TPS", "F$TimAlm", "F$VIRQ", "F$SRqMem", "F$SRtMem", "F$IRQ",
    "F$IOQu", "F$AProc", "F$NProc", "F$VModul", "F$Find64", "F$All64", "F$Ret64", "F$SSvc",
    "F$IODel", "F$SLink", "F$Boot", "F$BtMem", "F$GProcP", "F$Move", "F$AllRAM", "F$AllImg",
    "F$DelImg", "F$SetImg", "F$FreeLB", "F$FreeHB", "F$AllTsk", "F$DelTsk", "F$SetTsk", "F$ResTsk",
    "F$RelTsk", "F$DATLog", "F$DATTmp", "F$LDAXY", "F$LDAXYP", "F$LDDDXY", "F$LDABX", "F$STABX",
    "F$AllPrc", "F$DelPrc", "F$ELink", "F$FModul", "F$MapBlk", "F$ClrBlk", "F$DelRAM", "F$GCMDir",
    "F$AlHRAM", "F$ReBoot", "F$CRCMod", "F$XTime", "F$VBlock", "F$58", "F$59", "F$5A", "F$5B",
    "F$5C", "F$5D", "F$5E", "F$5F", "F$60", "F$61", "F$62", "F$63", "F$64", "F$65", "F$66", "F$67",
    "F$68", "F$69", "F$6A", "F$6B", "F$6C", "F$6D", "F$6E", "F$6F", "F$RegDmp", "F$NVRAM", "F$72",
    "F$73", "F$74", "F$75", "F$76", "F$77", "F$78", "F$79", "F$7A", "F$7B", "F$7C", "F$7D", "F$7E",
    "F$7F", "I$Attach", "I$Detach", "I$Dup", "I$Create", "I$Open", "I$MakDir", "I$ChgDir",
    "I$Delete", "I$Seek", "I$Read", "I$Write", "I$ReadLn", "I$WritLn", "I$GetStt", "I$SetStt",
    "I$Close", "I$DeletX"].getD op ""

/-- The characters from a place in a buffer to the next zero. -/
def Stringspaces.read (ss : Stringspaces) (p : Place) : Text :=
  CString.scan (ss.space p.space) MAX_STRINGSPACE p.offset

/-- The name that `sym_lookup` returns. -/
def Symtab.nameOf (s : Symtab) (value : ℕ) : Option Text :=
  (s.symLookup (BitVec.ofNat 64 value)).map s.strings.read

section
variable (maps : BusMaps) (programSymtab : Symtab)

/-- The static arrays of `absolute_addr_name` and `monitor_addr_name`. -/
def nameBuf : ℕ := 256

def absoluteAddrName (addr : ℕ) : Option Text :=
  let buf := Text.hexField 2 (addr >>> 28) ++ Text.ofString ":0x" ++
    Text.hexField 4 (addr &&& 0xFFFFFF)
  match programSymtab.nameOf addr with
  | some name =>
    Text.append nameBuf buf (Text.ofString "  <" ++ Text.clipped 16 name ++ Text.ofString ">")
  | none => some buf

def monitorAddrName (targetAddr : ℕ) : Option Text :=
  let addr := Access.toAbsolute maps targetAddr
  let buf := Text.ofString "$" ++ Text.hexField 4 targetAddr
  match programSymtab.nameOf addr with
  | some name => Text.append nameBuf buf (Text.ofString "  <" ++ name ++ Text.ofString ">")
  | none => some buf

/-- The arrays of `print_insn` and `print_insn_long`. -/
def insnBuf : ℕ := 64

namespace Printed

def chars : Printed → Option Text
  | .mnemonic t => some (Text.clipped 6 (Text.ofString t))
  | .text t => some (Text.ofString t)
  | .byte v => some (Text.hexField 2 v)
  | .word v => some (Text.hexField 4 v)
  | .hex v => some (List.leftpad 2 32 (Text.hex false v))
  | .addrName addr => monitorAddrName maps programSymtab addr
  | .absoluteName addr => absoluteAddrName programSymtab addr
  | .os9syscall op => some (Text.ofString (Debugger.os9syscall op))
  | .cut => some []

/-- `sprintf` or `strcat` behind what is in the array. -/
def write (written : Text) : Printed → Option Text
  | .cut => if written = [] then none else some written.dropLast
  | p => do Text.append insnBuf written (← p.chars maps programSymtab)

end Printed

/-- The text in the array after `dasm`, unless a character was written behind the end of it. -/
def dasmText (absRead8 : ℕ → BitVec 8) (os9call : Bool) (opc : ℕ) : Option Text :=
  (dasm absRead8 os9call opc).1.foldlM (Printed.write maps programSymtab) []

end

/-! ## The symbol table of the program -/

/-- Every symbol has a string for its name. -/
structure Symtab.Named (s : Symtab) : Prop where
  room : s.strings.used ≤ MAX_STRINGSPACE
  chained : s.Chained
  name : ∀ i < s.count, ∃ t, s.strings.Stored (s.symbol i).name t ∧ t.length < MAX_STRINGSPACE

/-- A symbol table that is made by `sym_add` and `sym_set`. -/
structure NamedSymtab extends Symtab where
  named : toSymtab.Named

/-- The text is the name that `sym_lookup` finds for the value. -/
def Symtab.Names (s : Symtab) (value : ℕ) (t : CString) : Prop :=
  ∃ p ∈ s.symLookup (BitVec.ofNat 64 value), CString.Holds (s.strings.space p.space) p.offset t

/-! ## The operand with a name -/

section
variable (absRead8 : ℕ → BitVec 8)

def wordAt (pc : ℕ) : ℕ := ((absRead8 pc).toNat <<< 8) ||| (absRead8 (pc + 1)).toNat

/-- The entry of a table for the first bytes, and the place of the operand. -/
def opcodeAt (opc : ℕ) : AddrMode × ℕ :=
  if (absRead8 opc).toNat = 0x10 then ((codes10 (absRead8 (opc + 1)).toNat).2, opc + 2)
  else if (absRead8 opc).toNat = 0x11 then ((codes11 (absRead8 (opc + 1)).toNat).2, opc + 2)
  else ((codes (absRead8 opc).toNat).2, opc + 1)

/-- The address that is printed by `monitor_addr_name`, and the characters that are left for the
name of its symbol. -/
def namedOperand (pc : ℕ) : AddrMode → Option (ℕ × ℕ)
  | .direct => some ((absRead8 pc).toNat, 47)
  | .extended => some (wordAt absRead8 pc, 48)
  | .indexed =>
    if (absRead8 pc).toNat &&& 0x9f = 0x9f then some (wordAt absRead8 (pc + 1), 46) else none
  | _ => none

/-- The address has no symbol, or one whose name is not longer. -/
def Symtab.RoomFor (maps : BusMaps) (s : Symtab) (p : ℕ × ℕ) : Prop :=
  ∀ t, s.Names (Access.toAbsolute maps p.1) t → t.length ≤ p.2

/-- The operand has no symbol, or there is room for the name. -/
def NameFits (maps : BusMaps) (s : Symtab) (opc : ℕ) : Prop :=
  ∀ p ∈ namedOperand absRead8 (opcodeAt absRead8 opc).2 (opcodeAt absRead8 opc).1,
    s.RoomFor maps p

end

/-! ## Names -/

namespace Symtab
variable {s : Symtab} {value : ℕ}

theorem symLookup_mem {v : BitVec 64} {p : Place} (h : s.symLookup v = some p) :
    ∃ i, i ∈ s.symsByValue (symHashValue v) ∧ (s.symbol i).name = p := by
  rw [symLookup, Option.map_eq_some_iff] at h
  obtain ⟨i, hfind, hname⟩ := h
  exact ⟨i, List.mem_of_find?_eq_some hfind, hname⟩

/-- Either no symbol is found, or one whose name is read as it was copied. -/
theorem Named.nameOf_cases (h : s.Named) (value : ℕ) :
    (s.nameOf value = none ∧ ∀ t, ¬s.Names value t) ∨
      ∃ t, s.nameOf value = some t.bytes ∧ ∀ u, s.Names value u ↔ u = t := by
  cases hlookup : s.symLookup (BitVec.ofNat 64 value) with
  | none =>
    refine .inl ⟨by rw [nameOf, hlookup, Option.map_none], fun t ht => ?_⟩
    obtain ⟨p, hp, -⟩ := ht
    rw [hlookup] at hp
    cases hp
  | some p =>
    obtain ⟨i, hi, rfl⟩ := symLookup_mem hlookup
    obtain ⟨t, ⟨hholds, -⟩, hlength⟩ := h.name i (h.chained.byValue _ i hi)
    refine .inr ⟨t, ?_, fun u => ⟨fun hu => ?_, fun hu => ?_⟩⟩
    · rw [nameOf, hlookup, Option.map_some, Stringspaces.read, CString.scan_holds hholds hlength]
    · obtain ⟨p, hp, hu⟩ := hu
      rw [hlookup] at hp
      cases hp
      exact hu.unique hholds
    · exact ⟨_, hlookup, hu ▸ hholds⟩

end Symtab

/-! ## How a table is made -/

section
variable {signed : Bool} {s t : Symtab}

theorem Symtab.init_named {strings : Stringspaces} (hroom : strings.used ≤ MAX_STRINGSPACE)
    (symbol : ℕ → Symbol) : (Symtab.init strings symbol).Named where
  room := hroom
  chained := Symtab.init_chained strings symbol
  name _ hi := absurd hi (Nat.not_lt_zero _)

theorem symAdd_named (h : s.Named) {name : CString} {value : BitVec 64} {type i : ℕ}
    (hrun : symAdd signed name value type s = .ok i t) : t.Named := by
  have hfits : name.length < MAX_STRINGSPACE := by
    by_contra hlong
    obtain ⟨u, hover⟩ : ∃ u, symAdd signed name value type s = .error (.fatal .bufferWrite) u :=
      symAdd_overflow (Nat.le_of_not_lt hlong) value type
    rw [hover] at hrun
    cases hrun
  obtain ⟨place, ss, hcopy, hroom, hnew, hold⟩ := stringspaceCopy_run h.room hfits
  rw [symAdd, run_bind_ok hcopy] at hrun
  cases hrun
  have hchained : ({ s with strings := ss } : Symtab).Chained := ⟨h.chained.byName, h.chained.byValue⟩
  refine ⟨hroom, hchained.added (symHashName signed name) ⟨place, value, type⟩, fun i hi => ?_⟩
  by_cases hlast : i = s.count
  · subst hlast
    exact ⟨name, by simpa using hnew, hfits⟩
  · have hlt : i < s.count := Nat.lt_of_le_of_ne (Nat.le_of_lt_succ hi) hlast
    obtain ⟨u, hu, hlength⟩ := h.name i hlt
    exact ⟨u, by simpa [hlast] using hold _ _ hu, hlength⟩

/-- A value that is set leaves the names. -/
theorem Symtab.Named.changed (h : s.Named) (i : ℕ) (v : BitVec 64) : (s.changed i v).Named where
  room := h.room
  chained := ⟨h.chained.byName, h.chained.byValue⟩
  name j hj := by
    obtain ⟨u, hu, hlength⟩ := h.name j hj
    refine ⟨u, ?_, hlength⟩
    by_cases hij : j = i
    · subst hij
      simpa [Symtab.changed] using hu
    · simpa [Symtab.changed, hij] using hu

theorem SymCall.perform_named (h : s.Named) {c : SymCall}
    (hrun : c.perform signed s = .ok () t) : t.Named := by
  have hadd {name : CString} {value : BitVec 64}
      (hrun : (do let _ ← symAdd signed name value 0 : SymM Unit) s = .ok () t) : t.Named := by
    obtain ⟨i, u, hsym, hpure⟩ := of_run_bind_ok hrun
    cases hpure
    exact symAdd_named h hsym
  cases c with
  | add name value => exact hadd hrun
  | set name value =>
    rw [perform, symSet, run_bind_ok run_get] at hrun
    cases hfind : s.symFind1 signed name 0 with
    | none =>
      rw [hfind] at hrun
      exact hadd hrun
    | some i =>
      rw [hfind] at hrun
      cases hrun
      exact h.changed i value

theorem performCall_named (h : s.Named) {call : Option SymCall}
    (hrun : performCall signed call s = .ok () t) : t.Named := by
  cases call with
  | none =>
    cases hrun
    exact h
  | some c =>
    cases hc : c.perform signed s with
    | ok a u =>
      simp only [performCall, hc] at hrun
      cases hrun
      exact SymCall.perform_named h hc
    | error e u =>
      simp only [performCall, hc] at hrun
      cases hrun

theorem readMap_named {maps : BusMaps} {fuel : ℕ} {file : Text} {calls : List (Option SymCall)}
    (h : s.Named) (hrun : readMap signed maps fuel file s = .ok calls t) : t.Named := by
  induction fuel generalizing file s calls with
  | zero => cases hrun
  | succ fuel ih =>
    rw [readMap] at hrun
    cases heof : (fgets 254 file).2.1 with
    | true =>
      simp only [heof, if_true] at hrun
      cases hrun
      exact h
    | false =>
      simp only [heof, Bool.false_eq_true, if_false] at hrun
      cases hcall : lineCall maps (bufferString (fgets 254 file).1) with
      | error e =>
        rw [hcall] at hrun
        cases hrun
      | ok call =>
        rw [hcall] at hrun
        obtain ⟨ds, u, -, hfirst, hrest⟩ := round_iff.mp hrun
        exact ih (performCall_named h hfirst) hrest

/-- The symbols of a map file have names. -/
theorem loadMapFile_named {maps : BusMaps} {file : Option Text} {calls : List (Option SymCall)}
    (h : s.Named) (hrun : loadMapFile signed maps file s = .ok calls t) : t.Named := by
  cases file with
  | none =>
    cases hrun
    exact h
  | some file => exact readMap_named h hrun

end

section
variable {maps : BusMaps} {programSymtab : Symtab}

theorem monitorAddrName_unnamed {addr : ℕ} (ha : addr < 16 ^ 4)
    (h : programSymtab.nameOf (Access.toAbsolute maps addr) = none) :
    ∃ t, monitorAddrName maps programSymtab addr = some t ∧ t.length = 5 := by
  refine ⟨Text.ofString "$" ++ Text.hexField 4 addr, ?_, ?_⟩
  · rw [monitorAddrName, h]
  · rw [List.length_append, Text.hexField_length (by decide) ha]
    rfl

theorem monitorAddrName_named {addr : ℕ} (ha : addr < 16 ^ 4) {name : Text}
    (h : programSymtab.nameOf (Access.toAbsolute maps addr) = some name) :
    if name.length ≤ 246 then
      ∃ t, monitorAddrName maps programSymtab addr = some t ∧ t.length = 9 + name.length
    else monitorAddrName maps programSymtab addr = none := by
  have hnumber : (Text.ofString "$" ++ Text.hexField 4 addr).length = 5 := by
    rw [List.length_append, Text.hexField_length (by decide) ha]
    rfl
  have hname : (Text.ofString "  <" ++ name ++ Text.ofString ">").length = name.length + 4 := by
    rw [List.length_append, List.length_append, Nat.add_comm _ name.length]
    rfl
  rw [monitorAddrName, h]
  dsimp only
  rw [Text.append, hnumber, hname, nameBuf]
  by_cases hn : name.length ≤ 246
  · rw [if_pos hn, if_pos (by omega)]
    refine ⟨_, rfl, ?_⟩
    rw [List.length_append, hnumber, hname]
    omega
  · rw [if_neg hn, if_neg (by omega)]

variable (programSymtab) in
/-- A branch target takes 38 characters at most. -/
theorem absoluteAddrName_length {addr : ℕ} (ha : addr < 2 ^ 64) :
    ∃ t, absoluteAddrName programSymtab addr = some t ∧ t.length ≤ 38 := by
  have hdevice : (Text.hexField 2 (addr >>> 28)).length ≤ 9 := by
    refine Text.hexField_length_le (by decide) ?_ (by decide)
    rw [Nat.shiftRight_eq_div_pow]
    omega
  have haddress : (Text.hexField 4 (addr &&& 0xFFFFFF)).length ≤ 6 := by
    refine Text.hexField_length_le (by decide) ?_ (by decide)
    exact Nat.lt_of_le_of_lt Nat.and_le_right (by decide)
  have hcolon : (Text.ofString ":0x").length = 3 := rfl
  have hopen : (Text.ofString "  <").length = 3 := rfl
  have hclose : (Text.ofString ">").length = 1 := rfl
  rw [absoluteAddrName]
  cases programSymtab.nameOf addr with
  | none =>
    refine ⟨_, rfl, ?_⟩
    simp only [List.length_append]
    omega
  | some name =>
    have hname := Text.clipped_length 16 name
    dsimp only
    rw [Text.append_of_lt (by simp only [List.length_append, nameBuf]; omega)]
    refine ⟨_, rfl, ?_⟩
    simp only [List.length_append]
    omega

end

/-! ## Pieces of a text -/

namespace Printed
variable {maps : BusMaps} {programSymtab : Symtab} {l : List Printed} {written : Text}

/-- The text of a piece that is written behind the others. -/
def Spells (maps : BusMaps) (programSymtab : Symtab) (p : Printed) (t : Text) : Prop :=
  p ≠ .cut ∧ p.chars maps programSymtab = some t

theorem write_eq {p : Printed} (hp : p ≠ .cut) : p.write maps programSymtab written =
    (p.chars maps programSymtab).bind (Text.append insnBuf written) := by
  cases p with
  | cut => exact absurd rfl hp
  | _ => rfl

/-- Writing the pieces one after the other is writing all of them. -/
theorem writeAll_eq {ts : List Text} (h : List.Forall₂ (Spells maps programSymtab) l ts)
    (hroom : written.length < insnBuf) :
    l.foldlM (Printed.write maps programSymtab) written =
      Text.append insnBuf written ts.flatten := by
  induction h generalizing written with
  | nil =>
    rw [List.flatten_nil, Text.append_of_lt (by simpa using hroom), List.append_nil]
    rfl
  | @cons p t l ts hp _ ih =>
    rw [List.foldlM_cons, write_eq hp.1, hp.2, List.flatten_cons, Option.bind_some]
    by_cases ht : written.length + t.length < insnBuf
    · have hnext : l.foldlM (Printed.write maps programSymtab) (written ++ t) =
          Text.append insnBuf (written ++ t) ts.flatten := ih (by rwa [List.length_append])
      rw [Text.append_of_lt ht]
      refine hnext.trans ?_
      simp only [Text.append, List.length_append, List.append_assoc, Nat.add_assoc]
    · rw [Text.append, if_neg ht, Text.append, if_neg (by rw [List.length_append]; omega)]
      rfl

/-- A piece that cannot be made leaves nothing. -/
theorem writeAll_none {p : Printed} (hp : p ∈ l) (hcut : p ≠ .cut)
    (hnone : p.chars maps programSymtab = none) :
    l.foldlM (Printed.write maps programSymtab) written = none := by
  induction l generalizing written with
  | nil => cases hp
  | cons q l ih =>
    rw [List.foldlM_cons]
    cases hq : q.write maps programSymtab written with
    | none => rfl
    | some u =>
      rcases List.mem_cons.mp hp with rfl | hrest
      · rw [write_eq hcut, hnone] at hq
        cases hq
      · exact ih hrest

/-- The pieces that `dasm` makes without `monitor_addr_name`. -/
def Plain : Printed → Prop
  | .byte v | .hex v => v < 16 ^ 2
  | .word v => v < 16 ^ 4
  | .absoluteName addr => addr < 2 ^ 64
  | .addrName _ | .cut => False
  | _ => True

/-- The characters of a piece, at most. -/
def most : Printed → ℕ
  | .mnemonic _ => 6
  | .text t => (Text.ofString t).length
  | .byte _ | .hex _ => 2
  | .word _ => 4
  | .absoluteName _ => 38
  | .os9syscall _ => 8
  | .addrName _ | .cut => 0

theorem os9syscall_length (op : ℕ) : (Text.ofString (Debugger.os9syscall op)).length ≤ 8 := by
  have hall : ∀ op < 145, (Text.ofString (Debugger.os9syscall op)).length ≤ 8 := by decide +kernel
  by_cases h : op < 145
  · exact hall op h
  · rw [Debugger.os9syscall, List.getD_eq_default _ _ (Nat.le_of_not_lt h)]
    exact Nat.zero_le _

variable (maps programSymtab) in
theorem Plain.spells {p : Printed} (h : p.Plain) :
    ∃ t, Spells maps programSymtab p t ∧ t.length ≤ p.most := by
  cases p with
  | mnemonic text => exact ⟨_, ⟨nofun, rfl⟩, (Text.clipped_length 6 _).le⟩
  | text text => exact ⟨_, ⟨nofun, rfl⟩, le_rfl⟩
  | byte v => exact ⟨_, ⟨nofun, rfl⟩, (Text.hexField_length (by decide) h).le⟩
  | word v => exact ⟨_, ⟨nofun, rfl⟩, (Text.hexField_length (by decide) h).le⟩
  | hex v =>
    refine ⟨_, ⟨nofun, rfl⟩, ?_⟩
    rw [List.length_leftpad]
    exact max_le le_rfl (Text.hex_length_le false Nat.two_pos h)
  | addrName addr => exact h.elim
  | absoluteName addr =>
    obtain ⟨t, ht, hlength⟩ := absoluteAddrName_length programSymtab h
    exact ⟨t, ⟨nofun, ht⟩, hlength⟩
  | os9syscall op => exact ⟨_, ⟨nofun, rfl⟩, os9syscall_length op⟩
  | cut => exact h.elim

variable (maps programSymtab) in
theorem spells_plain (h : ∀ p ∈ l, p.Plain) :
    ∃ ts, List.Forall₂ (Spells maps programSymtab) l ts ∧
      ts.flatten.length ≤ (l.map most).sum := by
  induction l with
  | nil => exact ⟨[], .nil, le_rfl⟩
  | cons p l ih =>
    obtain ⟨t, ht, hlength⟩ := (h p List.mem_cons_self).spells maps programSymtab
    obtain ⟨ts, hts, hrest⟩ := ih fun q hq => h q (List.mem_cons_of_mem p hq)
    refine ⟨t :: ts, .cons ht hts, ?_⟩
    rw [List.flatten_cons, List.length_append, List.map_cons, List.sum_cons]
    exact Nat.add_le_add hlength hrest

/-- Pieces for which there is room. -/
def Short (n : ℕ) (l : List Printed) : Prop := (∀ p ∈ l, p.Plain) ∧ (l.map most).sum ≤ n

variable (maps programSymtab) in
theorem Short.fits {n : ℕ} (h : Short n l) (hroom : written.length + n < insnBuf) :
    ∃ t, l.foldlM (Printed.write maps programSymtab) written = some (written ++ t) := by
  obtain ⟨ts, hts, hlength⟩ := spells_plain maps programSymtab h.1
  have hsum := h.2
  refine ⟨ts.flatten, ?_⟩
  rw [writeAll_eq hts (by omega), Text.append_of_lt (by omega)]

end Printed

/-! ## Operands -/

section
variable (absRead8 : ℕ → BitVec 8) {pc : ℕ}

theorem wordAt_lt (pc : ℕ) : wordAt absRead8 pc < 16 ^ 4 := by
  have hhigh : (absRead8 pc).toNat <<< 8 < 2 ^ 16 := by
    rw [Nat.shiftLeft_eq]
    have := (absRead8 pc).isLt
    omega
  have hlow : (absRead8 (pc + 1)).toNat < 2 ^ 16 :=
    Nat.lt_trans (absRead8 (pc + 1)).isLt (by decide)
  exact Nat.or_lt_two_pow hhigh hlow

namespace Printed

theorem text_plain (t : String) : (Printed.text t).Plain := trivial

theorem byte_plain (pc : ℕ) : (Printed.byte (absRead8 pc).toNat).Plain := (absRead8 pc).isLt

theorem word_plain (pc : ℕ) : (Printed.word (wordAt absRead8 pc)).Plain := wordAt_lt absRead8 pc

theorem absoluteName_plain (n : ℕ) : (Printed.absoluteName (Word.trunc 64 n)).Plain :=
  Nat.mod_lt _ (by decide)

theorem indexRegName_length (n : ℕ) : (Text.ofString (indexRegName n)).length = 1 := by
  rw [indexRegName.eq_def]
  split <;> rfl

theorem reg_length (n : ℕ) : (Text.ofString (reg n)).length ≤ 2 := by
  rw [reg.eq_def]
  split <;> decide

theorem off4_length (n : ℕ) : (Text.ofString (off4 n)).length ≤ 3 := by
  have hall : ∀ n < 32, (Text.ofString (off4 n)).length ≤ 3 := by decide
  by_cases h : n < 32
  · exact hall n h
  · rw [off4, List.getD_eq_default _ _ (Nat.le_of_not_lt h)]
    exact Nat.zero_le _

end Printed
open Printed

/-- The characters after the mnemonic. -/
def operandRoom : ℕ := 57

/-- What is printed from `pc` on. -/
def OperandIs (Q : List Printed → Prop) (m : DasmM (List Printed)) (pc : ℕ) : Prop := Q (m pc).1

variable {Q : List Printed → Prop}

theorem operandIs_pure {l : List Printed} (h : Q l) : OperandIs Q (pure l) pc := h

theorem operandIs_fetch8 {f : ℕ → DasmM (List Printed)}
    (h : OperandIs Q (f (absRead8 pc).toNat) (pc + 1)) : OperandIs Q (fetch8 absRead8 >>= f) pc := h

theorem operandIs_fetch16 {f : ℕ → DasmM (List Printed)}
    (h : OperandIs Q (f (wordAt absRead8 pc)) (pc + 2)) : OperandIs Q (fetch16 absRead8 >>= f) pc := h

/-- The postbyte of an extended indirect address. -/
theorem indirect_iff : ∀ post < 256,
    post &&& 0x9f = 0x9f ↔ post &&& 0x80 ≠ 0 ∧ post &&& 0x1f = 0x1f := by
  decide +kernel

theorem dasmIndexed_indirect (h : (absRead8 pc).toNat &&& 0x9f = 0x9f) :
    (dasmIndexed absRead8 pc).1 =
      [.text "[", .addrName (wordAt absRead8 (pc + 1)), .text "]"] := by
  obtain ⟨hz, hp⟩ := (indirect_iff _ (absRead8 pc).isLt).mp h
  have hrun : OperandIs (· = [.text "[", .addrName (wordAt absRead8 (pc + 1)), .text "]"])
      (dasmIndexed absRead8) pc := by
    rw [dasmIndexed]
    refine operandIs_fetch8 absRead8 ?_
    dsimp only
    rw [if_neg hz, hp]
    exact operandIs_fetch16 absRead8 (operandIs_pure rfl)
  exact hrun

theorem dasmIndexed_short (h : (absRead8 pc).toNat &&& 0x9f ≠ 0x9f) :
    OperandIs (Short operandRoom) (dasmIndexed absRead8) pc := by
  rw [Ne, indirect_iff _ (absRead8 pc).isLt] at h
  rw [dasmIndexed]
  refine operandIs_fetch8 absRead8 ?_
  generalize (absRead8 pc).toNat = post at h
  have hbyte := byte_plain absRead8 (pc + 1)
  have hword := word_plain absRead8 (pc + 1)
  have hR := indexRegName_length ((post >>> 5) &&& 0x3)
  have hoff := off4_length (post &&& 0x1f)
  by_cases hz : post &&& 0x80 = 0
  · simp only [if_pos hz]
    refine operandIs_pure ⟨by simp [text_plain], ?_⟩
    have htext : (Text.ofString ",").length = 1 := rfl
    simp only [List.map_cons, List.map_nil, List.sum_cons, List.sum_nil, most, operandRoom]
    omega
  · simp only [if_neg hz]
    split
    case h_8 | h_11 | h_18 | h_21 =>
      refine operandIs_fetch8 absRead8 (operandIs_pure ⟨?_, ?_⟩)
      · simp [text_plain, hbyte]
      · simp only [List.map_cons, List.map_nil, List.sum_cons, List.sum_nil, most, hR]
        decide
    case h_9 | h_12 | h_19 | h_22 =>
      refine operandIs_fetch16 absRead8 (operandIs_pure ⟨?_, ?_⟩)
      · simp [text_plain, hword]
      · simp only [List.map_cons, List.map_nil, List.sum_cons, List.sum_nil, most, hR]
        decide
    case h_23 hp => exact absurd ⟨hz, hp⟩ h
    all_goals
      refine operandIs_pure ⟨?_, ?_⟩
      · simp [text_plain]
      · simp only [List.map_cons, List.map_nil, List.sum_cons, List.sum_nil, most, hR]
        decide

theorem short_append {m n : ℕ} {l l' : List Printed} (h : Short m l) (h' : Short n l') :
    Short (m + n) (l ++ l') := by
  refine ⟨List.forall_mem_append.mpr ⟨h.1, h'.1⟩, ?_⟩
  rw [List.map_append, List.sum_append]
  exact Nat.add_le_add h.2 h'.2

theorem onMask_short (op mask : ℕ) (text : String) :
    Short (Text.ofString text).length (onMask op mask text) := by
  rw [onMask]
  split
  · exact ⟨by simp [text_plain], by simp [most]⟩
  · exact ⟨List.forall_mem_nil _, Nat.zero_le _⟩

/-- The registers, and then the last comma is cut off. -/
theorem dasmStack_short (pc : ℕ) (other : String) (hother : (Text.ofString other).length = 2) :
    ∃ l, (dasmStack absRead8 other pc).1 = l ++ [.cut] ∧ Short operandRoom l := by
  refine ⟨_, rfl, ?_⟩
  generalize (absRead8 pc).toNat = op
  have hboth : Short 4 (if op &&& 0x06 = 0x06 then [.text "D,"]
      else onMask op 0x04 "B," ++ onMask op 0x02 "A,") := by
    split
    · exact ⟨by simp [text_plain], by decide⟩
    · exact short_append (onMask_short op 0x04 "B,") (onMask_short op 0x02 "A,")
  have hregs := short_append (short_append (short_append (short_append (short_append (short_append
    (onMask_short op 0x80 "PC,") (onMask_short op 0x40 other)) (onMask_short op 0x20 "Y,"))
    (onMask_short op 0x10 "X,")) (onMask_short op 0x08 "DP,")) hboth) (onMask_short op 0x01 "CC,")
  refine ⟨hregs.1, hregs.2.trans ?_⟩
  rw [hother]
  decide

/-- The operands without `monitor_addr_name`. -/
theorem dasmOperand_short {am : AddrMode} (hdirect : am ≠ .direct) (hextended : am ≠ .extended)
    (hindexed : am = .indexed → (absRead8 pc).toNat &&& 0x9f ≠ 0x9f) (husr : am ≠ .usrPost)
    (hsys : am ≠ .sysPost) : OperandIs (Short operandRoom) (dasmOperand absRead8 am) pc := by
  have hbyte := byte_plain absRead8 pc
  have hword := word_plain absRead8 pc
  cases am with
  | illegal => exact operandIs_pure ⟨by simp [text_plain], by decide⟩
  | implied => exact operandIs_pure ⟨List.forall_mem_nil _, Nat.zero_le _⟩
  | immByte =>
    refine operandIs_fetch8 absRead8 (operandIs_pure ⟨by simp [text_plain, hbyte], ?_⟩)
    simp only [List.map_cons, List.map_nil, List.sum_cons, List.sum_nil, most]
    decide
  | immWord =>
    refine operandIs_fetch16 absRead8 (operandIs_pure ⟨by simp [text_plain, hword], ?_⟩)
    simp only [List.map_cons, List.map_nil, List.sum_cons, List.sum_nil, most]
    decide
  | direct => exact absurd rfl hdirect
  | extended => exact absurd rfl hextended
  | indexed => exact dasmIndexed_short absRead8 (hindexed rfl)
  | relByte =>
    refine operandIs_fetch8 absRead8 (operandIs_pure ⟨?_, ?_⟩)
    · exact List.forall_mem_singleton.mpr (absoluteName_plain _)
    · simp [most, operandRoom]
  | relWord =>
    refine operandIs_fetch16 absRead8 (operandIs_pure ⟨?_, ?_⟩)
    · exact List.forall_mem_singleton.mpr (absoluteName_plain _)
    · simp [most, operandRoom]
  | regPost =>
    refine operandIs_fetch8 absRead8 (operandIs_pure ⟨by simp [text_plain], ?_⟩)
    have hhigh := reg_length ((absRead8 pc).toNat >>> 4)
    have hlow := reg_length ((absRead8 pc).toNat &&& 15)
    have hcomma : (Text.ofString ",").length = 1 := rfl
    simp only [List.map_cons, List.map_nil, List.sum_cons, List.sum_nil, most, operandRoom]
    omega
  | usrPost => exact absurd rfl husr
  | sysPost => exact absurd rfl hsys

/-! ## The whole text -/

theorem dasmOpcode_at (opc : ℕ) : ∃ op,
    dasmOpcode absRead8 opc = ((op, (opcodeAt absRead8 opc).1), (opcodeAt absRead8 opc).2) ∧
      (mne op = "SWI2" → (opcodeAt absRead8 opc).1 = .implied) := by
  have hcodes : ∀ b < 256, mne (codes b).1 ≠ "SWI2" := by decide +kernel
  have hcodes10 : ∀ b < 256, mne (codes10 b).1 = "SWI2" → (codes10 b).2 = .implied := by
    decide +kernel
  have hcodes11 : ∀ b < 256, mne (codes11 b).1 ≠ "SWI2" := by decide +kernel
  have hrun : dasmOpcode absRead8 opc = (if (absRead8 opc).toNat = 0x10 then do
        return codes10 (← fetch8 absRead8)
      else if (absRead8 opc).toNat = 0x11 then do return codes11 (← fetch8 absRead8)
      else return codes (absRead8 opc).toNat : DasmM (Opcode × AddrMode)) (opc + 1) := rfl
  rw [hrun, opcodeAt]
  split
  · exact ⟨_, rfl, hcodes10 _ (absRead8 (opc + 1)).isLt⟩
  · split
    · exact ⟨_, rfl, fun h => absurd h (hcodes11 _ (absRead8 (opc + 1)).isLt)⟩
    · refine ⟨(codes (absRead8 opc).toNat).1, ?_, fun h => absurd h (hcodes _ (absRead8 opc).isLt)⟩
      rw [Prod.mk.eta]
      rfl

/-- The mnemonic and the operand, or the name of a system call. -/
theorem dasm_pieces (os9call : Bool) (opc : ℕ) :
    (∃ name, (dasm absRead8 os9call opc).1 = .mnemonic name ::
        (dasmOperand absRead8 (opcodeAt absRead8 opc).1 (opcodeAt absRead8 opc).2).1) ∨
      (opcodeAt absRead8 opc).1 = .implied ∧
        Short (6 + operandRoom) (dasm absRead8 os9call opc).1 := by
  obtain ⟨op, hopcode, himplied⟩ := dasmOpcode_at absRead8 opc
  have hdasm : (dasm absRead8 os9call opc).1 =
      (dasmMnemonic absRead8 os9call op (opcodeAt absRead8 opc).2).1 ++
        (dasmOperand absRead8 (opcodeAt absRead8 opc).1
          (dasmMnemonic absRead8 os9call op (opcodeAt absRead8 opc).2).2).1 := by
    unfold dasm
    simp only [StateT.run, bind, StateT.bind, hopcode]
    rfl
  rw [hdasm]
  by_cases hcall : mne op = "SWI2" ∧ os9call
  · refine .inr ⟨himplied hcall.1, ?_⟩
    have hname : OperandIs (Short (6 + operandRoom)) (dasmMnemonic absRead8 os9call op)
        (opcodeAt absRead8 opc).2 := by
      rw [dasmMnemonic, if_pos hcall]
      refine operandIs_fetch8 absRead8 ?_
      have hop : (absRead8 (opcodeAt absRead8 opc).2).toNat < 16 ^ 2 := BitVec.isLt _
      split
      · exact operandIs_pure ⟨by simp [Plain], by simp [most, operandRoom]⟩
      · refine operandIs_pure ⟨by simpa [Plain] using hop, ?_⟩
        simp only [List.map_cons, List.map_nil, List.sum_cons, List.sum_nil, most]
        decide
    rw [himplied hcall.1]
    exact (List.append_nil _).symm ▸ hname
  · refine .inl ⟨mne op, ?_⟩
    rw [dasmMnemonic, if_neg hcall]
    rfl

variable {maps : BusMaps} {programSymtab : Symtab}

variable (maps programSymtab) in
theorem mnemonic_spells (name : String) :
    Spells maps programSymtab (.mnemonic name) (Text.clipped 6 (Text.ofString name)) :=
  ⟨nofun, rfl⟩

theorem short_fits {l : List Printed} (h : Short (6 + operandRoom) l) :
    (l.foldlM (Printed.write maps programSymtab) []).isSome = true := by
  obtain ⟨t, ht⟩ : ∃ t, l.foldlM (Printed.write maps programSymtab) [] = some ([] ++ t) :=
    h.fits maps programSymtab (by decide)
  rw [ht]
  rfl

/-- The pieces around the name of an address leave `k` characters for its symbol. -/
theorem named_fits_iff (hs : programSymtab.Named) {front back : List Printed} {fs bs : List Text}
    (hfront : List.Forall₂ (Spells maps programSymtab) front fs)
    (hback : List.Forall₂ (Spells maps programSymtab) back bs) {addr k : ℕ}
    (hk : fs.flatten.length + bs.flatten.length + k = 54) (ha : addr < 16 ^ 4) :
    ((front ++ .addrName addr :: back).foldlM (Printed.write maps programSymtab) []).isSome = true ↔
      programSymtab.RoomFor maps (addr, k) := by
  have hfits {u : Text} (hu : monitorAddrName maps programSymtab addr = some u) :
      ((front ++ .addrName addr :: back).foldlM (Printed.write maps programSymtab) []).isSome =
        true ↔ fs.flatten.length + bs.flatten.length + u.length < insnBuf := by
    have hspells : Spells maps programSymtab (.addrName addr) u := ⟨nofun, hu⟩
    have hall := List.rel_append hfront (.cons hspells hback)
    have hempty : ([] : Text).length < insnBuf := by decide
    rw [writeAll_eq hall hempty, Text.append_isSome, List.flatten_append, List.flatten_cons]
    simp only [List.length_append, List.length_nil]
    omega
  rcases hs.nameOf_cases (Access.toAbsolute maps addr) with ⟨hnone, hno⟩ | ⟨t, ht, hiff⟩
  · obtain ⟨u, hu, hlength⟩ := monitorAddrName_unnamed ha hnone
    refine iff_of_true ?_ fun t ht => absurd ht (hno t)
    rw [hfits hu, hlength, insnBuf]
    omega
  · have hnamed := monitorAddrName_named ha ht
    simp only [Symtab.RoomFor, hiff, forall_eq]
    rw [CString.length]
    split at hnamed
    · obtain ⟨u, hu, hlength⟩ := hnamed
      rw [hfits hu, hlength, insnBuf]
      omega
    · rw [writeAll_none (p := .addrName addr) (by simp) nofun hnamed]
      exact iff_of_false Bool.false_ne_true (by omega)

/-- Behind the mnemonic. -/
def operandFits (maps : BusMaps) (programSymtab : Symtab) (name : String) (l : List Printed) :
    Bool :=
  ((.mnemonic name :: l).foldlM (Printed.write maps programSymtab) []).isSome

theorem operand_short_fits {l : List Printed} (name : String) (h : Short operandRoom l) :
    operandFits maps programSymtab name l = true := by
  refine short_fits ⟨List.forall_mem_cons.mpr ⟨trivial, h.1⟩, ?_⟩
  rw [List.map_cons, List.sum_cons]
  exact Nat.add_le_add_left h.2 6

/-- When the last character is cut off, the mnemonic is there. -/
theorem stack_fits (name : String) {l : List Printed} (h : Short operandRoom l) :
    operandFits maps programSymtab name (l ++ [.cut]) = true := by
  have hlength := Text.clipped_length 6 (Text.ofString name)
  have hmnemonic : Printed.write maps programSymtab [] (.mnemonic name) =
      some (Text.clipped 6 (Text.ofString name)) := by
    have hspells := mnemonic_spells maps programSymtab name
    rw [write_eq hspells.1, hspells.2, Option.bind_some,
      Text.append_of_lt (by rw [hlength]; decide), List.nil_append]
  have hroom : (Text.clipped 6 (Text.ofString name)).length + operandRoom < insnBuf := by
    rw [hlength]
    decide
  obtain ⟨t, ht⟩ := h.fits maps programSymtab hroom
  have hne : Text.clipped 6 (Text.ofString name) ++ t ≠ [] := by
    intro hnil
    rw [(List.append_eq_nil_iff.mp hnil).1] at hlength
    cases hlength
  have hcut : Printed.write maps programSymtab (Text.clipped 6 (Text.ofString name) ++ t) .cut =
      some (Text.clipped 6 (Text.ofString name) ++ t).dropLast := if_neg hne
  rw [operandFits, List.foldlM_cons, hmnemonic, Option.bind_eq_bind, Option.bind_some,
    List.foldlM_append, ht, Option.bind_eq_bind, Option.bind_some, List.foldlM_cons, hcut]
  rfl

theorem operand_fits_iff (hs : programSymtab.Named) (name : String) (am : AddrMode) :
    operandFits maps programSymtab name (dasmOperand absRead8 am pc).1 = true ↔
      ∀ p ∈ namedOperand absRead8 pc am, programSymtab.RoomFor maps p := by
  have hmnemonic := mnemonic_spells maps programSymtab name
  have hlength := Text.clipped_length 6 (Text.ofString name)
  have htext (t : String) : Spells maps programSymtab (.text t) (Text.ofString t) := ⟨nofun, rfl⟩
  have hnone {l : List Printed} (h : operandFits maps programSymtab name l = true) :
      operandFits maps programSymtab name l = true ↔
        ∀ p ∈ (none : Option (ℕ × ℕ)), programSymtab.RoomFor maps p :=
    iff_of_true h fun p hp => by cases hp
  have hsome (q : ℕ × ℕ) : (∀ p ∈ some q, programSymtab.RoomFor maps p) ↔
      programSymtab.RoomFor maps q := by simp
  have hword := wordAt_lt absRead8
  cases am with
  | direct =>
    have hbyte : (absRead8 pc).toNat < 16 ^ 4 := Nat.lt_trans (absRead8 pc).isLt (by decide)
    have hopen : (Text.ofString "<").length = 1 := rfl
    refine .trans ?_ (hsome _).symm
    refine named_fits_iff hs (.cons hmnemonic (.cons (htext "<") .nil)) .nil ?_ hbyte
    simp [hlength, hopen]
  | extended =>
    refine .trans ?_ (hsome _).symm
    refine named_fits_iff hs (.cons hmnemonic .nil) .nil ?_ (hword pc)
    simp [hlength]
  | indexed =>
    by_cases hindirect : (absRead8 pc).toNat &&& 0x9f = 0x9f
    · have hprinted : (dasmOperand absRead8 .indexed pc).1 =
          [.text "[", .addrName (wordAt absRead8 (pc + 1)), .text "]"] :=
        dasmIndexed_indirect absRead8 hindirect
      have hopen : (Text.ofString "[").length = 1 := rfl
      have hclose : (Text.ofString "]").length = 1 := rfl
      rw [hprinted, namedOperand, if_pos hindirect]
      refine .trans ?_ (hsome _).symm
      refine named_fits_iff hs (.cons hmnemonic (.cons (htext "[") .nil)) (.cons (htext "]") .nil)
        ?_ (hword (pc + 1))
      simp [hlength, hopen, hclose]
    · rw [namedOperand, if_neg hindirect]
      exact hnone (operand_short_fits name (dasmIndexed_short absRead8 hindirect))
  | usrPost =>
    obtain ⟨l, hl, hshort⟩ := dasmStack_short absRead8 pc "S," rfl
    have hprinted : (dasmOperand absRead8 .usrPost pc).1 = l ++ [.cut] := hl
    rw [hprinted]
    exact hnone (stack_fits name hshort)
  | sysPost =>
    obtain ⟨l, hl, hshort⟩ := dasmStack_short absRead8 pc "U," rfl
    have hprinted : (dasmOperand absRead8 .sysPost pc).1 = l ++ [.cut] := hl
    rw [hprinted]
    exact hnone (stack_fits name hshort)
  | _ =>
    refine hnone (operand_short_fits name (dasmOperand_short absRead8 ?_ ?_ ?_ ?_ ?_)) <;> nofun

theorem dasmText_isSome_iff (maps : BusMaps) {s : Symtab} (hs : s.Named) (os9call : Bool)
    (opc : ℕ) :
    (dasmText maps s absRead8 os9call opc).isSome = true ↔ NameFits absRead8 maps s opc := by
  rw [dasmText, NameFits]
  rcases dasm_pieces absRead8 os9call opc with ⟨name, hname⟩ | ⟨himplied, hshort⟩
  · rw [hname]
    exact operand_fits_iff absRead8 hs name _
  · rw [himplied]
    exact iff_of_true (short_fits hshort) fun p hp => by cases hp

/-- The symbols of a map file. -/
theorem loaded_dasmText_isSome_iff {signed : Bool} {maps : BusMaps} {file : Option Text}
    {calls : List (Option SymCall)} {s : Symtab}
    (hload : loadMapFile signed maps file (Symtab.init emptySpaces noSymbol) = .ok calls s)
    (os9call : Bool) (opc : ℕ) :
    (dasmText maps s absRead8 os9call opc).isSome = true ↔ NameFits absRead8 maps s opc :=
  dasmText_isSome_iff absRead8 maps
    (loadMapFile_named (Symtab.init_named (Nat.zero_le _) noSymbol) hload) os9call opc

/-- What `dasm` writes for any memory, with or without system calls and with any symbols, stays in
the array exactly if the symbol of its operand has a name for which there is room. -/
theorem insn_text_fits_iff (maps : BusMaps) (s : NamedSymtab) (os9call : Bool) (opc : ℕ) :
    (dasmText maps s.toSymtab absRead8 os9call opc).isSome = true ↔
      NameFits absRead8 maps s.toSymtab opc :=
  dasmText_isSome_iff absRead8 maps s.named os9call opc

end

/-- `JMP $0100`. -/
def jumpCode : ℕ → BitVec 8 := fun addr => [0x7e, 0x01, 0x00].getD addr 0

/-- A line for the symbol of this address, with a name of 49 characters. -/
def longLine : Text :=
  Text.ofString "Symbol: " ++ List.replicate 49 0x61 ++ Text.ofString " (f.o) = 0100\n"

/-- The name of a symbol that a map file gives is too long. -/
theorem insn_text_overflows : ¬∀ (signed : Bool) (maps : BusMaps) (file : Text)
    (calls : List (Option SymCall)) (s : Symtab),
    loadMapFile signed maps (some file) (Symtab.init emptySpaces noSymbol) = .ok calls s →
      ∀ (absRead8 : ℕ → BitVec 8) (os9call : Bool) (opc : ℕ),
        (dasmText maps s absRead8 os9call opc).isSome = true := by
  intro h
  have hreturns : returned (loadMapFile true initialBusmaps (some longLine)
      (Symtab.init emptySpaces noSymbol)) = true := by decide +kernel
  have hover : (dasmText initialBusmaps (finalState (loadMapFile true initialBusmaps (some longLine)
      (Symtab.init emptySpaces noSymbol))) jumpCode false 0).isSome = false := by decide +kernel
  obtain ⟨calls, hload⟩ := exists_ok_finalState hreturns
  have hfits := h true initialBusmaps longLine calls _ hload jumpCode false 0
  rw [hover] at hfits
  exact Bool.false_ne_true hfits

end Exec09.Debugger
