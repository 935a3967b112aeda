import Exec09.Cpu.State
import Exec09.Foundation.CText

/-! # The command line

`parse_args` goes over the arguments from left to right. A short option takes
the next argument as its value, a long one what follows an equals sign, and the
first argument that is no option names the program.
-/
namespace Exec09.Main
open Foundation

/-- The `int` variables that options set. `cycles_per_tick` is unsigned, but set as an `int`. -/
inductive IntOption
  | debugEnabled | binary | machineRealtime | cyclesPerTick | dumpCyclesOnSuccess | os9call
  | traceEnabled | maxCycles | serialDeviceBaud | machinePersistent
  deriving DecidableEq, Repr

inductive StringOption
  | machineName | serialDevicePath
  deriving DecidableEq, Repr

/-- `struct option`, without the help text and `can_negate`, which nothing reads. -/
structure OptionEntry where
  short : BitVec 8
  long : Text
  takesArg : Bool
  intValue : Option IntOption
  defaultValue : BitVec 32
  stringValue : Option StringOption
  /-- The handler is `do_help`. -/
  help : Bool
  deriving DecidableEq, Repr

/-- An entry without a variable of its own. -/
def OptionEntry.plain (short : Char) (long : String) (takesArg : Bool) : OptionEntry :=
  ⟨BitVec.ofNat 8 short.toNat, Text.ofString long, takesArg, none, 0, none, false⟩

def OptionEntry.int (short : Char) (long : String) (takesArg : Bool) (i : IntOption)
    (default : BitVec 32) : OptionEntry :=
  { OptionEntry.plain short long takesArg with intValue := some i, defaultValue := default }

def OptionEntry.string (short : Char) (long : String) (v : StringOption) : OptionEntry :=
  { OptionEntry.plain short long true with stringValue := some v }

def optionTable : List OptionEntry :=
  [.int 'd' "debug" false .debugEnabled 1,
    { OptionEntry.plain 'h' "help" false with help := true },
    .int 'b' "binary" false .binary 1,
    .plain 'M' "mhz" true,
    .plain '-' "68a09" false,
    .plain '-' "68b09" false,
    .int 'R' "realtime" false .machineRealtime 0,
    .int 'I' "tIckfreq" true .cyclesPerTick 0,
    .int 'C' "cycledump" false .dumpCyclesOnSuccess 1,
    .int 'o' "os9call" false .os9call 1,
    .plain 't' "loadmap" false,
    .int 'T' "trace" false .traceEnabled 1,
    .int 'm' "maxcycles" true .maxCycles 0,
    .string 's' "machine" .machineName,
    .string '-' "serial-device" .serialDevicePath,
    .int '-' "serial-baud" true .serialDeviceBaud 0,
    .int 'p' "persistent" false .machinePersistent 1]

/-- The variables, and the options that were not recognised, latest first. -/
structure Settings where
  ints : IntOption → BitVec 32
  strings : StringOption → Option Text
  progName : Option Text
  unrecognized : List Text

/-- The variables as they are initialised. -/
def Settings.initial : Settings where
  ints
    | .maxCycles => 0x7FFFFFFF
    | .serialDeviceBaud => 38400
    | _ => 0
  strings
    | .machineName => some (Text.ofString "simple")
    | .serialDevicePath => none
  progName := none
  unrecognized := []

abbrev ArgsM := EStateM Stop Settings

def Settings.setInt (i : IntOption) (v : BitVec 32) (s : Settings) : Settings :=
  { s with ints := fun j => if j = i then v else s.ints j }

def Settings.setString (i : StringOption) (v : Text) (s : Settings) : Settings :=
  { s with strings := fun j => if j = i then some v else s.strings j }

/-- `strtoul`, kept as an `int`. -/
def intArg (arg : Text) : BitVec 32 := ((Text.strtoul 0 arg).getD 0).setWidth 32

/-- What an option does to the variables, and true if an argument was taken. -/
def OptionEntry.assign (opt : OptionEntry) (arg : Option Text) (s : Settings) : Bool × Settings :=
  match opt.takesArg, arg with
  | true, none => (false, s)
  | true, some arg =>
    match opt.intValue, opt.stringValue with
    | some i, _ => (true, s.setInt i (intArg arg))
    | none, some i => (true, s.setString i arg)
    | none, none => (true, s)
  | false, _ =>
    match opt.intValue with
    | some i => (false, s.setInt i opt.defaultValue)
    | none => (false, s)

/-- True if an argument was taken. -/
def processOption (opt : OptionEntry) (arg : Option Text) : ArgsM Bool := do
  let taken ← modifyGet (opt.assign arg)
  -- `do_help` prints the options and exits
  if opt.help then throw (.exit 0)
  return taken

def processPlainArgument (arg : Text) : ArgsM Unit :=
  modify fun s => { s with progName := s.progName.or (some arg) }

def unrecognizedOption (name : Text) : ArgsM Unit :=
  modify fun s => { s with unrecognized := name :: s.unrecognized }

def dash : BitVec 8 := 45

/-- The name in a long option, and the value behind the equals sign. -/
def longParts (t : Text) : Text × Option Text :=
  match Text.splitChar 61 t with
  | some (name, value) => (name, some value)
  | none => (t, none)

/-- The name is looked up in the table. True if the option has taken the next argument. -/
def parseLong (t : Text) : ArgsM Bool :=
  match optionTable.find? (·.long = (longParts t).1) with
  | some opt => do
    let _ ← processOption opt (longParts t).2
    return false
  | none => do
    unrecognizedOption (longParts t).1
    return false

def parseShort (t : Text) (next : Option Text) : ArgsM Bool :=
  match t.head?.bind fun c => optionTable.find? (·.short = c) with
  | some opt => processOption opt next
  | none => do
    unrecognizedOption (t.take 1)
    return false

def parseArg (arg : Text) (next : Option Text) : ArgsM Bool :=
  if arg.head? = some dash then
    if arg.tail.head? = some dash then parseLong arg.tail.tail else parseShort arg.tail next
  else do
    processPlainArgument arg
    return false

/-- The loop of `parse_args`. The first argument is skipped if the option before has taken it. -/
def parseArgs : Bool → List Text → ArgsM Unit
  | _, [] => pure ()
  | true, _ :: rest => parseArgs false rest
  | false, arg :: rest => do
    let taken ← parseArg arg rest.head?
    parseArgs taken rest

/-! ## Command lines -/

/-- A part of a command line. -/
inductive Item
  | flag (opt : OptionEntry) (long : Bool)
  | value (opt : OptionEntry) (long : Bool) (text : Text)
  /-- A long option that wants a value, without one. -/
  | bare (opt : OptionEntry)
  | unknown (long : Bool) (text : Text)
  | program (text : Text)

namespace Item

/-- How the part is written. -/
def render : Item → List Text
  | flag opt long => if long then [dash :: dash :: opt.long] else [[dash, opt.short]]
  | value opt long text =>
    if long then [dash :: dash :: (opt.long ++ 61 :: text)] else [[dash, opt.short], text]
  | bare opt => [dash :: dash :: opt.long]
  | unknown long text => if long then [dash :: dash :: text] else [dash :: text]
  | program text => [text]

/-- An option that has this form. -/
structure Takes (opt : OptionEntry) (takesArg long : Bool) : Prop where
  listed : opt ∈ optionTable
  takesArg : opt.takesArg = takesArg
  noHelp : opt.help = false
  short : long = false → opt.short ≠ dash

def Valid : Item → Prop
  | flag opt long => Takes opt false long
  | value opt long _ => Takes opt true long
  | bare opt => Takes opt true true
  | unknown true text => optionTable.find? (·.long = (longParts text).1) = none
  | unknown false text => text.head? ≠ some dash ∧
      (text.head?.bind fun c => optionTable.find? (·.short = c)) = none
  | program text => text.head? ≠ some dash

/-- The value that the part gives to a variable. -/
def setsInt (i : IntOption) : Item → Option (BitVec 32)
  | flag opt _ => if opt.intValue = some i then some opt.defaultValue else none
  | value opt _ text => if opt.intValue = some i then some (intArg text) else none
  | bare _ | unknown _ _ | program _ => none

def setsString (i : StringOption) : Item → Option Text
  | value opt _ text => if opt.intValue = none ∧ opt.stringValue = some i then some text else none
  | flag _ _ | bare _ | unknown _ _ | program _ => none

def program? : Item → Option Text
  | program text => some text
  | flag _ _ | value _ _ _ | bare _ | unknown _ _ => none

/-- The name that is reported as not recognised. -/
def unknown? : Item → Option Text
  | unknown long text => some (if long then (longParts text).1 else text.take 1)
  | flag _ _ | value _ _ _ | bare _ | program _ => none

/-- The settings after the part. -/
def apply (x : Item) (s : Settings) : Settings where
  ints i := (x.setsInt i).getD (s.ints i)
  strings i := (x.setsString i).or (s.strings i)
  progName := s.progName.or x.program?
  unrecognized := x.unknown?.toList ++ s.unrecognized

end Item

/-- The settings after a command line. -/
def settled (items : List Item) (s : Settings) : Settings where
  ints i := ((items.filterMap (Item.setsInt i)).getLast?).getD (s.ints i)
  strings i := ((items.filterMap (Item.setsString i)).getLast?).or (s.strings i)
  progName := s.progName.or (items.filterMap Item.program?).head?
  unrecognized := (items.filterMap Item.unknown?).reverse ++ s.unrecognized

theorem settled_nil (s : Settings) : settled [] s = s := by
  simp [settled]

theorem settled_cons (x : Item) (items : List Item) (s : Settings) :
    settled (x :: items) s = settled items (x.apply s) := by
  have hlast {α : Type} (f : Item → Option α) :
      ((x :: items).filterMap f).getLast? = (items.filterMap f).getLast?.or (f x) := by
    cases hx : f x with
    | none => rw [List.filterMap_cons_none hx, Option.or_none]
    | some v =>
      rw [List.filterMap_cons_some hx, List.getLast?_cons, Option.or_some]
  have hhead {α : Type} (f : Item → Option α) :
      ((x :: items).filterMap f).head? = (f x).or (items.filterMap f).head? := by
    cases hx : f x with
    | none => rw [List.filterMap_cons_none hx, Option.none_or]
    | some v => rw [List.filterMap_cons_some hx, List.head?_cons, Option.some_or]
  have hall {α : Type} (f : Item → Option α) :
      ((x :: items).filterMap f).reverse = (items.filterMap f).reverse ++ (f x).toList := by
    cases hx : f x with
    | none => rw [List.filterMap_cons_none hx, Option.toList_none, List.append_nil]
    | some v => rw [List.filterMap_cons_some hx, List.reverse_cons, Option.toList_some]
  simp only [settled, Item.apply, hlast, hhead, hall, Option.or_assoc, List.append_assoc]
  congr
  funext i
  cases (items.filterMap (Item.setsInt i)).getLast? <;> rfl

/-! ## Options -/

/-- The names in the table are different, and no name has an equals sign. -/
theorem find_long {opt : OptionEntry} (h : opt ∈ optionTable) :
    optionTable.find? (·.long = opt.long) = some opt ∧ Text.splitChar 61 opt.long = none := by
  have hall : ∀ opt ∈ optionTable,
      optionTable.find? (·.long = opt.long) = some opt ∧ Text.splitChar 61 opt.long = none := by
    decide
  exact hall opt h

theorem find_short {opt : OptionEntry} (h : opt ∈ optionTable) (hshort : opt.short ≠ dash) :
    optionTable.find? (·.short = opt.short) = some opt := by
  have hall : ∀ opt ∈ optionTable, opt.short ≠ dash →
      optionTable.find? (·.short = opt.short) = some opt := by
    decide
  exact hall opt h hshort

theorem splitChar_append {c : BitVec 8} {t u : Text} (h : Text.splitChar c t = none) :
    Text.splitChar c (t ++ c :: u) = some (t, u) := by
  induction t with
  | nil => simp [Text.splitChar]
  | cons d t ih =>
    rw [Text.splitChar] at h
    split at h
    · cases h
    · rename_i hd
      rw [List.cons_append, Text.splitChar, if_neg hd, ih (Option.map_eq_none_iff.mp h)]
      rfl

theorem longParts_plain {opt : OptionEntry} (h : opt ∈ optionTable) :
    longParts opt.long = (opt.long, none) := by
  rw [longParts, (find_long h).2]

theorem longParts_value {opt : OptionEntry} (h : opt ∈ optionTable) (text : Text) :
    longParts (opt.long ++ 61 :: text) = (opt.long, some text) := by
  rw [longParts, splitChar_append (find_long h).2]

/-- An option that is not `-h` only sets variables. -/
theorem processOption_assign {opt : OptionEntry} (hhelp : opt.help = false) (arg : Option Text)
    (s : Settings) : processOption opt arg s = .ok (opt.assign arg s).1 (opt.assign arg s).2 := by
  rw [processOption, hhelp]
  rfl

theorem setInt_ints (s : Settings) (i : IntOption) (v : BitVec 32) : (fun j =>
    (if some i = some j then some v else none).getD (s.ints j)) = (s.setInt i v).ints := by
  funext j
  by_cases hj : j = i
  · simp [Settings.setInt, hj]
  · simp [Settings.setInt, hj, Ne.symm hj]

theorem setString_strings (s : Settings) (i : StringOption) (v : Text) : (fun j =>
    (if some i = some j then some v else none).or (s.strings j)) = (s.setString i v).strings := by
  funext j
  by_cases hj : j = i
  · simp [Settings.setString, hj]
  · simp [Settings.setString, hj, Ne.symm hj]

theorem assign_flag {opt : OptionEntry} {long : Bool} (h : opt.takesArg = false)
    (arg : Option Text) (s : Settings) :
    opt.assign arg s = (false, (Item.flag opt long).apply s) := by
  have hsettings : (Item.flag opt long).apply s = match opt.intValue with
      | some i => s.setInt i opt.defaultValue
      | none => s := by
    cases hint : opt.intValue with
    | none => simp [Item.apply, Item.setsInt, Item.setsString, Item.program?, Item.unknown?, hint]
    | some i =>
      simp only [Item.apply, Item.setsInt, hint, setInt_ints]
      simp [Item.setsString, Item.program?, Item.unknown?, Settings.setInt]
  rw [hsettings]
  simp only [OptionEntry.assign, h]
  cases opt.intValue <;> rfl

theorem assign_value {opt : OptionEntry} {long : Bool} (h : opt.takesArg = true) (text : Text)
    (s : Settings) : opt.assign (some text) s = (true, (Item.value opt long text).apply s) := by
  have hsettings : (Item.value opt long text).apply s = match opt.intValue, opt.stringValue with
      | some i, _ => s.setInt i (intArg text)
      | none, some i => s.setString i text
      | none, none => s := by
    cases hint : opt.intValue with
    | some i =>
      simp only [Item.apply, Item.setsInt, hint, setInt_ints]
      simp [Item.setsString, Item.program?, Item.unknown?, Settings.setInt, hint]
    | none =>
      cases hstring : opt.stringValue with
      | none =>
        simp [Item.apply, Item.setsInt, Item.setsString, Item.program?, Item.unknown?, hint, hstring]
      | some i =>
        simp only [Item.apply, Item.setsString, hint, hstring, true_and, setString_strings]
        simp [Item.setsInt, Item.program?, Item.unknown?, Settings.setString, hint]
  rw [hsettings]
  simp only [OptionEntry.assign, h]
  cases opt.intValue <;> cases opt.stringValue <;> rfl

theorem assign_bare {opt : OptionEntry} (h : opt.takesArg = true) (s : Settings) :
    opt.assign none s = (false, (Item.bare opt).apply s) := by
  simp [OptionEntry.assign, h, Item.apply, Item.setsInt, Item.setsString, Item.program?,
    Item.unknown?]

/-! ## Arguments -/

theorem parseArgs_cons {arg : Text} {rest : List Text} {b : Bool} {s u : Settings}
    (h : parseArg arg rest.head? s = .ok b u) :
    parseArgs false (arg :: rest) s = parseArgs b rest u := run_bind_ok h

theorem parseArg_dashes (t : Text) (next : Option Text) :
    parseArg (dash :: dash :: t) next = parseLong t := rfl

theorem parseArg_dash {t : Text} (h : t.head? ≠ some dash) (next : Option Text) :
    parseArg (dash :: t) next = parseShort t next := if_neg h

theorem parseArg_plain {t : Text} (h : t.head? ≠ some dash) (next : Option Text) (s : Settings) :
    parseArg t next s = .ok false ((Item.program t).apply s) := by
  have hplain : parseArg t next = (do processPlainArgument t; return false) := if_neg h
  rw [hplain]
  rfl

theorem apply_unknown (long : Bool) (text : Text) (s : Settings) :
    (Item.unknown long text).apply s = { s with
      unrecognized := (if long then (longParts text).1 else text.take 1) :: s.unrecognized } := by
  simp [Item.apply, Item.setsInt, Item.setsString, Item.program?, Item.unknown?]

theorem parseArg_long {t name : Text} {value : Option Text} {opt : OptionEntry} {b : Bool}
    {s u : Settings} (next : Option Text) (hparts : longParts t = (name, value))
    (hlisted : opt ∈ optionTable) (hname : name = opt.long) (hhelp : opt.help = false)
    (hassign : opt.assign value s = (b, u)) :
    parseArg (dash :: dash :: t) next s = .ok false u := by
  have hrun : processOption opt value s = .ok b u := by
    rw [processOption_assign hhelp, hassign]
  rw [parseArg_dashes, parseLong, hparts, hname, (find_long hlisted).1]
  exact run_bind_ok hrun

theorem parseArg_short {opt : OptionEntry} {b : Bool} {s u : Settings} {next : Option Text}
    (hlisted : opt ∈ optionTable) (hshort : opt.short ≠ dash) (hhelp : opt.help = false)
    (hassign : opt.assign next s = (b, u)) :
    parseArg [dash, opt.short] next s = .ok b u := by
  have hname : ([opt.short] : Text).head? ≠ some dash := by simpa using hshort
  rw [parseArg_dash hname, parseShort, List.head?_cons, Option.bind_some,
    find_short hlisted hshort]
  exact (processOption_assign hhelp next s).trans (by rw [hassign])

theorem parseArgs_item {x : Item} (hx : x.Valid) (rest : List Text) (s : Settings) :
    parseArgs false (x.render ++ rest) s = parseArgs false rest (x.apply s) := by
  cases x with
  | flag opt long =>
    have hassign (arg : Option Text) :
        opt.assign arg s = (false, (Item.flag opt long).apply s) := assign_flag hx.takesArg arg s
    cases long with
    | false =>
      exact parseArgs_cons (parseArg_short hx.listed (hx.short rfl) hx.noHelp (hassign _))
    | true =>
      exact parseArgs_cons (parseArg_long _ (longParts_plain hx.listed) hx.listed rfl hx.noHelp
        (hassign _))
  | value opt long text =>
    have hassign : opt.assign (some text) s = (true, (Item.value opt long text).apply s) :=
      assign_value hx.takesArg text s
    cases long with
    | false =>
      have hfirst := parseArg_short hx.listed (hx.short rfl) hx.noHelp hassign
      exact parseArgs_cons (show parseArg _ (text :: rest).head? s = _ from hfirst)
    | true =>
      exact parseArgs_cons (parseArg_long _ (longParts_value hx.listed text) hx.listed rfl
        hx.noHelp hassign)
  | bare opt =>
    exact parseArgs_cons (parseArg_long _ (longParts_plain hx.listed) hx.listed rfl hx.noHelp
      (assign_bare hx.takesArg s))
  | unknown long text =>
    cases long with
    | true =>
      have hfind : optionTable.find? (·.long = (longParts text).1) = none := hx
      apply parseArgs_cons
      rw [parseArg_dashes, parseLong, hfind, apply_unknown]
      rfl
    | false =>
      obtain ⟨hdash, hfind⟩ := hx
      apply parseArgs_cons
      rw [parseArg_dash hdash, parseShort, hfind, apply_unknown]
      rfl
  | program text => exact parseArgs_cons (parseArg_plain hx _ s)

/-- For each variable the last option that sets it counts, the program is the first argument that
is no option, and every unknown option is reported, in order. -/
theorem parseArgs_settled (items : List Item) (hvalid : ∀ x ∈ items, x.Valid) (s : Settings) :
    parseArgs false (items.flatMap Item.render) s = .ok () (settled items s) := by
  induction items generalizing s with
  | nil => rw [settled_nil]; rfl
  | cons x items ih =>
    rw [List.flatMap_cons, parseArgs_item (hvalid x List.mem_cons_self),
      ih fun y hy => hvalid y (List.mem_cons_of_mem x hy), settled_cons]

/-- `-m 5 --machine=smii -q prog -m 0x64` -/
def exampleItems : List Item :=
  [.value (.int 'm' "maxcycles" true .maxCycles 0) false (Text.ofString "5"),
    .value (.string 's' "machine" .machineName) true (Text.ofString "smii"),
    .unknown false (Text.ofString "q"),
    .program (Text.ofString "prog"),
    .value (.int 'm' "maxcycles" true .maxCycles 0) false (Text.ofString "0x64")]

theorem parseArgs_settled_example : ∃ s, parseArgs false
    (["-m", "5", "--machine=smii", "-q", "prog", "-m", "0x64"].map Text.ofString) Settings.initial
      = .ok () s ∧ s.ints .maxCycles = 100 ∧ s.strings .machineName = some (Text.ofString "smii") ∧
    s.progName = some (Text.ofString "prog") ∧ s.unrecognized = [Text.ofString "q"] :=
  ⟨settled exampleItems .initial,
    parseArgs_settled exampleItems (by
      rintro x hx
      simp only [exampleItems, List.mem_cons, List.not_mem_nil, or_false] at hx
      obtain rfl | rfl | rfl | rfl | rfl := hx
      · exact ⟨by decide, rfl, rfl, by decide⟩
      · exact ⟨by decide, rfl, rfl, by decide⟩
      · exact ⟨by decide, by decide⟩
      · exact (by decide : (Text.ofString "prog").head? ≠ some dash)
      · exact ⟨by decide, rfl, rfl, by decide⟩) .initial,
    by decide, by decide, by decide, by decide⟩

end Exec09.Main
