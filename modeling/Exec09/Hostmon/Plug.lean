import Exec09.Hostmon.Commands

/-! # The arguments of `plug`

`plug` has up to four optional arguments and makes a command line of another
command of them, by their positions. What stands before an absent argument is
taken for it, the wait gets no `--wait-ms` before it, and the options after the
arguments are lost.
-/
namespace Exec09.Hostmon
open Foundation

/-- A decimal number, with a sign or without one. -/
def isNumber (t : Text) : Bool := (Text.sign t).2 != [] && (Text.sign t).2.all Text.isDigit

/-- A number as a word of a command line. -/
abbrev Number := { t : Text // isNumber t = true }

/-- Bytes as a word of a command line. -/
abbrev HexBytes := { t : Text // 0 < (parseHexBytes t HOSTMON_MAX_HEX).1 }

namespace HexBytes

def bytes (h : HexBytes) : List Byte := (parseHexBytes h.val HOSTMON_MAX_HEX).2

/-- The bytes of the default. -/
def probe : HexBytes := ⟨[48, 48], by decide⟩

end HexBytes

/-- `plug` with its arguments in the documented order. -/
structure PlugLine where
  prog : Text
  dev : Text
  hex : Option HexBytes
  readLen : Option Number
  waitMs : Option Number
  baud : Option Number

namespace PlugLine

def argv (l : PlugLine) : List Text :=
  [l.prog, Text.ofString "plug", l.dev] ++ (l.hex.map Subtype.val).toList ++
    (l.readLen.map Subtype.val).toList ++ (l.waitMs.map Subtype.val).toList ++
    (l.baud.map fun n => [baudOption, n.val]).getD []

/-- What the command line says. -/
def intended (cfg : Setting) (l : PlugLine) : Call :=
  let (dev, baud) := resolveTarget cfg l.dev DEFAULT_BAUD
  { dev := dev
    tx := (l.hex.getD HexBytes.probe).bytes
    readlen := (l.readLen.map fun n => Text.atoi n.val).getD 16
    waitMs := (l.waitMs.map fun n => Text.atoi n.val).getD 50
    baud := (l.baud.map fun n => Text.atoi n.val).getD baud
    compareLoopback := false }

/-- The bytes are taken, or they are those of the default. -/
def Taken (h : HexBytes) : Prop := isOption h.val = false ∨ h.bytes = [0]

/-- The combinations that are understood, and the values with which others make no difference. -/
def Understood (cfg : Setting) (l : PlugLine) : Prop :=
  let baud := (resolveTarget cfg l.dev DEFAULT_BAUD).2
  match l.hex, l.readLen, l.waitMs, l.baud with
  | none, none, none, none => True
  | some h, none, none, none => Taken h
  | some h, some _, none, none => Taken h
  | some h, some _, some w, none => Taken h ∧ Text.atoi w.val = 80
  | some h, some _, none, some n => Taken h ∧ Text.atoi n.val = baud
  | none, none, none, some n => Text.atoi n.val = 16 ∧ baud = 16
  | _, _, _, _ => False

end PlugLine

/-! ## Numbers -/

theorem isDigit_decimal : ∀ c : Byte, Text.isDigit c = true → c ≠ 45 ∧ isSeparator c = false ∧
    isHexDigit c = true := by
  decide

/-- A number has a sign or none, and digits. -/
theorem number_cases (n : Number) : ∃ ds : Text, ds ≠ [] ∧ (∀ c ∈ ds, Text.isDigit c = true) ∧
    (n.val = ds ∨ n.val = 43 :: ds ∨ n.val = 45 :: ds) := by
  obtain ⟨t, ht⟩ := n
  rw [isNumber, Bool.and_eq_true, bne_iff_ne, List.all_eq_true] at ht
  refine ⟨(Text.sign t).2, ht.1, ht.2, ?_⟩
  unfold Text.sign
  split
  · exact .inr (.inl rfl)
  · exact .inr (.inr rfl)
  · exact .inl rfl

theorem number_not_option (n : Number) : isOption n.val = false := by
  obtain ⟨ds, hne, hds, h⟩ := number_cases n
  obtain ⟨c, ds, rfl⟩ := List.exists_cons_of_ne_nil hne
  have hc : (45 == c) = false := by
    rw [beq_eq_false_iff_ne]
    exact (isDigit_decimal c (hds c List.mem_cons_self)).1.symm
  rcases h with h | h | h
  · rw [isOption, h, List.isPrefixOf_cons_cons, hc]
    rfl
  · rw [h]
    rfl
  · rw [isOption, h, List.isPrefixOf_cons_cons, List.isPrefixOf_cons_cons, hc]
    rfl

/-- What is left of digits are the digits. -/
theorem stripped_decimal {ds : Text} (hds : ∀ c ∈ ds, Text.isDigit c = true) : Plain ds ∧
    stripped ds = ds := by
  induction ds with
  | nil => exact ⟨by simp [Plain], rfl⟩
  | cons c ds ih =>
    have hhex := (isDigit_decimal c (hds c List.mem_cons_self)).2.2
    obtain ⟨hplain, htail⟩ := ih fun d hd => hds d (List.mem_cons_of_mem c hd)
    exact ⟨plain_cons (.inr hhex) ds, by rw [stripped_digit hhex hplain, htail]⟩

theorem decimal_zero : ∀ c d : Fin 10, ((Text.strtoul 16
    [BitVec.ofNat 8 (48 + c), BitVec.ofNat 8 (48 + d)]).getD 0).setWidth 8 = (0 : Byte) →
      c = 0 ∧ d = 0 := by
  decide +kernel

theorem exists_decimal :
    ∀ c : Byte, Text.isDigit c = true → ∃ d : Fin 10, c = BitVec.ofNat 8 (48 + d) := by
  decide +kernel

/-- The digits of a number read as the single byte 0. -/
theorem digits_of_zero {ds : Text} (hds : ∀ c ∈ ds, Text.isDigit c = true)
    (h : bytesOf ds = [0]) (heven : ds.length % 2 = 0) : ds = [48, 48] := by
  have hlength := bytesOf_length ds heven
  rw [h, List.length_singleton] at hlength
  obtain ⟨c, d, rfl⟩ := List.length_eq_two.mp hlength.symm
  obtain ⟨a, rfl⟩ := exists_decimal c (hds c (by simp))
  obtain ⟨b, rfl⟩ := exists_decimal d (hds d (by simp))
  obtain ⟨rfl, rfl⟩ := decimal_zero a b (List.cons.inj h).1
  rfl

/-- A number read as bytes that are zero is zero. -/
theorem atoi_of_zero (n : Number) (h : (parseHexBytes n.val HOSTMON_MAX_HEX).2 = [0]) :
    Text.atoi n.val = 0 := by
  obtain ⟨ds, -, hds, hn⟩ := number_cases n
  obtain ⟨hplain, hstripped⟩ := stripped_decimal hds
  rw [parseHexBytes_eq] at h
  split_ifs at h with hparsed
  · have hbytes : bytesOf (stripped n.val) = [0] := h
    obtain ⟨hdigits, -, -, heven, -⟩ := hparsed
    rcases hn with hn | hn | hn
    · rw [hn, hstripped] at hbytes heven
      rw [hn, digits_of_zero hds hbytes heven]
      decide
    · have hplus : stripped n.val = _ := (congrArg stripped hn).trans
        (stripped_other (by decide) (deletePrefixes_cons fun h => absurd h (by decide)))
      rw [hplus] at hdigits
      exact absurd (List.all_eq_true.mp hdigits 43 List.mem_cons_self) (by decide)
    · rw [hn, stripped_separator (by decide) (deletePrefixes_cons fun h => absurd h (by decide)),
        hstripped] at hbytes heven
      rw [hn, digits_of_zero hds hbytes heven]
      decide

/-! ## The call that is made -/

/-- The word in a position of the optional arguments, or a default. -/
def wordAt (words : List Text) (i : ℕ) (default : Text) : Text :=
  if i < words.length && !isOption (words.getD i []) then words.getD i [] else default

/-- The call with the two words taken for the bytes and the read length. -/
def callWith (cfg : Setting) (dev hex readLen : Text) (waitMs : ℤ) : Leads :=
  if (parseHexBytes hex HOSTMON_MAX_HEX).1 < 0 then .returns 2
  else .calls ⟨(resolveTarget cfg dev DEFAULT_BAUD).1, (parseHexBytes hex HOSTMON_MAX_HEX).2,
    Text.atoi readLen, waitMs, (resolveTarget cfg dev DEFAULT_BAUD).2, false⟩

variable {cfg : Setting} {prog dev : Text} (words : List Text)

theorem given_word (prog dev : Text) (i : ℕ) :
    given (prog :: Text.ofString "plug" :: dev :: words) (i + 3) =
      (i < words.length && !isOption (words.getD i [])) := by
  simp [given]

theorem cmdTransceive_words (cfg : Setting) (prog dev hex readLen : Text) {options : List Text}
    {waitMs : ℤ} (hscan : ∀ baud, scanOptions 80 baud options = (waitMs, baud)) :
    cmdTransceive cfg ([prog, Text.ofString "transceive", dev, hex, readLen] ++ options) =
      callWith cfg dev hex readLen waitMs := by
  have hargc : ¬([prog, Text.ofString "transceive", dev, hex, readLen] ++ options).length < 5 := by
    simp
  have hdrop : ([prog, Text.ofString "transceive", dev, hex, readLen] ++ options).drop 5 =
      options := rfl
  rw [cmdTransceive, if_neg hargc, callWith]
  simp only [hdrop, hscan]
  rfl

/-- The command line made of the words in the first three positions. -/
theorem fakeArgv_words (prog dev : Text) (words : List Text) :
    fakeArgv (prog :: Text.ofString "plug" :: dev :: words) =
      [prog, Text.ofString "transceive", dev, wordAt words 0 (Text.ofString "00"),
        wordAt words 1 (Text.ofString "16")] ++
      if (2 < words.length && !isOption (words.getD 2 [])) = true then [words.getD 2 []]
      else [waitMsOption, Text.ofString "50"] := by
  rw [fakeArgv, given_word words prog dev 0, given_word words prog dev 1,
    given_word words prog dev 2]
  rfl

/-- Without a word in the third position the wait is the default. -/
theorem cmdPlug_default (hthird : ¬(2 < words.length && !isOption (words.getD 2 [])) = true)
    (hlength : words.length ≤ 5) : cmdPlug cfg (prog :: Text.ofString "plug" :: dev :: words) =
      callWith cfg dev (wordAt words 0 (Text.ofString "00")) (wordAt words 1 (Text.ofString "16"))
        50 := by
  have hargc : ¬(prog :: Text.ofString "plug" :: dev :: words).length < 3 := by simp
  rw [cmdPlug, if_neg hargc, fakeArgv_words, if_neg hthird, if_neg]
  · exact cmdTransceive_words cfg prog dev _ _ fun _ => rfl
  · simp only [List.length_append, List.length_cons, List.length_nil]
    omega

/-- A word in the third position is passed on without an option before it. -/
theorem cmdPlug_third (hthird : (2 < words.length && !isOption (words.getD 2 [])) = true)
    (hlength : words.length ≤ 4) : cmdPlug cfg (prog :: Text.ofString "plug" :: dev :: words) =
      callWith cfg dev (wordAt words 0 (Text.ofString "00")) (wordAt words 1 (Text.ofString "16"))
        80 := by
  have hargc : ¬(prog :: Text.ofString "plug" :: dev :: words).length < 3 := by simp
  rw [cmdPlug, if_neg hargc, fakeArgv_words, if_pos hthird, if_neg]
  · exact cmdTransceive_words cfg prog dev _ _ fun _ => rfl
  · simp only [List.length_append, List.length_cons, List.length_nil]
    omega

/-- Up to four words lead to a call, whose wait is not the one given. -/
theorem cmdPlug_words (hlength : words.length ≤ 4) :
    cmdPlug cfg (prog :: Text.ofString "plug" :: dev :: words) =
      callWith cfg dev (wordAt words 0 (Text.ofString "00")) (wordAt words 1 (Text.ofString "16"))
        (if 2 < words.length && !isOption (words.getD 2 []) then 80 else 50) := by
  by_cases hthird : (2 < words.length && !isOption (words.getD 2 [])) = true
  · rw [if_pos hthird]
    exact cmdPlug_third words hthird hlength
  · rw [if_neg hthird]
    exact cmdPlug_default words hthird (hlength.trans (by decide))

/-- With a further word the last loop is entered. -/
theorem cmdPlug_undefined (hthird : (2 < words.length && !isOption (words.getD 2 [])) = true)
    (hlength : 5 ≤ words.length) :
    cmdPlug cfg (prog :: Text.ofString "plug" :: dev :: words) = .undefined := by
  have hargc : ¬(prog :: Text.ofString "plug" :: dev :: words).length < 3 := by simp
  rw [cmdPlug, if_neg hargc, fakeArgv_words, if_pos hthird, if_pos]
  simp only [List.length_append, List.length_cons, List.length_nil]
  omega

theorem callWith_iff {hex readLen : Text} {waitMs : ℤ} {c : Call}
    (hdev : c.dev = (resolveTarget cfg dev DEFAULT_BAUD).1) (hcompare : c.compareLoopback = false) :
    callWith cfg dev hex readLen waitMs = .calls c ↔
      0 ≤ (parseHexBytes hex HOSTMON_MAX_HEX).1 ∧ (parseHexBytes hex HOSTMON_MAX_HEX).2 = c.tx ∧
        Text.atoi readLen = c.readlen ∧ waitMs = c.waitMs ∧
          (resolveTarget cfg dev DEFAULT_BAUD).2 = c.baud := by
  obtain ⟨cdev, tx, readlen, cwait, baud, compare⟩ := c
  dsimp only at hdev hcompare
  subst hdev hcompare
  rw [callWith]
  split_ifs with hparsed
  · exact iff_of_false (fun h => by cases h) fun h => absurd h.1 (not_le.mpr hparsed)
  · rw [and_iff_right (not_lt.mp hparsed)]
    simp

theorem wordAt_first (word : Text) (words : List Text) (default : Text) :
    wordAt (word :: words) 0 default = if isOption word then default else word := by
  cases h : isOption word <;> simp [wordAt, h]

theorem wordAt_second (first word : Text) (words : List Text) (default : Text) :
    wordAt (first :: word :: words) 1 default = if isOption word then default else word := by
  cases h : isOption word <;> simp [wordAt, h]

theorem parse_probe : parseHexBytes (Text.ofString "00") HOSTMON_MAX_HEX = (1, [0]) := by
  decide +kernel

/-- The bytes are taken from their word exactly if it is not taken for an option. -/
theorem taken_iff (h : HexBytes) :
    0 ≤ (parseHexBytes (if isOption h.val then Text.ofString "00" else h.val) HOSTMON_MAX_HEX).1 ∧
      ((parseHexBytes (if isOption h.val then Text.ofString "00" else h.val) HOSTMON_MAX_HEX).2 =
        h.bytes ↔ PlugLine.Taken h) := by
  rw [PlugLine.Taken]
  cases hopt : isOption h.val with
  | false =>
    rw [if_neg Bool.false_ne_true]
    exact ⟨h.property.le, iff_of_true rfl (.inl rfl)⟩
  | true =>
    rw [if_pos rfl, parse_probe, or_iff_right (fun h => by cases h)]
    exact ⟨by decide, eq_comm⟩

theorem atoi_default : Text.atoi (Text.ofString "16") = 16 := by
  decide +kernel

namespace PlugLine

/-- The words of the rate. -/
def rateWords (baud : Option Number) : List Text := (baud.map fun n => [baudOption, n.val]).getD []

theorem rateWords_length (baud : Option Number) (first second : Text) :
    (first :: rateWords baud).length ≤ 4 ∧ (first :: second :: rateWords baud).length ≤ 4 := by
  cases baud <;> simp [rateWords]

section Calls
variable {cfg : Setting} {prog dev : Text} {words : List Text} {c : Call}
  (hdev : c.dev = (resolveTarget cfg dev DEFAULT_BAUD).1) (hcompare : c.compareLoopback = false)
include hdev hcompare

/-- What is taken for the arguments where the bytes are given. -/
theorem cmdPlug_hex {h : HexBytes} (words : List Text) (hlength : (h.val :: words).length ≤ 4)
    (htx : c.tx = h.bytes) :
    cmdPlug cfg (prog :: Text.ofString "plug" :: dev :: h.val :: words) = .calls c ↔
      Taken h ∧ Text.atoi (wordAt (h.val :: words) 1 (Text.ofString "16")) = c.readlen ∧
        (if 2 < (h.val :: words).length && !isOption ((h.val :: words).getD 2 []) then 80 else 50) =
          c.waitMs ∧ (resolveTarget cfg dev DEFAULT_BAUD).2 = c.baud := by
  obtain ⟨hparsed, htaken⟩ := taken_iff h
  rw [cmdPlug_words _ hlength, callWith_iff hdev hcompare, wordAt_first, and_iff_right hparsed, htx,
    htaken]

/-- A number that is taken for the bytes 00 is zero. -/
theorem cmdPlug_number {n : Number} (hlength : (n.val :: words).length ≤ 4)
    (htx : c.tx = HexBytes.probe.bytes)
    (hc : cmdPlug cfg (prog :: Text.ofString "plug" :: dev :: n.val :: words) = .calls c) :
    Text.atoi n.val = 0 ∧ Text.atoi (wordAt (n.val :: words) 1 (Text.ofString "16")) = c.readlen ∧
      (c.waitMs = 80 ∨ c.waitMs = 50) := by
  have hprobe : HexBytes.probe.bytes = [0] := congrArg Prod.snd parse_probe
  rw [cmdPlug_words _ hlength, callWith_iff hdev hcompare, wordAt_first, number_not_option, htx,
    hprobe] at hc
  refine ⟨atoi_of_zero n hc.2.1, hc.2.2.1, ?_⟩
  rw [← hc.2.2.2.1]
  split
  · exact .inl rfl
  · exact .inr rfl

end Calls

/-- With the bytes given, a read length must precede a wait, and no option is seen. -/
theorem hex_iff (cfg : Setting) (prog dev : Text) (h : HexBytes)
    (readLen waitMs baud : Option Number) :
    cmdPlug cfg (argv ⟨prog, dev, some h, readLen, waitMs, baud⟩) =
        .calls (intended cfg ⟨prog, dev, some h, readLen, waitMs, baud⟩) ↔
      Understood cfg ⟨prog, dev, some h, readLen, waitMs, baud⟩ := by
  cases readLen with
  | none =>
    cases waitMs with
    | none =>
      cases baud with
      | none =>
        refine (cmdPlug_hex rfl rfl [] (by simp) rfl).trans ?_
        exact and_iff_left ⟨atoi_default, rfl, rfl⟩
      | some n =>
        -- the rate stands where the wait is expected
        refine (cmdPlug_hex rfl rfl [baudOption, n.val] (by simp) rfl).trans ?_
        refine iff_of_false (fun hc => ?_) id
        have hwait := hc.2.2.1
        rw [if_pos (by simp [number_not_option])] at hwait
        exact absurd (show (80 : ℤ) = 50 from hwait) (by decide)
    | some w =>
      -- the wait is taken for the read length
      refine iff_of_false (fun hc => ?_) id
      have hmade := (cmdPlug_hex rfl rfl (w.val :: rateWords baud)
        (rateWords_length baud _ _).2 rfl).mp hc
      rw [wordAt_second, number_not_option] at hmade
      have hlength : Text.atoi w.val = 16 := hmade.2.1
      have hwait : _ = Text.atoi w.val := hmade.2.2.1
      rw [hlength] at hwait
      split_ifs at hwait <;> exact absurd hwait (by decide)
  | some k =>
    cases waitMs with
    | none =>
      have hthird : ¬(2 < (h.val :: k.val :: rateWords baud).length &&
          !isOption ((h.val :: k.val :: rateWords baud).getD 2 [])) = true := by
        cases baud with
        | none => simp [rateWords]
        | some n => simp [rateWords, show isOption baudOption = true by decide]
      refine (cmdPlug_hex rfl rfl (k.val :: rateWords baud)
        (rateWords_length baud _ _).2 rfl).trans ?_
      rw [if_neg hthird, wordAt_second, number_not_option]
      cases baud with
      | none => exact and_iff_left ⟨rfl, rfl, rfl⟩
      | some n =>
        exact and_congr_right fun _ => ⟨fun hc => hc.2.2.symm, fun hc => ⟨rfl, rfl, hc.symm⟩⟩
    | some w =>
      have hthird (words : List Text) : (2 < (h.val :: k.val :: w.val :: words).length &&
          !isOption ((h.val :: k.val :: w.val :: words).getD 2 [])) = true := by
        simp [number_not_option]
      cases baud with
      | none =>
        refine (cmdPlug_hex rfl rfl [k.val, w.val] (by simp) rfl).trans ?_
        rw [if_pos (hthird []), wordAt_second, number_not_option]
        exact and_congr_right fun _ => ⟨fun hc => hc.2.1.symm, fun hc => ⟨rfl, hc.symm, rfl⟩⟩
      | some n =>
        refine (Eq.congr_left (cmdPlug_undefined [h.val, k.val, w.val, baudOption, n.val]
          (hthird _) (by simp))).trans ?_
        exact iff_of_false (fun hc => by cases hc) id

/-- Without the bytes nothing else may be given. -/
theorem noHex_iff (cfg : Setting) (prog dev : Text) (readLen waitMs baud : Option Number) :
    cmdPlug cfg (argv ⟨prog, dev, none, readLen, waitMs, baud⟩) =
        .calls (intended cfg ⟨prog, dev, none, readLen, waitMs, baud⟩) ↔
      Understood cfg ⟨prog, dev, none, readLen, waitMs, baud⟩ := by
  have hbaud : isOption baudOption = true := by decide
  have hprobe : HexBytes.probe.bytes = [0] := congrArg Prod.snd parse_probe
  cases readLen with
  | none =>
    cases waitMs with
    | none =>
      cases baud with
      | none =>
        refine (Eq.congr_left (cmdPlug_default [] (by simp) (by simp))).trans ?_
        rw [callWith_iff rfl rfl]
        refine iff_of_true ⟨?_, ?_, atoi_default, rfl, rfl⟩ trivial
        · exact (congrArg Prod.fst parse_probe).ge.trans' (by decide)
        · exact congrArg Prod.snd parse_probe
      | some n =>
        -- the rate is taken for the read length
        refine (Eq.congr_left (cmdPlug_default [baudOption, n.val] (by simp) (by simp))).trans ?_
        rw [callWith_iff rfl rfl, wordAt_first, wordAt_second, number_not_option, hbaud, if_pos rfl,
          parse_probe]
        constructor
        · rintro ⟨-, -, hlength, -, hrate⟩
          exact ⟨hlength, hrate.trans hlength⟩
        · rintro ⟨hlength, hrate⟩
          exact ⟨by decide, hprobe.symm, hlength, rfl, hrate.trans hlength.symm⟩
    | some w =>
      refine iff_of_false (fun hc => ?_) id
      obtain ⟨hzero, -, hwait⟩ := cmdPlug_number rfl rfl (rateWords_length baud w.val []).1 rfl hc
      have hwait : Text.atoi w.val = 80 ∨ Text.atoi w.val = 50 := hwait
      omega
  | some k =>
    refine iff_of_false (fun hc => ?_) (by cases waitMs <;> exact id)
    cases waitMs with
    | none =>
      obtain ⟨hzero, hlength, -⟩ := cmdPlug_number rfl rfl (rateWords_length baud k.val []).1 rfl hc
      have hsecond : wordAt (k.val :: rateWords baud) 1 (Text.ofString "16") =
          Text.ofString "16" := by
        cases baud with
        | none => rfl
        | some n => exact (wordAt_second _ _ _ _).trans (if_pos hbaud)
      have hlength : Text.atoi (wordAt (k.val :: rateWords baud) 1 (Text.ofString "16")) =
          Text.atoi k.val := hlength
      rw [hsecond, atoi_default] at hlength
      omega
    | some w =>
      obtain ⟨hzero, hlength, hwait⟩ := cmdPlug_number rfl rfl
        (rateWords_length baud k.val w.val).2 rfl hc
      rw [wordAt_second, number_not_option] at hlength
      have hlength : Text.atoi w.val = Text.atoi k.val := hlength
      have hwait : Text.atoi w.val = 80 ∨ Text.atoi w.val = 50 := hwait
      omega

/-- `plug` leads to the call that its command line says exactly in the combinations understood. -/
theorem leads_iff (cfg : Setting) (l : PlugLine) :
    cmdPlug cfg l.argv = .calls (l.intended cfg) ↔ l.Understood cfg := by
  obtain ⟨prog, dev, _ | h, readLen, waitMs, baud⟩ := l
  · exact noHex_iff cfg prog dev readLen waitMs baud
  · exact hex_iff cfg prog dev h readLen waitMs baud

/-- `plug A 00 16 100`: the wait is not taken. -/
theorem wait_lost : ¬∀ (cfg : Setting) (l : PlugLine),
    cmdPlug cfg l.argv = .calls (l.intended cfg) := by
  intro h
  have hline := h ⟨[], []⟩ ⟨Text.ofString "exec09-monitor", Text.ofString "A", some HexBytes.probe,
    some ⟨Text.ofString "16", by decide⟩, some ⟨Text.ofString "100", by decide⟩, none⟩
  revert hline
  decide +kernel

end PlugLine

end Exec09.Hostmon
