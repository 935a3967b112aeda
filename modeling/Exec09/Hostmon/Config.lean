import Exec09.Debugger.Chains
import Exec09.Debugger.MapFile
import Exec09.Foundation.Trim
import Exec09.Hostmon.Commands

/-! # The file of profiles

`load_profiles_config` reads sections in brackets and pairs around an equals
sign, one a line, into a table of 32 profiles. The result is stated here without
the loop: what the sections and the pairs of a file are, and which of them count.
-/
namespace Exec09.Hostmon
open Foundation
open Debugger (fgets fgets_line fgets_last splitChar_none splitChar_first)

def HOSTMON_MAX_PROFILES : ℕ := 32

/-- The variables that the loop over the lines changes. `current` is the index of the profile that
the pointer is to. -/
structure Loading where
  profiles : List Profile
  defaultProfile : Text
  currentSection : Text
  current : Option ℕ

namespace Loading

def start : Loading := ⟨[], Text.ofString "VOLATCO-A", [], none⟩

/-- A line `[name]`. -/
def openSection (name : Text) (st : Loading) : Loading :=
  let currentSection := (Text.trim name).take 63
  if st.profiles.length < HOSTMON_MAX_PROFILES then
    { st with
      currentSection := currentSection
      profiles := st.profiles ++ [⟨currentSection.take 63, [], 0⟩]
      current := some st.profiles.length }
  else { st with currentSection := currentSection, current := none }

/-- A line `k = v`. -/
def assign (k v : Text) (st : Loading) : Loading :=
  if st.currentSection = [] then
    if k = Text.ofString "default" then { st with defaultProfile := v.take 63 } else st
  else
    match st.current with
    | none => st
    | some i =>
      if k = Text.ofString "port" then
        { st with profiles := st.profiles.modify i fun p => { p with port := v.take 255 } }
      else if k = Text.ofString "baud" then
        { st with profiles := st.profiles.modify i fun p => { p with baud := Text.atoi v } }
      else st

end Loading

/-- Neither the end of a line nor the end of a string. -/
def isPlain (c : Byte) : Bool := c ≠ 0 && c ≠ 13 && c ≠ 10

/-- The string in the buffer, without the end of the line. -/
def cutLine (line : Text) : Text := line.takeWhile isPlain

/-- One round of the loop. -/
def readLine (st : Loading) (line : Text) : Loading :=
  match Text.trim (cutLine line) with
  | [] => st
  | c :: s =>
    if c = 35 ∨ c = 59 then st
    else if c = 91 then
      match Text.splitChar 93 s with
      | none => st
      | some (name, _) => st.openSection name
    else
      match Text.splitChar 61 (c :: s) with
      | none => st
      | some (k, v) => st.assign (Text.trim k) (Text.trim v)

/-- The lines that `fgets` gives until it meets the end of the file. -/
def fileLines : ℕ → Text → List Text
  | 0, _ => []
  | fuel + 1, file =>
    let (line, _, rest) := fgets 1023 file
    if line = [] then [] else line :: fileLines fuel rest

/-- The profiles and the name of the default one. Each line takes a byte of the file at least. -/
def loadProfilesConfig : Option Text → ℤ × List Profile × Text
  | none => (-1, [], Loading.start.defaultProfile)
  | some file =>
    let st := (fileLines file.length file).foldl readLine .start
    (0, st.profiles, st.defaultProfile)

/-! ## What a file says -/

inductive Line
  | blank
  | head (name : Text)
  | pair (key value : Text)

/-- The text says this, with any space around the words of it. -/
def Line.Reads (t : Text) : Line → Prop
  | blank => ∀ c s, Text.trim t = c :: s →
      c = 35 ∨ c = 59 ∨ (c = 91 ∧ 93 ∉ s) ∨ (c ≠ 91 ∧ 61 ∉ c :: s)
  | head name => 93 ∉ name ∧ Text.Trimmed name ∧ ∃ a b d e, Text.Space a ∧ Text.Space b ∧
      Text.Space d ∧ t = a ++ 91 :: (b ++ (name ++ d) ++ 93 :: e)
  | pair key value => 61 ∉ key ∧ (∀ c ∈ key.head?, c ≠ 35 ∧ c ≠ 59 ∧ c ≠ 91) ∧
      Text.Trimmed key ∧ Text.Trimmed value ∧ ∃ a b d e, Text.Space a ∧ Text.Space b ∧
        Text.Space d ∧ Text.Space e ∧ t = a ++ (key ++ b) ++ 61 :: (d ++ (value ++ e))

/-- A section with the pairs up to the next one. -/
structure Section where
  name : Text
  body : List (Text × Text)

/-- The pairs before the first section, and the sections. -/
def document : List Line → List (Text × Text) × List Section
  | [] => ([], [])
  | .blank :: ls => document ls
  | .pair key value :: ls => ((key, value) :: (document ls).1, (document ls).2)
  | .head name :: ls => ([], ⟨name, (document ls).1⟩ :: (document ls).2)

/-- The last value for a key. -/
def lastValue (key : String) (ps : List (Text × Text)) : Option Text :=
  (ps.findRev? fun p => p.1 = Text.ofString key).map Prod.snd

/-- A section without a name is like the lines before the first section. -/
def Section.profile (s : Section) : Profile where
  name := s.name.take 63
  port := if s.name = [] then [] else ((lastValue "port" s.body).getD []).take 255
  baud := if s.name = [] then 0 else ((lastValue "baud" s.body).map Text.atoi).getD 0

/-- The pairs of a section that can name the default profile. -/
def Section.general (s : Section) : List (Text × Text) := if s.name = [] then s.body else []

/-- The pairs that can name the default profile. -/
def general (d : List (Text × Text) × List Section) : List (Text × Text) :=
  d.1 ++ d.2.flatMap Section.general

def defaultOf (d : List (Text × Text) × List Section) : Text :=
  ((lastValue "default" (general d)).map (List.take 63)).getD Loading.start.defaultProfile

/-! ## One line -/

variable {st : Loading}

/-- What a line does. -/
def Line.act (st : Loading) : Line → Loading
  | blank => st
  | head name => st.openSection name
  | pair key value => st.assign key value

theorem not_mem_space {c : BitVec 8} {t : Text} (ht : Text.Space t) (hc : Text.isSpace c = false) :
    c ∉ t := by
  intro hmem
  rw [ht c hmem] at hc
  cases hc

theorem readLine_head {t name : Text} (h : (Line.head name).Reads t) {line : Text}
    (hline : cutLine line = t) : readLine st line = st.openSection name := by
  obtain ⟨hname, htrimmed, a, b, d, e, ha, hb, hd, rfl⟩ := h
  have hopen : Text.isSpace 91 = false := by decide
  have hclose : Text.isSpace 93 = false := by decide
  have htrim : Text.trim (cutLine line) = 91 :: (b ++ (name ++ d) ++ 93 :: Text.trimEnd e) := by
    rw [hline, Text.trim, Text.skipSpace_append ha, Text.skipSpace_cons hopen]
    exact Text.trimEnd_append_cons (t := 91 :: (b ++ (name ++ d))) hclose
  have hsplit : Text.splitChar 93 (b ++ (name ++ d) ++ 93 :: Text.trimEnd e) =
      some (b ++ (name ++ d), Text.trimEnd e) := by
    refine splitChar_first ?_ _
    simp only [List.mem_append, not_or]
    exact ⟨not_mem_space hb hclose, hname, not_mem_space hd hclose⟩
  have hinner : Text.trim name = name := by
    have hnone : Text.Space [] := fun _ h => by cases h
    have h := Text.trim_around htrimmed hnone hnone
    rwa [List.nil_append, List.append_nil] at h
  rw [readLine, htrim]
  dsimp only
  rw [if_neg (by decide), if_pos rfl, hsplit]
  simp only [Loading.openSection, Text.trim_around htrimmed hb hd, hinner]

/-- What is left of a pair when the line is trimmed. -/
theorem trim_pair {key u a b : Text} (hk : Text.Trimmed key) (ha : Text.Space a)
    (hb : Text.Space b) (hfirst : ∀ c ∈ key.head?, c ≠ 35 ∧ c ≠ 59 ∧ c ≠ 91) :
    ∃ b' c s, Text.Space b' ∧ Text.trim (a ++ (key ++ b) ++ 61 :: u) = c :: s ∧
      c :: s = key ++ b' ++ 61 :: Text.trimEnd u ∧ c ≠ 35 ∧ c ≠ 59 ∧ c ≠ 91 := by
  have hequals : Text.isSpace 61 = false := by decide
  rw [List.append_assoc, Text.trim, Text.skipSpace_append ha]
  cases key with
  | nil =>
    have hnone : Text.Space [] := fun _ h => by cases h
    refine ⟨[], 61, Text.trimEnd u, hnone, ?_, rfl, by decide, by decide, by decide⟩
    rw [List.nil_append, Text.skipSpace_append hb, Text.skipSpace_cons hequals]
    exact Text.trimEnd_append_cons (t := []) hequals
  | cons k key =>
    refine ⟨b, k, key ++ b ++ 61 :: Text.trimEnd u, hb, ?_, rfl, hfirst k rfl⟩
    rw [List.cons_append, List.cons_append, Text.skipSpace_cons (hk.1 k rfl)]
    exact Text.trimEnd_append_cons (t := k :: (key ++ b)) hequals

theorem readLine_pair {t key value : Text} (h : (Line.pair key value).Reads t) {line : Text}
    (hline : cutLine line = t) : readLine st line = st.assign key value := by
  obtain ⟨hkey, hfirst, hk, hv, a, b, d, e, ha, hb, hd, he, rfl⟩ := h
  have hnone : Text.Space [] := fun _ h => by cases h
  have hequals : Text.isSpace 61 = false := by decide
  obtain ⟨b', c, s, hb', htrim, hcons, hcomment, hsemi, hopen⟩ :=
    trim_pair (u := d ++ (value ++ e)) hk ha hb hfirst
  have hsplit : Text.splitChar 61 (c :: s) =
      some (key ++ b', Text.trimEnd (d ++ (value ++ e))) := by
    rw [hcons]
    refine splitChar_first ?_ _
    rw [List.mem_append, not_or]
    exact ⟨hkey, not_mem_space hb' hequals⟩
  have hleft : Text.trim (key ++ b') = key := Text.trim_around hk hnone hb'
  have hright : Text.trim (Text.trimEnd (d ++ (value ++ e))) = value := by
    rw [Text.trim_trimEnd, Text.trim_around hv hd he]
  rw [readLine, hline, htrim]
  dsimp only
  rw [if_neg (not_or.mpr ⟨hcomment, hsemi⟩), if_neg hopen, hsplit]
  simp only [hleft, hright]

theorem readLine_blank {t : Text} (h : Line.blank.Reads t) {line : Text} (hline : cutLine line = t) :
    readLine st line = st := by
  rw [readLine, hline]
  cases htrim : Text.trim t with
  | nil => rfl
  | cons c s =>
    dsimp only
    rcases h c s htrim with rfl | rfl | ⟨rfl, hclose⟩ | ⟨hopen, hequals⟩
    · rfl
    · rfl
    · rw [if_neg (by decide), if_pos rfl, splitChar_none hclose]
    · rw [if_neg hopen, splitChar_none hequals]
      simp

theorem readLine_reads {l : Line} {t : Text} (h : l.Reads t) {line : Text} (hline : cutLine line = t) :
    readLine st line = l.act st := by
  cases l with
  | blank => exact readLine_blank h hline
  | head name => exact readLine_head h hline
  | pair key value => exact readLine_pair h hline

/-! ## Sections -/

theorem lastValue_concat (key : String) (ps : List (Text × Text)) (p : Text × Text) :
    lastValue key (ps ++ [p]) =
      if p.1 = Text.ofString key then some p.2 else lastValue key ps := by
  by_cases h : p.1 = Text.ofString key <;>
    simp [lastValue, List.findRev?_eq_find?_reverse, h]

def assignAll (ps : List (Text × Text)) (st : Loading) : Loading :=
  ps.foldl (fun st p => st.assign p.1 p.2) st

theorem assignAll_concat (ps : List (Text × Text)) (p : Text × Text) :
    assignAll (ps ++ [p]) st = (assignAll ps st).assign p.1 p.2 := List.foldl_concat _ _ _ _

/-- Outside of named sections a pair can only name the default profile. -/
theorem assignAll_general (hsection : st.currentSection = []) (ps : List (Text × Text)) :
    assignAll ps st = { st with
      defaultProfile := ((lastValue "default" ps).map (List.take 63)).getD st.defaultProfile } := by
  induction ps using List.reverseRecOn with
  | nil => rfl
  | append_singleton ps p ih =>
    rw [assignAll_concat, ih, lastValue_concat, Loading.assign]
    dsimp only
    rw [if_pos hsection]
    split_ifs <;> rfl

/-- Behind the last profile of the table the pairs are lost. -/
theorem assignAll_lost (hsection : st.currentSection ≠ []) (hcurrent : st.current = none)
    (ps : List (Text × Text)) : assignAll ps st = st := by
  induction ps using List.reverseRecOn with
  | nil => rfl
  | append_singleton ps p ih => rw [assignAll_concat, ih, Loading.assign, if_neg hsection, hcurrent]

/-- What the pairs of a section make of a profile. -/
def Profile.filled (ps : List (Text × Text)) (p : Profile) : Profile where
  name := p.name
  port := ((lastValue "port" ps).map (List.take 255)).getD p.port
  baud := ((lastValue "baud" ps).map Text.atoi).getD p.baud

theorem assignAll_section {i : ℕ} (hsection : st.currentSection ≠ []) (hcurrent : st.current = some i)
    (ps : List (Text × Text)) :
    assignAll ps st = { st with profiles := st.profiles.modify i (Profile.filled ps) } := by
  have hkeys : Text.ofString "baud" ≠ Text.ofString "port" := by decide
  induction ps using List.reverseRecOn with
  | nil =>
    have hid : Profile.filled [] = id := rfl
    rw [hid, List.modify_id]
    rfl
  | append_singleton ps p ih =>
    have hfilled : Profile.filled (ps ++ [p]) =
        (if p.1 = Text.ofString "port" then fun q : Profile => { q with port := p.2.take 255 }
          else if p.1 = Text.ofString "baud" then fun q => { q with baud := Text.atoi p.2 }
          else id) ∘ Profile.filled ps := by
      funext q
      simp only [Profile.filled, lastValue_concat, Function.comp_apply]
      split_ifs with hport hbaud
      · rw [hport] at hbaud
        exact absurd hbaud.symm hkeys
      · rfl
      · rfl
      · rfl
    rw [assignAll_concat, ih, Loading.assign]
    dsimp only
    rw [if_neg hsection, hcurrent, hfilled]
    dsimp only
    split_ifs
    · rw [List.modify_modify_eq]
    · rw [List.modify_modify_eq]
    · rfl

/-- The lines are the pairs before the sections, and then the sections one by one. -/
theorem foldl_document (ls : List Line) (st : Loading) : ls.foldl Line.act st =
    (document ls).2.foldl (fun st s => assignAll s.body (st.openSection s.name))
      (assignAll (document ls).1 st) := by
  induction ls generalizing st with
  | nil => rfl
  | cons l ls ih =>
    cases l with
    | blank => exact ih st
    | head name => exact ih _
    | pair key value => exact ih _

theorem modify_last {α : Type} (f : α → α) (as : List α) (a : α) :
    (as ++ [a]).modify as.length f = as ++ [f a] := by
  induction as with
  | nil => rfl
  | cons b as ih => rw [List.cons_append, List.length_cons, List.modify_succ_cons, ih, List.cons_append]

theorem section_profiles {s : Section} (hname : Text.trim s.name = s.name) (st : Loading) :
    (assignAll s.body (st.openSection s.name)).profiles =
      st.profiles ++ [s.profile].take (HOSTMON_MAX_PROFILES - st.profiles.length) := by
  rw [Loading.openSection, hname]
  by_cases hroom : st.profiles.length < HOSTMON_MAX_PROFILES
  · have htake : [s.profile].take (HOSTMON_MAX_PROFILES - st.profiles.length) = [s.profile] :=
      List.take_of_length_le (by rw [List.length_singleton]; omega)
    have hcut : (s.name.take 63).take 63 = s.name.take 63 := by rw [List.take_take, Nat.min_self]
    rw [if_pos hroom, htake, hcut]
    by_cases hempty : s.name = []
    · rw [assignAll_general (by rw [hempty]; rfl), Section.profile, if_pos hempty, if_pos hempty]
    · have hsection : s.name.take 63 ≠ [] := by simpa using hempty
      rw [assignAll_section hsection rfl]
      dsimp only
      rw [modify_last, Section.profile, if_neg hempty, if_neg hempty, Profile.filled]
      dsimp only
      cases lastValue "port" s.body <;> rfl
  · have htake : [s.profile].take (HOSTMON_MAX_PROFILES - st.profiles.length) = [] := by
      rw [Nat.sub_eq_zero_of_le (by omega), List.take_zero]
    rw [if_neg hroom, htake, List.append_nil]
    by_cases hempty : s.name = []
    · rw [assignAll_general (by rw [hempty]; rfl)]
    · have hsection : s.name.take 63 ≠ [] := by simpa using hempty
      rw [assignAll_lost hsection rfl]

theorem section_default {s : Section} (hname : Text.trim s.name = s.name) (st : Loading) :
    (assignAll s.body (st.openSection s.name)).defaultProfile =
      ((lastValue "default" s.general).map (List.take 63)).getD st.defaultProfile := by
  have hopened : (st.openSection s.name).defaultProfile = st.defaultProfile := by
    rw [Loading.openSection]
    split <;> rfl
  have hsection : (st.openSection s.name).currentSection = s.name.take 63 := by
    rw [Loading.openSection, hname]
    split <;> rfl
  rw [Section.general]
  by_cases hempty : s.name = []
  · rw [assignAll_general (by rw [hsection, hempty]; rfl), if_pos hempty, hopened]
  · have hnamed : (st.openSection s.name).currentSection ≠ [] := by
      rw [hsection]
      simpa using hempty
    rw [if_neg hempty]
    refine Eq.trans ?_ hopened
    cases hcurrent : (st.openSection s.name).current with
    | none => rw [assignAll_lost hnamed hcurrent]
    | some i => rw [assignAll_section hnamed hcurrent]

theorem lastValue_append (key : String) (ps qs : List (Text × Text)) :
    lastValue key (ps ++ qs) = (lastValue key qs).or (lastValue key ps) := by
  induction qs using List.reverseRecOn with
  | nil => rw [List.append_nil]; rfl
  | append_singleton qs q ih =>
    rw [← List.append_assoc, lastValue_concat, lastValue_concat, ih]
    split_ifs <;> rfl

/-- The table after some sections: it takes the first ones as long as there is room, and the
default is the last one that is named. -/
theorem sections_run {ss : List Section} (hnames : ∀ s ∈ ss, Text.trim s.name = s.name)
    (st : Loading) :
    let t := ss.foldl (fun st s => assignAll s.body (st.openSection s.name)) st
    t.profiles = st.profiles ++
        (ss.map Section.profile).take (HOSTMON_MAX_PROFILES - st.profiles.length) ∧
      t.defaultProfile = ((lastValue "default" (ss.flatMap Section.general)).map
        (List.take 63)).getD st.defaultProfile := by
  induction ss generalizing st with
  | nil => exact ⟨by rw [List.map_nil, List.take_nil, List.append_nil]; rfl, rfl⟩
  | cons s ss ih =>
    have hname := hnames s List.mem_cons_self
    obtain ⟨hprofiles, hdefault⟩ := ih (fun u hu => hnames u (List.mem_cons_of_mem s hu))
      (assignAll s.body (st.openSection s.name))
    rw [section_profiles hname] at hprofiles
    rw [section_default hname] at hdefault
    refine ⟨hprofiles.trans ?_, hdefault.trans ?_⟩
    · rw [List.append_assoc, List.map_cons, List.length_append, List.length_take,
        List.length_singleton]
      refine congrArg (st.profiles ++ ·) ?_
      have hroom : HOSTMON_MAX_PROFILES -
          (st.profiles.length + min (HOSTMON_MAX_PROFILES - st.profiles.length) 1) =
            HOSTMON_MAX_PROFILES - st.profiles.length - 1 := by omega
      rw [hroom]
      cases HOSTMON_MAX_PROFILES - st.profiles.length with
      | zero => rfl
      | succ k => rw [List.take_succ_cons, List.take_succ_cons, List.take_nil]; rfl
    · rw [List.flatMap_cons, lastValue_append]
      cases lastValue "default" (ss.flatMap Section.general) <;> rfl

/-! ## The file -/

/-- A line of the file with what it says. -/
structure Written where
  line : Line
  text : Text
  plain : ∀ c ∈ text, isPlain c = true
  short : text.length < 1022
  reads : line.Reads text
  /-- Whether the line ends in CR and LF. -/
  crlf : Bool

namespace Written

def ending (w : Written) : Text := if w.crlf then [13, 10] else [10]

def bytes (w : Written) : Text := w.text ++ w.ending

theorem cutLine_text (w : Written) : cutLine w.text = w.text :=
  List.takeWhile_eq_self_iff.mpr w.plain

theorem cutLine_bytes (w : Written) : cutLine w.bytes = w.text := by
  have hending : w.ending.takeWhile isPlain = [] := by
    rw [ending]
    split <;> rfl
  rw [cutLine, bytes, List.takeWhile_append_of_pos w.plain, hending, List.append_nil]

theorem not_newline (w : Written) : 10 ∉ w.text := fun h => Bool.noConfusion (w.plain 10 h)

theorem fgets_bytes (w : Written) (rest : Text) :
    fgets 1023 (w.bytes ++ rest) = (w.bytes, false, rest) := by
  have hplain := w.not_newline
  have hshort := w.short
  rw [bytes, ending]
  split
  · have hline : 10 ∉ w.text ++ [13] := by simpa using hplain
    have h := fgets_line (n := 1023) hline
      (by rw [List.length_append, List.length_singleton]; omega) rest
    simpa using h
  · have h := fgets_line (n := 1023) hplain (by omega) rest
    simpa using h

theorem blank_of_empty (w : Written) (h : w.text = []) : w.line = .blank := by
  have hreads := w.reads
  rw [h] at hreads
  cases hline : w.line with
  | blank => rfl
  | head name =>
    rw [hline] at hreads
    obtain ⟨-, -, a, b, d, e, -, -, -, heq⟩ := hreads
    simp at heq
  | pair key value =>
    rw [hline] at hreads
    obtain ⟨-, -, -, -, a, b, d, e, -, -, -, -, heq⟩ := hreads
    simp at heq

end Written

/-- The lines of a file are read as what they say, one after the other. -/
theorem foldl_fileLines (ws : List Written) (last : Written) {fuel : ℕ}
    (hfuel : (ws.flatMap Written.bytes ++ last.text).length ≤ fuel) (st : Loading) :
    (fileLines fuel (ws.flatMap Written.bytes ++ last.text)).foldl readLine st =
      (ws.map Written.line ++ [last.line]).foldl Line.act st := by
  induction ws generalizing fuel st with
  | nil =>
    rw [List.flatMap_nil, List.nil_append] at hfuel ⊢
    by_cases hempty : last.text = []
    · have hline := last.blank_of_empty hempty
      have hnone : fileLines fuel [] = [] := by cases fuel <;> rfl
      rw [hempty, hnone, List.map_nil, List.nil_append, hline]
      rfl
    · have hpos := List.length_pos_iff.mpr hempty
      obtain ⟨n, rfl⟩ : ∃ n, fuel = n + 1 := ⟨fuel - 1, by omega⟩
      have hplain := last.not_newline
      have hshort := last.short
      have hnone : fileLines n [] = [] := by cases n <;> rfl
      rw [fileLines, fgets_last hplain (by omega)]
      dsimp only
      rw [if_neg hempty, hnone, List.foldl_cons, List.foldl_nil,
        readLine_reads last.reads last.cutLine_text]
      rfl
  | cons w ws ih =>
    have hbytes : w.bytes ≠ [] := by
      rw [Written.bytes, Written.ending]
      split <;> simp
    have hpos := List.length_pos_iff.mpr hbytes
    rw [List.flatMap_cons, List.append_assoc] at hfuel ⊢
    rw [List.length_append] at hfuel
    obtain ⟨n, rfl⟩ : ∃ n, fuel = n + 1 := ⟨fuel - 1, by omega⟩
    rw [fileLines, w.fgets_bytes]
    dsimp only
    rw [if_neg hbytes, List.foldl_cons, readLine_reads w.reads w.cutLine_bytes, List.map_cons,
      List.cons_append, List.foldl_cons]
    exact ih (by omega) _

/-- Names of sections are trimmed. -/
theorem document_names {ls : List Line} (h : ∀ l ∈ ls, ∃ t, l.Reads t) :
    ∀ s ∈ (document ls).2, Text.trim s.name = s.name := by
  induction ls with
  | nil => exact fun _ hs => by cases hs
  | cons l ls ih =>
    have hrest := ih fun m hm => h m (List.mem_cons_of_mem l hm)
    cases l with
    | blank => exact hrest
    | pair key value => exact hrest
    | head name =>
      obtain ⟨t, -, htrimmed, -⟩ := h _ List.mem_cons_self
      refine List.forall_mem_cons.mpr ⟨?_, hrest⟩
      have hnone : Text.Space [] := fun _ h => by cases h
      have htrim := Text.trim_around htrimmed hnone hnone
      rwa [List.nil_append, List.append_nil] at htrim

/-- The profiles of a file are its first 32 sections in their order, with the last port and the last
baud rate of each; the default is the last one named outside of the named sections. So a name on a
command line stands for the port of the first section with this name, and for a device if there is
none. -/
theorem loadProfilesConfig_document (ws : List Written) (last : Written) :
    let d := document (ws.map Written.line ++ [last.line])
    let loaded := loadProfilesConfig (some (ws.flatMap Written.bytes ++ last.text))
    loaded = (0, (d.2.take HOSTMON_MAX_PROFILES).map Section.profile, defaultOf d) ∧
      ∀ byId name baud, resolveTarget ⟨loaded.2.1, byId⟩ name baud =
        match (d.2.take HOSTMON_MAX_PROFILES).find? fun s => s.name.take 63 == name with
        | some s => (s.profile.port, if s.profile.baud > 0 then s.profile.baud else baud)
        | none => (resolveAlias ⟨[], byId⟩ name, baud) := by
  intro d loaded
  have hloaded : loaded =
      (0, (d.2.take HOSTMON_MAX_PROFILES).map Section.profile, defaultOf d) := by
    have hnames : ∀ s ∈ d.2, Text.trim s.name = s.name := by
      refine document_names fun l hl => ?_
      rcases List.mem_append.mp hl with hl | hl
      · obtain ⟨w, -, rfl⟩ := List.mem_map.mp hl
        exact ⟨w.text, w.reads⟩
      · rw [List.mem_singleton.mp hl]
        exact ⟨last.text, last.reads⟩
    have hfold := foldl_fileLines ws last (le_refl _) Loading.start
    rw [foldl_document] at hfold
    obtain ⟨hprofiles, hdefault⟩ := sections_run hnames (assignAll d.1 .start)
    rw [← hfold, assignAll_general rfl] at hprofiles hdefault
    refine Prod.ext rfl (Prod.ext ?_ ?_)
    · rw [List.map_take]
      exact hprofiles
    · refine hdefault.trans ?_
      rw [defaultOf, general, lastValue_append]
      cases lastValue "default" (d.2.flatMap Section.general) <;> rfl
  refine ⟨hloaded, fun byId name baud => ?_⟩
  rw [hloaded, resolveTarget, List.find?_map]
  have hfind : (fun p : Profile => p.name == name) ∘ Section.profile =
      fun s : Section => s.name.take 63 == name := rfl
  rw [hfind]
  cases (d.2.take HOSTMON_MAX_PROFILES).find? fun s => s.name.take 63 == name with
  | none => rfl
  | some s =>
    have hport : s.profile.port.take 255 = s.profile.port := by
      rw [Section.profile]
      dsimp only
      split
      · rfl
      · rw [List.take_take, Nat.min_self]
    exact Prod.ext hport rfl

end Exec09.Hostmon
