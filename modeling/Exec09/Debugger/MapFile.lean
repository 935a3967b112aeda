import Exec09.Bus.Access
import Exec09.Debugger.CommandLine
import Exec09.Debugger.Symtab
import Exec09.Foundation.Scanf

/-! # Map files

`load_map_file` reads a file line by line and adds a symbol for each line that
begins with `Symbol:`. It takes the other words of such a line as they come,
and a missing word is a null pointer. The last line counts only if a newline
follows it.
-/
namespace Exec09.Debugger
open Foundation

/-- The string in a buffer with these bytes. -/
def bufferString (t : Text) : CString where
  bytes := t.takeWhile (· ≠ 0)
  noNul h := by simpa using List.all_eq_true.mp List.all_takeWhile _ h

/-- What `fgets` reads with room for `n` bytes, whether it has met the end of the file, and what is
left of the file. -/
def fgets : ℕ → Text → Text × Bool × Text
  | 0, file => ([], false, file)
  | _ + 1, [] => ([], true, [])
  | n + 1, c :: file =>
    if c = 10 then ([c], false, file)
    else
      let (line, eof, rest) := fgets n file
      (c :: line, eof, rest)

/-- The call of `sym_add` for the string in the buffer. -/
def lineCall (maps : BusMaps) (buf : CString) : Except Crash (Option SymCall) :=
  match words buf.bytes with
  | [] => .error .nullArgument
  | token :: tokens =>
    if token ≠ Text.ofString "Symbol:" then .ok none
    else
      -- The file name and the equals sign are skipped.
      match tokens with
      | id :: _ :: _ :: number :: _ =>
        let value := Word.trunc 16 ((Text.strtoul 16 number).getD 0).toNat
        .ok (some (.add (bufferString id) (BitVec.ofNat 64 (Access.toAbsolute maps value))))
      | _ => .error .nullArgument

abbrev MapM := EStateM Crash Symtab

def performCall (signed : Bool) : Option SymCall → MapM Unit
  | none => pure ()
  | some c => fun s =>
    match c.perform signed s with
    | .ok _ t => .ok () t
    | .error e t => .error (.emulator e) t

/-- The loop over the lines, with the call for each of them, or none. -/
def readMap (signed : Bool) (maps : BusMaps) : ℕ → Text → MapM (List (Option SymCall))
  | 0, _ => throw .outOfFuel
  | fuel + 1, file => do
    let (line, eof, rest) := fgets 254 file
    if eof then return [none]
    else
      match lineCall maps (bufferString line) with
      | .error e => throw e
      | .ok call => do
        performCall signed call
        return call :: (← readMap signed maps fuel rest)

/-- Every round but the last takes a byte of the file at least. -/
def loadMapFile (signed : Bool) (maps : BusMaps) : Option Text → MapM (List (Option SymCall))
  | none => return []
  | some file => readMap signed maps (file.length + 1) file

/-! ## What a map file says -/

/-- The value of a text that is all hexadecimal digits. -/
def hexNumber (t : Text) : Option ℕ :=
  if t ≠ [] ∧ t.all (fun c => (Text.digitIn 16 c).isSome) then
    some (Text.value 16 (Text.digits 16 t))
  else none

/-- The name and the number of a line `Symbol: name (file) = hex`. -/
def symbolLine (line : Text) : Option (Text × ℕ) :=
  match words line with
  | [symbol, name, file, equals, number] =>
    if symbol = Text.ofString "Symbol:" ∧ file.head? = some 40 ∧ file.getLast? = some 41 ∧
        equals = Text.ofString "=" ∧ line.contains 0 = false then
      (hexNumber number).map fun v => (name, v)
    else none
  | _ => none

/-- The symbol for a line. -/
def lineSymbol (maps : BusMaps) (line : Text) : Option SymCall :=
  (symbolLine line).map fun p =>
    .add (bufferString p.1) (BitVec.ofNat 64 (Access.toAbsolute maps p.2))

/-- The file is read to its end, and the table has got the symbol of each line, and no others. -/
def MapLoads (signed : Bool) (maps : BusMaps) (file : Text) (s : Symtab) : Prop :=
  ∃ t, loadMapFile signed maps (some file) s = .ok ((file.splitOn 10).map (lineSymbol maps)) t ∧
    runAll (SymCall.perform signed) ((file.splitOn 10).filterMap (lineSymbol maps)) s = .ok () t

/-- The number of a line is the same as a `target_addr_t`. -/
def Narrow (maps : BusMaps) (v : ℕ) : Prop :=
  BitVec.ofNat 64 (Access.toAbsolute maps (Word.trunc 16 (min v (2 ^ 64 - 1)))) =
    BitVec.ofNat 64 (Access.toAbsolute maps v)

/-- A line with a word, and of the form if the first one is `Symbol:`. -/
def Legible (maps : BusMaps) (line : Text) : Prop :=
  ∃ token, (words (bufferString line).bytes).head? = some token ∧
    (token = Text.ofString "Symbol:" → ∃ p, symbolLine line = some p ∧ Narrow maps p.2)

/-! ## One line -/

/-- A text of digits has no prefix. -/
theorem literal_digits {t : Text} (h : ∀ c ∈ t, Text.digitIn 16 c ≠ none) :
    Text.literal 16 t = (16, Text.digits 16 t) := by
  unfold Text.literal
  split
  · rename_i x u
    obtain ⟨-, -, -, hlower, hupper⟩ := Text.digit_plain x (h x (by simp))
    rw [if_neg fun hx => hx.1.elim hlower hupper, if_neg (by decide)]
  · rw [if_neg (by decide)]
  · rw [if_neg (by decide)]

/-- Hexadecimal digits alone are read in full. -/
theorem strtoul_hexNumber {t : Text} {v : ℕ} (h : hexNumber t = some v) :
    ((Text.strtoul 16 t).getD 0).toNat = min v (2 ^ 64 - 1) := by
  rw [hexNumber] at h
  split at h
  · rename_i hcond
    obtain ⟨hne, hdigit⟩ := hcond
    have hall : ∀ c ∈ t, Text.digitIn 16 c ≠ none := by
      simpa [Option.isSome_iff_ne_none] using hdigit
    cases h
    cases t with
    | nil => exact absurd rfl hne
    | cons c u =>
      have hc := hall c List.mem_cons_self
      have hdigits : Text.digits 16 (c :: u) ≠ [] := by
        obtain ⟨d, hd⟩ := Option.ne_none_iff_exists'.mp hc
        rw [Text.digits, hd]
        exact List.cons_ne_nil _ _
      rw [Text.strtoul, Text.skipSpace_of_digit hc, Text.sign_of_digit hc]
      dsimp only
      rw [literal_digits hall]
      dsimp only
      rw [if_neg hdigits]
      split
      · rename_i hsmall
        simp only [Bool.false_eq_true, if_false, Option.getD_some, BitVec.toNat_ofNat]
        omega
      · rename_i hlarge
        simp only [Option.getD_some, BitVec.toNat_allOnes]
        omega
  · cases h

theorem bufferString_bytes {t : Text} (h : 0 ∉ t) : (bufferString t).bytes = t := by
  refine List.takeWhile_eq_self_iff.mpr fun c hc => ?_
  have hne : c ≠ 0 := fun heq => h (heq ▸ hc)
  simpa using hne

/-- The newline ends the last word. -/
theorem words_newline (line : Text) :
    words (bufferString (line ++ [10])).bytes = words (bufferString line).bytes := by
  by_cases hzero : 0 ∈ line
  · have hsame : (line ++ [10]).takeWhile (· ≠ 0) = line.takeWhile (· ≠ 0) := by
      rw [List.takeWhile_append, if_neg]
      intro hlength
      have hall := (List.takeWhile_prefix _).eq_of_length hlength
      simpa using List.takeWhile_eq_self_iff.mp hall 0 hzero
    exact congrArg words hsame
  · rw [bufferString_bytes hzero, bufferString_bytes (by simpa using hzero), words, words,
      List.splitOnP_append_cons line [] (by decide)]
    simp

/-- The words of a line of the form. -/
theorem symbolLine_words {line : Text} {p : Text × ℕ} (h : symbolLine line = some p) :
    ∃ file number, words (bufferString line).bytes =
      [Text.ofString "Symbol:", p.1, file, Text.ofString "=", number] ∧
        hexNumber number = some p.2 := by
  unfold symbolLine at h
  split at h
  · rename_i symbol name file equals number heq
    split at h
    · rename_i hcond
      obtain ⟨rfl, -, -, rfl, hzero⟩ := hcond
      obtain ⟨v, hv, rfl⟩ := Option.map_eq_some_iff.mp h
      rw [bufferString_bytes (by simpa using hzero)]
      exact ⟨file, number, heq, hv⟩
    · cases h
  · cases h

/-- The right call is made for the legible lines only. -/
theorem lineCall_iff {maps : BusMaps} {line : Text} :
    lineCall maps (bufferString (line ++ [10])) = .ok (lineSymbol maps line) ↔
      Legible maps line := by
  rw [lineCall, words_newline, Legible]
  cases hsymbol : symbolLine line with
  | some p =>
    obtain ⟨file, number, hwords, hnumber⟩ := symbolLine_words hsymbol
    rw [hwords, lineSymbol, hsymbol]
    simp only [ne_eq, not_true, if_false, strtoul_hexNumber hnumber, Narrow]
    simp
  | none =>
    rw [lineSymbol, hsymbol]
    cases words (bufferString line).bytes with
    | nil => simp
    | cons token tokens =>
      by_cases htoken : token = Text.ofString "Symbol:"
      · subst htoken
        simp only [ne_eq, not_true, if_false]
        refine iff_of_false (fun hcall => ?_) (by simp)
        split at hcall
        · simp at hcall
        · cases hcall
      · simp [htoken]

/-! ## The lines of a file -/

section File
variable {signed : Bool} {maps : BusMaps} {s : Symtab}

/-- The characters in front of a newline are passed. -/
theorem fgets_append {line : Text} {n : ℕ} (hline : 10 ∉ line) (rest : Text) :
    fgets (line.length + n) (line ++ rest) =
      (line ++ (fgets n rest).1, (fgets n rest).2.1, (fgets n rest).2.2) := by
  induction line with
  | nil => rw [List.length_nil, Nat.zero_add, List.nil_append, List.nil_append]
  | cons c line ih =>
    have hc : c ≠ 10 := fun heq => hline (heq ▸ List.mem_cons_self)
    have hrest := ih fun h => hline (List.mem_cons_of_mem _ h)
    rw [List.length_cons, Nat.add_right_comm, List.cons_append, fgets, if_neg hc, hrest]
    rfl

theorem fgets_line {line : Text} {n : ℕ} (hline : 10 ∉ line) (hn : line.length < n) (rest : Text) :
    fgets n (line ++ 10 :: rest) = (line ++ [10], false, rest) := by
  obtain ⟨m, rfl⟩ := Nat.exists_eq_add_of_lt hn
  exact fgets_append hline (n := m + 1) (10 :: rest)

/-- Behind the last newline the end of the file is met. -/
theorem fgets_last {line : Text} {n : ℕ} (hline : 10 ∉ line) (hn : line.length < n) :
    fgets n line = (line, true, []) := by
  obtain ⟨m, rfl⟩ := Nat.exists_eq_add_of_lt hn
  have hend := fgets_append hline (n := m + 1) []
  rw [List.append_nil] at hend
  exact hend.trans (by rw [fgets, List.append_nil])

theorem readMap_last {fuel : ℕ} {line : Text} (hline : 10 ∉ line) (hshort : line.length < 254) :
    readMap signed maps (fuel + 1) line s = .ok [none] s := by
  rw [readMap, fgets_last hline hshort]
  rfl

theorem readMap_line {fuel : ℕ} {line rest : Text} (hline : 10 ∉ line)
    (hshort : line.length < 254) :
    readMap signed maps (fuel + 1) (line ++ 10 :: rest) =
      match lineCall maps (bufferString (line ++ [10])) with
      | .error e => throw e
      | .ok call => do
        performCall signed call
        return call :: (← readMap signed maps fuel rest) := by
  rw [readMap, fgets_line hline hshort]
  rfl

/-- The pieces of a text are no longer than the text. -/
theorem splitOnP_length {p : BitVec 8 → Bool} {t w : Text} (h : w ∈ t.splitOnP p) :
    w.length ≤ t.length := by
  induction t generalizing w with
  | nil =>
    rw [List.splitOnP_nil, List.mem_singleton] at h
    rw [h]
  | cons c t ih =>
    rw [List.splitOnP_cons_eq_if_modifyHead] at h
    split at h
    · rcases List.mem_cons.mp h with rfl | hrest
      · exact Nat.zero_le _
      · exact Nat.le_succ_of_le (ih hrest)
    · cases hsplit : t.splitOnP p with
      | nil => exact absurd hsplit (List.splitOnP_ne_nil p t)
      | cons u us =>
        rw [hsplit] at h ih
        rcases List.mem_cons.mp h with rfl | hrest
        · exact Nat.succ_le_succ (ih List.mem_cons_self)
        · exact Nat.le_succ_of_le (ih (List.mem_cons_of_mem _ hrest))

/-- The name of a symbol fits into a buffer for strings. -/
theorem symbolLine_length {line : Text} {p : Text × ℕ} (h : symbolLine line = some p) :
    p.1.length ≤ line.length := by
  obtain ⟨file, number, hwords, -⟩ := symbolLine_words h
  have hmem : p.1 ∈ words (bufferString line).bytes := by
    rw [hwords]
    simp
  have hpiece := splitOnP_length (List.mem_of_mem_filter hmem)
  exact hpiece.trans (List.takeWhile_prefix _).length_le

variable (signed maps) in
/-- The symbol of a short line is added. -/
theorem performCall_run {line : Text} (hroom : s.strings.used ≤ MAX_STRINGSPACE)
    (hshort : line.length < 254) : ∃ t, performCall signed (lineSymbol maps line) s = .ok () t ∧
      t.strings.used ≤ MAX_STRINGSPACE ∧ ∀ cs, runAll (SymCall.perform signed)
        ((lineSymbol maps line).toList ++ cs) s = runAll (SymCall.perform signed) cs t := by
  cases hsymbol : symbolLine line with
  | none =>
    rw [lineSymbol, hsymbol]
    exact ⟨s, rfl, hroom, fun _ => rfl⟩
  | some p =>
    have hname := (List.takeWhile_prefix (p := fun c : BitVec 8 => decide (c ≠ 0))
      (l := p.1)).length_le
    have hlength := symbolLine_length hsymbol
    have hfits : (bufferString p.1).length < MAX_STRINGSPACE := by
      rw [MAX_STRINGSPACE]
      exact Nat.lt_of_le_of_lt hname (by omega)
    obtain ⟨place, ss, hcopy, hused, -⟩ := stringspaceCopy_run hroom hfits
    have hsome : lineSymbol maps line =
        some (.add (bufferString p.1) (BitVec.ofNat 64 (Access.toAbsolute maps p.2))) := by
      rw [lineSymbol, hsymbol, Option.map_some]
    generalize BitVec.ofNat 64 (Access.toAbsolute maps p.2) = value at hsome
    have hrun : ∃ t, (SymCall.add (bufferString p.1) value).perform signed s = .ok () t ∧
        t.strings.used ≤ MAX_STRINGSPACE := by
      rw [SymCall.perform, symAdd, bind_assoc, run_bind_ok hcopy]
      exact ⟨_, rfl, hused⟩
    obtain ⟨t, hperform, ht⟩ := hrun
    rw [hsome]
    refine ⟨t, ?_, ht, fun cs => run_bind_ok hperform⟩
    simp only [performCall, hperform]

theorem filterMap_toList {α β : Type} (f : α → Option β) (a : α) (as : List α) :
    (a :: as).filterMap f = (f a).toList ++ as.filterMap f := by
  rw [List.filterMap_cons]
  cases f a <;> rfl

/-- A round that returns gives its own call and those of the rounds after it. -/
theorem round_iff {call : Option SymCall} {m : MapM (List (Option SymCall))}
    {cs : List (Option SymCall)} {t : Symtab} :
    (do performCall signed call; return call :: (← m)) s = .ok cs t ↔
      ∃ ds u, cs = call :: ds ∧ performCall signed call s = .ok () u ∧ m u = .ok ds t := by
  constructor
  · intro h
    obtain ⟨⟨⟩, u, hfirst, hrest⟩ := of_run_bind_ok h
    obtain ⟨ds, v, hm, hpure⟩ := of_run_bind_ok hrest
    cases hpure
    exact ⟨ds, u, rfl, hfirst, hm⟩
  · rintro ⟨ds, u, rfl, hfirst, hm⟩
    rw [run_bind_ok hfirst, run_bind_ok hm]
    rfl

/-- By induction on the lines: the loop goes right exactly if each of them does. -/
theorem readMap_iff {fuel : ℕ} {file : Text} (hroom : s.strings.used ≤ MAX_STRINGSPACE)
    (hfuel : file.length < fuel) (hshort : ∀ line ∈ file.splitOn 10, line.length < 254) :
    (∃ t, readMap signed maps fuel file s = .ok ((file.splitOn 10).map (lineSymbol maps)) t ∧
        runAll (SymCall.perform signed) ((file.splitOn 10).filterMap (lineSymbol maps)) s =
          .ok () t) ↔
      (∀ line ∈ (file.splitOn 10).dropLast, Legible maps line) ∧
        ∀ line ∈ (file.splitOn 10).getLast?, symbolLine line = none := by
  induction fuel generalizing file s with
  | zero => exact absurd hfuel (Nat.not_lt_zero _)
  | succ fuel ih =>
    by_cases hnewline : 10 ∈ file
    · obtain ⟨line, rest, rfl, hline⟩ := List.eq_append_cons_of_mem hnewline
      rw [List.splitOn_append_cons_self_of_not_mem hline] at hshort ⊢
      obtain ⟨hfirst, hrest⟩ := List.forall_mem_cons.mp hshort
      have hne : rest.splitOn 10 ≠ [] := List.splitOn_ne_nil 10 rest
      rw [readMap_line hline hfirst, List.dropLast_cons_of_ne_nil hne, List.forall_mem_cons,
        List.getLast?_cons_of_ne_nil hne, List.map_cons]
      by_cases hlegible : Legible maps line
      · obtain ⟨t₁, hperform, hroom₁, hruns⟩ :=
          performCall_run signed maps hroom hfirst
        rw [and_iff_right hlegible, ← ih (s := t₁) hroom₁ (by simp at hfuel; omega) hrest,
          lineCall_iff.mpr hlegible, filterMap_toList, hruns]
        refine exists_congr fun t => and_congr_left fun _ => ?_
        rw [round_iff]
        constructor
        · rintro ⟨ds, u, heq, hcall, hmore⟩
          cases heq
          rw [hperform] at hcall
          cases hcall
          exact hmore
        · intro hmore
          exact ⟨_, t₁, rfl, hperform, hmore⟩
      · refine iff_of_false ?_ fun h => hlegible h.1.1
        rintro ⟨t, hrun, -⟩
        rw [← lineCall_iff] at hlegible
        split at hrun
        · cases hrun
        · rename_i call hcall
          obtain ⟨ds, u, heq, -⟩ := round_iff.mp hrun
          cases heq
          exact hlegible hcall
    · rw [List.splitOn_eq_singleton hnewline] at hshort ⊢
      rw [readMap_last hnewline (hshort file List.mem_cons_self)]
      cases hsymbol : symbolLine file with
      | none =>
        have hnone : lineSymbol maps file = none := by rw [lineSymbol, hsymbol, Option.map_none]
        simp [hnone, hsymbol, runAll]
      | some p => simp [lineSymbol, hsymbol]

end File

/-- A map file is loaded right exactly if every line has a word and those that begin with
`Symbol:` are of the form, and the newline of the last one is there. -/
theorem mapLoads_iff (signed : Bool) (maps : BusMaps) {file : Text} {s : Symtab}
    (hroom : s.strings.used ≤ MAX_STRINGSPACE)
    (hshort : ∀ line ∈ file.splitOn 10, line.length < 254) :
    MapLoads signed maps file s ↔ (∀ line ∈ (file.splitOn 10).dropLast, Legible maps line) ∧
      ∀ line ∈ (file.splitOn 10).getLast?, symbolLine line = none :=
  readMap_iff hroom (Nat.lt_succ_self _) hshort

/-- A file with one symbol and another line. -/
theorem mapLoads_two :
    MapLoads true initialBusmaps (Text.ofString "Symbol: a (f.o) = 0100\nend\n")
      (Symtab.init emptySpaces noSymbol) := by
  refine (mapLoads_iff true initialBusmaps (Nat.zero_le _) (by decide)).mpr ⟨?_, by decide⟩
  have hlines : ((Text.ofString "Symbol: a (f.o) = 0100\nend\n").splitOn 10).dropLast =
      [Text.ofString "Symbol: a (f.o) = 0100", Text.ofString "end"] := by decide
  rw [hlines, List.forall_mem_cons, List.forall_mem_singleton]
  refine ⟨⟨_, rfl, fun _ => ⟨(Text.ofString "a", 0x100), by decide, rfl⟩⟩, _, rfl, fun h => ?_⟩
  exact absurd h (by decide)

/-- A blank line: there is no word to compare. -/
theorem blank_line : ¬∀ (signed : Bool) (maps : BusMaps) (file : Text) (s : Symtab),
    s.strings.used ≤ MAX_STRINGSPACE → (∀ line ∈ file.splitOn 10, line.length < 254) →
      MapLoads signed maps file s := by
  intro h
  obtain ⟨t, hrun, -⟩ := h true initialBusmaps [10] (Symtab.init emptySpaces noSymbol)
    (Nat.zero_le _) (by decide)
  cases hrun

end Exec09.Debugger
