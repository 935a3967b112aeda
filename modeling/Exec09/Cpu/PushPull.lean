import Exec09.Cpu.CwaiFrame

/-! # PSHS and PULS, PSHU and PULU

The postbyte selects parts of the processor state; a push stacks the selected
ones, from the last to the first, and a pull with the same postbyte takes them
off in the opposite order. The steps of a push are followed for any family of
assertions that its byte and word pushes advance.
-/
namespace Exec09
open Foundation Foundation.Stack
variable {β : Type}

def wordCells (v : ℕ) : List ℕ := [v >>> 8, v &&& 0xff]

/-- The parts of a frame, from the stack pointer up, each after the bit that selects it. -/
def parts (sp : StackReg) (s : Cpu β) : List (ℕ × List ℕ) := [
  (0x01, [getCc s]),
  (0x02, [s.A]),
  (0x04, [s.B]),
  (0x08, [s.DP >>> 8]),
  (0x10, wordCells s.X),
  (0x20, wordCells s.Y),
  (0x40, wordCells (sp.other.get s)),
  (0x80, wordCells (s.PC &&& 0xffff))]

/-- What a postbyte selects of these. -/
def selected (post : ℕ) (ps : List (ℕ × List ℕ)) : List ℕ :=
  ps.flatMap fun p => if post &&& p.1 ≠ 0 then p.2 else []

theorem selected_cons (post mask : ℕ) (l : List ℕ) (ps : List (ℕ × List ℕ)) :
    selected post ((mask, l) :: ps) =
      (if post &&& mask ≠ 0 then l else []) ++ selected post ps := List.flatMap_cons

theorem selected_drop (post k : ℕ) (ps : List (ℕ × List ℕ)) :
    selected post (ps.drop k) <:+ selected post ps := by
  have hsplit : selected post ps = selected post (ps.take k) ++ selected post (ps.drop k) := by
    rw [selected, selected, selected, ← List.flatMap_append, List.take_append_drop]
  rw [hsplit]
  exact List.suffix_append _ _

/-- The bytes that a push leaves, from its stack pointer up. -/
def pushedBytes (sp : StackReg) (post : ℕ) (s : Cpu β) : List ℕ := selected post (parts sp s)

/-- How many these are. -/
def pushSize (post : ℕ) : ℕ :=
  (selected post [(0x01, [0]), (0x02, [0]), (0x04, [0]), (0x08, [0]), (0x10, [0, 0]),
    (0x20, [0, 0]), (0x40, [0, 0]), (0x80, [0, 0])]).length

theorem selected_length {post : ℕ} {ps qs : List (ℕ × List ℕ)}
    (h : ps.map (fun p => (p.1, p.2.length)) = qs.map fun p => (p.1, p.2.length)) :
    (selected post ps).length = (selected post qs).length := by
  induction ps generalizing qs with
  | nil =>
    cases qs with
    | nil => rfl
    | cons q qs => cases h
  | cons p ps ih =>
    cases qs with
    | nil => cases h
    | cons q qs =>
      rcases p with ⟨mask, l⟩
      rcases q with ⟨mask', l'⟩
      simp only [List.map_cons, List.cons.injEq, Prod.mk.injEq] at h
      obtain ⟨⟨rfl, hl⟩, hrest⟩ := h
      rw [selected_cons, selected_cons, List.length_append, List.length_append, ih hrest]
      split <;> simp [hl]

theorem pushedBytes_length (sp : StackReg) (post : ℕ) (s : Cpu β) :
    (pushedBytes sp post s).length = pushSize post := selected_length rfl

theorem pushSize_le (post : ℕ) : pushSize post ≤ 12 := by
  have hle : ∀ ps : List (ℕ × List ℕ),
      (selected post ps).length ≤ (ps.map fun p => p.2.length).sum := by
    intro ps
    induction ps with
    | nil => exact Nat.le_refl _
    | cons p ps ih =>
      rcases p with ⟨mask, l⟩
      rw [selected_cons, List.length_append, List.map_cons, List.sum_cons]
      split <;> simp <;> omega
  exact hle _

/-! ## The steps of a push -/

section Pushes
variable [Bus β] {sp : StackReg} {s₀ : Cpu β} {n : ℕ} {I : List ℕ → Cpu β → Prop}
  {E : Cpu β → Prop}

/-- `I l` says that `l` has been pushed since `s₀`; at most `n` bytes are going to be. -/
structure Pushes (sp : StackReg) (s₀ : Cpu β) (n : ℕ) (I : List ℕ → Cpu β → Prop)
    (E : Cpu β → Prop) : Prop where
  rest : ∀ l s, I l s →
    s = sp.set (sp.get s) { s₀ with trace := s.trace, bus := s.bus, cpuClk := s.cpuClk }
  charged : ∀ l k, Triple (I l) (charge k) (fun _ => I l) E
  pushed8 : ∀ l v, l.length + 1 ≤ n → Triple (I l) (push8 sp v) (fun _ => I (v :: l)) E
  pushed16 : ∀ l v, l.length + 2 ≤ n →
    Triple (I l) (push16 sp v) (fun _ => I (v >>> 8 :: (v &&& 0xff) :: l)) E

/-- A function of the registers that a push does not change. -/
def Steady (sp : StackReg) (s₀ : Cpu β) (p : Cpu β → ℕ) : Prop :=
  ∀ v t b c, p (sp.set v { s₀ with trace := t, bus := b, cpuClk := c }) = p s₀

theorem Pushes.looked (h : Pushes sp s₀ n I E) {p : Cpu β → ℕ} (hp : Steady sp s₀ p) (l : List ℕ) :
    Triple (I l) (look p) (fun a s => a = p s₀ ∧ I l s) E := by
  apply look_triple
  intro s hs
  refine ⟨?_, hs⟩
  rw [h.rest l s hs]
  exact hp _ _ _ _

variable {post mask : ℕ} {ps : List (ℕ × List ℕ)} {p : Cpu β → ℕ} (k : ℤ) (f : ℕ → ℕ)

theorem Pushes.part8 (h : Pushes sp s₀ n I E) (hp : Steady sp s₀ p)
    (hn : (selected post ((mask, [f (p s₀)]) :: ps)).length ≤ n) :
    Triple (I (selected post ps))
      (onBit post mask do charge k; push8 sp (f (← look p)))
      (fun _ => I (selected post ((mask, [f (p s₀)]) :: ps))) E := by
  rw [selected_cons] at hn ⊢
  unfold onBit onlyIf
  by_cases hbit : post &&& mask ≠ 0
  · rw [if_pos hbit] at hn ⊢
    rw [if_pos hbit]
    refine (h.charged _ k).bind fun _ => (h.looked hp _).value (h.pushed8 _ _ ?_)
    rw [List.length_append] at hn
    change 1 + _ ≤ n at hn
    omega
  · rw [if_neg hbit, if_neg hbit]
    exact Triple.pure _ fun _ hs => hs

theorem Pushes.part16 (h : Pushes sp s₀ n I E) (hp : Steady sp s₀ p)
    (hn : (selected post ((mask, wordCells (f (p s₀))) :: ps)).length ≤ n) :
    Triple (I (selected post ps))
      (onBit post mask do charge k; push16 sp (f (← look p)))
      (fun _ => I (selected post ((mask, wordCells (f (p s₀))) :: ps))) E := by
  rw [selected_cons] at hn ⊢
  unfold onBit onlyIf
  by_cases hbit : post &&& mask ≠ 0
  · rw [if_pos hbit] at hn ⊢
    rw [if_pos hbit]
    refine (h.charged _ k).bind fun _ => (h.looked hp _).value (h.pushed16 _ _ ?_)
    rw [List.length_append] at hn
    change 2 + _ ≤ n at hn
    omega
  · rw [if_neg hbit, if_neg hbit]
    exact Triple.pure _ fun _ hs => hs

/-- What a push does after its postbyte. -/
def pshSelected (sp : StackReg) (post : ℕ) : CpuM β Unit := do
  charge 5
  onBit post 0x80 do charge 2; push16 sp ((← look Cpu.PC) &&& 0xffff)
  onBit post 0x40 do charge 2; push16 sp (← look sp.other.get)
  onBit post 0x20 do charge 2; push16 sp (← look Cpu.Y)
  onBit post 0x10 do charge 2; push16 sp (← look Cpu.X)
  onBit post 0x08 do charge 1; push8 sp ((← look Cpu.DP) >>> 8)
  onBit post 0x04 do charge 1; push8 sp (← look Cpu.B)
  onBit post 0x02 do charge 1; push8 sp (← look Cpu.A)
  onBit post 0x01 do charge 1; push8 sp (← look getCc)

theorem psh_eq (sp : StackReg) : psh (β := β) sp = (do pshSelected sp (← immByte)) := rfl

theorem Pushes.all (h : Pushes sp s₀ n I E) (hn : pushSize post ≤ n) :
    Triple (I []) (pshSelected sp post) (fun _ => I (pushedBytes sp post s₀)) E := by
  have hsize (j : ℕ) : (selected post ((parts sp s₀).drop j)).length ≤ n := by
    have hle := (selected_drop post j (parts sp s₀)).length_le
    rw [← pushedBytes, pushedBytes_length] at hle
    omega
  have hother : Steady sp s₀ sp.other.get := by
    intro v t b c
    cases sp <;> rfl
  have hcc : Steady sp s₀ getCc := by
    intro v t b c
    cases sp <;> rfl
  have hreg : Steady sp s₀ Cpu.PC ∧ Steady sp s₀ Cpu.Y ∧ Steady sp s₀ Cpu.X ∧ Steady sp s₀ Cpu.DP ∧
      Steady sp s₀ Cpu.B ∧ Steady sp s₀ Cpu.A := by
    refine ⟨?_, ?_, ?_, ?_, ?_, ?_⟩ <;> intro v t b c <;> cases sp <;> rfl
  obtain ⟨hPC, hY, hX, hDP, hB, hA⟩ := hreg
  unfold pshSelected
  refine (h.charged [] 5).bind fun _ => ?_
  refine (h.part16 2 (· &&& 0xffff) hPC (hsize 7)).bind fun _ => ?_
  refine (h.part16 2 id hother (hsize 6)).bind fun _ => ?_
  refine (h.part16 2 id hY (hsize 5)).bind fun _ => ?_
  refine (h.part16 2 id hX (hsize 4)).bind fun _ => ?_
  refine (h.part8 1 (· >>> 8) hDP (hsize 3)).bind fun _ => ?_
  refine (h.part8 1 id hB (hsize 2)).bind fun _ => ?_
  refine (h.part8 1 id hA (hsize 1)).bind fun _ => ?_
  exact h.part8 1 id hcc (hsize 0)

end Pushes

section Traced
variable [Bus β] {sp : StackReg} {s₀ : Cpu β} {l : List ℕ}

/-- `l` has been pushed since `s₀`, and cycles have been charged. -/
def Pushed (sp : StackReg) (s₀ : Cpu β) (l : List ℕ) (s : Cpu β) : Prop :=
  Pushing sp { s₀ with cpuClk := s.cpuClk } l s

omit [Bus β] in
theorem Pushing.clock {s₁ s : Cpu β} (h : Pushing sp s₁ l s) : s.cpuClk = s₁.cpuClk := by
  rw [h.rest]
  cases sp <;> rfl

omit [Bus β] in
/-- A program of the stack, from any clock. -/
theorem pushed_triple {α : Type} {m : CpuM β α} {l' : List ℕ}
    (h : ∀ s₁, Triple (Pushing sp s₁ l) m (fun _ => Pushing sp s₁ l') Anywhere) :
    Triple (Pushed sp s₀ l) m (fun _ => Pushed sp s₀ l') Anywhere := by
  intro s hs
  have hm := h { s₀ with cpuClk := s.cpuClk } s hs
  cases hr : m s with
  | error e t => trivial
  | ok a t =>
    rw [hr] at hm
    have hclock : t.cpuClk = s.cpuClk := hm.clock
    change Pushing sp { s₀ with cpuClk := t.cpuClk } l' t
    rw [hclock]
    exact hm

omit [Bus β] in
theorem charge_pushed (k : ℤ) :
    Triple (Pushed sp s₀ l) (charge k) (fun _ => Pushed sp s₀ l) Anywhere := by
  apply Triple.modify
  intro s hs
  refine ⟨?_, ?_, ?_, ?_⟩
  · have hrest := congrArg (fun t : Cpu β => { t with cpuClk := s.cpuClk - k }) hs.rest
    refine hrest.trans ?_
    cases sp <;> rfl
  · exact hs.trace.trans (by cases sp <;> rfl)
  · have hdepth := hs.depth
    cases sp <;> exact hdepth
  · have hlt := hs.lt
    cases sp <;> exact hlt

theorem pushed_pushes : Pushes sp s₀ 12 (Pushed sp s₀) Anywhere where
  rest l s h := h.rest.trans (by cases sp <;> rfl)
  charged l k := charge_pushed k
  pushed8 l v hl := pushed_triple fun s₁ => push8_pushing (by omega) v
  pushed16 l v hl := pushed_triple fun s₁ => push16_pushing (by omega) v

end Traced

/-! ## A push on plain memory -/

section OnRam
variable [Bus β] {F : ℕ → Prop} {M : PlainRam β F} {sp : StackReg} {s₀ : Cpu β} {n : ℕ}
  {l : List ℕ}

/-- `l` has been pushed since `s₀`, is there, and is all that has changed in the memory. -/
structure OnRam (M : PlainRam β F) (sp : StackReg) (s₀ : Cpu β) (l : List ℕ) (s : Cpu β) :
    Prop where
  pushed : Pushed sp s₀ l s
  low : sp.get s₀ < 65536 → sp.get s < 65536
  ok : M.ok s.bus
  holds : Holds 65536 (M.byte s.bus) (sp.get s) (l.map (BitVec.ofNat 8))
  apart : ∀ a, F a → ¬frame (sp.get s₀) l.length a → M.byte s.bus a = M.byte s₀.bus a

theorem OnRam.start {s : Cpu β} (hok : M.ok s.bus) : OnRam M sp s [] s where
  pushed := Pushing.start sp s
  low := id
  ok := hok
  holds := holds_nil
  apart _ _ _ := rfl

theorem frame_mono {top m k a : ℕ} (h : frame top m a) (hm : m ≤ k) : frame top k a := by
  rcases h with ⟨i, hpos, hi, ha⟩
  exact ⟨i, hpos, hi.trans hm, ha⟩

omit [Bus β] in
theorem Pushed.depth {s : Cpu β} (h : Pushed sp s₀ l s) :
    (sp.get s + l.length) % 65536 = sp.get s₀ % 65536 :=
  (Pushing.depth h).trans (by cases sp <;> rfl)

omit [Bus β] in
theorem Pushed.writes {s : Cpu β} (h : Pushed sp s₀ l s) :
    s.trace = stackWrites (sp.get s₀) l ++ s₀.trace :=
  (Pushing.trace h).trans (by cases sp <;> rfl)

theorem write8_ram {a : ℕ} (v : ℕ) {s : Cpu β} (hok : M.ok s.bus) (ha : F a) :
    ∃ b, write8 a v s = .ok () { s with trace := .write8 a v :: s.trace, bus := b } ∧ M.ok b ∧
      ∀ c, F c → M.byte b c = if c = a then BitVec.ofNat 8 v else M.byte s.bus c := by
  obtain ⟨b, hwrite, hb⟩ := M.write (getPc s) a (BitVec.ofNat 8 v) s.bus hok ha
  exact ⟨b, by rw [write8_run, hwrite], hb⟩

omit [Bus β] in
/-- The cells that have been pushed, and the next one below, are in the frame. -/
theorem Pushed.cell {s : Cpu β} (h : Pushed sp s₀ l s) (hl : l.length + 1 ≤ 65536) {i : ℕ}
    (hi : i ≤ l.length) :
    frame (sp.get s₀) (l.length + 1) (((sp.get s + 65535) % 65536 + i) % 65536) := by
  have hdepth := h.depth
  exact ⟨l.length + 1 - i, by omega, by omega, by omega⟩

theorem push8_at (v : ℕ) (s : Cpu β) :
    push8 sp v s =
      write8 ((sp.get s + 65535) % 65536) v (sp.set ((sp.get s + 65535) % 65536) s) := by
  rw [push8, run_bind_ok (lowerStack_at 1 s), run_bind_ok (run_look _ _), sp.get_set, below_eq]

theorem push8_onRam (hn : n ≤ 12) (hF : ∀ a, frame (sp.get s₀) n a → F a) (hl : l.length + 1 ≤ n)
    (v : ℕ) : Triple (OnRam M sp s₀ l) (push8 sp v) (fun _ => OnRam M sp s₀ (v :: l))
      fun _ => False := by
  intro s hs
  obtain ⟨a, ha⟩ : ∃ a, (sp.get s + 65535) % 65536 = a := ⟨_, rfl⟩
  have hcell {i : ℕ} (hi : i ≤ l.length) : frame (sp.get s₀) (l.length + 1) ((a + i) % 65536) := by
    rw [← ha]
    exact hs.pushed.cell (by omega) hi
  have hbus : (sp.set a s).bus = s.bus := sp.set_bus a s
  have hlt : a < 65536 := ha ▸ Nat.mod_lt _ (by decide)
  have hnew : frame (sp.get s₀) (l.length + 1) a := by
    have hzero := hcell (Nat.zero_le l.length)
    rwa [show (a + 0) % 65536 = a by omega] at hzero
  have hFa : F a := hF a (frame_mono hnew hl)
  obtain ⟨b, hwrite, hok, hb⟩ := write8_ram v (s := sp.set a s) (hbus ▸ hs.ok) hFa
  have hrun : push8 sp v s = .ok ()
      { sp.set a s with trace := .write8 a v :: (sp.set a s).trace, bus := b } := by
    rw [push8_at, ha, hwrite]
  have hpushed := (pushed_pushes.pushed8 l v (by omega)).of_ok hs.pushed hrun
  rw [hrun]
  have hget : sp.get ({ sp.set a s with
      trace := .write8 a v :: (sp.set a s).trace, bus := b } : Cpu β) = a := by cases sp <;> rfl
  have hbelow : (sp.get s + (65536 - 1)) % 65536 = a := ha
  refine ⟨hpushed, fun _ => hget.trans_lt hlt, hok, ?_, ?_⟩
  · rw [hget, ← hbelow]
    refine hs.holds.push (by decide) ?_ fun i hi => ?_
    · rw [hbelow]
      exact (hb a hFa).trans (if_pos rfl)
    · rw [List.length_map] at hi
      have hi' := hcell (Nat.succ_le_of_lt hi)
      have hsame : (a + (i + 1)) % 65536 = (sp.get s + i) % 65536 := by omega
      rw [Nat.succ_eq_add_one, hsame] at hi'
      rw [hb _ (hF _ (frame_mono hi' hl)), if_neg (by omega), hbus]
  · intro c hc hframe
    rw [hb c hc, hbus]
    have hne : c ≠ a := fun h => hframe (h ▸ hnew)
    rw [if_neg hne]
    exact hs.apart c hc fun h => hframe (frame_mono h (Nat.le_succ _))

/-- A word is pushed as its low byte and then its high byte. -/
theorem push16_split {v : ℕ} {s s' : Cpu β} (h : push8 sp (v &&& 0xff) s = .ok () s') :
    push16 sp v s = push8 sp (v >>> 8) s' := by
  obtain ⟨a, ha⟩ : ∃ a, (sp.get s + 65535) % 65536 = a := ⟨_, rfl⟩
  obtain ⟨b, hb⟩ : ∃ b, (a + 65535) % 65536 = b := ⟨_, rfl⟩
  have hlow : (b + 1) &&& 0xffff = a := by
    rw [Word.and_65535]
    omega
  have htwo : usub (sp.get s) 2 &&& 0xffff = b := by
    rw [below_two_eq, ← hb, ← ha]
  have hpc (w : ℕ) : getPc (sp.set w s) = getPc s := by cases sp <;> rfl
  rw [push16, run_bind_ok (lowerStack_at 2 s), htwo, run_bind_ok (run_look _ _), sp.get_set,
    writeStack16, hlow]
  rw [push8_at, ha, write8_run, hpc, sp.set_bus] at h
  cases hw : Bus.cpuWrite8 (getPc s) a (BitVec.ofNat 8 (v &&& 0xff)) s.bus with
  | error e m =>
    rw [hw] at h
    cases h
  | ok u m =>
    rw [hw] at h
    cases h
    have hwrite : write8 a (v &&& 0xff) (sp.set b s) = .ok ()
        { sp.set b s with trace := .write8 a (v &&& 0xff) :: (sp.set b s).trace, bus := m } := by
      rw [write8_run, hpc, sp.set_bus, hw]
    have hget : sp.get ({ sp.set a s with
        trace := .write8 a (v &&& 0xff) :: (sp.set a s).trace, bus := m } : Cpu β) = a := by
      cases sp <;> rfl
    have hstate (t : List Access) : sp.set b ({ sp.set a s with trace := t, bus := m } : Cpu β) =
        { sp.set b s with trace := t, bus := m } := by
      cases sp <;> rfl
    rw [run_bind_ok hwrite, push8_at, hget, hb, hstate, sp.set_trace, sp.set_trace]

theorem push16_onRam (hn : n ≤ 12) (hF : ∀ a, frame (sp.get s₀) n a → F a) (hl : l.length + 2 ≤ n)
    (v : ℕ) : Triple (OnRam M sp s₀ l) (push16 sp v)
      (fun _ => OnRam M sp s₀ (v >>> 8 :: (v &&& 0xff) :: l)) fun _ => False := by
  intro s hs
  have hlow := push8_onRam hn hF (by omega) (v &&& 0xff) s hs
  cases hr : push8 sp (v &&& 0xff) s with
  | error e t =>
    rw [hr] at hlow
    exact hlow.elim
  | ok u t =>
    rw [hr] at hlow
    rw [push16_split hr]
    exact push8_onRam (l := (v &&& 0xff) :: l) hn hF hl (v >>> 8) t hlow

theorem onRam_pushes (hn : n ≤ 12) (hF : ∀ a, frame (sp.get s₀) n a → F a) :
    Pushes sp s₀ n (OnRam M sp s₀) fun _ => False where
  rest l s h := pushed_pushes.rest l s h.pushed
  charged l k := by
    apply Triple.modify
    intro s hs
    have hget : sp.get ({ s with cpuClk := s.cpuClk - k } : Cpu β) = sp.get s := by cases sp <;> rfl
    exact ⟨(charge_pushed k).of_ok hs.pushed rfl, hget ▸ hs.low, hs.ok, hget ▸ hs.holds, hs.apart⟩
  pushed8 l v hl := push8_onRam hn hF hl v
  pushed16 l v hl := push16_onRam hn hF hl v

/-- A push returns, and has changed nothing outside its frame. -/
theorem pshSelected_onRam {post : ℕ} {s : Cpu β} (hok : M.ok s.bus)
    (hF : ∀ a, frame (sp.get s) (pushSize post) a → F a) :
    ∃ s', pshSelected sp post s = .ok () s' ∧ OnRam M sp s (pushedBytes sp post s) s' := by
  obtain ⟨u, s', hrun, hs'⟩ :=
    ((onRam_pushes (pushSize_le post) hF).all le_rfl).total (OnRam.start hok)
  exact ⟨s', hrun, hs'⟩

end OnRam

/-! ## A pull from plain memory -/

/-- The reads of a pull of this many bytes, latest first. -/
def stackReads (p : ℕ) : ℕ → List Access
  | 0 => []
  | k + 1 => .read8 ((p + k) % 65536) :: stackReads p k

section Pulling
variable [Bus β] {F : ℕ → Prop} {M : PlainRam β F} {sp : StackReg} {n : ℕ} {u s₀ : Cpu β}
  {l : List U8}

/-- `s` is `s₀` while `n` bytes are being pulled since `u`, of which `l` are left. -/
structure Pulling (M : PlainRam β F) (sp : StackReg) (n : ℕ) (u s₀ : Cpu β) (l : List U8)
    (s : Cpu β) : Prop where
  rest : s = sp.set (sp.get s) { s₀ with trace := s.trace, bus := s.bus, cpuClk := s.cpuClk }
  place : ∃ k, k + l.length = n ∧ sp.get s = (sp.get u + k) % 65536 ∧
    s.trace = stackReads (sp.get u) k ++ u.trace
  ok : M.ok s.bus
  holds : Holds 65536 (M.byte s.bus) (sp.get s) l
  inside : ∀ i < l.length, F ((sp.get s + i) % 65536)
  bytes : ∀ a, F a → M.byte s.bus a = M.byte u.bus a

theorem read8_ram {a : ℕ} {s : Cpu β} (hok : M.ok s.bus) (ha : F a) :
    ∃ b, read8 a s = .ok (M.byte s.bus a).toNat { s with trace := .read8 a :: s.trace, bus := b } ∧
      M.ok b ∧ ∀ c, F c → M.byte b c = M.byte s.bus c := by
  obtain ⟨b, hread, hb⟩ := M.read (getPc s) a s.bus hok ha
  exact ⟨b, by rw [read8_run, hread], hb⟩

omit [Bus β] in
theorem raiseStack_at (k : ℕ) (s : Cpu β) :
    raiseStack sp k s = .ok () (sp.set ((sp.get s + k) &&& 0xffff) s) := rfl

/-- A byte is pulled where it can be read. -/
theorem pull8_of_read {v : ℕ} {s t : Cpu β} (h : read8 (sp.get s) s = .ok v t) :
    pull8 sp s = .ok v (sp.set ((sp.get t + 1) &&& 0xffff) t) := by
  rw [pull8, run_bind_ok (run_look _ s), run_bind_ok h, run_bind_ok (raiseStack_at 1 t)]
  rfl

theorem read8_of_pull {v : ℕ} {s s' : Cpu β} (h : pull8 sp s = .ok v s') :
    ∃ t, read8 (sp.get s) s = .ok v t ∧ s' = sp.set ((sp.get t + 1) &&& 0xffff) t := by
  rw [pull8, run_bind_ok (run_look _ s)] at h
  obtain ⟨a, t, hread, htail⟩ := of_run_bind_ok h
  rw [run_bind_ok (raiseStack_at 1 t)] at htail
  cases htail
  exact ⟨t, hread, rfl⟩

/-- A read does not look at the stack pointer. -/
theorem read8_set (w a : ℕ) (s : Cpu β) : read8 a (sp.set w s) =
    match read8 a s with
    | .ok v t => .ok v (sp.set w t)
    | .error e t => .error e (sp.set w t) := by
  rw [read8_run, read8_run]
  have hpc : getPc (sp.set w s) = getPc s := by cases sp <;> rfl
  rw [hpc, sp.set_bus, sp.set_trace]
  cases Bus.cpuRead8 (getPc s) a s.bus <;> cases sp <;> rfl

theorem read8_get (sp : StackReg) {a v : ℕ} {s t : Cpu β} (h : read8 a s = .ok v t) :
    sp.get t = sp.get s := by
  rw [read8_run] at h
  cases hr : Bus.cpuRead8 (getPc s) a s.bus with
  | ok w b => rw [hr] at h; cases h; cases sp <;> rfl
  | error e b => rw [hr] at h; cases h

/-- A word is pulled as its high byte and then its low byte. -/
theorem pull16_split {hi lo : ℕ} {s s₁ s₂ : Cpu β} (hhi : pull8 sp s = .ok hi s₁)
    (hlo : pull8 sp s₁ = .ok lo s₂) : pull16 sp s = .ok ((hi <<< 8) ||| lo) s₂ := by
  obtain ⟨t, hread, rfl⟩ := read8_of_pull hhi
  obtain ⟨t', hread', rfl⟩ := read8_of_pull hlo
  rw [sp.get_set, read8_get sp hread, read8_set] at hread'
  cases hnext : read8 ((sp.get s + 1) &&& 0xffff) t with
  | error e r =>
    rw [hnext] at hread'
    cases hread'
  | ok w r =>
    rw [hnext] at hread'
    cases hread'
    have hword : readStack16 (sp.get s) s = .ok ((hi <<< 8) ||| lo) r := by
      rw [readStack16, run_bind_ok hread, run_bind_ok hnext]
      rfl
    have htwo : (sp.get s + 2) &&& 0xffff = ((sp.get s + 1) &&& 0xffff) + 1 &&& 0xffff := by
      simp only [Word.and_65535]
      omega
    rw [pull16, run_bind_ok (run_look _ s), run_bind_ok hword, run_bind_ok (raiseStack_at 2 r),
      sp.get_set, read8_get sp hnext, read8_get sp hread, htwo]
    cases sp <;> rfl

theorem pull8_pulling (v : U8) :
    Triple (Pulling M sp n u s₀ (v :: l)) (pull8 sp)
      (fun a s => a = v.toNat ∧ Pulling M sp n u s₀ l s) fun _ => False := by
  intro s hs
  obtain ⟨k, hk, hget, htrace⟩ := hs.place
  have hlt : sp.get s < 65536 := hget ▸ Nat.mod_lt _ (by decide)
  have hF := hs.inside 0 (Nat.succ_pos _)
  rw [Nat.add_zero, Nat.mod_eq_of_lt hlt] at hF
  obtain ⟨b, hread, hok, hb⟩ := read8_ram hs.ok hF
  generalize ha : (sp.get s + 1) % 65536 = a
  generalize ht : Access.read8 (sp.get s) :: s.trace = t at hread
  have hrun : pull8 sp s = .ok (M.byte s.bus (sp.get s)).toNat
      (sp.set a { s with trace := t, bus := b }) := by
    have hsame : sp.get ({ s with trace := t, bus := b } : Cpu β) = sp.get s := by cases sp <;> rfl
    rw [pull8_of_read hread, hsame, Word.and_65535, ha]
  rw [hrun]
  refine ⟨by rw [hs.holds.top hlt], ?_, ⟨k + 1, ?_, ?_, ?_⟩, ?_, ?_, ?_, ?_⟩
  · rw [sp.get_set, sp.set_trace, sp.set_bus]
    conv_lhs => rw [hs.rest]
    cases sp <;> rfl
  · rw [List.length_cons] at hk
    omega
  · rw [sp.get_set, ← ha, hget]
    omega
  · rw [sp.set_trace, ← ht, htrace, hget]
    rfl
  · rw [sp.set_bus]
    exact hok
  · rw [sp.get_set, sp.set_bus, ← ha]
    refine hs.holds.pop.congr fun i hi => hb _ ?_
    have hmem := hs.inside (i + 1) (Nat.succ_lt_succ hi)
    rwa [Nat.mod_add_mod, Nat.add_assoc, Nat.add_comm 1]
  · intro i hi
    have hmem := hs.inside (i + 1) (Nat.succ_lt_succ hi)
    rw [sp.get_set, ← ha, Nat.mod_add_mod, Nat.add_assoc, Nat.add_comm 1]
    exact hmem
  · intro c hc
    rw [sp.set_bus]
    exact (hb c hc).trans (hs.bytes c hc)

theorem pull16_pulling (v w : U8) :
    Triple (Pulling M sp n u s₀ (v :: w :: l)) (pull16 sp)
      (fun a s => a = (v.toNat <<< 8) ||| w.toNat ∧ Pulling M sp n u s₀ l s) fun _ => False := by
  intro s hs
  obtain ⟨_, s₁, hhi, rfl, hs₁⟩ := (pull8_pulling v).total hs
  obtain ⟨_, s₂, hlo, rfl, hs₂⟩ := (pull8_pulling w).total hs₁
  rw [pull16_split hhi hlo]
  exact ⟨rfl, hs₂⟩

/-- A change of the registers that leaves the stack alone. -/
def Aside (sp : StackReg) (g : Cpu β → Cpu β) : Prop :=
  ∀ v t b c s, g (sp.set v { s with trace := t, bus := b, cpuClk := c }) =
    sp.set v { g s with trace := t, bus := b, cpuClk := c }

theorem modify_pulling {g : Cpu β → Cpu β} (hg : Aside sp g) :
    Triple (Pulling M sp n u s₀ l) (modify g : CpuM β Unit) (fun _ => Pulling M sp n u (g s₀) l)
      fun _ => False := by
  intro s hs
  have hrun : g s = sp.set (sp.get s)
      { g s₀ with trace := s.trace, bus := s.bus, cpuClk := s.cpuClk } := by
    conv_lhs => rw [hs.rest]
    exact hg _ _ _ _ s₀
  have hget : sp.get (g s) = sp.get s := by rw [hrun, sp.get_set]
  have htrace : (g s).trace = s.trace := by rw [hrun, sp.set_trace]
  have hbus : (g s).bus = s.bus := by rw [hrun, sp.set_bus]
  have hclk : (g s).cpuClk = s.cpuClk := by rw [hrun]; cases sp <;> rfl
  change Pulling M sp n u (g s₀) l (g s)
  refine ⟨?_, ?_, ?_, ?_, ?_, ?_⟩
  · rw [hget, htrace, hbus, hclk]
    exact hrun
  · rw [hget, htrace]
    exact hs.place
  · rw [hbus]
    exact hs.ok
  · rw [hget, hbus]
    exact hs.holds
  · rw [hget]
    exact hs.inside
  · rw [hbus]
    exact hs.bytes

theorem charge_pulling (k : ℤ) :
    Triple (Pulling M sp n u s₀ l) (charge k) (fun _ => Pulling M sp n u s₀ l) fun _ => False := by
  apply Triple.modify
  intro s hs
  have hget : sp.get ({ s with cpuClk := s.cpuClk - k } : Cpu β) = sp.get s := by cases sp <;> rfl
  refine ⟨?_, hget ▸ hs.place, hs.ok, hget ▸ hs.holds, hget ▸ hs.inside, hs.bytes⟩
  rw [hget]
  conv_lhs => rw [hs.rest]
  cases sp <;> rfl

/-! ## The steps of a pull -/

/-- `g` is applied if the postbyte has the bit. -/
def pick (post mask : ℕ) (g : Cpu β → Cpu β) (s : Cpu β) : Cpu β :=
  if post &&& mask ≠ 0 then g s else s

variable {post mask : ℕ} {ps : List (ℕ × List ℕ)} {f : ℕ → CpuM β Unit} {g : Cpu β → Cpu β}

theorem part8_pulling {v : ℕ} (hv : v < 256) (k : ℤ) (hf : f v = modify g) (hg : Aside sp g) :
    Triple (Pulling M sp n u s₀ ((selected post ((mask, [v]) :: ps)).map (BitVec.ofNat 8)))
      (onBit post mask do charge k; f (← pull8 sp))
      (fun _ => Pulling M sp n u (pick post mask g s₀) ((selected post ps).map (BitVec.ofNat 8)))
      fun _ => False := by
  rw [selected_cons]
  unfold onBit onlyIf pick
  by_cases hbit : post &&& mask ≠ 0
  · rw [if_pos hbit, if_pos hbit, if_pos hbit]
    refine Triple.bind (charge_pulling k) fun _ => (pull8_pulling (BitVec.ofNat 8 v)).value ?_
    rw [byte_toNat hv, hf]
    exact modify_pulling hg
  · rw [if_neg hbit, if_neg hbit, if_neg hbit]
    exact Triple.pure _ fun _ hs => hs

theorem part16_pulling {v : ℕ} (hv : v < 65536) (k : ℤ) (hf : f v = modify g) (hg : Aside sp g) :
    Triple (Pulling M sp n u s₀ ((selected post ((mask, wordCells v) :: ps)).map (BitVec.ofNat 8)))
      (onBit post mask do charge k; f (← pull16 sp))
      (fun _ => Pulling M sp n u (pick post mask g s₀) ((selected post ps).map (BitVec.ofNat 8)))
      fun _ => False := by
  rw [selected_cons]
  unfold onBit onlyIf pick
  by_cases hbit : post &&& mask ≠ 0
  · rw [if_pos hbit, if_pos hbit, if_pos hbit]
    refine Triple.bind (charge_pulling k) fun _ =>
      (pull16_pulling (BitVec.ofNat 8 (v >>> 8)) (BitVec.ofNat 8 (v &&& 0xff))).value ?_
    rw [word_toNat hv, hf]
    exact modify_pulling hg
  · rw [if_neg hbit, if_neg hbit, if_neg hbit]
    exact Triple.pure _ fun _ hs => hs

/-- What a pull does after its postbyte. -/
def pulSelected (sp : StackReg) (post : ℕ) : CpuM β Unit := do
  charge 5
  onBit post 0x01 do charge 1; setCc (← pull8 sp)
  onBit post 0x02 do charge 1; setA (← pull8 sp)
  onBit post 0x04 do charge 1; setB (← pull8 sp)
  onBit post 0x08 do charge 1; setDp ((← pull8 sp) <<< 8)
  onBit post 0x10 do charge 2; setX (← pull16 sp)
  onBit post 0x20 do charge 2; setY (← pull16 sp)
  onBit post 0x40 do charge 2; setStackReg sp.other (← pull16 sp)
  onBit post 0x80 do charge 2; setPc (← pull16 sp)

theorem pul_eq (sp : StackReg) : pul (β := β) sp = (do pulSelected sp (← immByte)) := rfl

/-- The effect of `set_cc`. -/
def withCc (c : ℕ) (s : Cpu β) : Cpu β :=
  { s with
    EFI := c &&& (E_FLAG ||| F_FLAG ||| I_FLAG)
    flags :=
      { H := if c &&& H_FLAG ≠ 0 then 0x10 else 0
        N := if c &&& N_FLAG ≠ 0 then 0x80 else 0
        Z := unot c &&& Z_FLAG
        OV := if c &&& V_FLAG ≠ 0 then 0x80 else 0
        C := c &&& C_FLAG }
    ccChanged := true }

/-- The registers after the parts of `s` have been pulled in `t`. -/
def repaid (sp : StackReg) (post : ℕ) (s t : Cpu β) : Cpu β :=
  pick post 0x80 (fun r => { r with PC := s.PC &&& 0xffff }) <|
  pick post 0x40 (fun r => sp.other.set (sp.other.get s) r) <|
  pick post 0x20 (fun r => { r with Y := s.Y }) <|
  pick post 0x10 (fun r => { r with X := s.X }) <|
  pick post 0x08 (fun r => { r with DP := s.DP }) <|
  pick post 0x04 (fun r => { r with B := s.B }) <|
  pick post 0x02 (fun r => { r with A := s.A }) <|
  pick post 0x01 (withCc (getCc s)) t

theorem pulSelected_pulling {s : Cpu β} (hs : Widths s) :
    Triple (Pulling M sp n u s₀ ((pushedBytes sp post s).map (BitVec.ofNat 8)))
      (pulSelected sp post) (fun _ => Pulling M sp n u (repaid sp post s s₀) [])
      fun _ => False := by
  have hother : sp.other.get s < 65536 := by
    cases sp
    · exact hs.U
    · exact hs.S
  have hpc : s.PC &&& 0xffff < 65536 := by
    rw [Word.and_65535]
    exact Nat.mod_lt _ (by decide)
  have hdp : s.DP >>> 8 < 256 := by
    have hDP := hs.DP
    rw [Nat.shiftRight_eq_div_pow]
    omega
  have hpage : (setDp (s.DP >>> 8 <<< 8) : CpuM β Unit) =
      modify fun r => { r with DP := s.DP } := by
    have hwhole := page_toNat hs.DP hs.page
    rw [byte_toNat hdp] at hwhole
    rw [hwhole]
    rfl
  unfold pulSelected
  refine (charge_pulling 5).bind fun _ => ?_
  refine (part8_pulling (getCc_lt s) 1 rfl ?_).bind fun _ => ?_
  · intro v t b c s
    cases sp <;> rfl
  refine (part8_pulling hs.A 1 rfl ?_).bind fun _ => ?_
  · intro v t b c s
    cases sp <;> rfl
  refine (part8_pulling hs.B 1 rfl ?_).bind fun _ => ?_
  · intro v t b c s
    cases sp <;> rfl
  refine (part8_pulling (f := fun v => setDp (v <<< 8)) hdp 1 hpage ?_).bind fun _ => ?_
  · intro v t b c s
    cases sp <;> rfl
  refine (part16_pulling hs.X 2 rfl ?_).bind fun _ => ?_
  · intro v t b c s
    cases sp <;> rfl
  refine (part16_pulling hs.Y 2 rfl ?_).bind fun _ => ?_
  · intro v t b c s
    cases sp <;> rfl
  refine (part16_pulling hother 2 rfl ?_).bind fun _ => ?_
  · intro v t b c s
    cases sp <;> rfl
  refine part16_pulling hpc 2 rfl ?_
  intro v t b c s
  cases sp <;> rfl

end Pulling

/-! ## The law -/

/-- The addresses from `low` up to `high`, not included, around the end of the memory. -/
def Span (low high a : ℕ) : Prop := ∃ i < (high + 65536 - low) % 65536, a = (low + i) % 65536

/-- Since the fetch of the postbyte, `s'` has accessed exactly the bytes from `low` up to `high`. -/
def Touches (s s' : Cpu β) (low high : ℕ) : Prop :=
  ∃ l, s'.trace = l ++ .read8 s.PC :: s.trace ∧ ∀ a, (∃ e ∈ l, e.addr = a) ↔ Span low high a

/-- What a pull in `t` makes of the state `s` in which the same postbyte was pushed: the selected
registers are those of `s`, the others those of `t`. -/
structure Restored (sp : StackReg) (post : ℕ) (s t t' : Cpu β) : Prop where
  pointer : sp.get t' = sp.get s
  cc : getCc t' = if post &&& 0x01 ≠ 0 then getCc s else getCc t
  A : t'.A = if post &&& 0x02 ≠ 0 then s.A else t.A
  B : t'.B = if post &&& 0x04 ≠ 0 then s.B else t.B
  DP : t'.DP = if post &&& 0x08 ≠ 0 then s.DP else t.DP
  X : t'.X = if post &&& 0x10 ≠ 0 then s.X else t.X
  Y : t'.Y = if post &&& 0x20 ≠ 0 then s.Y else t.Y
  other : sp.other.get t' = if post &&& 0x40 ≠ 0 then sp.other.get s else sp.other.get t
  PC : t'.PC = if post &&& 0x80 ≠ 0 then (s.PC + 1) % 65536 else uint (t.PC + 1)

section Parts
variable {sp : StackReg} {post mask : ℕ} {s t : Cpu β} {g : Cpu β → Cpu β}

theorem getCc_withCc {c : ℕ} (hc : c < 256) (r : Cpu β) : getCc (withCc c r) = c := by
  have h := getCc_pulledCc (BitVec.ofNat 8 c) r
  simp only [pulledCc, byte_toNat hc] at h
  exact h

theorem pick_A (v : ℕ) : pick post mask (fun r => { r with A := v }) s =
    { s with A := if post &&& mask ≠ 0 then v else s.A } := by
  unfold pick
  split <;> rfl

theorem pick_B (v : ℕ) : pick post mask (fun r => { r with B := v }) s =
    { s with B := if post &&& mask ≠ 0 then v else s.B } := by
  unfold pick
  split <;> rfl

theorem pick_DP (v : ℕ) : pick post mask (fun r => { r with DP := v }) s =
    { s with DP := if post &&& mask ≠ 0 then v else s.DP } := by
  unfold pick
  split <;> rfl

theorem pick_X (v : ℕ) : pick post mask (fun r => { r with X := v }) s =
    { s with X := if post &&& mask ≠ 0 then v else s.X } := by
  unfold pick
  split <;> rfl

theorem pick_Y (v : ℕ) : pick post mask (fun r => { r with Y := v }) s =
    { s with Y := if post &&& mask ≠ 0 then v else s.Y } := by
  unfold pick
  split <;> rfl

theorem pick_PC (v : ℕ) : pick post mask (fun r => { r with PC := v }) s =
    { s with PC := if post &&& mask ≠ 0 then v else s.PC } := by
  unfold pick
  split <;> rfl

theorem pick_other (v : ℕ) : pick post mask (fun r => sp.other.set v r) s =
    sp.other.set (if post &&& mask ≠ 0 then v else sp.other.get s) s := by
  unfold pick
  split
  · rfl
  · rw [sp.other.set_get]

/-- The registers after a pull are, each for itself, those of `s` or those of `t`. -/
theorem repaid_eq : repaid sp post s t = sp.other.set
    (if post &&& 0x40 ≠ 0 then sp.other.get s else sp.other.get t)
    { pick post 0x01 (withCc (getCc s)) t with
      A := if post &&& 0x02 ≠ 0 then s.A else t.A
      B := if post &&& 0x04 ≠ 0 then s.B else t.B
      DP := if post &&& 0x08 ≠ 0 then s.DP else t.DP
      X := if post &&& 0x10 ≠ 0 then s.X else t.X
      Y := if post &&& 0x20 ≠ 0 then s.Y else t.Y
      PC := if post &&& 0x80 ≠ 0 then s.PC &&& 0xffff else t.PC } := by
  have hcc : pick post 0x01 (withCc (getCc s)) t =
      { t with
        EFI := (pick post 0x01 (withCc (getCc s)) t).EFI
        flags := (pick post 0x01 (withCc (getCc s)) t).flags
        ccChanged := (pick post 0x01 (withCc (getCc s)) t).ccChanged } := by
    unfold pick
    split <;> rfl
  unfold repaid
  rw [hcc]
  simp only [pick_A, pick_B, pick_DP, pick_X, pick_Y, pick_PC, pick_other]
  cases sp <;> rfl

end Parts

section Law
variable [Bus β] {F G : ℕ → Prop} {M : PlainRam β F} {sp : StackReg} {post : ℕ}

omit [Bus β] in
/-- The cells below `top` are those between the two stack pointers. -/
theorem span_iff {low top n a : ℕ} (hn : n ≤ 12) (htop : top < 65536)
    (h : (low + n) % 65536 = top) (hlow : low < 65536) : Span low top a ↔ frame top n a := by
  constructor
  · rintro ⟨i, hi, ha⟩
    exact ⟨n - i, by omega, by omega, by omega⟩
  · rintro ⟨k, hpos, hk, ha⟩
    exact ⟨n - k, by omega, by omega⟩

theorem stackWrites_addr {top a : ℕ} {l : List ℕ} :
    (∃ e ∈ stackWrites top l, e.addr = a) ↔
      ∃ k, 1 ≤ k ∧ k ≤ l.length ∧ a = (top + (65536 - k)) % 65536 := by
  induction l with
  | nil =>
    simp only [stackWrites, List.not_mem_nil, false_and, exists_false, false_iff]
    rintro ⟨k, hpos, hk, -⟩
    rw [List.length_nil] at hk
    omega
  | cons v l ih =>
    rw [stackWrites, List.length_cons]
    constructor
    · rintro ⟨e, he, ha⟩
      rcases List.mem_cons.mp he with rfl | he
      · exact ⟨l.length + 1, by omega, le_rfl, ha.symm⟩
      · obtain ⟨k, hpos, hk, hka⟩ := ih.mp ⟨e, he, ha⟩
        exact ⟨k, hpos, by omega, hka⟩
    · rintro ⟨k, hpos, hk, ha⟩
      by_cases hlast : k = l.length + 1
      · exact ⟨_, List.mem_cons_self, by rw [ha, hlast]; rfl⟩
      · obtain ⟨e, he, hea⟩ := ih.mpr ⟨k, hpos, by omega, ha⟩
        exact ⟨e, List.mem_cons_of_mem _ he, hea⟩

theorem stackReads_addr {p n a : ℕ} :
    (∃ e ∈ stackReads p n, e.addr = a) ↔ ∃ i < n, a = (p + i) % 65536 := by
  induction n with
  | zero => simp [stackReads]
  | succ n ih =>
    rw [stackReads]
    constructor
    · rintro ⟨e, he, ha⟩
      rcases List.mem_cons.mp he with rfl | he
      · exact ⟨n, by omega, ha.symm⟩
      · obtain ⟨i, hi, hia⟩ := ih.mp ⟨e, he, ha⟩
        exact ⟨i, by omega, hia⟩
    · rintro ⟨i, hi, ha⟩
      by_cases hlast : i = n
      · exact ⟨_, List.mem_cons_self, by rw [ha, hlast]; rfl⟩
      · obtain ⟨e, he, hea⟩ := ih.mpr ⟨i, by omega, ha⟩
        exact ⟨e, List.mem_cons_of_mem _ he, hea⟩

/-- The fetch of a postbyte. -/
theorem immByte_fetched {s s' : Cpu β} {v : ℕ} (h : immByte s = .ok v s') :
    s' = { s with trace := s'.trace, bus := s'.bus, PC := uint (s.PC + 1) } ∧
      s'.trace = .read8 s.PC :: s.trace := by
  have hfetch := (immByte_ok h).2
  have htrace := congrArg Cpu.trace hfetch
  exact ⟨by rw [htrace]; exact hfetch, htrace⟩

/-- The fetch of a postbyte leaves the memory alone. -/
theorem immByte_ram {s s' : Cpu β} {v : ℕ} (hok : M.ok s.bus) (h : immByte s = .ok v s') :
    M.ok s'.bus ∧ ∀ a, F a → M.byte s'.bus a = M.byte s.bus a := by
  have hfetch := M.fetch8 (getPc s) s.PC s.bus hok
  obtain ⟨w, b, hread, -, rfl⟩ := of_immByte_ok h
  exact (onReturn_ok hread).mp hfetch

/-- What a push leaves. -/
theorem psh_onRam {s s' : Cpu β} (hok : M.ok s.bus) (hpost : immByte s = .ok post s')
    (hF : ∀ a, frame (sp.get s) (pushSize post) a → F a) :
    ∃ s₁, psh sp s = .ok () s₁ ∧ OnRam M sp s' (pushedBytes sp post s') s₁ := by
  obtain ⟨hok', -⟩ := immByte_ram hok hpost
  have hget : sp.get s' = sp.get s := by
    rw [(immByte_ok hpost).2]
    cases sp <;> rfl
  rw [psh_eq, run_bind_ok hpost]
  exact pshSelected_onRam hok' (hget ▸ hF)

/-- What a pull makes of it. -/
theorem pul_onRam {s t t' : Cpu β} (hs : Widths s) (hok : M.ok t.bus)
    (hpost : immByte t = .ok post t') (hlt : sp.get t < 65536)
    (hinside : ∀ i < pushSize post, F ((sp.get t + i) % 65536))
    (hholds : Holds 65536 (M.byte t.bus) (sp.get t)
      ((pushedBytes sp post s).map (BitVec.ofNat 8))) :
    ∃ t₁, pul sp t = .ok () t₁ ∧ Pulling M sp (pushSize post) t' (repaid sp post s t') [] t₁ := by
  obtain ⟨hok', hsame⟩ := immByte_ram hok hpost
  have hget : sp.get t' = sp.get t := by
    rw [(immByte_ok hpost).2]
    cases sp <;> rfl
  have hlen : ((pushedBytes sp post s).map (BitVec.ofNat 8)).length = pushSize post := by
    rw [List.length_map, pushedBytes_length]
  have hstart : Pulling M sp (pushSize post) t' t'
      ((pushedBytes sp post s).map (BitVec.ofNat 8)) t' := by
    refine ⟨(sp.set_get t').symm, ⟨0, by rw [hlen, Nat.zero_add], ?_, rfl⟩, hok', ?_, ?_,
      fun _ _ => rfl⟩
    · rw [hget, Nat.add_zero, Nat.mod_eq_of_lt hlt]
    · rw [hget]
      refine hholds.congr fun i hi => hsame _ (hinside i ?_)
      rwa [hlen] at hi
    · rw [hget, hlen]
      exact hinside
  obtain ⟨_, t₁, hrun, ht₁⟩ := (pulSelected_pulling hs).total hstart
  refine ⟨t₁, ?_, ht₁⟩
  rw [pul_eq, run_bind_ok hpost]
  exact hrun

/-- The registers after the pull, for states before the fetches of the postbytes. -/
theorem Pulling.restored {s s' t t' t₁ : Cpu β} {n : ℕ}
    (hs' : s' = { s with trace := s'.trace, bus := s'.bus, PC := uint (s.PC + 1) })
    (ht' : t' = { t with trace := t'.trace, bus := t'.bus, PC := uint (t.PC + 1) })
    (h : Pulling M sp n t' (repaid sp post s' t') [] t₁) (hp : sp.get t₁ = sp.get s) :
    Restored sp post s t t₁ := by
  have hfin := h.rest
  rw [repaid_eq] at hfin
  have hregs {p : Cpu β → ℕ} (hfree : ∀ r t b q, p { r with trace := t, bus := b, PC := q } = p r) :
      p s' = p s ∧ p t' = p t := by
    rw [hs', ht']
    exact ⟨hfree _ _ _ _, hfree _ _ _ _⟩
  obtain ⟨hsA, htA⟩ := hregs (p := Cpu.A) fun _ _ _ _ => rfl
  obtain ⟨hsB, htB⟩ := hregs (p := Cpu.B) fun _ _ _ _ => rfl
  obtain ⟨hsDP, htDP⟩ := hregs (p := Cpu.DP) fun _ _ _ _ => rfl
  obtain ⟨hsX, htX⟩ := hregs (p := Cpu.X) fun _ _ _ _ => rfl
  obtain ⟨hsY, htY⟩ := hregs (p := Cpu.Y) fun _ _ _ _ => rfl
  obtain ⟨hsO, htO⟩ := hregs (p := sp.other.get) fun _ _ _ _ => by cases sp <;> rfl
  obtain ⟨hscc, htcc⟩ := hregs (p := getCc) fun _ _ _ _ => rfl
  have hsPC : s'.PC &&& 0xffff = (s.PC + 1) % 65536 := by
    rw [hs', Word.and_65535]
    simp only [Word.trunc]
    omega
  have htPC : t'.PC = uint (t.PC + 1) := by rw [ht']
  refine ⟨hp, ?_, ?_, ?_, ?_, ?_, ?_, ?_, ?_⟩
  · refine (congrArg getCc hfin).trans ?_
    rw [← hscc, ← htcc]
    have hcc : getCc (pick post 0x01 (withCc (getCc s')) t') =
        if post &&& 0x01 ≠ 0 then getCc s' else getCc t' := by
      unfold pick
      split
      · exact getCc_withCc (getCc_lt s') t'
      · rfl
    rw [← hcc]
    cases sp <;> rfl
  · refine (congrArg Cpu.A hfin).trans ?_
    rw [← hsA, ← htA]
    cases sp <;> rfl
  · refine (congrArg Cpu.B hfin).trans ?_
    rw [← hsB, ← htB]
    cases sp <;> rfl
  · refine (congrArg Cpu.DP hfin).trans ?_
    rw [← hsDP, ← htDP]
    cases sp <;> rfl
  · refine (congrArg Cpu.X hfin).trans ?_
    rw [← hsX, ← htX]
    cases sp <;> rfl
  · refine (congrArg Cpu.Y hfin).trans ?_
    rw [← hsY, ← htY]
    cases sp <;> rfl
  · refine (congrArg sp.other.get hfin).trans ?_
    rw [← hsO, ← htO]
    cases sp <;> rfl
  · refine (congrArg Cpu.PC hfin).trans ?_
    rw [← hsPC, ← htPC]
    cases sp <;> rfl

end Law

/-! ## Span a push and its pull -/

/-- What a program does between a push and its pull: pushes and pulls on either stack, and
anything else. -/
inductive StackUse (β : Type)
  | push (sp : StackReg)
  | pull (sp : StackReg)
  | other (m : CpuM β Unit)

section Uses
variable [Bus β] {F G : ℕ → Prop}

def StackUse.perform : StackUse β → CpuM β Unit
  | push sp => psh sp
  | pull sp => pul sp
  | other m => m

/-- The bytes `G` are left alone: a push has its frame elsewhere in plain memory, and anything else
keeps them as they are. -/
def StackUse.Spares (M : PlainRam β F) (G : ℕ → Prop) : StackUse β → Cpu β → Prop
  | push sp, s => ∀ post s', immByte s = .ok post s' →
      ∀ a, frame (sp.get s) (pushSize post) a → F a ∧ ¬G a
  | pull _, _ => True
  | other m, s => OnReturn m s fun _ s' => M.ok s'.bus ∧ ∀ a, G a → M.byte s'.bus a = M.byte s.bus a

/-- The bytes `G` are those of `m`. -/
def Intact (M : PlainRam β F) (G : ℕ → Prop) (m : ℕ → U8) (s : Cpu β) : Prop :=
  M.ok s.bus ∧ ∀ a, G a → M.byte s.bus a = m a

variable {M : PlainRam β F} {m : ℕ → U8}

theorem modify_intact {g : Cpu β → Cpu β} (hg : ∀ s, (g s).bus = s.bus) :
    Triple (Intact M G m) (modify g : CpuM β Unit) (fun _ => Intact M G m) Anywhere := by
  apply Triple.modify
  intro s hs
  rw [Intact, hg s]
  exact hs

theorem read8_intact (hG : ∀ a, G a → F a) (a : ℕ) :
    Triple (Intact M G m) (read8 a) (fun _ => Intact M G m) Anywhere := by
  intro s hs
  have hread := M.fetch8 (getPc s) a s.bus hs.1
  rw [read8_run]
  cases hr : Bus.cpuRead8 (getPc s) a s.bus with
  | error e b => trivial
  | ok v b =>
    obtain ⟨hok, hb⟩ := (onReturn_ok hr).mp hread
    exact ⟨hok, fun c hc => (hb c (hG c hc)).trans (hs.2 c hc)⟩

theorem look_intact {α : Type} (p : Cpu β → α) :
    Triple (Intact M G m) (look p) (fun _ => Intact M G m) Anywhere := look_triple fun _ h => h

theorem pull8_intact (hG : ∀ a, G a → F a) (sp : StackReg) :
    Triple (Intact M G m) (pull8 sp) (fun _ => Intact M G m) Anywhere := by
  refine (look_intact _).bind fun a => (read8_intact hG a).bind fun v => ?_
  refine Triple.bind (Q := fun _ => Intact M G m) ?_ fun _ => Triple.pure _ fun _ h => h
  exact (look_intact _).bind fun _ => modify_intact fun s => sp.set_bus _ s

theorem pull16_intact (hG : ∀ a, G a → F a) (sp : StackReg) :
    Triple (Intact M G m) (pull16 sp) (fun _ => Intact M G m) Anywhere := by
  refine (look_intact _).bind fun a => Triple.bind (Q := fun _ => Intact M G m) ?_ fun v => ?_
  · refine (read8_intact hG a).bind fun v => (read8_intact hG _).bind fun w => ?_
    exact Triple.pure _ fun _ h => h
  · refine Triple.bind (Q := fun _ => Intact M G m) ?_ fun _ => Triple.pure _ fun _ h => h
    exact (look_intact _).bind fun _ => modify_intact fun s => sp.set_bus _ s

theorem part_intact {k : ℤ} {p : CpuM β ℕ} {f : ℕ → CpuM β Unit} {post mask : ℕ}
    (hp : Triple (Intact M G m) p (fun _ => Intact M G m) Anywhere)
    (hf : ∀ v, Triple (Intact M G m) (f v) (fun _ => Intact M G m) Anywhere) :
    Triple (Intact M G m) (onBit post mask do charge k; f (← p)) (fun _ => Intact M G m)
      Anywhere := by
  unfold onBit onlyIf
  refine Triple.ite (fun _ => ?_) fun _ => Triple.pure _ fun _ h => h
  exact Triple.bind (modify_intact fun _ => rfl) fun _ => hp.bind hf

/-- A pull reads only, wherever its stack is. -/
theorem pul_intact (hG : ∀ a, G a → F a) (sp : StackReg) :
    Triple (Intact M G m) (pul sp) (fun _ => Intact M G m) Anywhere := by
  have hpull8 := pull8_intact (M := M) (m := m) hG sp
  have hpull16 := pull16_intact (M := M) (m := m) hG sp
  have hset {f : ℕ → CpuM β Unit} {g : ℕ → Cpu β → Cpu β} (hf : ∀ v, f v = modify (g v))
      (hg : ∀ v s, (g v s).bus = s.bus) (v : ℕ) :
      Triple (Intact M G m) (f v) (fun _ => Intact M G m) Anywhere := by
    rw [hf]
    exact modify_intact (hg v)
  have hcc := hset (f := setCc) (fun _ => rfl) fun _ _ => rfl
  have hA := hset (f := setA) (fun _ => rfl) fun _ _ => rfl
  have hB := hset (f := setB) (fun _ => rfl) fun _ _ => rfl
  have hDP := hset (f := fun v => setDp (v <<< 8)) (fun _ => rfl) fun _ _ => rfl
  have hX := hset (f := setX) (fun _ => rfl) fun _ _ => rfl
  have hY := hset (f := setY) (fun _ => rfl) fun _ _ => rfl
  have hother := hset (f := setStackReg sp.other) (fun _ => rfl) fun v s => sp.other.set_bus v s
  have hPC := hset (f := setPc) (fun _ => rfl) fun _ _ => rfl
  unfold pul
  refine Triple.bind (Q := fun _ => Intact M G m) ?_ fun post => ?_
  · refine (look_intact _).bind fun a => (read8_intact hG a).bind fun v => ?_
    exact Triple.bind (modify_intact fun _ => rfl) fun _ => Triple.pure _ fun _ h => h
  refine Triple.bind (modify_intact fun _ => rfl) fun _ => ?_
  refine (part_intact hpull8 hcc).bind fun _ => (part_intact hpull8 hA).bind fun _ => ?_
  refine (part_intact hpull8 hB).bind fun _ => (part_intact hpull8 hDP).bind fun _ => ?_
  refine (part_intact hpull16 hX).bind fun _ => (part_intact hpull16 hY).bind fun _ => ?_
  exact (part_intact hpull16 hother).bind fun _ => part_intact hpull16 hPC

/-- One use keeps the bytes that it spares. -/
theorem StackUse.intact (hG : ∀ a, G a → F a) (e : StackUse β) :
    Triple (fun s => Intact M G m s ∧ e.Spares M G s) e.perform (fun _ => Intact M G m)
      Anywhere := by
  cases e with
  | pull sp => exact (pul_intact hG sp).mono (fun _ h => h.1) (fun _ _ h => h) fun _ h => h
  | other k =>
    rintro s ⟨hs, hspare⟩
    have hperform : (StackUse.other k).perform = k := rfl
    rw [hperform]
    cases hr : k s with
    | error e t => trivial
    | ok u t =>
      obtain ⟨hok, hb⟩ := (onReturn_ok hr).mp hspare
      exact ⟨hok, fun a ha => (hb a ha).trans (hs.2 a ha)⟩
  | push sp =>
    rintro s ⟨hs, hspare⟩
    have hperform : (StackUse.push sp : StackUse β).perform = psh sp := rfl
    rw [hperform]
    cases hpost : immByte s with
    | error e t =>
      rw [psh_eq, run_bind_error hpost]
      trivial
    | ok post s' =>
      have hframe := hspare post s' hpost
      obtain ⟨s₁, hrun, hs₁⟩ := psh_onRam hs.1 hpost fun a ha => (hframe a ha).1
      obtain ⟨-, hsame⟩ := immByte_ram hs.1 hpost
      have hget : sp.get s' = sp.get s := by
        rw [(immByte_ok hpost).2]
        cases sp <;> rfl
      rw [hrun]
      refine ⟨hs₁.ok, fun a ha => ?_⟩
      rw [hs₁.apart a (hG a ha) ?_, hsame a (hG a ha), hs.2 a ha]
      rw [hget, pushedBytes_length]
      exact fun h => (hframe a h).2 ha

omit [Bus β] in
theorem Widths.fetched {s s' : Cpu β} (hs : Widths s)
    (h : s' = { s with trace := s'.trace, bus := s'.bus, PC := uint (s.PC + 1) }) : Widths s' := by
  rw [h]
  exact { hs with }

/-- PSHS and PULS, or PSHU and PULU, with the same postbyte: whatever happens in between, also on
the other stack, as long as the pushed bytes are spared and the stack pointer comes back. -/
theorem pull_restores {sp : StackReg} {post : ℕ} {s s' : Cpu β} (hs : Widths s) (hok : M.ok s.bus)
    (hpost : immByte s = .ok post s') (hF : ∀ a, frame (sp.get s) (pushSize post) a → F a) :
    ∃ s₁, psh sp s = .ok () s₁ ∧ Touches s s₁ (sp.get s₁) (sp.get s) ∧
      (∀ a, F a → ¬Span (sp.get s₁) (sp.get s) a → M.byte s₁.bus a = M.byte s.bus a) ∧
      ∀ (uses : List (StackUse β)) (t t' : Cpu β),
        Along StackUse.perform (StackUse.Spares M (Span (sp.get s₁) (sp.get s))) uses s₁ →
        runAll StackUse.perform uses s₁ = .ok () t → sp.get t = sp.get s₁ →
        immByte t = .ok post t' →
        ∃ t₁, pul sp t = .ok () t₁ ∧ Restored sp post s t t₁ ∧ Touches t t₁ (sp.get t) (sp.get s) ∧
          ∀ a, F a → M.byte t₁.bus a = M.byte t.bus a := by
  have hsp : sp.get s < 65536 := by
    cases sp
    · exact hs.S
    · exact hs.U
  obtain ⟨s₁, hrun, hs₁⟩ := psh_onRam hok hpost hF
  obtain ⟨-, hsame⟩ := immByte_ram hok hpost
  obtain ⟨hfetch, hread⟩ := immByte_fetched hpost
  have hget : sp.get s' = sp.get s := by
    rw [hfetch]
    cases sp <;> rfl
  have hn := pushSize_le post
  have hlen := pushedBytes_length sp post s'
  have hdepth := hs₁.pushed.depth
  rw [hlen, hget, Nat.mod_eq_of_lt hsp] at hdepth
  have hlow : sp.get s₁ < 65536 := hs₁.low (hget ▸ hsp)
  have hspan {a : ℕ} : Span (sp.get s₁) (sp.get s) a ↔ frame (sp.get s) (pushSize post) a :=
    span_iff hn hsp hdepth hlow
  refine ⟨s₁, hrun, ⟨stackWrites (sp.get s) (pushedBytes sp post s'), ?_, fun a => ?_⟩,
    fun a ha hout => ?_, fun uses t t' huses hrun' hback hpost' => ?_⟩
  · rw [hs₁.pushed.writes, hget, hread]
  · rw [stackWrites_addr, hlen, hspan]
    constructor
    · rintro ⟨k, hpos, hk, ha⟩
      exact ⟨k, hpos, hk, by omega⟩
    · rintro ⟨k, hpos, hk, ha⟩
      exact ⟨k, hpos, hk, by omega⟩
  · rw [hs₁.apart a ha ?_, hsame a ha]
    rw [hget, hlen]
    exact fun h => hout (hspan.mpr h)
  · have hG (a : ℕ) (ha : Span (sp.get s₁) (sp.get s) a) : F a := hF a (hspan.mp ha)
    have hkept := (runAll_invariant (StackUse.intact hG) uses).of_ok
      ⟨⟨hs₁.ok, fun _ _ => rfl⟩, huses⟩ hrun'
    have hcell {i : ℕ} (hi : i < pushSize post) :
        Span (sp.get s₁) (sp.get s) ((sp.get s₁ + i) % 65536) := ⟨i, by omega, rfl⟩
    have hinside (i : ℕ) (hi : i < pushSize post) : F ((sp.get t + i) % 65536) := by
      rw [hback]
      exact hG _ (hcell hi)
    have hthere : Holds 65536 (M.byte t.bus) (sp.get t)
        ((pushedBytes sp post s').map (BitVec.ofNat 8)) := by
      rw [hback]
      refine hs₁.holds.congr fun i hi => hkept.2 _ (hcell ?_)
      rwa [List.length_map, hlen] at hi
    obtain ⟨t₁, hpull, ht₁⟩ :=
      pul_onRam (hs.fetched hfetch) hkept.1 hpost' (hback ▸ hlow) hinside hthere
    obtain ⟨hfetch', hread'⟩ := immByte_fetched hpost'
    have hget' : sp.get t' = sp.get t := by
      rw [hfetch']
      cases sp <;> rfl
    obtain ⟨k, hk, hpointer, htrace⟩ := ht₁.place
    obtain rfl : k = pushSize post := hk
    rw [hget', hback] at hpointer
    obtain ⟨-, hsame'⟩ := immByte_ram hkept.1 hpost'
    refine ⟨t₁, hpull, ht₁.restored hfetch hfetch' (hpointer.trans hdepth),
      ⟨stackReads (sp.get t) (pushSize post), ?_, fun a => ?_⟩, fun a ha => ?_⟩
    · rw [htrace, hget', hread']
    · rw [stackReads_addr, hback, hspan]
      constructor
      · rintro ⟨i, hi, ha⟩
        exact hspan.mp (ha ▸ hcell hi)
      · intro ha
        rcases hspan.mpr ha with ⟨i, hi, hia⟩
        exact ⟨i, by omega, hia⟩
    · rw [ht₁.bytes a ha, hsame' a ha]

end Uses

/-! A frame around address 0: all registers are stacked with `S`, then with `U`; some are
cleared, and all are taken back from `S`. -/

section FlatRam

def aroundZero : Cpu FlatRam :=
  { Cpu.powerOn (.image [(0x1000, [0xff, 0xff, 0xff])]) with
    PC := 0x1000, S := 5, U := 0x100, A := 0x12, X := 0x5678, flags := ⟨0, 0, 1, 0x80, 0⟩ }

def pushAndClear : List (StackUse FlatRam) :=
  [.push .U, .other (modify fun s => { s with A := 0, X := 0, U := 0, flags := ⟨0, 0, 0, 0, 1⟩ })]

theorem immByte_flat {s : Cpu FlatRam} {a : ℕ} {v : U8} (hPC : s.PC = a) (hv : s.bus a = v)
    (ha : a < 0x10000 := by decide) : immByte s = .ok v.toNat
      { s with trace := .read8 s.PC :: s.trace, PC := uint (s.PC + 1) } := by
  have hread : Bus.cpuRead8 (getPc s) a s.bus = .ok v s.bus := hv ▸ if_pos ha
  rw [immByte_run, hPC, hread]

theorem pull_restores_around_zero : ∃ s₁ t t₁, psh .S aroundZero = .ok () s₁ ∧
    runAll StackUse.perform pushAndClear s₁ = .ok () t ∧ pul .S t = .ok () t₁ ∧
    Restored .S 0xff aroundZero t t₁ ∧ Touches t t₁ (StackReg.S.get s₁) 5 := by
  have hs : Widths aroundZero := by constructor <;> decide
  have hpost : immByte aroundZero = .ok 0xff _ := rfl
  have hpush : returned (psh .S aroundZero) = true := by decide +kernel
  obtain ⟨s₁, hs₁, -, -, hlaw⟩ :=
    pull_restores (M := FlatRam.plainRam (· < 0x10000) fun _ h => h) hs trivial hpost
      fun _ => frame_lt
  obtain rfl : finalState (psh .S aroundZero) = s₁ := by rw [hs₁]; rfl
  have hrun : returned (runAll StackUse.perform pushAndClear (finalState (psh .S aroundZero))) =
      true := by decide +kernel
  have hlow : StackReg.S.get (finalState (psh .S aroundZero)) = 65529 := by decide +kernel
  have hU : StackReg.U.get (finalState (psh .S aroundZero)) = 0x100 := by decide +kernel
  have hspares : Along StackUse.perform
      (StackUse.Spares (FlatRam.plainRam (· < 0x10000) fun _ h => h) (Span 65529 5))
      pushAndClear (finalState (psh .S aroundZero)) := by
    refine ⟨fun post s' _ a ha => ⟨frame_lt ha, ?_⟩, ?_⟩
    · rintro ⟨i, hi, hia⟩
      obtain ⟨k, hpos, hk, hka⟩ := ha
      have hle := pushSize_le post
      rw [hU] at hka
      omega
    · unfold OnReturn
      split
      · exact ⟨⟨trivial, fun _ _ => rfl⟩, trivial⟩
      · trivial
  have hback : StackReg.S.get (finalState (runAll StackUse.perform pushAndClear
      (finalState (psh .S aroundZero)))) = 65529 := by decide +kernel
  have hPC : (finalState (runAll StackUse.perform pushAndClear
      (finalState (psh .S aroundZero)))).PC = 0x1002 := by decide +kernel
  have hbyte : (finalState (runAll StackUse.perform pushAndClear
      (finalState (psh .S aroundZero)))).bus 0x1002 = 0xff := by decide +kernel
  obtain ⟨t₁, hpull, hregs, htouch, -⟩ :=
    hlaw pushAndClear _ _ (hlow.symm ▸ hspares) (eq_ok_finalState hrun) (hback.trans hlow.symm)
      (immByte_flat hPC hbyte)
  rw [hback] at htouch
  exact ⟨_, _, t₁, hs₁, eq_ok_finalState hrun, hpull, hregs, hlow.symm ▸ htouch⟩

end FlatRam
end Exec09
