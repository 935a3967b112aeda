import Exec09.Cpu.AddressSafety
import Exec09.Cpu.ConditionCodes
import Exec09.Foundation.Stack

/-! # RTI returns to the interrupted state

`OnStack` describes a state that differs from a state `s₀` in the stack pointer and
the bus only, with known bytes on the stack. Each push and each pull moves one
byte between the registers of `s₀` and that list, so both frame layouts come
from the order of the calls alone.
-/
namespace Exec09
open Foundation Foundation.Stack
variable {β : Type} [Bus β]

/-! ## Memory below a stack pointer -/

/-- The `n` addresses below `top`. -/
def frame (top n : ℕ) (a : ℕ) : Prop := ∃ k, 1 ≤ k ∧ k ≤ n ∧ a = (top + 65536 - k) % 65536

/-- On the addresses `F` the bus is plain memory, as long as it is in a state that satisfies
`ok`: an access there succeeds, and only a write there changes a byte there. -/
structure PlainRam (β : Type) [Bus β] (F : ℕ → Prop) where
  ok : β → Prop
  byte : β → ℕ → U8
  read : ∀ (pc a : ℕ) (b : β), ok b → F a → ∃ b', Bus.cpuRead8 pc a b = .ok (byte b a) b' ∧
    ok b' ∧ ∀ c, F c → byte b' c = byte b c
  write : ∀ (pc a : ℕ) (v : U8) (b : β), ok b → F a → ∃ b', Bus.cpuWrite8 pc a v b = .ok () b' ∧
    ok b' ∧ ∀ c, F c → byte b' c = if c = a then v else byte b c
  fetch8 : ∀ (pc a : ℕ) (b : β), ok b → OnReturn (Bus.cpuRead8 pc a) b fun _ b' =>
    ok b' ∧ ∀ c, F c → byte b' c = byte b c
  fetch16 : ∀ (pc a : ℕ) (b : β), ok b → OnReturn (Bus.cpuRead16 pc a) b fun _ b' =>
    ok b' ∧ ∀ c, F c → byte b' c = byte b c

section Stack
variable {top n : ℕ}

def Cpu.relocate (sp : ℕ) (t : List Access) (b : β) (s : Cpu β) : Cpu β :=
  { s with S := sp, trace := t, bus := b }

/-- The bytes `l` are on the stack of `s`, the bottom of which is `top`. -/
structure Stacked (M : PlainRam β (frame top n)) (l : List U8) (s : Cpu β) : Prop where
  lt : s.S < 65536
  bottom : (s.S + l.length) % 65536 = top
  ok : M.ok s.bus
  holds : Holds 65536 (M.byte s.bus) s.S l

/-- `s` is `s₀` with the bytes `l` on the stack. -/
structure OnStack (M : PlainRam β (frame top n)) (s₀ : Cpu β) (l : List U8) (s : Cpu β) : Prop
    extends Stacked M l s where
  rest : s = s₀.relocate s.S s.trace s.bus

theorem frame_of_above {sp k i : ℕ} (hk : k ≤ n) (hn : n ≤ 12) (h : (sp + k) % 65536 = top)
    (hi : i < k) : frame top n ((sp + i) % 65536) :=
  ⟨k - i, by omega, by omega, by omega⟩

/-- The top byte of a stack of `k` bytes is in the frame. -/
theorem frame_of_top {sp k : ℕ} (hk : k ≤ n) (hn : n ≤ 12) (hsp : sp < 65536)
    (h : (sp + k) % 65536 = top) (hpos : 0 < k) : frame top n sp := by
  have hmem := frame_of_above hk hn h hpos
  rwa [Nat.add_zero, Nat.mod_eq_of_lt hsp] at hmem

/-! The stack pointer is abstracted from the states below: a difference on machine words must
not be unfolded when two states are compared. -/

omit [Bus β] in
theorem lowerStack_run (k : ℕ) (s : Cpu β) :
    lowerStack .S k s = .ok () { s with S := usub s.S k &&& 0xffff } := rfl

theorem below_eq (sp : ℕ) : usub sp 1 &&& 0xffff = (sp + (65536 - 1)) % 65536 := by
  rw [Word.and_65535]
  simp only [Word.sub]
  omega

theorem below_two_eq (sp : ℕ) :
    usub sp 2 &&& 0xffff = ((sp + (65536 - 1)) % 65536 + (65536 - 1)) % 65536 := by
  rw [Word.and_65535]
  simp only [Word.sub]
  omega

theorem above_below (sp : ℕ) :
    (((sp % 65536 + (65536 - 1)) % 65536 + 1) &&& 0xffff) = sp % 65536 := by
  rw [Word.and_65535]
  omega

variable {M : PlainRam β (frame top n)} {s₀ : Cpu β} {l : List U8}

theorem write8_plain {a : ℕ} (v : ℕ) {s : Cpu β} (hok : M.ok s.bus) (ha : frame top n a) :
    ∃ t b, write8 a v s = .ok () { s with trace := t, bus := b } ∧ M.ok b ∧
      ∀ c, frame top n c → M.byte b c = if c = a then BitVec.ofNat 8 v else M.byte s.bus c := by
  obtain ⟨b, hwrite, hb⟩ := M.write (getPc s) a (BitVec.ofNat 8 v) s.bus hok ha
  refine ⟨.write8 a v :: s.trace, b, ?_, hb⟩
  rw [write8_run, hwrite]

theorem read8_plain {a : ℕ} {s : Cpu β} (hok : M.ok s.bus) (ha : frame top n a) :
    ∃ t b, read8 a s = .ok (M.byte s.bus a).toNat { s with trace := t, bus := b } ∧ M.ok b ∧
      ∀ c, frame top n c → M.byte b c = M.byte s.bus c := by
  obtain ⟨b, hread, hb⟩ := M.read (getPc s) a s.bus hok ha
  refine ⟨.read8 a :: s.trace, b, ?_, hb⟩
  rw [read8_run, hread]

theorem OnStack.moved {s : Cpu β} (hs : OnStack M s₀ l s) (sp : ℕ) (t : List Access) (b : β) :
    { s with S := sp, trace := t, bus := b } = s₀.relocate sp t b := by
  conv_lhs => rw [hs.rest]
  rfl

/-- A push, from the write of its byte. -/
theorem OnStack.pushed (hn : n ≤ 12) (hl : l.length < n) {s : Cpu β} (hs : OnStack M s₀ l s)
    {v : U8} {t : List Access} {b : β} (hok : M.ok b)
    (hb : ∀ c, frame top n c →
      M.byte b c = if c = (s.S + (65536 - 1)) % 65536 then v else M.byte s.bus c) :
    OnStack M s₀ (v :: l) { s with S := (s.S + (65536 - 1)) % 65536, trace := t, bus := b } := by
  have hbottom : ((s.S + (65536 - 1)) % 65536 + (l.length + 1)) % 65536 = top := by
    rw [below_add (by decide), hs.bottom]
  have hlt : (s.S + (65536 - 1)) % 65536 < 65536 := Nat.mod_lt _ (by decide)
  refine ⟨⟨hlt, hbottom, hok, ?_⟩, hs.moved _ t b⟩
  apply hs.holds.push (by decide)
  · rw [hb _ (frame_of_top hl hn hlt hbottom (Nat.succ_pos _)), if_pos rfl]
  · intro i hi
    rw [hb _ (frame_of_above (Nat.le_of_lt hl) hn hs.bottom hi), if_neg (by omega)]

theorem push8_onStack (hn : n ≤ 12) (hl : l.length < n) (v : ℕ) :
    Triple (OnStack M s₀ l) (push8 .S v) (fun _ => OnStack M s₀ (BitVec.ofNat 8 v :: l))
      fun _ => False := by
  intro s hs
  have hbottom : ((s.S + (65536 - 1)) % 65536 + (l.length + 1)) % 65536 = top := by
    rw [below_add (by decide), hs.bottom]
  have hmem := frame_of_top hl hn (Nat.mod_lt _ (by decide)) hbottom (Nat.succ_pos _)
  have hrun (sp : ℕ) : (do write8 (← look StackReg.S.get) v) { s with S := sp } =
      write8 sp v { s with S := sp } := rfl
  obtain ⟨t, b, hwrite, hok, hb⟩ :=
    write8_plain v (s := { s with S := (s.S + (65536 - 1)) % 65536 }) hs.ok hmem
  rw [push8, run_bind_ok (lowerStack_run 1 s), below_eq, hrun, hwrite]
  exact hs.pushed hn hl hok hb

theorem push16_onStack (hn : n ≤ 12) (hl : l.length + 1 < n) (v : ℕ) :
    Triple (OnStack M s₀ l) (push16 .S v)
      (fun _ => OnStack M s₀ (BitVec.ofNat 8 (v >>> 8) :: BitVec.ofNat 8 (v &&& 0xff) :: l))
      fun _ => False := by
  intro s hs
  have hbottom : ((s.S + (65536 - 1)) % 65536 + (l.length + 1)) % 65536 = top := by
    rw [below_add (by decide), hs.bottom]
  have hbottom' : (((s.S + (65536 - 1)) % 65536 + (65536 - 1)) % 65536 + (l.length + 2)) % 65536 =
      top := by
    rw [below_add (by decide), hbottom]
  have hlow := frame_of_top (Nat.le_of_lt hl) hn (Nat.mod_lt _ (by decide)) hbottom (Nat.succ_pos _)
  have hhigh := frame_of_top hl hn (Nat.mod_lt _ (by decide)) hbottom' (Nat.succ_pos _)
  have hrun (sp : ℕ) : (do writeStack16 (← look StackReg.S.get) v) { s with S := sp } =
      (do write8 ((sp + 1) &&& 0xffff) (v &&& 0xff); write8 sp (v >>> 8)) { s with S := sp } := rfl
  obtain ⟨t, b, hwrite, hok, hb⟩ := write8_plain (v &&& 0xff)
    (s := { s with S := ((s.S + (65536 - 1)) % 65536 + (65536 - 1)) % 65536 }) hs.ok hlow
  have hs' := hs.pushed hn (Nat.lt_of_succ_lt hl) (t := t) hok hb
  obtain ⟨t', b', hwrite', hok', hb'⟩ := write8_plain (v >>> 8)
    (s := { s with
      S := ((s.S + (65536 - 1)) % 65536 + (65536 - 1)) % 65536, trace := t, bus := b }) hok hhigh
  rw [push16, run_bind_ok (lowerStack_run 2 s), below_two_eq, hrun, above_below, run_bind_ok hwrite,
    hwrite']
  have hl' : (BitVec.ofNat 8 (v &&& 0xff) :: l).length < n := hl
  exact hs'.pushed hn hl' hok' hb'

/-- A pull, from the read of its byte. -/
theorem OnStack.pulled (hn : n ≤ 12) {v : U8} (hl : l.length < n) {s : Cpu β}
    (hs : OnStack M s₀ (v :: l) s) {t : List Access} {b : β} (hok : M.ok b)
    (hb : ∀ c, frame top n c → M.byte b c = M.byte s.bus c) :
    OnStack M s₀ l { s with S := (s.S + 1) % 65536, trace := t, bus := b } := by
  refine ⟨⟨Nat.mod_lt _ (by decide), ?_, hok, ?_⟩, hs.moved _ t b⟩
  · have hbottom := hs.bottom
    rw [List.length_cons] at hbottom
    dsimp only
    omega
  · refine hs.holds.pop.congr fun i hi => hb _ ?_
    have hmem := frame_of_above hl hn hs.bottom (Nat.succ_lt_succ hi)
    rwa [Nat.mod_add_mod, Nat.add_assoc, Nat.add_comm 1]

theorem pull8_onStack (hn : n ≤ 12) (hl : l.length < n) (v : U8) :
    Triple (OnStack M s₀ (v :: l)) (pull8 .S) (fun a s => a = v.toNat ∧ OnStack M s₀ l s)
      fun _ => False := by
  intro s hs
  have hmem := frame_of_top hl hn hs.lt hs.bottom (Nat.succ_pos _)
  obtain ⟨t, b, hread, hok, hb⟩ := read8_plain hs.ok hmem
  have hrun (r : ℕ) (s' : Cpu β) : (do raiseStack .S 1; return r : CpuM β ℕ) s' =
      .ok r { s' with S := (s'.S + 1) &&& 0xffff } := rfl
  have hget : StackReg.S.get s = s.S := rfl
  rw [pull8, run_bind_ok (run_look _ s), hget, run_bind_ok hread, hrun, Word.and_65535]
  exact ⟨by rw [hs.holds.top hs.lt], hs.pulled hn hl hok hb⟩

theorem pull16_onStack (hn : n ≤ 12) (hl : l.length + 1 < n) (v w : U8) :
    Triple (OnStack M s₀ (v :: w :: l)) (pull16 .S)
      (fun a s => a = (v.toNat <<< 8) ||| w.toNat ∧ OnStack M s₀ l s) fun _ => False := by
  intro s hs
  have hl' : (w :: l).length < n := hl
  have hmem := frame_of_top hl hn hs.lt hs.bottom (Nat.succ_pos _)
  obtain ⟨t, b, hread, hok, hb⟩ := read8_plain hs.ok hmem
  have hs' := hs.pulled hn hl' (t := t) hok hb
  have hmem' := frame_of_top (Nat.le_of_lt hl') hn hs'.lt hs'.bottom (Nat.succ_pos _)
  obtain ⟨t', b', hread', hok', hb'⟩ := read8_plain (s := { s with trace := t, bus := b }) hok hmem'
  have hget : StackReg.S.get s = s.S := rfl
  have hrun (r q : ℕ) (s' : Cpu β) :
      (do return (r <<< 8) ||| q : CpuM β ℕ) s' = .ok ((r <<< 8) ||| q) s' := rfl
  have hread16 : readStack16 s.S s = .ok ((M.byte s.bus s.S).toNat <<< 8 |||
      (M.byte b ((s.S + 1) % 65536)).toNat) { s with trace := t', bus := b' } := by
    rw [readStack16, run_bind_ok hread, Word.and_65535, run_bind_ok hread', hrun]
  have hraise (r : ℕ) (s' : Cpu β) : (do raiseStack .S 2; return r : CpuM β ℕ) s' =
      .ok r { s' with S := (s'.S + 2) &&& 0xffff } := rfl
  have htwo : (s.S + 2) &&& 0xffff = ((s.S + 1) % 65536 + 1) % 65536 := by
    rw [Word.and_65535]
    omega
  rw [pull16, run_bind_ok (run_look _ s), hget, run_bind_ok hread16, hraise, htwo]
  refine ⟨?_, hs'.pulled hn (Nat.lt_of_succ_lt hl) hok' hb'⟩
  rw [hs.holds.top hs.lt]
  rw [hs'.holds.top hs'.lt]

/-- A change of the registers other than `S`. -/
theorem modify_onStack {g : Cpu β → Cpu β}
    (hg : ∀ sp t b s, g (Cpu.relocate sp t b s) = (g s).relocate sp t b) :
    Triple (OnStack M s₀ l) (modify g : CpuM β Unit) (fun _ => OnStack M (g s₀) l)
      fun _ => False := by
  intro s hs
  have hrun : g s = (g s₀).relocate s.S s.trace s.bus := by
    conv_lhs => rw [hs.rest]
    exact hg _ _ _ s₀
  change OnStack M (g s₀) l (g s)
  rw [hrun]
  exact ⟨⟨hs.lt, hs.bottom, hs.ok, hs.holds⟩, rfl⟩

theorem look_onStack {α : Type} {p : Cpu β → α} {r : α}
    (hp : ∀ sp t b, p (s₀.relocate sp t b) = r) :
    Triple (OnStack M s₀ l) (look p) (fun a s => a = r ∧ OnStack M s₀ l s) fun _ => False := by
  intro s hs
  refine ⟨?_, hs⟩
  rw [hs.rest]
  exact hp _ _ _

theorem skip_onStack {c : Prop} [Decidable c] {k : CpuM β Unit} (hc : ¬c) :
    Triple (OnStack M s₀ l) (onlyIf c k) (fun _ => OnStack M s₀ l) fun _ => False := by
  rw [onlyIf, if_neg hc]
  exact Triple.pure _ fun _ hs => hs

theorem taken_onStack {c : Prop} [Decidable c] {k : CpuM β Unit} {s₁ : Cpu β} {l' : List U8} (hc : c)
    (hk : Triple (OnStack M s₀ l) k (fun _ => OnStack M s₁ l') fun _ => False) :
    Triple (OnStack M s₀ l) (onlyIf c k) (fun _ => OnStack M s₁ l') fun _ => False := by
  rwa [onlyIf, if_pos hc]

theorem monitorReturn_onStack :
    Triple (OnStack M s₀ l) monitorReturn (fun _ => OnStack M s₀ l) fun _ => False :=
  Triple.pure _ fun _ hs => hs

end Stack

/-! ## The two frames -/

/-- What `stack_machine_state` does to the registers before it stacks them. -/
def framed (full : Bool) (s : Cpu β) : Cpu β :=
  if full then { s with cpuClk := s.cpuClk - 19, EFI := s.EFI ||| E_FLAG }
  else { s with cpuClk := s.cpuClk - 6, EFI := s.EFI &&& unot E_FLAG }

def wordBytes (v : ℕ) : List U8 := [BitVec.ofNat 8 (v >>> 8), BitVec.ofNat 8 (v &&& 0xff)]

/-- The registers in the order in which they lie on the stack. -/
def registerBytes (s : Cpu β) : List U8 :=
  [BitVec.ofNat 8 s.A, BitVec.ofNat 8 s.B, BitVec.ofNat 8 (s.DP >>> 8)] ++ wordBytes s.X ++
    wordBytes s.Y ++ wordBytes s.U

def frameBytes (full : Bool) (s : Cpu β) : List U8 :=
  BitVec.ofNat 8 (getCc s) :: (if full then registerBytes s else []) ++ wordBytes (s.PC &&& 0xffff)

section Frames
variable {top : ℕ}

omit [Bus β] in
theorem beginFrame_eq (full : Bool) : (beginFrame full : CpuM β Unit) = modify (framed full) := by
  cases full <;> rfl

variable {M : PlainRam β (frame top 12)} {s₀ : Cpu β}

theorem pushRegisters_onStack (h w : U8) :
    Triple (OnStack M s₀ [h, w]) pushRegisters (fun _ => OnStack M s₀ (registerBytes s₀ ++ [h, w]))
      fun _ => False := by
  unfold pushRegisters
  apply (look_onStack fun _ _ _ => rfl).value
  apply (push16_onStack (by decide) (by simp) _).bind fun _ => ?_
  apply (look_onStack fun _ _ _ => rfl).value
  apply (push16_onStack (by decide) (by simp) _).bind fun _ => ?_
  apply (look_onStack fun _ _ _ => rfl).value
  apply (push16_onStack (by decide) (by simp) _).bind fun _ => ?_
  apply (look_onStack fun _ _ _ => rfl).value
  apply (push8_onStack (by decide) (by simp) _).bind fun _ => ?_
  apply (look_onStack fun _ _ _ => rfl).value
  apply (push8_onStack (by decide) (by simp) _).bind fun _ => ?_
  apply (look_onStack fun _ _ _ => rfl).value
  exact push8_onStack (by decide) (by simp) _

theorem stackMachineState_full :
    Triple (OnStack M s₀ []) (stackMachineState true)
      (fun _ => OnStack M (framed true s₀) (frameBytes true (framed true s₀))) fun _ => False := by
  unfold stackMachineState
  rw [beginFrame_eq]
  apply (modify_onStack fun _ _ _ _ => rfl).bind fun _ => ?_
  apply (look_onStack fun _ _ _ => rfl).value
  apply (push16_onStack (by decide) (by simp) _).bind fun _ => ?_
  apply (taken_onStack rfl (pushRegisters_onStack _ _)).bind fun _ => ?_
  apply (look_onStack (r := getCc (framed true s₀)) fun _ _ _ => rfl).value
  exact push8_onStack (by decide) (by simp [registerBytes, wordBytes]) _

theorem stackMachineState_short {M : PlainRam β (frame top 3)} :
    Triple (OnStack M s₀ []) (stackMachineState false)
      (fun _ => OnStack M (framed false s₀) (frameBytes false (framed false s₀))) fun _ => False := by
  unfold stackMachineState
  rw [beginFrame_eq]
  apply (modify_onStack fun _ _ _ _ => rfl).bind fun _ => ?_
  apply (look_onStack fun _ _ _ => rfl).value
  apply (push16_onStack (by decide) (by simp) _).bind fun _ => ?_
  apply (skip_onStack (by decide)).bind fun _ => ?_
  apply (look_onStack (r := getCc (framed false s₀)) fun _ _ _ => rfl).value
  exact push8_onStack (by decide) (by simp) _

theorem pullRegisters_onStack (a b d xh xl yh yl uh ul ph pl : U8) :
    Triple (OnStack M s₀ [a, b, d, xh, xl, yh, yl, uh, ul, ph, pl]) pullRegisters
      (fun _ => OnStack M { s₀ with
        A := a.toNat
        B := b.toNat
        DP := d.toNat <<< 8
        X := (xh.toNat <<< 8) ||| xl.toNat
        Y := (yh.toNat <<< 8) ||| yl.toNat
        U := (uh.toNat <<< 8) ||| ul.toNat } [ph, pl])
      fun _ => False := by
  unfold pullRegisters
  apply (pull8_onStack (by decide) (by simp) _).value
  apply (modify_onStack fun _ _ _ _ => rfl).bind fun _ => ?_
  apply (pull8_onStack (by decide) (by simp) _).value
  apply (modify_onStack fun _ _ _ _ => rfl).bind fun _ => ?_
  apply (pull8_onStack (by decide) (by simp) _).value
  apply (modify_onStack fun _ _ _ _ => rfl).bind fun _ => ?_
  apply (pull16_onStack (by decide) (by simp) _ _).value
  apply (modify_onStack fun _ _ _ _ => rfl).bind fun _ => ?_
  apply (pull16_onStack (by decide) (by simp) _ _).value
  apply (modify_onStack fun _ _ _ _ => rfl).bind fun _ => ?_
  apply (pull16_onStack (by decide) (by simp) _ _).value
  exact modify_onStack fun _ _ _ _ => rfl

/-- What `rti` does to the registers before it tests the E flag. -/
def pulledCc (c : U8) (s : Cpu β) : Cpu β :=
  { s with
    cpuClk := s.cpuClk - 6
    irqLoad := Word.sub 64 (getCycles { s with cpuClk := s.cpuClk - 6 }) s.irqStartTime :: s.irqLoad
    EFI := c.toNat &&& (E_FLAG ||| F_FLAG ||| I_FLAG)
    flags :=
      { H := if c.toNat &&& H_FLAG ≠ 0 then 0x10 else 0
        N := if c.toNat &&& N_FLAG ≠ 0 then 0x80 else 0
        Z := unot c.toNat &&& Z_FLAG
        OV := if c.toNat &&& V_FLAG ≠ 0 then 0x80 else 0
        C := c.toNat &&& C_FLAG }
    ccChanged := true }

theorem rti_full {c : U8} (hc : c.toNat &&& (E_FLAG ||| F_FLAG ||| I_FLAG) &&& E_FLAG ≠ 0)
    (a b d xh xl yh yl uh ul ph pl : U8) :
    Triple (OnStack M s₀ [c, a, b, d, xh, xl, yh, yl, uh, ul, ph, pl]) rti
      (fun _ => OnStack M { pulledCc c s₀ with
        cpuClk := (pulledCc c s₀).cpuClk - 9
        A := a.toNat
        B := b.toNat
        DP := d.toNat <<< 8
        X := (xh.toNat <<< 8) ||| xl.toNat
        Y := (yh.toNat <<< 8) ||| yl.toNat
        U := (uh.toNat <<< 8) ||| ul.toNat
        PC := (ph.toNat <<< 8) ||| pl.toNat } []) fun _ => False := by
  unfold rti
  apply monitorReturn_onStack.bind fun _ => ?_
  apply (modify_onStack fun _ _ _ _ => rfl).bind fun _ => ?_
  apply (modify_onStack fun _ _ _ _ => rfl).bind fun _ => ?_
  apply (pull8_onStack (by decide) (by simp) _).value
  apply (modify_onStack fun _ _ _ _ => rfl).bind fun _ => ?_
  apply (look_onStack fun _ _ _ => rfl).value
  apply (taken_onStack hc ((modify_onStack fun _ _ _ _ => rfl).bind fun _ =>
    pullRegisters_onStack _ _ _ _ _ _ _ _ _ _ _)).bind fun _ => ?_
  apply (pull16_onStack (by decide) (by simp) _ _).value
  exact modify_onStack fun _ _ _ _ => rfl

theorem rti_short {M : PlainRam β (frame top 3)} {c : U8}
    (hc : ¬c.toNat &&& (E_FLAG ||| F_FLAG ||| I_FLAG) &&& E_FLAG ≠ 0) (ph pl : U8) :
    Triple (OnStack M s₀ [c, ph, pl]) rti
      (fun _ => OnStack M { pulledCc c s₀ with PC := (ph.toNat <<< 8) ||| pl.toNat } [])
      fun _ => False := by
  unfold rti
  apply monitorReturn_onStack.bind fun _ => ?_
  apply (modify_onStack fun _ _ _ _ => rfl).bind fun _ => ?_
  apply (modify_onStack fun _ _ _ _ => rfl).bind fun _ => ?_
  apply (pull8_onStack (by decide) (by simp) _).value
  apply (modify_onStack fun _ _ _ _ => rfl).bind fun _ => ?_
  apply (look_onStack fun _ _ _ => rfl).value
  apply (skip_onStack hc).bind fun _ => ?_
  apply (pull16_onStack (by decide) (by simp) _ _).value
  exact modify_onStack fun _ _ _ _ => rfl

end Frames

/-! ## Values through the stack -/

theorem byte_toNat {v : ℕ} (h : v < 256) : (BitVec.ofNat 8 v).toNat = v := by
  rw [BitVec.toNat_ofNat, Nat.mod_eq_of_lt h]

theorem word_toNat {v : ℕ} (h : v < 65536) :
    ((BitVec.ofNat 8 (v >>> 8)).toNat <<< 8) ||| (BitVec.ofNat 8 (v &&& 0xff)).toNat = v := by
  have hhigh : v / 256 < 256 := by omega
  have hlow : v % 256 < 2 ^ 8 := by omega
  rw [Word.and_255, Nat.shiftRight_eq_div_pow, byte_toNat hhigh, byte_toNat hlow,
    ← Nat.shiftLeft_add_eq_or_of_lt hlow, Nat.shiftLeft_eq]
  omega

theorem page_toNat {v : ℕ} (h : v < 65536) (hlow : v % 256 = 0) :
    (BitVec.ofNat 8 (v >>> 8)).toNat <<< 8 = v := by
  have hhigh : v / 256 < 256 := by omega
  rw [Nat.shiftRight_eq_div_pow, byte_toNat hhigh, Nat.shiftLeft_eq]
  omega

omit [Bus β] in
/-- `get_cc` reads the bits that `set_cc` has stored. -/
theorem getCc_pulledCc (c : U8) (s : Cpu β) : getCc (pulledCc c s) = c.toNat := by
  have hcc : (pulledCc c s).flags.cc = Cc.ofByte c.toNat := by
    have hZ : unot c.toNat &&& Z_FLAG = 0 ↔ c.toNat &&& Z_FLAG ≠ 0 := by
      have hclear := Word.and_two_pow_eq_zero (unot c.toNat) 2
      rw [Word.testBit_compl (by decide), Bool.not_eq_false'] at hclear
      exact hclear.trans (Word.and_two_pow_ne_zero c.toNat 2).symm
    simp only [Flags.cc, Cc.ofByte, pulledCc, Cc.mk.injEq]
    refine ⟨?_, ?_, decide_eq_decide.mpr hZ, ?_, rfl⟩ <;> split <;> simp_all
  have hmask : (E_FLAG ||| F_FLAG ||| I_FLAG) ||| 0x2f = 0xff := rfl
  rw [getCc_eq, hcc, Cc.byte_ofByte]
  change (c.toNat &&& (E_FLAG ||| F_FLAG ||| I_FLAG) &&& (E_FLAG ||| F_FLAG ||| I_FLAG)) ||| _ = _
  rw [Nat.and_assoc, Nat.and_self, ← Nat.and_or_distrib_left, hmask, Word.and_255,
    Nat.mod_eq_of_lt c.isLt]

/-! ## Entries -/

def frameSize (full : Bool) : ℕ := if full then 12 else 3

section Entries
variable {top n : ℕ} {M : PlainRam β (frame top n)} {l : List U8}

theorem Stacked.onStack {s : Cpu β} (h : Stacked M l s) : OnStack M s l s := { h with rest := rfl }

theorem OnStack.S_eq {s₀ s : Cpu β} (h : OnStack M s₀ [] s) : s.S = top := by
  rw [← h.bottom, List.length_nil, Nat.add_zero, Nat.mod_eq_of_lt h.lt]

/-- The functions that run between a frame and its handler leave the frame alone. -/
theorem modify_stacked {g : Cpu β → Cpu β} (hS : ∀ s, (g s).S = s.S) (hbus : ∀ s, (g s).bus = s.bus) :
    Triple (Stacked M l) (modify g : CpuM β Unit) (fun _ => Stacked M l) fun _ => True := by
  intro s hs
  change Stacked M l (g s)
  refine ⟨?_, ?_, ?_, ?_⟩
  · rw [hS]
    exact hs.lt
  · rw [hS]
    exact hs.bottom
  · rw [hbus]
    exact hs.ok
  · rw [hS, hbus]
    exact hs.holds

theorem Stacked.same {s : Cpu β} (hn : n ≤ 12) (hl : l.length ≤ n) (h : Stacked M l s) {s' : Cpu β}
    (hS : s'.S = s.S) (hok : M.ok s'.bus)
    (hbyte : ∀ c, frame top n c → M.byte s'.bus c = M.byte s.bus c) : Stacked M l s' := by
  refine ⟨hS ▸ h.lt, hS ▸ h.bottom, hok, ?_⟩
  rw [hS]
  exact h.holds.congr fun i hi => hbyte _ (frame_of_above hl hn h.bottom hi)

theorem read16_stacked (hn : n ≤ 12) (hl : l.length ≤ n) (a : ℕ) :
    Triple (Stacked M l) (read16 a) (fun _ => Stacked M l) fun _ => True := by
  intro s hs
  have hfetch := M.fetch16 (getPc s) a s.bus hs.ok
  rw [read16_run]
  cases hr : Bus.cpuRead16 (getPc s) a s.bus with
  | ok v b =>
    rw [onReturn_ok hr] at hfetch
    exact hs.same hn hl rfl hfetch.1 hfetch.2
  | error e b => trivial

theorem look_stacked {α : Type} (p : Cpu β → α) :
    Triple (Stacked M l) (look p) (fun _ => Stacked M l) fun _ => True :=
  look_triple fun _ hs => hs

theorem mask_stacked (m : ℕ) :
    Triple (Stacked M l) (mask m) (fun _ => Stacked M l) fun _ => True :=
  (look_stacked _).bind fun _ => modify_stacked (fun _ => rfl) fun _ => rfl

theorem setIrqStartTime_stacked (v : Cpu β → ℕ) :
    Triple (Stacked M l) (setIrqStartTime v) (fun _ => Stacked M l) fun _ => True :=
  modify_stacked (fun _ => rfl) fun _ => rfl

theorem setCwaiState_stacked (c : CwaiState) :
    Triple (Stacked M l) (setCwaiState c) (fun _ => Stacked M l) fun _ => True :=
  modify_stacked (fun _ => rfl) fun _ => rfl

theorem changePc_stacked (a : ℕ) :
    Triple (Stacked M l) (changePc a) (fun _ => Stacked M l) fun _ => True :=
  modify_stacked (fun _ => rfl) fun _ => rfl

theorem vector_stacked (hn : n ≤ 12) (hl : l.length ≤ n) (a : ℕ) :
    Triple (Stacked M l) (do changePc (← read16 a)) (fun _ => Stacked M l) fun _ => True :=
  (read16_stacked hn hl a).bind fun _ => changePc_stacked _

/-- The part of `irq` after the frame. -/
theorem irqTail_stacked (hn : n ≤ 12) (hl : l.length ≤ n) :
    Triple (Stacked M l)
      (do mask I_FLAG; setIrqStartTime getCycles; changePc (← read16 0xfff8))
      (fun _ => Stacked M l) fun _ => True :=
  (mask_stacked _).bind fun _ => (setIrqStartTime_stacked _).bind fun _ => vector_stacked hn hl _

/-- The part of `firq`, and with another vector of `swi`, after the frame. -/
theorem maskTail_stacked (hn : n ≤ 12) (hl : l.length ≤ n) (a : ℕ) :
    Triple (Stacked M l) (do mask (I_FLAG ||| F_FLAG); changePc (← read16 a))
      (fun _ => Stacked M l) fun _ => True :=
  (mask_stacked _).bind fun _ => vector_stacked hn hl _

theorem enterInterrupt_idle (full : Bool) {s : Cpu β} (hidle : s.cwaiState = .idle) :
    enterInterrupt full s = stackMachineState full s := by
  rw [enterInterrupt, run_bind_ok (run_look _ s), hidle]

theorem enterInterrupt_wait (full : Bool) {s : Cpu β} (hwait : s.cwaiState = .wait) :
    enterInterrupt full s = .ok () { s with cwaiState := .idle } := by
  rw [enterInterrupt, run_bind_ok (run_look _ s), hwait]
  rfl

end Entries

section Frames
variable {top : ℕ} {full : Bool} {M : PlainRam β (frame top (frameSize full))}

theorem frameSize_le (full : Bool) : frameSize full ≤ 12 := by cases full <;> decide

omit [Bus β] in
theorem frameBytes_length (full : Bool) (s : Cpu β) :
    (frameBytes full s).length ≤ frameSize full := by
  cases full <;> simp [frameBytes, registerBytes, wordBytes, frameSize]

theorem stackMachineState_stacked {s : Cpu β} (h : Stacked M [] s) :
    Triple (· = s) (stackMachineState full) (fun _ => Stacked M (frameBytes full (framed full s)))
      fun _ => True := by
  rintro _ rfl
  cases full
  · exact (stackMachineState_short.mono (fun _ hs => hs) (fun _ _ hs => hs.toStacked)
      fun _ _ => trivial) _ h.onStack
  · exact (stackMachineState_full.mono (fun _ hs => hs) (fun _ _ hs => hs.toStacked)
      fun _ _ => trivial) _ h.onStack

theorem enterInterrupt_stacked {s : Cpu β} (hidle : s.cwaiState = .idle) (h : Stacked M [] s) :
    Triple (· = s) (enterInterrupt full) (fun _ => Stacked M (frameBytes full (framed full s)))
      fun _ => True := by
  rintro _ rfl
  rw [enterInterrupt_idle full hidle]
  exact stackMachineState_stacked h _ rfl

theorem enterInterrupt_waiting {l : List U8} (full' : Bool) {s : Cpu β} (hwait : s.cwaiState = .wait)
    (h : Stacked M l s) :
    Triple (· = s) (enterInterrupt full') (fun _ => Stacked M l) fun _ => True := by
  rintro _ rfl
  rw [enterInterrupt_wait full' hwait]
  exact { h with }

/-- A frame to resume at `pc` with the registers of `s` and the condition codes `cc`, apart
from the E flag, which tells the two frames apart. -/
def Saved (M : PlainRam β (frame top (frameSize full))) (s : Cpu β) (pc cc : ℕ) (s₁ : Cpu β) :
    Prop :=
  ∃ c : U8, Stacked M (c :: (if full then registerBytes s else []) ++ wordBytes (pc &&& 0xffff)) s₁ ∧
    (c.toNat &&& E_FLAG ≠ 0 ↔ full = true) ∧ c.toNat &&& 0x7f = cc &&& 0x7f

omit [Bus β] in
/-- The E flag of the CC register is that of `EFI`; the flag words do not reach it. -/
theorem getCc_E (s : Cpu β) : getCc s &&& E_FLAG = s.EFI &&& E_FLAG := by
  have hE : (E_FLAG ||| F_FLAG ||| I_FLAG) &&& E_FLAG = E_FLAG := rfl
  have hapart : 0x2f &&& E_FLAG = 0 := rfl
  rw [getCc_eq, Nat.and_or_distrib_right, ← Cc.byte_and, Nat.and_assoc, Nat.and_assoc, hE, hapart,
    Nat.and_zero, Nat.or_zero]

omit [Bus β] in
theorem getCc_framed (full : Bool) (s : Cpu β) :
    (getCc (framed full s) &&& E_FLAG ≠ 0 ↔ full = true) ∧
      getCc (framed full s) &&& 0x7f = getCc s &&& 0x7f := by
  have hmask : (E_FLAG ||| F_FLAG ||| I_FLAG) &&& 0x7f = F_FLAG ||| I_FLAG := rfl
  have hefi : (framed full s).EFI &&& (F_FLAG ||| I_FLAG) = s.EFI &&& (F_FLAG ||| I_FLAG) := by
    cases full
    · exact clearE_and rfl _
    · exact setE_and rfl _
  constructor
  · rw [getCc_E]
    cases full
    · have hclear : unot E_FLAG &&& E_FLAG = 0 := rfl
      have h : (framed false s).EFI &&& E_FLAG = s.EFI &&& (unot E_FLAG &&& E_FLAG) :=
        Nat.and_assoc ..
      simp [h, hclear]
    · have h : (framed true s).EFI &&& E_FLAG = (s.EFI ||| E_FLAG) &&& E_FLAG := rfl
      have hset : (s.EFI ||| E_FLAG) &&& E_FLAG ≠ 0 := by
        rw [show E_FLAG = 2 ^ 7 from rfl, Word.and_two_pow_ne_zero, Nat.testBit_or,
          Nat.testBit_two_pow_self, Bool.or_true]
      simp [h, hset]
  · have hflags : (framed full s).flags = s.flags := by cases full <;> rfl
    rw [getCc_eq, getCc_eq, Nat.and_or_distrib_right, Nat.and_or_distrib_right, Nat.and_assoc,
      Nat.and_assoc s.EFI, hmask, hefi, hflags]

theorem saved_of_framed {s s₁ : Cpu β} (h : Stacked M (frameBytes full (framed full s)) s₁) :
    Saved M s s.PC (getCc s) s₁ := by
  obtain ⟨hE, hcc⟩ := getCc_framed full s
  refine ⟨BitVec.ofNat 8 (getCc (framed full s)), ?_, ?_, ?_⟩
  · cases full <;> exact h
  · rwa [byte_toNat (getCc_lt _)]
  · rwa [byte_toNat (getCc_lt _)]

end Frames

section Cwai
variable {top : ℕ} {M : PlainRam β (frame top (frameSize true))}

/-- A frame that `cwai` has stacked returns to the condition codes in it. -/
theorem saved_of_cwai {s r sw : Cpu β} (hregs : registerBytes r = registerBytes s)
    (hpc : r.PC = uint (s.PC + 1)) (h : Stacked M (frameBytes true (framed true r)) sw) :
    Saved M s (s.PC + 1) (M.byte sw.bus sw.S).toNat sw := by
  have hword : r.PC &&& 0xffff = (s.PC + 1) &&& 0xffff := by
    rw [hpc, Word.and_65535, Word.and_65535]
    exact Nat.mod_mod_of_dvd _ (by decide)
  have hframe : frameBytes true (framed true r) =
      BitVec.ofNat 8 (getCc (framed true r)) :: registerBytes s ++
        wordBytes ((s.PC + 1) &&& 0xffff) := by
    rw [← hregs, ← hword]
    rfl
  rw [hframe] at h
  rw [h.holds.top h.lt]
  refine ⟨_, h, ?_, rfl⟩
  rw [byte_toNat (getCc_lt _)]
  exact (getCc_framed true r).1

/-- The part of `cwai` after its operand. -/
theorem cwaiTail_saved {s s₀ : Cpu β} (hregs : registerBytes s₀ = registerBytes s)
    (hpc : s₀.PC = uint (s.PC + 1)) (n : ℕ) :
    Triple (OnStack M s₀ [])
      (do
        setEfi ((← look Cpu.EFI) &&& int8 n)
        charge 1
        stackMachineState true
        setCwaiState .wait
        changePc (usub (← look Cpu.PC) 2))
      (fun _ sw => Saved M s (s.PC + 1) (M.byte sw.bus sw.S).toNat sw) fun _ => True := by
  have hstop (s : Cpu β) : False → True := fun _ => trivial
  have hstop' (s : Cpu β) : True → True := id
  apply ((look_onStack fun _ _ _ => rfl).mono (fun _ hs => hs) (fun _ _ hs => hs) hstop).value
  apply ((modify_onStack fun _ _ _ _ => rfl).mono (fun _ hs => hs) (fun _ _ hs => hs) hstop).bind
  intro _
  apply ((modify_onStack fun _ _ _ _ => rfl).mono (fun _ hs => hs) (fun _ _ hs => hs) hstop).bind
  intro _
  apply (stackMachineState_full.mono (fun _ hs => hs) (fun _ _ hs => hs.toStacked) hstop).bind
  intro _
  apply (setCwaiState_stacked _).bind
  intro _
  apply (look_stacked _).bind
  intro _
  apply (changePc_stacked _).mono (fun _ hs => hs) _ hstop'
  intro _ _ hs
  exact saved_of_cwai (r := { s₀ with EFI := s₀.EFI &&& int8 n, cpuClk := s₀.cpuClk - 1 })
    hregs hpc hs

/-- `cwai` stacks the state that its handler returns to, with the masked condition codes. -/
theorem cwai_saved {s : Cpu β} (hidle : s.cwaiState = .idle) (h : Stacked M [] s) :
    Triple (· = s) cwai
      (fun _ sw => Saved M s (s.PC + 1) (M.byte sw.bus sw.S).toNat sw) fun _ => True := by
  intro s' hs'
  rw [hs', cwai, run_bind_ok (run_look _ s), hidle]
  dsimp only
  have hfetch := M.fetch8 (getPc s) s.PC s.bus h.ok
  cases hr : Bus.cpuRead8 (getPc s) s.PC s.bus with
  | error e b =>
    have hstop : immByte s = .error e { s with trace := .read8 s.PC :: s.trace, bus := b } := by
      rw [immByte_run, hr]
    rw [run_bind_error hstop]
    trivial
  | ok v b =>
    rw [onReturn_ok hr] at hfetch
    have hrun : immByte s = .ok v.toNat
        { s with trace := .read8 s.PC :: s.trace, bus := b, PC := uint (s.PC + 1) } := by
      rw [immByte_run, hr]
    have hfetched : Stacked M []
        { s with trace := .read8 s.PC :: s.trace, bus := b, PC := uint (s.PC + 1) } :=
      h.same (frameSize_le true) (Nat.zero_le _) rfl hfetch.1 hfetch.2
    rw [run_bind_ok hrun]
    apply cwaiTail_saved _ _ v.toNat _ hfetched.onStack
    · rfl
    · rfl

end Cwai

/-! ## Entry, handler and return -/

section Return

/-- The bytes of a frame are the same in `b'` as in `b`, and still plain memory. -/
def PlainRam.Unchanged {F : ℕ → Prop} (M : PlainRam β F) (b b' : β) : Prop :=
  M.ok b' ∧ ∀ c, F c → M.byte b' c = M.byte b c

/-- An interrupt taken in `s` starts its handler in `s₁`, with the frame in `M`. It is to resume
at `pc` with the condition codes `cc`. -/
inductive Entered (s : Cpu β) : (full : Bool) → PlainRam β (frame s.S (frameSize full)) →
    (pc cc : ℕ) → Cpu β → Prop
  | irq {M : PlainRam β _} {s₁ : Cpu β} (hidle : s.cwaiState = .idle)
      (h : Exec09.irq s = .ok () s₁) : Entered s true M s.PC (getCc s) s₁
  | firq {M : PlainRam β _} {s₁ : Cpu β} (hidle : s.cwaiState = .idle)
      (h : Exec09.firq s = .ok () s₁) : Entered s false M s.PC (getCc s) s₁
  | swi {M : PlainRam β _} {s₁ : Cpu β} (h : Exec09.swi s = .ok () s₁) :
    Entered s true M s.PC (getCc s) s₁
  | swi2 {M : PlainRam β _} {s₁ : Cpu β} (h : Exec09.swi2 s = .ok () s₁) :
    Entered s true M s.PC (getCc s) s₁
  | swi3 {M : PlainRam β _} {s₁ : Cpu β} (h : Exec09.swi3 s = .ok () s₁) :
    Entered s true M s.PC (getCc s) s₁
  /-- CWAI stacks the frame in `sw`; the interrupt is taken later, in `sv`. -/
  | cwai {M : PlainRam β _} {sw sv s₁ : Cpu β} (hidle : s.cwaiState = .idle)
      (hcwai : Exec09.cwai s = .ok () sw) (hwait : sv.cwaiState = .wait) (hS : sv.S = sw.S)
      (hbytes : M.Unchanged sw.bus sv.bus)
      (h : Exec09.irq sv = .ok () s₁ ∨ Exec09.firq sv = .ok () s₁) :
    Entered s true M (s.PC + 1) (M.byte sw.bus sw.S).toNat s₁

/-- The registers that a full frame holds besides `PC` and CC. -/
def Cpu.saved (s : Cpu β) : ℕ × ℕ × ℕ × ℕ × ℕ × ℕ := (s.A, s.B, s.DP, s.X, s.Y, s.U)

variable {top : ℕ} {full : Bool} {M : PlainRam β (frame top (frameSize full))}

theorem saved_mono {s s₁ s₂ : Cpu β} {pc cc : ℕ} (h : Saved M s pc cc s₁) (hS : s₂.S = s₁.S)
    (hbytes : M.Unchanged s₁.bus s₂.bus) : Saved M s pc cc s₂ := by
  obtain ⟨c, hc, hcc⟩ := h
  have hlen : (c :: (if full then registerBytes s else []) ++ wordBytes (pc &&& 0xffff)).length ≤
      frameSize full := by
    cases full <;> simp [registerBytes, wordBytes, frameSize]
  exact ⟨c, hc.same (frameSize_le full) hlen hS hbytes.1 hbytes.2, hcc⟩

theorem Entered.saved {s s₁ : Cpu β} {pc cc : ℕ} {M : PlainRam β (frame s.S (frameSize full))}
    (h : Entered s full M pc cc s₁) (hS : s.S < 0x10000) (hok : M.ok s.bus) :
    Saved M s pc cc s₁ := by
  have hempty : Stacked M [] s := ⟨hS, Nat.mod_eq_of_lt hS, hok, holds_nil⟩
  cases h with
  | irq hidle h =>
    have hirq := (enterInterrupt_stacked hidle hempty).bind fun _ =>
      irqTail_stacked (frameSize_le _) (frameBytes_length _ _)
    exact saved_of_framed (hirq.of_ok rfl h)
  | firq hidle h =>
    have hfirq := (enterInterrupt_stacked hidle hempty).bind fun _ =>
      maskTail_stacked (frameSize_le _) (frameBytes_length _ _) 0xfff6
    exact saved_of_framed (hfirq.of_ok rfl h)
  | swi h =>
    have hswi := (stackMachineState_stacked hempty).bind fun _ =>
      maskTail_stacked (frameSize_le _) (frameBytes_length _ _) 0xfffa
    exact saved_of_framed (hswi.of_ok rfl h)
  | swi2 h =>
    have hcharged : Stacked _ [] { s with cpuClk := s.cpuClk - 1 } := { hempty with }
    have hswi2 := (stackMachineState_stacked hcharged).bind fun _ =>
      vector_stacked (frameSize_le _) (frameBytes_length _ _) 0xfff4
    exact saved_of_framed (hswi2.of_ok rfl h)
  | swi3 h =>
    have hcharged : Stacked _ [] { s with cpuClk := s.cpuClk - 1 } := { hempty with }
    have hswi3 := (stackMachineState_stacked hcharged).bind fun _ =>
      vector_stacked (frameSize_le _) (frameBytes_length _ _) 0xfff2
    exact saved_of_framed (hswi3.of_ok rfl h)
  | cwai hidle hcwai hwait hS hbytes h =>
    have hsaved := saved_mono ((cwai_saved hidle hempty).of_ok rfl hcwai) hS hbytes
    obtain ⟨c, hc, hcc⟩ := hsaved
    refine ⟨c, ?_, hcc⟩
    rcases h with h | h
    · have hirq := (enterInterrupt_waiting true hwait hc).bind fun _ =>
        irqTail_stacked (frameSize_le _) (by simp [registerBytes, wordBytes, frameSize])
      exact hirq.of_ok rfl h
    · have hfirq := (enterInterrupt_waiting false hwait hc).bind fun _ =>
        maskTail_stacked (frameSize_le _) (by simp [registerBytes, wordBytes, frameSize]) 0xfff6
      exact hfirq.of_ok rfl h

/-- `rti` on a frame resumes what the frame describes. -/
theorem Saved.rti {s s₂ : Cpu β} {pc cc : ℕ} (hs : Widths s) (h : Saved M s pc cc s₂) :
    ∃ s₃, Exec09.rti s₂ = .ok () s₃ ∧ s₃.S = top ∧ s₃.PC = pc % 0x10000 ∧
      getCc s₃ &&& 0x7f = cc &&& 0x7f ∧ s₃.saved = if full then s.saved else s₂.saved := by
  obtain ⟨c, hc, hE, hcc⟩ := h
  have hE' : c.toNat &&& (E_FLAG ||| F_FLAG ||| I_FLAG) &&& E_FLAG ≠ 0 ↔ full = true := by
    rwa [Nat.and_assoc, show (E_FLAG ||| F_FLAG ||| I_FLAG) &&& E_FLAG = E_FLAG from rfl]
  have hpc : pc &&& 0xffff = pc % 0x10000 := Word.and_65535 pc
  have hpclt : pc &&& 0xffff < 0x10000 := by omega
  cases full with
  | false =>
    obtain ⟨_, s₃, hrun, hs₃⟩ := (rti_short (fun h => by simpa using hE'.mp h) _ _).total hc.onStack
    refine ⟨s₃, hrun, hs₃.S_eq, ?_, ?_, ?_⟩
    · rw [hs₃.rest, ← hpc]
      exact word_toNat hpclt
    · rw [hs₃.rest, ← hcc, ← getCc_pulledCc c s₂]
      rfl
    · rw [hs₃.rest]
      rfl
  | true =>
    obtain ⟨_, s₃, hrun, hs₃⟩ :=
      (rti_full (hE'.mpr rfl) _ _ _ _ _ _ _ _ _ _ _).total hc.onStack
    refine ⟨s₃, hrun, hs₃.S_eq, ?_, ?_, ?_⟩
    · rw [hs₃.rest, ← hpc]
      exact word_toNat hpclt
    · rw [hs₃.rest, ← hcc, ← getCc_pulledCc c s₂]
      rfl
    · rw [hs₃.rest, if_pos rfl]
      simp only [Cpu.saved, Cpu.relocate, byte_toNat hs.A, byte_toNat hs.B, word_toNat hs.X,
        word_toNat hs.Y, word_toNat hs.U, page_toNat hs.DP hs.page]

/-- RTI resumes the interrupted program, whatever the handler did to the registers. -/
theorem rti_restores {s s₁ s₂ : Cpu β} {pc cc : ℕ} {M : PlainRam β (frame s.S (frameSize full))}
    (hs : Widths s) (hok : M.ok s.bus) (hentry : Entered s full M pc cc s₁) (hS : s₂.S = s₁.S)
    (hbytes : M.Unchanged s₁.bus s₂.bus) :
    ∃ s₃, Exec09.rti s₂ = .ok () s₃ ∧ s₃.S = s.S ∧ s₃.PC = pc % 0x10000 ∧
      getCc s₃ &&& 0x7f = cc &&& 0x7f ∧ s₃.saved = if full then s.saved else s₂.saved :=
  (saved_mono (hentry.saved hs.S hok) hS hbytes).rti hs

end Return

/-! A software interrupt whose frame wraps around address 0, with a handler that clears `A`
and `X`. -/

section FlatRam

def FlatRam.plainRam (F : ℕ → Prop) (hF : ∀ a, F a → a < 0x10000) : PlainRam FlatRam F where
  ok _ := True
  byte m := m
  read pc a m _ ha := ⟨m, if_pos (hF a ha), trivial, fun _ _ => rfl⟩
  write pc a v m _ ha := ⟨_, if_pos (hF a ha), trivial, fun _ _ => rfl⟩
  fetch8 pc a m _ := by
    by_cases ha : a < 0x10000
    · have hr : Bus.cpuRead8 pc a m = .ok (m a) m := if_pos ha
      exact (onReturn_ok hr).mpr ⟨trivial, fun _ _ => rfl⟩
    · have hr : Bus.cpuRead8 pc a m = .error (.fatal .mapIndex) m := if_neg ha
      exact onReturn_error hr
  fetch16 pc a m _ := by
    by_cases ha : a < 0x10000
    · have hr : Bus.cpuRead16 pc a m = .ok (m a ++ m (a + 1)) m := if_pos ha
      exact (onReturn_ok hr).mpr ⟨trivial, fun _ _ => rfl⟩
    · have hr : Bus.cpuRead16 pc a m = .error (.fatal .mapIndex) m := if_neg ha
      exact onReturn_error hr

theorem frame_lt {top n a : ℕ} (h : frame top n a) : a < 0x10000 := by
  obtain ⟨k, -, -, rfl⟩ := h
  exact Nat.mod_lt _ (by decide)

def swiState : Cpu FlatRam :=
  { Cpu.powerOn (FlatRam.image [(0xfffa, [0x20, 0x00])]) with
    S := 5, PC := 0x1000, A := 0x12, X := 0x5678 }

def swiHandler : Cpu FlatRam := { finalState (swi swiState) with A := 0, X := 0 }

theorem rti_restores_swi :
    ∃ s₃, Exec09.rti swiHandler = .ok () s₃ ∧ s₃.S = 5 ∧ s₃.PC = 0x1000 ∧
      getCc s₃ &&& 0x7f = getCc swiState &&& 0x7f ∧ s₃.saved = (0x12, 0, 0, 0x5678, 0, 0) := by
  have hswi : returned (swi swiState) = true := by decide +kernel
  have hs : Widths swiState := by constructor <;> decide
  have hentry : Entered swiState true (FlatRam.plainRam _ fun _ => frame_lt) 0x1000 _ _ :=
    .swi (eq_ok_finalState hswi)
  exact rti_restores hs trivial hentry rfl ⟨trivial, fun _ _ => rfl⟩

end FlatRam

end Exec09
