import Exec09.Devices.Serial
import Exec09.Foundation.Ring

/-! # The receive queue of a serial port

The debugger puts bytes into a queue of 4096 places, from which the guest is
served before the host is asked. What was accepted is at any time what the
guest has got, in this order, followed by what waits. The status of the port
on the other hand tells of the host's descriptors only below 2.
-/
namespace Exec09.SerialPort
open Foundation

/-- `serial_queue_push`. -/
def queuePush (val : U8) (p : SerialPort) : ℤ × SerialPort :=
  if p.rxCount ≥ 4096 then (-1, p)
  else (0, { p with
    rxBuf := Function.update p.rxBuf p.rxWr val
    rxWr := (p.rxWr + 1) % 4096
    rxCount := p.rxCount + 1 })

/-- `serial_inject_byte`, where there is a `default_port`. -/
def injectByte (val : U8) (p : SerialPort) : ℤ × SerialPort := p.queuePush val

/-- `serial_inject_bytes`. -/
def injectBytes : List U8 → SerialPort → ℤ × SerialPort
  | [], p => (0, p)
  | val :: vals, p =>
    if (p.injectByte val).1 ≠ 0 then (-1, (p.injectByte val).2)
    else injectBytes vals (p.injectByte val).2

/-! ## The ring -/

/-- The queue holds `q`. -/
structure Queued (p : SerialPort) (q : List U8) : Prop where
  holds : Ring.Holds 4096 p.rxBuf p.rxRd q
  count : p.rxCount = q.length
  rd : p.rxRd < 4096
  wr : p.rxWr = (p.rxRd + q.length) % 4096

/-- The bytes that wait, in the order of the ring. -/
def waiting (p : SerialPort) : List U8 :=
  (List.range p.rxCount).map fun i => p.rxBuf ((p.rxRd + i) % 4096)

variable {p : SerialPort} {q : List U8} {h : Host}

theorem Queued.waiting_eq (hq : Queued p q) : p.waiting = q := by
  apply List.ext_getElem
  · simp [waiting, hq.count]
  · intro i _ hi
    simp only [waiting, List.getElem_map, List.getElem_range]
    exact hq.holds.cell i hi

theorem reset_queued (p : SerialPort) : Queued p.reset [] :=
  ⟨Ring.holds_nil, rfl, Nat.zero_lt_succ _, rfl⟩

theorem Queued.length_le (hq : Queued p q) : q.length ≤ 4096 := hq.holds.length_le

theorem Queued.push (hq : Queued p q) (hroom : q.length < 4096) (val : U8) :
    Queued (p.queuePush val).2 (q ++ [val]) ∧ (p.queuePush val).1 = 0 := by
  have hcount : ¬p.rxCount ≥ 4096 := by
    rw [hq.count]
    omega
  rw [queuePush, if_neg hcount]
  refine ⟨⟨?_, ?_, hq.rd, ?_⟩, rfl⟩
  · have hholds := hq.holds.push hroom val
    rwa [← hq.wr] at hholds
  · simp [hq.count]
  · change (p.rxWr + 1) % 4096 = (p.rxRd + (q ++ [val]).length) % 4096
    rw [hq.wr, List.length_append, List.length_singleton]
    omega

theorem Queued.push_full (hq : Queued p q) (hfull : q.length = 4096) (val : U8) :
    p.queuePush val = (-1, p) := by
  rw [queuePush, if_pos (by rw [hq.count]; omega)]

/-- What fits of the bytes is queued, and the result says whether it was all of them. -/
theorem Queued.inject (hq : Queued p q) (vals : List U8) :
    Queued (injectBytes vals p).2 (q ++ vals.take (4096 - q.length)) ∧
      (injectBytes vals p).1 = if q.length + vals.length ≤ 4096 then 0 else -1 := by
  have hle := hq.length_le
  induction vals generalizing p q with
  | nil =>
    rw [injectBytes, List.take_nil, List.append_nil, List.length_nil, Nat.add_zero, if_pos hle]
    exact ⟨hq, rfl⟩
  | cons val vals ih =>
    rw [injectBytes, injectByte, List.length_cons]
    by_cases hroom : q.length < 4096
    · obtain ⟨hpushed, hzero⟩ := hq.push hroom val
      have hrest := ih hpushed hpushed.length_le
      have htake : (val :: vals).take (4096 - q.length) =
          val :: vals.take (4096 - (q ++ [val]).length) := by
        rw [List.length_append, List.length_singleton,
          show 4096 - q.length = 4096 - (q.length + 1) + 1 by omega, List.take_succ_cons]
      rw [if_neg (not_not.mpr hzero), htake]
      rw [List.append_assoc, List.singleton_append, List.length_append, List.length_singleton,
        Nat.add_assoc, Nat.add_comm 1] at hrest
      rw [List.length_append, List.length_singleton]
      exact hrest
    · have hfull : q.length = 4096 := by omega
      have hrefused : (-1 : ℤ) ≠ 0 := by decide
      rw [hq.push_full hfull, if_pos hrefused, hfull, if_neg (by omega), Nat.sub_self,
        List.take_zero, List.append_nil]
      exact ⟨hq, rfl⟩

theorem update_queued (hq : Queued p q) (h : Host) : Queued (p.update h) q :=
  ⟨hq.holds, hq.count, hq.rd, hq.wr⟩

/-- A waiting byte is served, and the host is not touched. -/
theorem Queued.serve {val : U8} (hq : Queued p (val :: q)) (h : Host) :
    ∃ p', p.read 0 h = (val, p', h) ∧ Queued p' q := by
  have hu := update_queued hq h
  have hcount : (p.update h).rxCount = q.length + 1 := hu.count
  have hhead : (p.update h).rxBuf (p.update h).rxRd = val := hu.holds.head hu.rd
  have hpositive : (p.update h).rxCount ≠ 0 := by omega
  have hread : p.read 0 h = (val, { p.update h with
      rxRd := ((p.update h).rxRd + 1) % 4096, rxCount := (p.update h).rxCount - 1 }, h) := by
    change (p.update h).readData h = _
    rw [readData, if_pos hpositive, hhead]
  refine ⟨_, hread, hu.holds.pop, ?_, Nat.mod_lt _ (by decide), ?_⟩
  · dsimp only
    rw [hcount, Nat.add_sub_cancel]
  · dsimp only
    rw [hu.wr, List.length_cons]
    omega

/-- A read with nothing waiting leaves the queue empty. -/
theorem Queued.empty_read (hq : Queued p []) (h : Host) : Queued (p.read 0 h).2.1 [] := by
  have hu := update_queued hq h
  have hzero : ¬(p.update h).rxCount ≠ 0 := not_not.mpr hu.count
  change Queued ((p.update h).readData h).2.1 []
  rw [readData, if_neg hzero]
  split_ifs
  · exact hu
  · cases h.input (p.update h).fin <;> exact hu

/-! ## Histories -/

/-- What the debugger, the guest and the host do to a port. -/
inductive Operation
  | injectByte (val : U8)
  | injectBytes (vals : List U8)
  /-- A read of `SER_DATA`. -/
  | readData
  /-- A read of `SER_CTL_STATUS`. -/
  | readStatus
  /-- The host's side becomes another one. -/
  | change (h : Host)

/-- The port and the host, with the bytes accepted into the queue and those served from it. -/
structure Observed where
  port : SerialPort
  host : Host
  accepted : List U8
  served : List U8

/-- The operation on the port and the host, with its result. -/
def Operation.perform (p : SerialPort) (h : Host) : Operation → ℤ × SerialPort × Host
  | injectByte val => ((p.injectByte val).1, (p.injectByte val).2, h)
  | injectBytes vals => ((p.injectBytes vals).1, (p.injectBytes vals).2, h)
  | readData => ((p.read 0 h).1.toNat, (p.read 0 h).2)
  | readStatus => ((p.read 1 h).1.toNat, (p.read 1 h).2)
  | change h => (0, p, h)

/-- What an operation adds to the bytes accepted, by the change of `rx_count`. -/
def Operation.accepts (p p' : SerialPort) : Operation → List U8
  | injectByte val => [val].take (p'.rxCount - p.rxCount)
  | injectBytes vals => vals.take (p'.rxCount - p.rxCount)
  | _ => []

/-- What it adds to the bytes served. -/
def Operation.serves (p : SerialPort) (h : Host) : Operation → List U8
  | readData => if p.rxCount ≠ 0 then [(p.read 0 h).1] else []
  | _ => []

def Observed.step (o : Observed) (op : Operation) : Observed where
  port := (op.perform o.port o.host).2.1
  host := (op.perform o.port o.host).2.2
  accepted := o.accepted ++ op.accepts o.port (op.perform o.port o.host).2.1
  served := o.served ++ op.serves o.port o.host

/-- A port after its reset, observed from then on. -/
def observe (p : SerialPort) (h : Host) : Observed := ⟨p.reset, h, [], []⟩

/-- What an operation leaves in the queue. -/
def Operation.queue (q : List U8) : Operation → List U8
  | injectByte val => if q.length < 4096 then q ++ [val] else q
  | injectBytes vals => q ++ vals.take (4096 - q.length)
  | readData => q.tail
  | _ => q

/-- What an operation is to do where `q` waits: a push is refused if the queue is full, a prefix
is queued if the rest does not fit, and a byte that waits is served before the host's. -/
def Operation.Lawful (q : List U8) (p : SerialPort) (h : Host) (op : Operation) : Prop :=
  (op.perform p h).2.1.waiting = op.queue q ∧
  match op with
  | injectByte _ => (op.perform p h).1 = if q.length = 4096 then -1 else 0
  | injectBytes vals => (op.perform p h).1 = if q.length + vals.length ≤ 4096 then 0 else -1
  | readData => ∀ val rest, q = val :: rest →
      (op.perform p h).1 = val.toNat ∧ (op.perform p h).2.2 = h
  | _ => True

/-- One operation: the queue it leaves, and where its bytes went. -/
theorem Queued.perform (hq : Queued p q) (h : Host) (op : Operation) :
    Queued (op.perform p h).2.1 (op.queue q) ∧
      q ++ op.accepts p (op.perform p h).2.1 = op.serves p h ++ op.queue q := by
  have hcount := hq.count
  cases op with
  | injectByte val =>
    have hpush : (Operation.injectByte val).perform p h =
        ((p.queuePush val).1, (p.queuePush val).2, h) := rfl
    by_cases hroom : q.length < 4096
    · obtain ⟨hpushed, -⟩ := hq.push hroom val
      have hqueue : (Operation.injectByte val).queue q = q ++ [val] := if_pos hroom
      have hone : (p.queuePush val).2.rxCount - p.rxCount = 1 := by
        rw [hpushed.count, hcount, List.length_append, List.length_singleton]
        omega
      rw [hpush, hqueue]
      refine ⟨hpushed, ?_⟩
      simp only [Operation.accepts, Operation.serves, hone]
      rfl
    · have hfull : q.length = 4096 := by
        have hle := hq.length_le
        omega
      have hqueue : (Operation.injectByte val).queue q = q := if_neg hroom
      rw [hpush, hqueue, hq.push_full hfull]
      refine ⟨hq, ?_⟩
      simp [Operation.accepts, Operation.serves]
  | injectBytes vals =>
    obtain ⟨hinjected, -⟩ := hq.inject vals
    have hperform : (Operation.injectBytes vals).perform p h =
        ((p.injectBytes vals).1, (p.injectBytes vals).2, h) := rfl
    have htaken : vals.take ((p.injectBytes vals).2.rxCount - p.rxCount) =
        vals.take (4096 - q.length) := by
      rw [hinjected.count, hcount, List.length_append, Nat.add_sub_cancel_left, List.length_take,
        ← List.take_eq_take_min]
    rw [hperform]
    refine ⟨hinjected, ?_⟩
    simp only [Operation.accepts, Operation.serves, htaken]
    rfl
  | readData =>
    have hperform : Operation.readData.perform p h = (((p.read 0 h).1.toNat : ℤ), (p.read 0 h).2) :=
      rfl
    rw [hperform]
    cases q with
    | nil =>
      refine ⟨hq.empty_read h, ?_⟩
      simp [Operation.accepts, Operation.serves, Operation.queue, hcount]
    | cons val q =>
      obtain ⟨p', hread, hp'⟩ := hq.serve h
      rw [hread]
      refine ⟨hp', ?_⟩
      simp [Operation.accepts, Operation.serves, Operation.queue, hcount, hread]
  | readStatus =>
    refine ⟨update_queued hq h, ?_⟩
    simp [Operation.accepts, Operation.serves, Operation.queue]
  | change h' =>
    refine ⟨hq, ?_⟩
    simp [Operation.accepts, Operation.serves, Operation.queue]

theorem Queued.lawful (hq : Queued p q) (h : Host) (op : Operation) : op.Lawful q p h := by
  refine ⟨(hq.perform h op).1.waiting_eq, ?_⟩
  cases op with
  | injectByte val =>
    change (p.queuePush val).1 = _
    by_cases hfull : q.length = 4096
    · rw [hq.push_full hfull, if_pos hfull]
    · have hle := hq.length_le
      rw [(hq.push (by omega) val).2, if_neg hfull]
  | injectBytes vals => exact (hq.inject vals).2
  | readData =>
    rintro val rest rfl
    obtain ⟨p', hread, -⟩ := hq.serve h
    change ((p.read 0 h).1.toNat : ℤ) = val.toNat ∧ (p.read 0 h).2.2 = h
    rw [hread]
    exact ⟨rfl, rfl⟩
  | readStatus => trivial
  | change h' => trivial

/-- After any operations some queue is in the ring, and it is what was accepted and not served. -/
theorem observe_queued (p : SerialPort) (h : Host) (ops : List Operation) :
    ∃ q, Queued (ops.foldl Observed.step (observe p h)).port q ∧
      (ops.foldl Observed.step (observe p h)).accepted =
        (ops.foldl Observed.step (observe p h)).served ++ q := by
  induction ops using List.reverseRecOn with
  | nil => exact ⟨[], reset_queued p, rfl⟩
  | append_singleton ops op ih =>
    obtain ⟨q, hq, hlaw⟩ := ih
    obtain ⟨hnext, hmoved⟩ := hq.perform (ops.foldl Observed.step (observe p h)).host op
    rw [List.foldl_append, List.foldl_cons, List.foldl_nil]
    refine ⟨op.queue q, hnext, ?_⟩
    change (ops.foldl Observed.step (observe p h)).accepted ++ _ =
      (ops.foldl Observed.step (observe p h)).served ++ _ ++ op.queue q
    rw [hlaw, List.append_assoc, hmoved, List.append_assoc]

/-- At any time the bytes accepted are those served, in this order, and then those that wait; the
indices are in their ranges, and the next operation does what it is to do. -/
theorem queue_law (p : SerialPort) (h : Host) (ops : List Operation) (op : Operation) :
    let o := ops.foldl Observed.step (observe p h)
    o.accepted = o.served ++ o.port.waiting ∧
      (o.port.rxRd < 4096 ∧ o.port.rxWr < 4096 ∧ o.port.rxCount ≤ 4096 ∧
        o.port.rxWr = (o.port.rxRd + o.port.rxCount) % 4096) ∧
      op.Lawful o.port.waiting o.port o.host := by
  obtain ⟨q, hq, hlaw⟩ := observe_queued p h ops
  dsimp only
  rw [hq.waiting_eq, hq.count, hq.wr]
  exact ⟨hlaw, ⟨hq.rd, Nat.mod_lt _ (by decide), hq.length_le, rfl⟩, hq.lawful _ op⟩

/-! ## The status -/

theorem setStatus_same (k : ℕ) (on : Bool) (p : SerialPort) (hk : k < 32) :
    (p.setStatus (2 ^ k) on).status &&& 2 ^ k ≠ 0 ↔ on = true := by
  rw [Word.and_two_pow_ne_zero]
  cases on with
  | true => simp [setStatus]
  | false =>
    have hclear : (unot (2 ^ k)).testBit k = false := by
      rw [unot, Word.testBit_compl hk]
      simp
    simp [setStatus, hclear]

theorem setStatus_other {k i : ℕ} (hki : k ≠ i) (hi : i < 32) (on : Bool) (p : SerialPort) :
    (p.setStatus (2 ^ k) on).status &&& 2 ^ i ≠ 0 ↔ p.status &&& 2 ^ i ≠ 0 := by
  rw [Word.and_two_pow_ne_zero, Word.and_two_pow_ne_zero]
  cases on with
  | true => simp [setStatus, Nat.testBit_two_pow_of_ne hki]
  | false =>
    have hkept : (unot (2 ^ k)).testBit i = true := by
      rw [unot, Word.testBit_compl hi, Nat.testBit_two_pow_of_ne hki, Bool.not_false]
    simp [setStatus, hkept]

theorem update_readOk (p : SerialPort) (h : Host) : (p.update h).status &&& SER_STAT_READOK ≠ 0 ↔
    p.rxCount > 0 ∨ p.fin < 2 ∧ h.readable p.fin = true := by
  have hother := setStatus_other (show 1 ≠ 0 by decide) (show 0 < 32 by decide)
    (p.fout < 2 && h.writable p.fout)
    (p.setStatus SER_STAT_READOK (p.rxCount > 0 || p.fin < 2 && h.readable p.fin))
  have hsame := setStatus_same 0 (p.rxCount > 0 || p.fin < 2 && h.readable p.fin) p (by decide)
  refine hother.trans (hsame.trans ?_)
  rw [Bool.or_eq_true, Bool.and_eq_true, decide_eq_true_eq, decide_eq_true_eq]

theorem update_writeOk (p : SerialPort) (h : Host) : (p.update h).status &&& SER_STAT_WRITEOK ≠ 0 ↔
    p.fout < 2 ∧ h.writable p.fout = true := by
  have hsame := setStatus_same 1 (p.fout < 2 && h.writable p.fout)
    (p.setStatus SER_STAT_READOK (p.rxCount > 0 || p.fin < 2 && h.readable p.fin)) (by decide)
  refine hsame.trans ?_
  rw [Bool.and_eq_true, decide_eq_true_eq]

/-- The status tells of the descriptors as they are exactly where each of them is below 2, or the
answer does not depend on it. -/
theorem status_right_iff (p : SerialPort) (h : Host) :
    (((p.update h).status &&& SER_STAT_READOK ≠ 0 ↔ p.rxCount > 0 ∨ h.readable p.fin = true) ∧
        ((p.update h).status &&& SER_STAT_WRITEOK ≠ 0 ↔ h.writable p.fout = true)) ↔
      (p.fin < 2 ∨ p.rxCount > 0 ∨ h.readable p.fin = false) ∧
        (p.fout < 2 ∨ h.writable p.fout = false) := by
  rw [update_readOk, update_writeOk]
  cases h.readable p.fin <;> cases h.writable p.fout <;> simp <;> omega

/-- A port on descriptor 3, from which a byte can be read. -/
theorem status_wrong :
    ¬((((⟨0, 0, 3, 3, 0, 0, 0, fun _ => 0⟩ : SerialPort).update
        ⟨fun _ => [0x41], fun _ => false, fun _ => true, fun _ => [], 0⟩).status &&&
          SER_STAT_READOK ≠ 0) ↔
      0 > 0 ∨ (⟨fun _ => [0x41], fun _ => false, fun _ => true, fun _ => [], 0⟩ :
        Host).readable 3 = true) := by
  decide

end Exec09.SerialPort
