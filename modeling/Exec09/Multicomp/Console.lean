import Exec09.Cpu.State

/-! # The UART and the timer of multicomp09

Characters typed wait in the terminal until a poll moves one of them into a
FIFO of eight places. The UART and the timer drive the lines 1 and 0 of the
CPU's interrupt input. Only the pending word is kept here: an interrupt that
the CPU takes at once stacks its registers over the bus, and what those
accesses do to a device is what the same accesses do later.
-/
namespace Exec09.Multicomp
open Foundation

/-- `struct CharFIFO`, of `CharFIFO_SIZE` places. -/
structure CharFifo where
  wr : ℕ
  rd : ℕ
  empty : Bool
  data : ℕ → U8

def CharFifo.put (ch : U8) (f : CharFifo) : CharFifo :=
  { f with empty := false, data := Function.update f.data f.wr ch, wr := (f.wr + 1) % 8 }

structure Console where
  fifo : CharFifo
  wrStatus : U8
  /-- The characters typed that `kbchar` has not fetched. -/
  keyboard : List U8
  /-- What is left of `multicomp09.bat`, if there is one. -/
  batchFile : Option (List U8)
  /-- The local variable `ch`, which a read at the end of the file leaves as it was. -/
  junk : U8
  /-- The characters sent, latest first. -/
  output : List U8
  timer : U8
  irqsPending : ℕ

namespace Console

/-- The console as `multicomp09_init` leaves it when there is no batch file. -/
def initial : Console where
  fifo := ⟨0, 0, true, fun _ => 0⟩
  wrStatus := 0
  keyboard := []
  batchFile := none
  junk := 0
  output := []
  timer := 0
  irqsPending := 0

def requestIrq (source : ℕ) (c : Console) : Console :=
  { c with irqsPending := c.irqsPending ||| (1 <<< source) }

def releaseIrq (source : ℕ) (c : Console) : Console :=
  { c with irqsPending := c.irqsPending &&& unot (1 <<< source) }

/-- `multicomp_console_rxpoll`. -/
def rxpoll (c : Console) : Console :=
  match c.batchFile with
  | some file =>
    if c.fifo.empty ∨ c.fifo.rd ≠ c.fifo.wr then
      match file with
      | ch :: rest => { c with fifo := c.fifo.put ch, batchFile := some rest }
      | [] => { c with fifo := c.fifo.put c.junk }
    else c
  | none =>
    match c.keyboard with
    | [] => c
    | ch :: rest =>
      if c.fifo.wr = c.fifo.rd ∧ ¬c.fifo.empty then { c with keyboard := rest }
      else { c with fifo := c.fifo.put ch, keyboard := rest }

/-- The key conversions of a data read. -/
def convert (ch : U8) : U8 := if ch = 127 then 8 else if ch = 10 then 13 else ch

/-- A data read from a FIFO that is not empty. -/
def pop (c : Console) : U8 × Console :=
  let ch := c.fifo.data c.fifo.rd
  let rd := (c.fifo.rd + 1) % 8
  let c := { c with fifo := { c.fifo with rd := rd } }
  let c := if rd = c.fifo.wr then { c with fifo := { c.fifo with empty := true } }.releaseIrq 1 else c
  (convert ch, c)

/-- `multicomp09_console_read`. -/
def read (addr : ℕ) (c : Console) : U8 × Console :=
  match addr with
  | 0 =>
    let c := c.rxpoll
    (if c.fifo.empty then 2 else c.wrStatus &&& 0x80 ||| 3, c)
  | 1 =>
    let c := c.rxpoll
    if c.fifo.empty then (0xff, c) else c.pop
  | 2 => (0x03, c)
  | 4 => (0x03, c)
  | _ => (0x42, c)

/-- `multicomp09_console_write`; the other registers only print a message. -/
def write (addr : ℕ) (val : U8) (c : Console) : Console :=
  match addr with
  | 0 =>
    if val = 3 then
      -- the index that is set twice is `wr`
      { c with fifo := { c.fifo with wr := 0, empty := true }, wrStatus := 0 }.releaseIrq 1
    else { c with wrStatus := val }
  | 1 => { c with output := val :: c.output }
  | _ => c

/-- `multicomp09_console_update`. -/
def update (c : Console) : Console :=
  let c := c.rxpoll
  if ¬c.fifo.empty ∧ c.wrStatus &&& 0x80 ≠ 0 then c.requestIrq 1 else c

/-- The timer register of the SD controller, `case 5` of `sdmapper_write`. -/
def writeTimer (val : U8) (c : Console) : Console :=
  let c := { c with timer := c.timer &&& 0xfd ||| val &&& 2 }
  if val &&& 0x80 ≠ 0 then
    let c := c.releaseIrq 0
    { c with timer := c.timer &&& 0x7f }
  else c

/-- `multicomp09_tick`. -/
def tick (c : Console) : Console :=
  if c.timer &&& 0x02 ≠ 0 then { c with timer := c.timer ||| 0x80 }.requestIrq 0 else c

/-- A key is pressed. -/
def arrive (ch : U8) (c : Console) : Console := { c with keyboard := c.keyboard ++ [ch] }

end Console

end Exec09.Multicomp
