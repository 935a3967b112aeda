import Exec09.Cpu.State

/-! # The disk drive of eon

A command moves one sector between the file behind the drive and a buffer of
512 bytes in the RAM device. The file is a `FILE` of the C library: reads and
writes start at the position of the last `fseek` and advance it.
-/
namespace Exec09
open Foundation

def SECTOR_SIZE : ℕ := 512

/-- An open file, whose bytes are 0 from its length on, and the position in it. -/
structure File where
  bytes : ℕ → U8
  length : ℕ
  pos : ℕ

namespace File

def seek (pos : ℕ) (f : File) : File := { f with pos := pos }

/-- `fseek` from the start, which fails at a negative offset. -/
def fseek (offset : ℤ) (f : File) : Option File :=
  if offset < 0 then none else some (f.seek offset.toNat)

/-- `fseek` with an unsigned offset, which is converted to a signed one: it fails where that is
negative, and the result is not looked at. -/
def seekLong (offset : ℕ) (f : File) : File := if offset < 2 ^ 63 then f.seek offset else f

/-- How many of the next `n` bytes exist. -/
def available (n : ℕ) (f : File) : ℕ := min n (f.length - f.pos)

def advance (n : ℕ) (f : File) : File := { f with pos := f.pos + n }

/-- `fwrite` of `n` bytes of a buffer. -/
def write (n : ℕ) (buf : ℕ → U8) (f : File) : File where
  bytes a := if f.pos ≤ a ∧ a < f.pos + n then buf (a - f.pos) else f.bytes a
  length := max f.length (f.pos + n)
  pos := f.pos + n

end File

structure Disk where
  fp : File
  offset : ℕ
  /-- Where the buffer starts in the RAM device. -/
  ram : ℕ

namespace Disk

/-- `fread` of a sector into the buffer at `ram`. -/
def readSector (d : Disk) (mem : ℕ → U8) : ℕ → U8 := fun a =>
  if d.ram ≤ a ∧ a < d.ram + d.fp.available SECTOR_SIZE
  then d.fp.bytes (d.fp.pos + (a - d.ram)) else mem a

def control (val : U8) (d : Disk) (mem : ℕ → U8) : Disk × (ℕ → U8) :=
  if val.toNat &&& 0x1 ≠ 0 then
    ({ d with fp := d.fp.advance (d.fp.available SECTOR_SIZE) }, d.readSector mem)
  else if val.toNat &&& 0x2 ≠ 0 then
    ({ d with fp := d.fp.write SECTOR_SIZE fun i => mem (d.ram + i) }, mem)
  else if val.toNat &&& 0x8 ≠ 0 then
    ({ d with fp := d.fp.write SECTOR_SIZE fun _ => 0xff }, mem)
  else (d, mem)

/-- `disk_write`, on the drive and the contents of the RAM device. -/
def diskWrite (addr : ℕ) (val : U8) (d : Disk) (mem : ℕ → U8) : Disk × (ℕ → U8) :=
  match addr with
  | 0 => d.control val mem
  | 1 => ({ d with ram := val.toNat * SECTOR_SIZE }, mem)
  | 2 => ({ d with offset := val.toNat }, mem)
  | 3 =>
    let offset := Word.trunc 64 ((Word.trunc 64 (d.offset <<< 8) ||| val.toNat) * SECTOR_SIZE)
    ({ d with offset := offset, fp := d.fp.seekLong offset }, mem)
  | _ => (d, mem)

def diskRead (_ : ℕ) : U8 := 0

/-- `disk_reset`. -/
def reset (d : Disk) : Disk :=
  { d with ram := 0, offset := 0, fp := d.fp.seek 0 }

end Disk

end Exec09
