import Exec09.Foundation.Dialogue
import Exec09.Hostmon.Hex

/-! # The commands of the host monitor

A command resolves its device, reads its options and talks over one or two
serial devices. The calls to the system are answered by the environment; the
rates of the serial devices stand for their speed constants.
-/
namespace Exec09.Hostmon
open Foundation

/-! ## Serial devices -/

/-- The rates that are known; 0 stands for no speed. -/
def baudToSpeed (baud : ℤ) : ℤ :=
  if [1200, 2400, 4800, 9600, 19200, 38400, 57600, 115200, 230400].contains baud then baud else 0

/-- How `write` is answered; no more is written than is left. -/
inductive WriteReply
  | interrupted
  | failed
  | wrote (count : ℕ)
  deriving DecidableEq

/-- How `select` is answered, and `read` if there is something to read. -/
inductive ReadReply
  | selectInterrupted
  | selectFailed
  | timeout
  | readInterrupted
  | readFailed
  /-- The bytes that are there; no more of them are read than are asked for. -/
  | ready (bytes : List Byte)
  deriving DecidableEq

/-- The environment of one command. -/
structure Host where
  /-- Whether the `n`th `open` and the calls of `setup_tty` succeed. -/
  opens : ℕ → Text → Bool
  writes : List WriteReply
  reads : List ReadReply

def openSerial (host : Host) (n : ℕ) (dev : Text) (baud : ℤ) : Bool :=
  host.opens n dev && baudToSpeed baud != 0

/-- The state of `write_all` is `off`, and its result what it returns. -/
def writeAll (len : ℕ) : Dialogue ℕ WriteReply ℤ where
  exit off := if off < len then none else some off
  pass off reply :=
    match reply with
    | .interrupted => .inl off
    | .failed => .inr (-1)
    | .wrote count => .inl (off + min count (len - off))

/-- The state of `read_some_wait` are the bytes stored, of which there are `total`, and its result
is what it returns beside them. -/
def readSomeWait (maxlen : ℤ) : Dialogue (List Byte) ReadReply (ℤ × List Byte) where
  exit buf := if (buf.length : ℤ) < maxlen then none else some (buf.length, buf)
  pass buf reply :=
    match reply with
    | .selectInterrupted | .readInterrupted => .inl buf
    | .selectFailed | .readFailed => .inr (-1, buf)
    | .timeout => .inr (buf.length, buf)
    | .ready bytes =>
      if bytes = [] then .inr (buf.length, buf)
      else .inl (buf ++ bytes.take (maxlen - buf.length).toNat)

/-- What a command has come to, with the bytes in its buffer `rx`. -/
inductive Progress
  | waiting (rx : List Byte)
  | returned (code : ℤ) (rx : List Byte)
  | undefined
  deriving DecidableEq

/-- The arguments of `cmd_transceive_like`; `txlen` is the length of `tx`. -/
structure Call where
  dev : Text
  tx : List Byte
  readlen : ℤ
  waitMs : ℤ
  baud : ℤ
  compareLoopback : Bool
  deriving DecidableEq

def transceiveOnFd (host : Host) (c : Call) : Progress :=
  match (writeAll c.tx.length).run host.writes 0 with
  | .inl _ => .waiting []
  | .inr sent =>
    if sent < 0 then .returned 4 []
    else
      match (readSomeWait c.readlen).run host.reads [] with
      | .inl rx => .waiting rx
      | .inr (got, rx) =>
        if got < 0 then .returned 5 rx
        else if c.compareLoopback ∧ (got ≠ c.tx.length ∨ rx ≠ c.tx) then .returned 6 rx
        else .returned 0 rx

def cmdTransceiveLike (host : Host) (c : Call) : Progress :=
  if openSerial host 0 c.dev c.baud then transceiveOnFd host c else .returned 3 []

/-! ## Devices by name -/

structure Profile where
  name : Text
  port : Text
  baud : ℤ

/-- The profiles loaded, and what `glob` finds in `/dev/serial/by-id`. -/
structure Setting where
  profiles : List Profile
  byId : List Text

/-- The device that a name stands for. -/
def resolveAlias (cfg : Setting) (name : Text) : Text :=
  let find (needle fallback : Text) : Text :=
    match cfg.byId.find? fun path => (Text.splitText needle path).isSome with
    | some path => path.take 255
    | none => fallback
  if name = Text.ofString "VOLATCO-A" ∨ name = Text.ofString "A" then
    find (Text.ofString "VOL01-00A") (Text.ofString "/dev/ttyUSB0")
  else if name = Text.ofString "VOLATCO-B" ∨ name = Text.ofString "B" then
    find (Text.ofString "VOL01-00B") (Text.ofString "/dev/ttyUSB1")
  else name

/-- The device, and the value of `baud` after the call. -/
def resolveTarget (cfg : Setting) (name : Text) (baud : ℤ) : Text × ℤ :=
  match cfg.profiles.find? fun p => p.name == name with
  | some p => (p.port.take 255, if p.baud > 0 then p.baud else baud)
  | none => (resolveAlias cfg name, baud)

/-! ## Command lines -/

def DEFAULT_BAUD : ℤ := 921600

/-- A word that begins with `--`. -/
def isOption (word : Text) : Bool := [45, 45].isPrefixOf word

/-- Word `i` stands on the command line and is no option. -/
def given (argv : List Text) (i : ℕ) : Bool := i < argv.length && !isOption (argv.getD i [])

def waitMsOption : Text := Text.ofString "--wait-ms"

def baudOption : Text := Text.ofString "--baud"

/-- The loop over the options, with the values of `wait_ms` and `baud` so far. -/
def scanOptions (waitMs baud : ℤ) : List Text → ℤ × ℤ
  | word :: value :: words =>
    if word = waitMsOption then scanOptions (Text.atoi value) baud words
    else if word = baudOption then scanOptions waitMs (Text.atoi value) words
    else scanOptions waitMs baud (value :: words)
  | _ => (waitMs, baud)

/-- How a command goes on after its arguments. -/
inductive Leads
  | returns (code : ℤ)
  | calls (c : Call)
  | undefined
  deriving DecidableEq

def Leads.run (host : Host) : Leads → Progress
  | .returns code => .returned code []
  | .calls c => cmdTransceiveLike host c
  | .undefined => .undefined

/-- The bytes sent if none are given. -/
def loopbackBytes : List Byte := [0xA5, 0x5A, 0x00, 0xFF]

/-- The optional bytes in word `i`, if they can be parsed. -/
def bytesAt (argv : List Text) (i : ℕ) : Option (List Byte) :=
  if given argv i then
    let (txlen, tx) := parseHexBytes (argv.getD i []) HOSTMON_MAX_HEX
    if txlen < 0 then none else some tx
  else some loopbackBytes

def cmdTransceive (cfg : Setting) (argv : List Text) : Leads :=
  if argv.length < 5 then .returns 1
  else
    let (dev, baud) := resolveTarget cfg (argv.getD 2 []) DEFAULT_BAUD
    let (txlen, tx) := parseHexBytes (argv.getD 3 []) HOSTMON_MAX_HEX
    if txlen < 0 then .returns 2
    else
      let (waitMs, baud) := scanOptions 80 baud (argv.drop 5)
      .calls ⟨dev, tx, Text.atoi (argv.getD 4 []), waitMs, baud, false⟩

/-- The command line that `cmd_plug` makes of its own, before its last loop. -/
def fakeArgv (argv : List Text) : List Text :=
  [argv.getD 0 [], Text.ofString "transceive", argv.getD 2 [],
    if given argv 3 then argv.getD 3 [] else Text.ofString "00",
    if given argv 4 then argv.getD 4 [] else Text.ofString "16"] ++
  if given argv 5 then [argv.getD 5 []] else [waitMsOption, Text.ofString "50"]

/-- The body of the last loop changes `fake_argc` and reads it without an order. -/
def cmdPlug (cfg : Setting) (argv : List Text) : Leads :=
  if argv.length < 3 then .returns 1
  else if (fakeArgv argv).length < 16 ∧ (fakeArgv argv).length - 2 + 3 < argv.length then .undefined
  else cmdTransceive cfg (fakeArgv argv)

def cmdLoopback (cfg : Setting) (argv : List Text) : Leads :=
  if argv.length < 3 then .returns 1
  else
    let (dev, baud) := resolveTarget cfg (argv.getD 2 []) DEFAULT_BAUD
    match bytesAt argv 3 with
    | none => .returns 2
    | some tx =>
      let (waitMs, baud) := scanOptions 80 baud (argv.drop 3)
      .calls ⟨dev, tx, tx.length, waitMs, baud, true⟩

def cmdLinkTest (host : Host) (cfg : Setting) (argv : List Text) : Progress :=
  if argv.length < 4 then .returned 1 []
  else
    let (txdev, baud) := resolveTarget cfg (argv.getD 2 []) DEFAULT_BAUD
    let (rxdev, baud) := resolveTarget cfg (argv.getD 3 []) baud
    match bytesAt argv 4 with
    | none => .returned 2 []
    | some tx =>
      let (_, baud) := scanOptions 80 baud (argv.drop 4)
      if !openSerial host 0 txdev baud then .returned 3 []
      else if !openSerial host 1 rxdev baud then .returned 4 []
      else
        match (writeAll tx.length).run host.writes 0 with
        | .inl _ => .waiting []
        | .inr sent =>
          if sent < 0 then .returned 5 []
          else
            match (readSomeWait tx.length).run host.reads [] with
            | .inl rx => .waiting rx
            | .inr (got, rx) =>
              if got < 0 then .returned 6 rx
              else if got ≠ tx.length ∨ rx ≠ tx then .returned 7 rx
              else .returned 0 rx

/-- The commands that read into a buffer. -/
inductive Command
  | transceive
  | plug
  | loopback
  | linkTest
  deriving DecidableEq

def Command.run (host : Host) (cfg : Setting) (argv : List Text) : Command → Progress
  | .transceive => (cmdTransceive cfg argv).run host
  | .plug => (cmdPlug cfg argv).run host
  | .loopback => (cmdLoopback cfg argv).run host
  | .linkTest => cmdLinkTest host cfg argv

end Exec09.Hostmon
