import Exec09.Foundation.Word

/-! # The disassembler

The three tables of `monitor.c` and `dasm`. What `dasm` prints is kept as the
list of the arguments of its `sprintf` and `strcat` calls: the names that other
functions make of an address are left to them.
-/
namespace Exec09.Debugger
open Foundation

inductive AddrMode
  | illegal | implied | immByte | immWord | direct | extended | indexed | relByte | relWord
  | regPost | sysPost | usrPost
  deriving DecidableEq, Repr

inductive Opcode
  | undoc | abx | adca | adcb | adda | addb | addd | anda | andb | andcc | asla | aslb | asl
  | asra | asrb | asr | bcc | lbcc | bcs | lbcs | beq | lbeq | bge | lbge | bgt | lbgt | bhi
  | lbhi | bita | bitb | ble | lble | bls | lbls | blt | lblt | bmi | lbmi | bne | lbne | bpl
  | lbpl | bra | lbra | brn | lbrn | bsr | lbsr | bvc | lbvc | bvs | lbvs | clra | clrb | clr
  | cmpa | cmpb | cmpd | cmps | cmpu | cmpx | cmpy | coma | comb | com | cwai | daa | deca | decb
  | dec | eora | eorb | exg | inca | incb | inc | jmp | jsr | lda | ldb | ldd | lds | ldu | ldx
  | ldy | leas | leau | leax | leay | lsra | lsrb | lsr | mul | nega | negb | neg | nop | ora
  | orb | orcc | pshs | pshu | puls | pulu | rola | rolb | rol | rora | rorb | ror | rti | rts
  | sbca | sbcb | sex | sta | stb | std | sts | stu | stx | sty | suba | subb | subd | swi | swi2
  | swi3 | sync | tfr | tsta | tstb | tst | reset
  deriving DecidableEq, Repr

/-- The texts of `mne`. -/
def mne : Opcode → String
  | .undoc => "???"
  | .abx => "ABX"
  | .adca => "ADCA"
  | .adcb => "ADCB"
  | .adda => "ADDA"
  | .addb => "ADDB"
  | .addd => "ADDD"
  | .anda => "ANDA"
  | .andb => "ANDB"
  | .andcc => "ANDCC"
  | .asla => "ASLA"
  | .aslb => "ASLB"
  | .asl => "ASL"
  | .asra => "ASRA"
  | .asrb => "ASRB"
  | .asr => "ASR"
  | .bcc => "BCC"
  | .lbcc => "LBCC"
  | .bcs => "BCS"
  | .lbcs => "LBCS"
  | .beq => "BEQ"
  | .lbeq => "LBEQ"
  | .bge => "BGE"
  | .lbge => "LBGE"
  | .bgt => "BGT"
  | .lbgt => "LBGT"
  | .bhi => "BHI"
  | .lbhi => "LBHI"
  | .bita => "BITA"
  | .bitb => "BITB"
  | .ble => "BLE"
  | .lble => "LBLE"
  | .bls => "BLS"
  | .lbls => "LBLS"
  | .blt => "BLT"
  | .lblt => "LBLT"
  | .bmi => "BMI"
  | .lbmi => "LBMI"
  | .bne => "BNE"
  | .lbne => "LBNE"
  | .bpl => "BPL"
  | .lbpl => "LBPL"
  | .bra => "BRA"
  | .lbra => "LBRA"
  | .brn => "BRN"
  | .lbrn => "LBRN"
  | .bsr => "BSR"
  | .lbsr => "LBSR"
  | .bvc => "BVC"
  | .lbvc => "LBVC"
  | .bvs => "BVS"
  | .lbvs => "LBVS"
  | .clra => "CLRA"
  | .clrb => "CLRB"
  | .clr => "CLR"
  | .cmpa => "CMPA"
  | .cmpb => "CMPB"
  | .cmpd => "CMPD"
  | .cmps => "CMPS"
  | .cmpu => "CMPU"
  | .cmpx => "CMPX"
  | .cmpy => "CMPY"
  | .coma => "COMA"
  | .comb => "COMB"
  | .com => "COM"
  | .cwai => "CWAI"
  | .daa => "DAA"
  | .deca => "DECA"
  | .decb => "DECB"
  | .dec => "DEC"
  | .eora => "EORA"
  | .eorb => "EORB"
  | .exg => "EXG"
  | .inca => "INCA"
  | .incb => "INCB"
  | .inc => "INC"
  | .jmp => "JMP"
  | .jsr => "JSR"
  | .lda => "LDA"
  | .ldb => "LDB"
  | .ldd => "LDD"
  | .lds => "LDS"
  | .ldu => "LDU"
  | .ldx => "LDX"
  | .ldy => "LDY"
  | .leas => "LEAS"
  | .leau => "LEAU"
  | .leax => "LEAX"
  | .leay => "LEAY"
  | .lsra => "LSRA"
  | .lsrb => "LSRB"
  | .lsr => "LSR"
  | .mul => "MUL"
  | .nega => "NEGA"
  | .negb => "NEGB"
  | .neg => "NEG"
  | .nop => "NOP"
  | .ora => "ORA"
  | .orb => "ORB"
  | .orcc => "ORCC"
  | .pshs => "PSHS"
  | .pshu => "PSHU"
  | .puls => "PULS"
  | .pulu => "PULU"
  | .rola => "ROLA"
  | .rolb => "ROLB"
  | .rol => "ROL"
  | .rora => "RORA"
  | .rorb => "RORB"
  | .ror => "ROR"
  | .rti => "RTI"
  | .rts => "RTS"
  | .sbca => "SBCA"
  | .sbcb => "SBCB"
  | .sex => "SEX"
  | .sta => "STA"
  | .stb => "STB"
  | .std => "STD"
  | .sts => "STS"
  | .stu => "STU"
  | .stx => "STX"
  | .sty => "STY"
  | .suba => "SUBA"
  | .subb => "SUBB"
  | .subd => "SUBD"
  | .swi => "SWI"
  | .swi2 => "SWI2"
  | .swi3 => "SWI3"
  | .sync => "SYNC"
  | .tfr => "TFR"
  | .tsta => "TSTA"
  | .tstb => "TSTB"
  | .tst => "TST"
  | .reset => "RESET"

/-- `codes`, by the first byte. -/
def codes : ℕ → Opcode × AddrMode
  | 0x00 => (.neg, .direct)
  | 0x03 => (.com, .direct)
  | 0x04 => (.lsr, .direct)
  | 0x06 => (.ror, .direct)
  | 0x07 => (.asr, .direct)
  | 0x08 => (.asl, .direct)
  | 0x09 => (.rol, .direct)
  | 0x0a => (.dec, .direct)
  | 0x0c => (.inc, .direct)
  | 0x0d => (.tst, .direct)
  | 0x0e => (.jmp, .direct)
  | 0x0f => (.clr, .direct)
  | 0x12 => (.nop, .implied)
  | 0x13 => (.sync, .implied)
  | 0x16 => (.lbra, .relWord)
  | 0x17 => (.lbsr, .relWord)
  | 0x19 => (.daa, .implied)
  | 0x1a => (.orcc, .immByte)
  | 0x1c => (.andcc, .immByte)
  | 0x1d => (.sex, .implied)
  | 0x1e => (.exg, .regPost)
  | 0x1f => (.tfr, .regPost)
  | 0x20 => (.bra, .relByte)
  | 0x21 => (.brn, .relByte)
  | 0x22 => (.bhi, .relByte)
  | 0x23 => (.bls, .relByte)
  | 0x24 => (.bcc, .relByte)
  | 0x25 => (.bcs, .relByte)
  | 0x26 => (.bne, .relByte)
  | 0x27 => (.beq, .relByte)
  | 0x28 => (.bvc, .relByte)
  | 0x29 => (.bvs, .relByte)
  | 0x2a => (.bpl, .relByte)
  | 0x2b => (.bmi, .relByte)
  | 0x2c => (.bge, .relByte)
  | 0x2d => (.blt, .relByte)
  | 0x2e => (.bgt, .relByte)
  | 0x2f => (.ble, .relByte)
  | 0x30 => (.leax, .indexed)
  | 0x31 => (.leay, .indexed)
  | 0x32 => (.leas, .indexed)
  | 0x33 => (.leau, .indexed)
  | 0x34 => (.pshs, .sysPost)
  | 0x35 => (.puls, .sysPost)
  | 0x36 => (.pshu, .usrPost)
  | 0x37 => (.pulu, .usrPost)
  | 0x39 => (.rts, .implied)
  | 0x3a => (.abx, .implied)
  | 0x3b => (.rti, .implied)
  | 0x3c => (.cwai, .immByte)
  | 0x3d => (.mul, .implied)
  | 0x3e => (.reset, .implied)
  | 0x3f => (.swi, .implied)
  | 0x40 => (.nega, .implied)
  | 0x43 => (.coma, .implied)
  | 0x44 => (.lsra, .implied)
  | 0x46 => (.rora, .implied)
  | 0x47 => (.asra, .implied)
  | 0x48 => (.asla, .implied)
  | 0x49 => (.rola, .implied)
  | 0x4a => (.deca, .implied)
  | 0x4c => (.inca, .implied)
  | 0x4d => (.tsta, .implied)
  | 0x4f => (.clra, .implied)
  | 0x50 => (.negb, .implied)
  | 0x53 => (.comb, .implied)
  | 0x54 => (.lsrb, .implied)
  | 0x56 => (.rorb, .implied)
  | 0x57 => (.asrb, .implied)
  | 0x58 => (.aslb, .implied)
  | 0x59 => (.rolb, .implied)
  | 0x5a => (.decb, .implied)
  | 0x5c => (.incb, .implied)
  | 0x5d => (.tstb, .implied)
  | 0x5f => (.clrb, .implied)
  | 0x60 => (.neg, .indexed)
  | 0x63 => (.com, .indexed)
  | 0x64 => (.lsr, .indexed)
  | 0x66 => (.ror, .indexed)
  | 0x67 => (.asr, .indexed)
  | 0x68 => (.asl, .indexed)
  | 0x69 => (.rol, .indexed)
  | 0x6a => (.dec, .indexed)
  | 0x6c => (.inc, .indexed)
  | 0x6d => (.tst, .indexed)
  | 0x6e => (.jmp, .indexed)
  | 0x6f => (.clr, .indexed)
  | 0x70 => (.neg, .extended)
  | 0x73 => (.com, .extended)
  | 0x74 => (.lsr, .extended)
  | 0x76 => (.ror, .extended)
  | 0x77 => (.asr, .extended)
  | 0x78 => (.asl, .extended)
  | 0x79 => (.rol, .extended)
  | 0x7a => (.dec, .extended)
  | 0x7c => (.inc, .extended)
  | 0x7d => (.tst, .extended)
  | 0x7e => (.jmp, .extended)
  | 0x7f => (.clr, .extended)
  | 0x80 => (.suba, .immByte)
  | 0x81 => (.cmpa, .immByte)
  | 0x82 => (.sbca, .immByte)
  | 0x83 => (.subd, .immWord)
  | 0x84 => (.anda, .immByte)
  | 0x85 => (.bita, .immByte)
  | 0x86 => (.lda, .immByte)
  | 0x88 => (.eora, .immByte)
  | 0x89 => (.adca, .immByte)
  | 0x8a => (.ora, .immByte)
  | 0x8b => (.adda, .immByte)
  | 0x8c => (.cmpx, .immWord)
  | 0x8d => (.bsr, .relByte)
  | 0x8e => (.ldx, .immWord)
  | 0x90 => (.suba, .direct)
  | 0x91 => (.cmpa, .direct)
  | 0x92 => (.sbca, .direct)
  | 0x93 => (.subd, .direct)
  | 0x94 => (.anda, .direct)
  | 0x95 => (.bita, .direct)
  | 0x96 => (.lda, .direct)
  | 0x97 => (.sta, .direct)
  | 0x98 => (.eora, .direct)
  | 0x99 => (.adca, .direct)
  | 0x9a => (.ora, .direct)
  | 0x9b => (.adda, .direct)
  | 0x9c => (.cmpx, .direct)
  | 0x9d => (.jsr, .direct)
  | 0x9e => (.ldx, .direct)
  | 0x9f => (.stx, .direct)
  | 0xa0 => (.suba, .indexed)
  | 0xa1 => (.cmpa, .indexed)
  | 0xa2 => (.sbca, .indexed)
  | 0xa3 => (.subd, .indexed)
  | 0xa4 => (.anda, .indexed)
  | 0xa5 => (.bita, .indexed)
  | 0xa6 => (.lda, .indexed)
  | 0xa7 => (.sta, .indexed)
  | 0xa8 => (.eora, .indexed)
  | 0xa9 => (.adca, .indexed)
  | 0xaa => (.ora, .indexed)
  | 0xab => (.adda, .indexed)
  | 0xac => (.cmpx, .indexed)
  | 0xad => (.jsr, .indexed)
  | 0xae => (.ldx, .indexed)
  | 0xaf => (.stx, .indexed)
  | 0xb0 => (.suba, .extended)
  | 0xb1 => (.cmpa, .extended)
  | 0xb2 => (.sbca, .extended)
  | 0xb3 => (.subd, .extended)
  | 0xb4 => (.anda, .extended)
  | 0xb5 => (.bita, .extended)
  | 0xb6 => (.lda, .extended)
  | 0xb7 => (.sta, .extended)
  | 0xb8 => (.eora, .extended)
  | 0xb9 => (.adca, .extended)
  | 0xba => (.ora, .extended)
  | 0xbb => (.adda, .extended)
  | 0xbc => (.cmpx, .extended)
  | 0xbd => (.jsr, .extended)
  | 0xbe => (.ldx, .extended)
  | 0xbf => (.stx, .extended)
  | 0xc0 => (.subb, .immByte)
  | 0xc1 => (.cmpb, .immByte)
  | 0xc2 => (.sbcb, .immByte)
  | 0xc3 => (.addd, .immWord)
  | 0xc4 => (.andb, .immByte)
  | 0xc5 => (.bitb, .immByte)
  | 0xc6 => (.ldb, .immByte)
  | 0xc8 => (.eorb, .immByte)
  | 0xc9 => (.adcb, .immByte)
  | 0xca => (.orb, .immByte)
  | 0xcb => (.addb, .immByte)
  | 0xcc => (.ldd, .immWord)
  | 0xce => (.ldu, .immWord)
  | 0xd0 => (.subb, .direct)
  | 0xd1 => (.cmpb, .direct)
  | 0xd2 => (.sbcb, .direct)
  | 0xd3 => (.addd, .direct)
  | 0xd4 => (.andb, .direct)
  | 0xd5 => (.bitb, .direct)
  | 0xd6 => (.ldb, .direct)
  | 0xd7 => (.stb, .direct)
  | 0xd8 => (.eorb, .direct)
  | 0xd9 => (.adcb, .direct)
  | 0xda => (.orb, .direct)
  | 0xdb => (.addb, .direct)
  | 0xdc => (.ldd, .direct)
  | 0xdd => (.std, .direct)
  | 0xde => (.ldu, .direct)
  | 0xdf => (.stu, .direct)
  | 0xe0 => (.subb, .indexed)
  | 0xe1 => (.cmpb, .indexed)
  | 0xe2 => (.sbcb, .indexed)
  | 0xe3 => (.addd, .indexed)
  | 0xe4 => (.andb, .indexed)
  | 0xe5 => (.bitb, .indexed)
  | 0xe6 => (.ldb, .indexed)
  | 0xe7 => (.stb, .indexed)
  | 0xe8 => (.eorb, .indexed)
  | 0xe9 => (.adcb, .indexed)
  | 0xea => (.orb, .indexed)
  | 0xeb => (.addb, .indexed)
  | 0xec => (.ldd, .indexed)
  | 0xed => (.std, .indexed)
  | 0xee => (.ldu, .indexed)
  | 0xef => (.stu, .indexed)
  | 0xf0 => (.subb, .extended)
  | 0xf1 => (.cmpb, .extended)
  | 0xf2 => (.sbcb, .extended)
  | 0xf3 => (.addd, .extended)
  | 0xf4 => (.andb, .extended)
  | 0xf5 => (.bitb, .extended)
  | 0xf6 => (.ldb, .extended)
  | 0xf7 => (.stb, .extended)
  | 0xf8 => (.eorb, .extended)
  | 0xf9 => (.adcb, .extended)
  | 0xfa => (.orb, .extended)
  | 0xfb => (.addb, .extended)
  | 0xfc => (.ldd, .extended)
  | 0xfd => (.std, .extended)
  | 0xfe => (.ldu, .extended)
  | 0xff => (.stu, .extended)
  | _ => (.undoc, .illegal)

/-- By the byte after 0x10. -/
def codes10 : ℕ → Opcode × AddrMode
  | 0x21 => (.lbrn, .relWord)
  | 0x22 => (.lbhi, .relWord)
  | 0x23 => (.lbls, .relWord)
  | 0x24 => (.lbcc, .relWord)
  | 0x25 => (.lbcs, .relWord)
  | 0x26 => (.lbne, .relWord)
  | 0x27 => (.lbeq, .relWord)
  | 0x28 => (.lbvc, .relWord)
  | 0x29 => (.lbvs, .relWord)
  | 0x2a => (.lbpl, .relWord)
  | 0x2b => (.lbmi, .relWord)
  | 0x2c => (.lbge, .relWord)
  | 0x2d => (.lblt, .relWord)
  | 0x2e => (.lbgt, .relWord)
  | 0x2f => (.lble, .relWord)
  | 0x3f => (.swi2, .implied)
  | 0x83 => (.cmpd, .immWord)
  | 0x8c => (.cmpy, .immWord)
  | 0x8e => (.ldy, .immWord)
  | 0x93 => (.cmpd, .direct)
  | 0x9c => (.cmpy, .direct)
  | 0x9e => (.ldy, .direct)
  | 0x9f => (.sty, .direct)
  | 0xa3 => (.cmpd, .indexed)
  | 0xac => (.cmpy, .indexed)
  | 0xae => (.ldy, .indexed)
  | 0xaf => (.sty, .indexed)
  | 0xb3 => (.cmpd, .extended)
  | 0xbc => (.cmpy, .extended)
  | 0xbe => (.ldy, .extended)
  | 0xbf => (.sty, .extended)
  | 0xce => (.lds, .immWord)
  | 0xde => (.lds, .direct)
  | 0xdf => (.sts, .direct)
  | 0xee => (.lds, .indexed)
  | 0xef => (.sts, .indexed)
  | 0xfe => (.lds, .extended)
  | 0xff => (.sts, .extended)
  | _ => (.undoc, .illegal)

/-- By the byte after 0x11. -/
def codes11 : ℕ → Opcode × AddrMode
  | 0x3f => (.swi3, .implied)
  | 0x83 => (.cmpu, .immWord)
  | 0x8c => (.cmps, .immWord)
  | 0x93 => (.cmpu, .direct)
  | 0x9c => (.cmps, .direct)
  | 0xa3 => (.cmpu, .indexed)
  | 0xac => (.cmps, .indexed)
  | 0xb3 => (.cmpu, .extended)
  | 0xbc => (.cmps, .extended)
  | _ => (.undoc, .illegal)

/-- What one conversion or text of a format prints. -/
inductive Printed
  /-- `%-6.6s` -/
  | mnemonic (text : String)
  | text (text : String)
  /-- `%02X` -/
  | byte (v : ℕ)
  /-- `%04X` -/
  | word (v : ℕ)
  /-- `%2x` -/
  | hex (v : ℕ)
  /-- `monitor_addr_name` -/
  | addrName (addr : ℕ)
  /-- `absolute_addr_name` -/
  | absoluteName (addr : ℕ)
  | os9syscall (op : ℕ)
  /-- The last character is overwritten by a zero. -/
  | cut
  deriving DecidableEq, Repr

/-- `pc` is the state. -/
abbrev DasmM := StateM ℕ

def reg : ℕ → String
  | 0 => "D"
  | 1 => "X"
  | 2 => "Y"
  | 3 => "U"
  | 4 => "S"
  | 5 => "PC"
  | 8 => "A"
  | 9 => "B"
  | 10 => "CC"
  | 11 => "DP"
  | _ => "??"

/-- `index_reg`. -/
def indexRegName : ℕ → String
  | 0 => "X"
  | 1 => "Y"
  | 2 => "U"
  | _ => "S"

def off4 (n : ℕ) : String :=
  ["0", "1", "2", "3", "4", "5", "6", "7", "8", "9", "10", "11", "12", "13", "14", "15",
    "-16", "-15", "-14", "-13", "-12", "-11", "-10", "-9",
    "-8", "-7", "-6", "-5", "-4", "-3", "-2", "-1"].getD n ""

section
variable (absRead8 : ℕ → BitVec 8)

def fetch8 : DasmM ℕ := fun pc => ((absRead8 pc).toNat, pc + 1)

def fetch16 : DasmM ℕ := fun pc =>
  (((absRead8 pc).toNat <<< 8) ||| (absRead8 (pc + 1)).toNat, pc + 2)

/-- The case `_indexed`. -/
def dasmIndexed : DasmM (List Printed) := do
  let op ← fetch8 absRead8
  let R := Printed.text (indexRegName ((op >>> 5) &&& 0x3))
  if op &&& 0x80 = 0 then return [.text (off4 (op &&& 0x1f)), .text ",", R]
  else
    match op &&& 0x1f with
    | 0x00 => return [.text ",", R, .text "+"]
    | 0x01 => return [.text ",", R, .text "++"]
    | 0x02 => return [.text ",-", R]
    | 0x03 => return [.text ",--", R]
    | 0x04 => return [.text ",", R]
    | 0x05 => return [.text "B,", R]
    | 0x06 => return [.text "A,", R]
    | 0x08 => return [.text "$", .byte (← fetch8 absRead8), .text ",", R]
    | 0x09 => return [.text "$", .word (← fetch16 absRead8), .text ",", R]
    | 0x0b => return [.text "D,", R]
    | 0x0c => return [.text "$", .byte (← fetch8 absRead8), .text ",PC"]
    | 0x0d => return [.text "$", .word (← fetch16 absRead8), .text ",PC"]
    | 0x11 => return [.text "[,", R, .text "++]"]
    | 0x13 => return [.text "[,--", R, .text "]"]
    | 0x14 => return [.text "[,", R, .text "]"]
    | 0x15 => return [.text "[B,", R, .text "]"]
    | 0x16 => return [.text "[A,", R, .text "]"]
    | 0x18 => return [.text "[$", .byte (← fetch8 absRead8), .text ",", R, .text "]"]
    | 0x19 => return [.text "[$", .word (← fetch16 absRead8), .text ",", R, .text "]"]
    | 0x1b => return [.text "[D,", R, .text "]"]
    | 0x1c => return [.text "[$", .byte (← fetch8 absRead8), .text ",PC]"]
    | 0x1d => return [.text "[$", .word (← fetch16 absRead8), .text ",PC]"]
    | 0x1f => return [.text "[", .addrName (← fetch16 absRead8), .text "]"]
    | _ => return [.text "???"]

/-- `strcat` under a bit of the postbyte. -/
def onMask (op mask : ℕ) (text : String) : List Printed :=
  if op &&& mask ≠ 0 then [.text text] else []

/-- The cases `_usr_post` and `_sys_post`, with the other stack pointer. -/
def dasmStack (other : String) : DasmM (List Printed) := do
  let op ← fetch8 absRead8
  return onMask op 0x80 "PC," ++ onMask op 0x40 other ++ onMask op 0x20 "Y," ++
    onMask op 0x10 "X," ++ onMask op 0x08 "DP," ++
    (if op &&& 0x06 = 0x06 then [.text "D,"] else onMask op 0x04 "B," ++ onMask op 0x02 "A,") ++
    onMask op 0x01 "CC," ++ [.cut]

/-- The `switch` over the addressing mode. The offset of a long branch is not signed here. -/
def dasmOperand : AddrMode → DasmM (List Printed)
  | .illegal => return [.text "???"]
  | .implied => return []
  | .immByte => return [.text "#$", .byte (← fetch8 absRead8)]
  | .immWord => return [.text "#$", .word (← fetch16 absRead8)]
  | .direct => return [.text "<", .addrName (← fetch8 absRead8)]
  | .extended => return [.addrName (← fetch16 absRead8)]
  | .indexed => dasmIndexed absRead8
  | .relByte => do
    let fetch1 := Word.signExtend 8 64 (← fetch8 absRead8)
    return [.absoluteName (Word.trunc 64 (fetch1 + (← get)))]
  | .relWord => do
    let tmp ← fetch16 absRead8
    return [.absoluteName (Word.trunc 64 ((← get) + tmp))]
  | .regPost => do
    let op ← fetch8 absRead8
    return [.text (reg (op >>> 4)), .text ",", .text (reg (op &&& 15))]
  | .usrPost => dasmStack absRead8 "S,"
  | .sysPost => dasmStack absRead8 "U,"

/-- The opcode after its prefix byte, if it has one. -/
def dasmOpcode : DasmM (Opcode × AddrMode) := do
  let op ← fetch8 absRead8
  if op = 0x10 then return codes10 (← fetch8 absRead8)
  else if op = 0x11 then return codes11 (← fetch8 absRead8)
  else return codes op

def dasmMnemonic (os9call : Bool) (op : Opcode) : DasmM (List Printed) := do
  if mne op = "SWI2" ∧ os9call then do
    let op ← fetch8 absRead8
    if op < 0x91 then return [.mnemonic "OS9", .os9syscall op]
    else return [.mnemonic "OS9", .text "#$", .hex op]
  else return [.mnemonic (mne op)]

/-- What is printed, and the number of bytes. -/
def dasm (os9call : Bool) (opc : ℕ) : List Printed × ℕ :=
  let ((name, operand), pc) := Id.run <| StateT.run (do
    let (op, am) ← dasmOpcode absRead8
    let name ← dasmMnemonic absRead8 os9call op
    let operand ← dasmOperand absRead8 am
    return (name, operand)) opc
  (name ++ operand, pc - opc)

end

/-- Question marks stand in the place of the mnemonic or of an operand. -/
def ReportedIllegal (printed : List Printed) : Prop :=
  .mnemonic "???" ∈ printed ∨ .text "???" ∈ printed

instance (printed : List Printed) : Decidable (ReportedIllegal printed) :=
  inferInstanceAs (Decidable (_ ∨ _))

end Exec09.Debugger
