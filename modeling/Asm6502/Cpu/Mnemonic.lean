import Asm6502.Cpu.AddressingMode
import Asm6502.Text.Word

/-!
# Instructions

The mnemonics of the processor and how each of them is encoded in each of its addressing modes.
-/

namespace Asm6502

inductive Mnemonic where
  | adc | and | asl | bcc | bcs | beq | bit | bmi | bne | bpl | brk | bvc
  | bvs | clc | cld | cli | clv | cmp | cpx | cpy | dec | dex | dey | eor
  | inc | inx | iny | jmp | jsr | lda | ldx | ldy | lsr | nop | ora | pha
  | php | pla | plp | rol | ror | rti | rts | sbc | sec | sed | sei | sta
  | stx | sty | tax | tay | tsx | txa | txs | tya
deriving DecidableEq, Repr, Inhabited

/-- One instruction in one addressing mode: its opcode and its cycles without penalties. -/
structure Encoding where
  mode : AddressingMode
  code : Nat
  cycles : Nat
deriving DecidableEq, Repr, Inhabited

def Encoding.length (encoding : Encoding) : Nat := encoding.mode.length

namespace Mnemonic

def all : List Mnemonic := [
  adc, and, asl, bcc, bcs, beq, bit, bmi, bne, bpl, brk, bvc, bvs, clc, cld, cli, clv, cmp, cpx,
  cpy, dec, dex, dey, eor, inc, inx, iny, jmp, jsr, lda, ldx, ldy, lsr, nop, ora, pha, php, pla,
  plp, rol, ror, rti, rts, sbc, sec, sed, sei, sta, stx, sty, tax, tay, tsx, txa, txs, tya]

def name : Mnemonic -> String
  | adc => "ADC"
  | and => "AND"
  | asl => "ASL"
  | bcc => "BCC"
  | bcs => "BCS"
  | beq => "BEQ"
  | bit => "BIT"
  | bmi => "BMI"
  | bne => "BNE"
  | bpl => "BPL"
  | brk => "BRK"
  | bvc => "BVC"
  | bvs => "BVS"
  | clc => "CLC"
  | cld => "CLD"
  | cli => "CLI"
  | clv => "CLV"
  | cmp => "CMP"
  | cpx => "CPX"
  | cpy => "CPY"
  | dec => "DEC"
  | dex => "DEX"
  | dey => "DEY"
  | eor => "EOR"
  | inc => "INC"
  | inx => "INX"
  | iny => "INY"
  | jmp => "JMP"
  | jsr => "JSR"
  | lda => "LDA"
  | ldx => "LDX"
  | ldy => "LDY"
  | lsr => "LSR"
  | nop => "NOP"
  | ora => "ORA"
  | pha => "PHA"
  | php => "PHP"
  | pla => "PLA"
  | plp => "PLP"
  | rol => "ROL"
  | ror => "ROR"
  | rti => "RTI"
  | rts => "RTS"
  | sbc => "SBC"
  | sec => "SEC"
  | sed => "SED"
  | sei => "SEI"
  | sta => "STA"
  | stx => "STX"
  | sty => "STY"
  | tax => "TAX"
  | tay => "TAY"
  | tsx => "TSX"
  | txa => "TXA"
  | txs => "TXS"
  | tya => "TYA"

def ofName? (text : String) : Option Mnemonic :=
  all.find? fun mnemonic => mnemonic.name == upcase text

def encodings : Mnemonic -> List Encoding
  | adc => [
      ⟨.immediate, 0x69, 2⟩, ⟨.zeroPage, 0x65, 3⟩, ⟨.zeroPageX, 0x75, 4⟩, ⟨.absolute, 0x6D, 4⟩,
      ⟨.absoluteX, 0x7D, 4⟩, ⟨.absoluteY, 0x79, 4⟩, ⟨.indirectIndexedX, 0x61, 6⟩,
      ⟨.indirectIndexedY, 0x71, 5⟩]
  | and => [
      ⟨.immediate, 0x29, 2⟩, ⟨.zeroPage, 0x25, 3⟩, ⟨.zeroPageX, 0x35, 4⟩, ⟨.absolute, 0x2D, 4⟩,
      ⟨.absoluteX, 0x3D, 4⟩, ⟨.absoluteY, 0x39, 4⟩, ⟨.indirectIndexedX, 0x21, 6⟩,
      ⟨.indirectIndexedY, 0x31, 5⟩]
  | asl => [
      ⟨.accumulator, 0x0A, 2⟩, ⟨.zeroPage, 0x06, 5⟩, ⟨.zeroPageX, 0x16, 6⟩, ⟨.absolute, 0x0E, 6⟩,
      ⟨.absoluteX, 0x1E, 7⟩]
  | bcc => [⟨.relative, 0x90, 2⟩]
  | bcs => [⟨.relative, 0xB0, 2⟩]
  | beq => [⟨.relative, 0xF0, 2⟩]
  | bit => [⟨.zeroPage, 0x24, 3⟩, ⟨.absolute, 0x2C, 4⟩]
  | bmi => [⟨.relative, 0x30, 2⟩]
  | bne => [⟨.relative, 0xD0, 2⟩]
  | bpl => [⟨.relative, 0x10, 2⟩]
  | brk => [⟨.implied, 0x00, 7⟩]
  | bvc => [⟨.relative, 0x50, 2⟩]
  | bvs => [⟨.relative, 0x70, 2⟩]
  | clc => [⟨.implied, 0x18, 2⟩]
  | cld => [⟨.implied, 0xD8, 2⟩]
  | cli => [⟨.implied, 0x58, 2⟩]
  | clv => [⟨.implied, 0xB8, 2⟩]
  | cmp => [
      ⟨.immediate, 0xC9, 2⟩, ⟨.zeroPage, 0xC5, 3⟩, ⟨.zeroPageX, 0xD5, 4⟩, ⟨.absolute, 0xCD, 4⟩,
      ⟨.absoluteX, 0xDD, 4⟩, ⟨.absoluteY, 0xD9, 4⟩, ⟨.indirectIndexedX, 0xC1, 6⟩,
      ⟨.indirectIndexedY, 0xD1, 5⟩]
  | cpx => [⟨.immediate, 0xE0, 2⟩, ⟨.zeroPage, 0xE4, 3⟩, ⟨.absolute, 0xEC, 4⟩]
  | cpy => [⟨.immediate, 0xC0, 2⟩, ⟨.zeroPage, 0xC4, 3⟩, ⟨.absolute, 0xCC, 4⟩]
  | dec => [
      ⟨.zeroPage, 0xC6, 5⟩, ⟨.zeroPageX, 0xD6, 6⟩, ⟨.absolute, 0xCE, 6⟩, ⟨.absoluteX, 0xDE, 7⟩]
  | dex => [⟨.implied, 0xCA, 2⟩]
  | dey => [⟨.implied, 0x88, 2⟩]
  | eor => [
      ⟨.immediate, 0x49, 2⟩, ⟨.zeroPage, 0x45, 3⟩, ⟨.zeroPageX, 0x55, 4⟩, ⟨.absolute, 0x4D, 4⟩,
      ⟨.absoluteX, 0x5D, 4⟩, ⟨.absoluteY, 0x59, 4⟩, ⟨.indirectIndexedX, 0x41, 6⟩,
      ⟨.indirectIndexedY, 0x51, 5⟩]
  | inc => [
      ⟨.zeroPage, 0xE6, 5⟩, ⟨.zeroPageX, 0xF6, 6⟩, ⟨.absolute, 0xEE, 6⟩, ⟨.absoluteX, 0xFE, 7⟩]
  | inx => [⟨.implied, 0xE8, 2⟩]
  | iny => [⟨.implied, 0xC8, 2⟩]
  | jmp => [⟨.absolute, 0x4C, 3⟩, ⟨.indirect, 0x6C, 5⟩]
  | jsr => [⟨.absolute, 0x20, 6⟩]
  | lda => [
      ⟨.immediate, 0xA9, 2⟩, ⟨.zeroPage, 0xA5, 3⟩, ⟨.zeroPageX, 0xB5, 4⟩, ⟨.absolute, 0xAD, 4⟩,
      ⟨.absoluteX, 0xBD, 4⟩, ⟨.absoluteY, 0xB9, 4⟩, ⟨.indirectIndexedX, 0xA1, 6⟩,
      ⟨.indirectIndexedY, 0xB1, 5⟩]
  | ldx => [
      ⟨.immediate, 0xA2, 2⟩, ⟨.zeroPage, 0xA6, 3⟩, ⟨.zeroPageY, 0xB6, 4⟩, ⟨.absolute, 0xAE, 4⟩,
      ⟨.absoluteY, 0xBE, 4⟩]
  | ldy => [
      ⟨.immediate, 0xA0, 2⟩, ⟨.zeroPage, 0xA4, 3⟩, ⟨.zeroPageX, 0xB4, 4⟩, ⟨.absolute, 0xAC, 4⟩,
      ⟨.absoluteX, 0xBC, 4⟩]
  | lsr => [
      ⟨.accumulator, 0x4A, 2⟩, ⟨.zeroPage, 0x46, 5⟩, ⟨.zeroPageX, 0x56, 6⟩, ⟨.absolute, 0x4E, 6⟩,
      ⟨.absoluteX, 0x5E, 7⟩]
  | nop => [⟨.implied, 0xEA, 2⟩]
  | ora => [
      ⟨.immediate, 0x09, 2⟩, ⟨.zeroPage, 0x05, 3⟩, ⟨.zeroPageX, 0x15, 4⟩, ⟨.absolute, 0x0D, 4⟩,
      ⟨.absoluteX, 0x1D, 4⟩, ⟨.absoluteY, 0x19, 4⟩, ⟨.indirectIndexedX, 0x01, 6⟩,
      ⟨.indirectIndexedY, 0x11, 5⟩]
  | pha => [⟨.implied, 0x48, 3⟩]
  | php => [⟨.implied, 0x08, 3⟩]
  | pla => [⟨.implied, 0x68, 4⟩]
  | plp => [⟨.implied, 0x28, 4⟩]
  | rol => [
      ⟨.accumulator, 0x2A, 2⟩, ⟨.zeroPage, 0x26, 5⟩, ⟨.zeroPageX, 0x36, 6⟩, ⟨.absolute, 0x2E, 6⟩,
      ⟨.absoluteX, 0x3E, 7⟩]
  | ror => [
      ⟨.accumulator, 0x6A, 2⟩, ⟨.zeroPage, 0x66, 5⟩, ⟨.zeroPageX, 0x76, 6⟩, ⟨.absolute, 0x6E, 6⟩,
      ⟨.absoluteX, 0x7E, 7⟩]
  | rti => [⟨.implied, 0x40, 6⟩]
  | rts => [⟨.implied, 0x60, 6⟩]
  | sbc => [
      ⟨.immediate, 0xE9, 2⟩, ⟨.zeroPage, 0xE5, 3⟩, ⟨.zeroPageX, 0xF5, 4⟩, ⟨.absolute, 0xED, 4⟩,
      ⟨.absoluteX, 0xFD, 4⟩, ⟨.absoluteY, 0xF9, 4⟩, ⟨.indirectIndexedX, 0xE1, 6⟩,
      ⟨.indirectIndexedY, 0xF1, 5⟩]
  | sec => [⟨.implied, 0x38, 2⟩]
  | sed => [⟨.implied, 0xF8, 2⟩]
  | sei => [⟨.implied, 0x78, 2⟩]
  | sta => [
      ⟨.zeroPage, 0x85, 3⟩, ⟨.zeroPageX, 0x95, 4⟩, ⟨.absolute, 0x8D, 4⟩, ⟨.absoluteX, 0x9D, 5⟩,
      ⟨.absoluteY, 0x99, 5⟩, ⟨.indirectIndexedX, 0x81, 6⟩, ⟨.indirectIndexedY, 0x91, 6⟩]
  | stx => [⟨.zeroPage, 0x86, 3⟩, ⟨.zeroPageY, 0x96, 4⟩, ⟨.absolute, 0x8E, 4⟩]
  | sty => [⟨.zeroPage, 0x84, 3⟩, ⟨.zeroPageX, 0x94, 4⟩, ⟨.absolute, 0x8C, 4⟩]
  | tax => [⟨.implied, 0xAA, 2⟩]
  | tay => [⟨.implied, 0xA8, 2⟩]
  | tsx => [⟨.implied, 0xBA, 2⟩]
  | txa => [⟨.implied, 0x8A, 2⟩]
  | txs => [⟨.implied, 0x9A, 2⟩]
  | tya => [⟨.implied, 0x98, 2⟩]

def modes (mnemonic : Mnemonic) : List AddressingMode :=
  mnemonic.encodings.map Encoding.mode

def hasMode (mnemonic : Mnemonic) (mode : AddressingMode) : Bool :=
  mnemonic.modes.contains mode

def encoding? (mnemonic : Mnemonic) (mode : AddressingMode) : Option Encoding :=
  mnemonic.encodings.find? fun encoding => encoding.mode == mode

def onlyImplied (mnemonic : Mnemonic) : Bool :=
  !mnemonic.modes.isEmpty && mnemonic.modes.all AddressingMode.isImpliedLike

/-- Branches take an address relative to the next instruction. -/
def isBranch : Mnemonic -> Bool
  | bcc | bcs | beq | bmi | bne | bpl | bvc | bvs => true
  | _ => false

end Mnemonic

end Asm6502
