import Asm6502.Cpu.AddressingMode
import Asm6502.Text.Word

/-!
# Command extensions

The suffix behind the dot of a command, such as `.w` in `lda.w`.  Some of them force the width of
an address operand.
-/

namespace Asm6502

inductive Extension where
  | implied
  | a
  | abs
  | byte
  | byteX
  | byteY
  | d
  | indirect
  | l
  | s
  | u
  | word
  | wordX
  | wordY
  | zero
  | zeroX
  | zeroY
deriving DecidableEq, Repr, Inhabited

namespace Extension

def all : List Extension :=
  [implied, a, abs, byte, byteX, byteY, d, indirect, l, s, u, word, wordX, wordY, zero, zeroX,
    zeroY]

def name : Extension -> String
  | implied => "0"
  | a => "A"
  | abs => "ABS"
  | byte => "B"
  | byteX => "BX"
  | byteY => "BY"
  | d => "D"
  | indirect => "IND"
  | l => "L"
  | s => "S"
  | u => "U"
  | word => "W"
  | wordX => "WX"
  | wordY => "WY"
  | zero => "Z"
  | zeroX => "ZX"
  | zeroY => "ZY"

def ofSuffix? (text : String) : Option Extension :=
  all.find? fun ext => ext.name == unifiedName text

def width? : Extension -> Option AddressWidth
  | byte | byteX | byteY | zero | zeroX | zeroY => some .zeroPage
  | word | wordX | wordY | a | abs => some .absolute
  | _ => none

end Extension

end Asm6502
