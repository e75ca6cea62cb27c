/-!
# Addressing modes

The ways in which an instruction uses its operand, the width of an address and the register that
indexes it.
-/

namespace Asm6502

/-- How an instruction uses its operand. -/
inductive AddressingMode where
  | absolute
  | zeroPage
  | zeroPageX
  | zeroPageY
  | absoluteX
  | absoluteY
  | relative
  | indirect
  | indirectIndexedX
  | indirectIndexedY
  | immediate
  | accumulator
  | implied
deriving DecidableEq, Repr, Inhabited

inductive AddressWidth where
  | zeroPage
  | absolute
deriving DecidableEq, Repr, Inhabited

/-- The register that indexes an address operand. -/
inductive Index where
  | none
  | x
  | y
deriving DecidableEq, Repr, Inhabited

namespace AddressWidth

def name : AddressWidth -> String
  | zeroPage => "ZeroPage"
  | absolute => "Absolute"

/-- The width that a known operand needs: one byte holds zero to 255. -/
def ofValue (value : Int64) : AddressWidth :=
  if 0 ≤ value ∧ value ≤ 255 then zeroPage else absolute

end AddressWidth

namespace AddressingMode

def name : AddressingMode -> String
  | absolute => "Absolute"
  | zeroPage => "ZeroPage"
  | zeroPageX => "ZeroPageX"
  | zeroPageY => "ZeroPageY"
  | absoluteX => "AbsoluteX"
  | absoluteY => "AbsoluteY"
  | relative => "Relative"
  | indirect => "Indirect"
  | indirectIndexedX => "IndirectIndexedX"
  | indirectIndexedY => "IndirectIndexedY"
  | immediate => "Immediate"
  | accumulator => "Accumulator"
  | implied => "Implied"

/-- The size of an instruction in this mode in bytes, its opcode included. -/
def length : AddressingMode -> Nat
  | accumulator | implied => 1
  | immediate | zeroPage | zeroPageX | zeroPageY | relative | indirectIndexedX
  | indirectIndexedY => 2
  | absolute | absoluteX | absoluteY | indirect => 3

/-- The modes of instructions that are written without an operand. -/
def isImpliedLike : AddressingMode -> Bool
  | implied | accumulator => true
  | _ => false

def ofAddress : Index -> AddressWidth -> AddressingMode
  | .none, .zeroPage => zeroPage
  | .none, .absolute => absolute
  | .x, .zeroPage => zeroPageX
  | .x, .absolute => absoluteX
  | .y, .zeroPage => zeroPageY
  | .y, .absolute => absoluteY

end AddressingMode

end Asm6502
