import Asm6502.Expr

/-!
# Arithmetic

Operators on signed 64-bit values.  An operation whose exact result does not fit has no value; a
shift to the left drops the bits that leave the word.
-/

namespace Asm6502

def fit? (n : Int) : Option Int64 :=
  if Int64.minValue.toInt ≤ n ∧ n ≤ Int64.maxValue.toInt then some (Int64.ofInt n) else none

def truth (b : Bool) : Int64 := if b then 1 else 0

def shiftAmount? (amount : Int64) : Option Int64 :=
  if 0 ≤ amount.toInt ∧ amount.toInt < 64 then some amount else none

def UnaryOp.apply? (op : UnaryOp) (v : Int64) : Option Int64 :=
  match op with
  | negate => fit? (-v.toInt)
  | bitNot => some (~~~v)
  | not => some (truth (v == 0))
  | lowByte => some (v &&& 0xFF)
  | highByte => some ((v >>> 8) &&& 0xFF)

/-- The value of an operator between two values.  Division cuts towards zero; nothing is divided
by zero, and the least word is not divided by -1, not even for its remainder. -/
def BinaryOp.apply? (op : BinaryOp) (a b : Int64) : Option Int64 :=
  match op with
  | add => fit? (a.toInt + b.toInt)
  | subtract => fit? (a.toInt - b.toInt)
  | multiply => fit? (a.toInt * b.toInt)
  | divide => if b = 0 then none else fit? (a.toInt.tdiv b.toInt)
  | modulo =>
      if b = 0 then none
      else (fit? (a.toInt.tdiv b.toInt)).map fun _ => Int64.ofInt (a.toInt.tmod b.toInt)
  | bitAnd => some (a &&& b)
  | bitOr => some (a ||| b)
  | xor => some (a ^^^ b)
  | and => some (truth (a != 0 && b != 0))
  | or => some (truth (a != 0 || b != 0))
  | equal => some (truth (a == b))
  | notEqual => some (truth (a != b))
  | less => some (truth (a < b))
  | lessEqual => some (truth (a ≤ b))
  | greater => some (truth (b < a))
  | greaterEqual => some (truth (b ≤ a))
  | shiftLeft => (shiftAmount? b).map fun k => a <<< k
  | shiftRight => (shiftAmount? b).map fun k => a >>> k

end Asm6502
