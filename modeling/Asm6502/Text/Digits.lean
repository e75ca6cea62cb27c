/-!
# Digits

The values of digits, and of numbers written with them in a base up to sixteen.
-/

namespace Asm6502

def hexValue? (c : Char) : Option Nat :=
  if '0' ≤ c ∧ c ≤ '9' then some (c.toNat - 48)
  else if 'a' ≤ c ∧ c ≤ 'f' then some (c.toNat - 87)
  else if 'A' ≤ c ∧ c ≤ 'F' then some (c.toNat - 55)
  else none

def digitsValue? (base : Nat) (digits : List Char) : Option Nat :=
  digits.foldl (fun value c => do
    let value <- value
    let digit <- (hexValue? c).filter (· < base)
    return value * base + digit) (some 0)

end Asm6502
