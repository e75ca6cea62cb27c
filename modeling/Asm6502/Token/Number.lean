/-!
# Values of literals

A number literal names its base by its first character: `%` is binary, `$` hexadecimal, a leading
zero octal, and everything else decimal.  Values are signed 64-bit integers, so a literal beyond
their range has no value.
-/

namespace Asm6502

def digitValue? (base : Nat) (c : Char) : Option Nat :=
  let value :=
    if '0' ≤ c ∧ c ≤ '9' then some (c.toNat - 48)
    else if 'a' ≤ c ∧ c ≤ 'f' then some (c.toNat - 87)
    else if 'A' ≤ c ∧ c ≤ 'F' then some (c.toNat - 55)
    else none
  value.filter (· < base)

def readDigits? (base : Nat) : Nat -> List Char -> Option Nat
  | value, [] => some value
  | value, c :: rest => do
      let digit <- digitValue? base c
      readDigits? base (value * base + digit) rest

def baseAndDigits : List Char -> Nat × List Char
  | '%' :: digits => (2, digits)
  | '$' :: digits => (16, digits)
  | '0' :: digits => (8, '0' :: digits)
  | digits => (10, digits)

/-- The value of a number literal.  A text without digits, with a foreign character or beyond the
range of signed 64-bit integers has none. -/
def numberValue? (text : String) : Option Int64 :=
  let (base, digits) := baseAndDigits text.toList
  if digits.isEmpty then none
  else
    match readDigits? base 0 digits with
    | some value => if value < Nat.pow 2 63 then some (Int64.ofNat value) else none
    | none => none

/-- The character of a character literal, which stands alone behind the apostrophe. -/
def quotedChar? (text : String) : Option Char :=
  match text.toList with
  | ['\'', c] => some c
  | _ => none

/-- The value of a character literal: the code point of its character. -/
def charValue? (text : String) : Option Int64 :=
  (quotedChar? text).map fun c => Int64.ofNat c.toNat

/-- The ordinal of a macro argument: decimal digits, with or without a plus sign in front, that
stay below 2 to the power of 64.  Anything else counts as zero. -/
def ordinalValue (text : String) : Nat :=
  let digits :=
    match text.toList with
    | '+' :: digits => digits
    | digits => digits
  if digits.isEmpty then 0
  else ((readDigits? 10 0 digits).filter (· < Nat.pow 2 64)).getD 0

end Asm6502
