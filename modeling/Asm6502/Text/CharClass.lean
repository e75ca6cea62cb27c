import Asm6502.Text.Digits
import Asm6502.Text.Parts

/-!
# Classes of characters

A class of characters is a list of ranges of their codes.  Small classes are written as rows of
text: the ends of the ranges in hexadecimal digits, with a dash between the two ends of a range and
a space between two ranges.  Large ones are written as the lengths of their ranges and of the gaps
between them.  The tables of this library are those of Unicode 17.
-/

namespace Asm6502

/-- The character codes between the ends of some ranges, both ends included. -/
structure CharClass where
  ranges : List (Nat × Nat)
deriving DecidableEq, Repr, Inhabited

def codeOfText (digits : List Char) : Nat :=
  (digitsValue? 16 digits).getD 0

def codesOfText (text : List Char) : List Nat :=
  (splitOn (· == '.') text).map codeOfText

/-- Runs of characters with semicolons in between.  A run is the code of its first character, and
then what stands for this one and each of the next ones: codes with dots in between. -/
def runsOfRow (row : String) : List (Nat × List Char) :=
  (splitOn (· == ';') row.toList).flatMap fun run =>
    match splitOn (· == ' ') run with
    | [] => []
    | first :: words =>
        words.zipIdx.map fun (word, i) =>
          (codeOfText first + i, (codesOfText word).map Char.ofNat)

namespace CharClass

def rangeOfText (text : List Char) : Nat × Nat :=
  let first := text.takeWhile (· != '-')
  let last := text.drop (first.length + 1)
  (codeOfText first, codeOfText (if last.isEmpty then first else last))

def ofRows (rows : List String) : CharClass :=
  ⟨rows.flatMap fun row => (splitOn (· == ' ') row.toList).map rangeOfText⟩

/-- The ranges behind a code, given the lengths of the gaps and of the ranges in turn. -/
def rangesFrom (code : Nat) : List Nat -> List (Nat × Nat)
  | gap :: length :: lengths =>
      (code + gap, code + gap + length - 1) :: rangesFrom (code + gap + length) lengths
  | _ => []

def ofLengths (lengths : List Nat) : CharClass :=
  ⟨rangesFrom 0 lengths⟩

def contains (charClass : CharClass) (c : Char) : Bool :=
  charClass.ranges.any fun range => range.1 ≤ c.toNat && c.toNat ≤ range.2

end CharClass

end Asm6502
