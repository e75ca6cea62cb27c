import Asm6502.Text.Mark

/-!
# Directions

The direction in which a character is written, as far as it decides whether a text with both
directions can be read in one way only.
-/

namespace Asm6502

inductive Direction where
  | leftToRight
  /-- Letters from right to left, of the Arabic script and of others. -/
  | rightToLeft
  /-- Digits that are written from left to right among letters of both directions. -/
  | europeanNumber
  | arabicNumber
  /-- Signs that take the direction of the text around them. -/
  | neutral
  /-- Marks, which take the direction of the character they stand on. -/
  | mark
deriving DecidableEq, Repr, Inhabited

def rightToLeftLetters : CharClass := .ofLengths [
  1470, 1, 1, 1, 2, 1, 2, 1, 9, 27, 4, 6, 19, 1, 2, 1, 1, 1, 13, 48, 34, 3, 1, 101, 15, 2, 7, 2,
  10, 20, 1, 2, 1, 30, 29, 89, 11, 1, 14, 43, 9, 2, 4, 1, 3, 24, 4, 1, 9, 1, 3, 1, 7, 15, 1, 25, 5,
  1, 1, 11, 5, 32, 16, 42, 5957, 1, 56077, 1, 1, 10, 1, 13, 1, 5, 1, 1, 1, 2, 1, 2, 1, 125, 16,
  363, 18, 64, 2, 54, 40, 13, 115, 5, 1, 135, 2307, 6, 2, 1, 1, 44, 1, 2, 3, 1, 2, 23, 1, 72, 8, 9,
  48, 19, 1, 2, 5, 33, 4, 26, 5, 27, 38, 56, 4, 20, 2, 47, 15, 4, 1, 3, 1, 29, 10, 9, 7, 9, 7, 64,
  32, 37, 6, 12, 9, 54, 10, 22, 2, 27, 5, 26, 7, 4, 12, 7, 80, 73, 55, 51, 13, 51, 7, 42, 38, 28,
  9, 23, 8, 2, 240, 42, 3, 1, 2, 2, 16, 6, 56, 40, 8, 22, 11, 9, 22, 18, 4, 4, 38, 28, 20, 23,
  55305, 197, 2, 9, 48, 68, 7, 1, 4, 10, 4, 2, 785, 68, 76, 61, 194, 4, 1, 27, 1, 2, 1, 1, 2, 1, 1,
  10, 1, 4, 1, 1, 1, 1, 6, 1, 4, 1, 1, 1, 1, 1, 1, 3, 1, 2, 1, 1, 2, 1, 1, 1, 1, 1, 1, 1, 1, 1, 1,
  2, 1, 1, 2, 4, 1, 7, 1, 4, 1, 4, 1, 1, 1, 10, 1, 17, 5, 3, 1, 5, 1, 17]

def arabicNumbers : CharClass := .ofRows [
  "600-605 660-669 66B-66C 6DD 890-891 8E2 10D30-10D39 10D40-10D49 10E60-10E7E"]

/-- European digits, and those that are written like them. -/
def europeanNumbers : CharClass := .ofRows [
  "30-39 B2-B3 B9 6F0-6F9 2070 2074-2079 2080-2089 2488-249B FF10-FF19 102E1-102FB 1CCF0-1CCF9",
  "1D7CE-1D7FF 1F100-1F10A 1FBF0-1FBF9"]

/-- Separators, terminators and other signs, and invisible characters. -/
def neutralSigns : CharClass := .ofLengths [
  0, 9, 5, 14, 5, 15, 10, 7, 26, 6, 26, 10, 1, 36, 1, 7, 2, 1, 1, 3, 2, 5, 23, 1, 31, 1, 449, 2, 7,
  14, 2, 14, 5, 9, 1, 17, 116, 2, 8, 1, 5, 2, 1, 1, 110, 1, 403, 1, 2, 3, 118, 2, 1, 2, 1, 1, 1, 2,
  90, 1, 115, 1, 10, 1, 268, 4, 504, 2, 7, 1, 245, 1, 257, 8, 125, 7, 448, 1, 250, 4, 1106, 10,
  102, 1, 666, 2, 318, 1, 20, 10, 6, 11, 3, 1, 305, 1, 3, 2, 152, 34, 1469, 1, 1, 3, 11, 3, 13, 3,
  13, 3, 13, 2, 12, 3, 2, 24, 7, 48, 1, 5, 5, 6, 10, 5, 11, 5, 17, 34, 62, 2, 1, 4, 1, 2, 10, 1, 1,
  3, 5, 6, 1, 1, 1, 1, 1, 1, 4, 1, 11, 2, 4, 5, 5, 4, 2, 16, 41, 3, 4, 422, 69, 26, 1, 148, 22, 11,
  21, 40, 98, 450, 1, 339, 256, 628, 2, 138, 229, 6, 14, 7, 256, 94, 34, 26, 1, 89, 12, 214, 26,
  16, 1, 4, 3, 25, 15, 1, 5, 2, 5, 3, 91, 2, 3, 1, 90, 1, 196, 38, 9, 1, 45, 2, 49, 16, 28, 3, 50,
  15, 12, 4, 167, 4, 99, 2, 31, 1, 6592, 64, 22160, 55, 326, 3, 99, 1, 10, 2, 128, 34, 102, 1, 159,
  4, 12, 2, 58, 4, 754, 2, 20413, 1, 153, 16, 363, 18, 64, 2, 54, 8, 45, 3, 16, 10, 22, 35, 1, 19,
  1, 4, 147, 1, 1, 15, 10, 7, 26, 6, 26, 11, 122, 7, 1, 7, 10, 5, 259, 1, 62, 77, 3, 13, 3, 1,
  1918, 1, 537, 7, 558, 1, 353, 9, 377, 20, 1530, 13, 2408, 29, 20464, 1, 19645, 4, 3932, 214, 36,
  3, 3, 436, 6, 23, 15, 17, 642, 8, 110, 2, 21, 66, 3, 1, 186, 87, 900, 1, 57, 1, 57, 1, 57, 1, 57,
  1, 2875, 1, 3056, 2, 270, 44, 4, 100, 12, 15, 2, 15, 1, 15, 1, 37, 21, 5, 31, 1, 58, 6, 61, 1,
  178, 6, 154, 985, 3, 17, 3, 13, 3, 218, 6, 12, 4, 1, 15, 12, 4, 56, 8, 10, 6, 40, 8, 30, 2, 12,
  4, 2, 14, 9, 39, 344, 8, 14, 2, 13, 3, 11, 3, 57, 1, 1, 4, 16, 2, 12, 4, 10, 7, 147, 1, 92, 10,
  1, 787462, 1, 30, 96]

/-- Whether a character makes a text one of both directions.  None below U+0590 does. -/
def runsLeft (c : Char) : Bool :=
  0x590 ≤ c.toNat && (rightToLeftLetters.contains c || arabicNumbers.contains c)

def Direction.ofChar (c : Char) : Direction :=
  if europeanNumbers.contains c then .europeanNumber
  else if neutralSigns.contains c then .neutral
  else if nonspacingMarks.contains c then .mark
  else if rightToLeftLetters.contains c then .rightToLeft
  else if arabicNumbers.contains c then .arabicNumber
  else .leftToRight

end Asm6502
