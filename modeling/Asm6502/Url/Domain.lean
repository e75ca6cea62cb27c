import Asm6502.Text.Composition
import Asm6502.Text.Direction
import Asm6502.Text.Joining
import Asm6502.Url.Domain.Mapping
import Asm6502.Url.Punycode

/-!
# Domain names

A domain name is a row of labels with dots in between.  Names that look the same are the same: their
characters are mapped and composed first, and a label beyond ASCII is then written in Punycode
behind `xn--`.  A label that is written so already must be what its text would be written as.
-/

namespace Asm6502

namespace Domain

/-! ## Labels -/

/-- A text in the characters that names are written with, none if one is not allowed. -/
def mapped? (text : List Char) : Option (List Char) :=
  (text.mapM mapChar?).map fun parts => composed parts.flatten

def isAscii (text : List Char) : Bool :=
  text.all fun c => c.toNat < 128

def nonJoiner : Char := Char.ofNat 0x200C

def joiner : Char := Char.ofNat 0x200D

/-- Whether a joiner has an effect between two texts, of which the first is read from its end: both
kinds behind a virama, and the separating one also between letters that join. -/
def canStandBetween (c : Char) (before after : List Char) : Bool :=
  before.head?.any isVirama || (c == nonJoiner && joinsForward before && joinsBackward after)

/-- Whether all joiners of a text have an effect, going on behind a text read from its end. -/
def joinersHaveEffect (before : List Char) : List Char -> Bool
  | [] => true
  | c :: rest =>
      (!(c == nonJoiner || c == joiner) || canStandBetween c before rest) &&
        joinersHaveEffect (c :: before) rest

def maxLength : Nat := 1000

/-- The length of the longest Punycode text that is read. -/
def maxEncodedLength : Nat := 2000

def isLabel (text : List Char) : Bool :=
  !text.head?.any isMark && joinersHaveEffect [] text && text.length ≤ maxLength

def encodedMark : List Char := "xn--".toList

/-- The text of a label in Punycode.  It is beyond ASCII and in the form that it is written in. -/
def decodedLabel? (encoded : List Char) : Option (List Char) := do
  let text <- if encoded.length ≤ maxEncodedLength then Punycode.decode? encoded else none
  if !isAscii text && mapped? text == some text && Punycode.encode text == encoded then some text
  else none

def labelText? (label : List Char) : Option (List Char) := do
  let text <-
    if encodedMark.isPrefixOf label then
      if isAscii label then decodedLabel? (label.drop encodedMark.length) else none
    else some label
  if isAscii text || isLabel text then some text else none

def asciiLabel (text : List Char) : List Char :=
  if isAscii text then text else encodedMark ++ Punycode.encode text

/-! ## Directions -/

def endsRightward (rest : List Direction) : Bool :=
  rest.all (fun d => d != .rightToLeft && d != .arabicNumber) &&
    (rest.reverse.dropWhile (· == .mark)).head?.all fun last =>
      last == .leftToRight || last == .europeanNumber

/-- Whether a text from right to left goes on and ends with characters of that direction.  It has
numbers of one kind only. -/
def endsLeftward (rest : List Direction) : Bool :=
  rest.all (· != .leftToRight) &&
    !(rest.contains .europeanNumber && rest.contains .arabicNumber) &&
    (rest.reverse.dropWhile (· == .mark)).head?.all fun last => last != .neutral

def hasOneDirection (label : List Char) : Bool :=
  match label.map Direction.ofChar with
  | [] => true
  | .leftToRight :: rest => endsRightward rest
  | .rightToLeft :: rest => endsLeftward rest
  | _ => false

/-! ## Names -/

/-- The characters that may not stand in a domain name. -/
def isForbidden (c : Char) : Bool :=
  c.toNat ≤ 32 || c.toNat == 127 || "%#/:<>?@[\\]^|".toList.contains c

def ascii? (name : List Char) : Option (List Char) := do
  let text <- mapped? name
  let labels <- (splitOn (· == '.') text).mapM labelText?
  let hasBoth := labels.any fun label => label.any runsLeft
  let ascii := joinWith ['.'] (labels.map asciiLabel)
  if (hasBoth && !labels.all hasOneDirection) || ascii.any isForbidden then none else some ascii

end Domain

end Asm6502
