import Asm6502.Text.Digits

/-!
# Percent encoding

Characters that may not stand in a part of a URL are written as the bytes of their UTF-8 form, each
as a percent sign and two hexadecimal digits.
-/

namespace Asm6502

namespace Url

def hexDigit (n : Nat) : Char :=
  if n < 10 then Char.ofNat (48 + n) else Char.ofNat (55 + n)

def encodeByte (byte : UInt8) : List Char :=
  ['%', hexDigit (byte.toNat / 16), hexDigit (byte.toNat % 16)]

/-- A text in which the characters of a class, and all beyond ASCII, are written as bytes. -/
def encode (reserved : Char -> Bool) (text : List Char) : List Char :=
  text.flatMap fun c =>
    if 128 ≤ c.toNat || reserved c then (String.utf8EncodeChar c).flatMap encodeByte else [c]

def isControl (c : Char) : Bool :=
  c.toNat < 32 || c.toNat == 127

def inFragment (c : Char) : Bool :=
  isControl c || " \"<>\x60".toList.contains c

def inPath (c : Char) : Bool :=
  inFragment c || "#?\x7b\x7d".toList.contains c

def inSegment (c : Char) : Bool :=
  inPath c || "/%\\".toList.contains c

def inUserInfo (c : Char) : Bool :=
  inPath c || "/:;=@[\\]^|".toList.contains c

def inQuery (c : Char) : Bool :=
  isControl c || " \"#<>".toList.contains c

def inSpecialQuery (c : Char) : Bool :=
  inQuery c || c == '\''

/-- The bytes that a text stands for.  A percent sign without two digits stands for itself. -/
def decode : List Char -> List UInt8
  | [] => []
  | '%' :: high :: low :: rest =>
      match hexValue? high, hexValue? low with
      | some h, some l => UInt8.ofNat (16 * h + l) :: decode rest
      | _, _ => 37 :: decode (high :: low :: rest)
  | c :: rest => String.utf8EncodeChar c ++ decode rest

/-- Whether a byte continues a character of several bytes. -/
def isContinuation (byte : UInt8) : Bool :=
  0x80 ≤ byte && byte ≤ 0xBF

/-- The stand-in for bytes that are no character. -/
def replacement : Char := Char.ofNat 0xFFFD

def continuation (byte : UInt8) : Nat := byte.toNat % 64

/--
The first character of some bytes and how many bytes it takes beyond the first.

Bytes that are no character give the stand-in, as many of them at once as could still have become
one character.
-/
def firstChar (first : UInt8) (rest : List UInt8) : Char × Nat :=
  let second (low high : UInt8) : Bool := rest[0]?.any fun b => low ≤ b && b ≤ high
  let at? (i : Nat) : Nat := (rest[i]?.map continuation).getD 0
  let goes (i : Nat) : Bool := rest[i]?.any isContinuation
  let three (low high : UInt8) : Char × Nat :=
    if !second low high then (replacement, 0)
    else if !goes 1 then (replacement, 1)
    else (Char.ofNat ((first.toNat % 16) * 4096 + at? 0 * 64 + at? 1), 2)
  let four (low high : UInt8) : Char × Nat :=
    if !second low high then (replacement, 0)
    else if !goes 1 then (replacement, 1)
    else if !goes 2 then (replacement, 2)
    else (Char.ofNat ((first.toNat % 8) * 262144 + at? 0 * 4096 + at? 1 * 64 + at? 2), 3)
  if first < 0x80 then (Char.ofNat first.toNat, 0)
  else if first < 0xC2 then (replacement, 0)
  else if first < 0xE0 then
    if goes 0 then (Char.ofNat ((first.toNat % 32) * 64 + at? 0), 1) else (replacement, 0)
  else if first == 0xE0 then three 0xA0 0xBF
  else if first == 0xED then three 0x80 0x9F
  else if first < 0xF0 then three 0x80 0xBF
  else if first == 0xF0 then four 0x90 0xBF
  else if first < 0xF4 then four 0x80 0xBF
  else if first == 0xF4 then four 0x80 0x8F
  else (replacement, 0)

def textOfBytes : List UInt8 -> List Char
  | [] => []
  | first :: rest =>
      let (c, taken) := firstChar first rest
      c :: textOfBytes (rest.drop taken)
termination_by bytes => bytes.length
decreasing_by
  simp only [List.length_drop, List.length_cons]
  omega

end Url

end Asm6502
