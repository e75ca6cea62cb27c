import Asm6502.Url.Domain
import Asm6502.Url.Percent

/-!
# Hosts

A host of a special scheme is a domain name, a number that is an IPv4 address, or an IPv6 address in
brackets.  Other schemes take any text without delimiters.
-/

namespace Asm6502

inductive UrlError where
  | emptyHost
  | invalidDomainName
  | invalidPort
  | invalidIPv4Address
  | invalidIPv6Address
  | invalidDomainCharacter
  | relativeWithoutBase
  | relativeToRootless
deriving DecidableEq, Repr, Inhabited

def UrlError.message : UrlError -> String
  | emptyHost => "empty host"
  | invalidDomainName => "invalid international domain name"
  | invalidPort => "invalid port number"
  | invalidIPv4Address => "invalid IPv4 address"
  | invalidIPv6Address => "invalid IPv6 address"
  | invalidDomainCharacter => "invalid domain character"
  | relativeWithoutBase => "relative URL without a base"
  | relativeToRootless => "relative URL with a cannot-be-a-base base"

namespace Url

/-! ## IPv4 addresses -/

/-- A number of an IPv4 address: hexadecimal behind `0x`, octal behind `0`, else decimal. -/
def ipv4Number? : List Char -> Option Nat
  | [] => none
  | '0' :: 'x' :: digits => digitsValue? 16 digits
  | '0' :: 'X' :: digits => digitsValue? 16 digits
  | '0' :: d :: digits => digitsValue? 8 (d :: digits)
  | digits => digitsValue? 10 digits

/-- A name whose last part is a number has to be an IPv4 address. -/
def endsInNumber (name : List Char) : Bool :=
  let parts := splitOn (· == '.') name
  let parts := if 1 < parts.length && parts.getLast? == some [] then parts.dropLast else parts
  match parts.getLast? with
  | none | some [] => false
  | some last => last.all Char.isDigit || (ipv4Number? last).isSome

def decimal (n : Nat) : List Char := (toString n).toList

/-- An IPv4 address in its usual form.  The last number fills the bytes that are left. -/
def ipv4? (name : List Char) : Option (List Char) := do
  let parts := splitOn (· == '.') name
  let parts := if parts.getLast? == some [] then parts.dropLast else parts
  let numbers <- parts.mapM ipv4Number?
  let last <- numbers.getLast?
  let first := numbers.dropLast
  if numbers.length ≤ 4 ∧ first.all (· ≤ 255) ∧ last < Nat.pow 256 (4 - first.length) then
    let value := first.zipIdx.foldl (fun value (n, i) => value + n * Nat.pow 256 (3 - i)) last
    return joinWith ['.'] ([3, 2, 1, 0].map fun i => decimal (value / Nat.pow 256 i % 256))
  else none

/-! ## IPv6 addresses -/

def ipv6Group? (digits : List Char) : Option Nat :=
  if digits.isEmpty ∨ 4 < digits.length then none else digitsValue? 16 digits

def ipv6Byte? (digits : List Char) : Option Nat :=
  if digits.isEmpty ∨ (1 < digits.length ∧ digits.head? = some '0') then none
  else (digitsValue? 10 digits).filter (· ≤ 255)

def ipv6Tail? (text : List Char) : Option (List Nat) :=
  match (splitOn (· == '.') text).mapM ipv6Byte? with
  | some [a, b, c, d] => some [a * 256 + b, c * 256 + d]
  | _ => none

def ipv6Groups? (withTail : Bool) (text : List Char) : Option (List Nat) :=
  if text.isEmpty then some []
  else do
    let parts := splitOn (· == ':') text
    let last <- parts.getLast?
    let groups <- parts.dropLast.mapM ipv6Group?
    let ending <-
      if withTail && last.contains '.' then ipv6Tail? last else (ipv6Group? last).map ([·])
    return groups ++ ending

def splitAtGap? : List Char -> Option (List Char × List Char)
  | [] => none
  | ':' :: ':' :: rest => some ([], rest)
  | c :: rest => (splitAtGap? rest).map fun (left, right) => (c :: left, right)

/-- The eight groups of an IPv6 address; a double colon stands for the groups that are missing. -/
def ipv6? (text : List Char) : Option (List Nat) := do
  match splitAtGap? text with
  | none =>
      let groups <- ipv6Groups? true text
      if groups.length = 8 then some groups else none
  | some (left, right) =>
      let left <- ipv6Groups? false left
      let right <- ipv6Groups? true right
      if left.length + right.length ≤ 7 then
        some (left ++ List.replicate (8 - left.length - right.length) 0 ++ right)
      else none

def longestZeros : Nat -> Nat × Nat -> List Nat -> Nat × Nat
  | _, best, [] => best
  | i, best, group :: groups =>
      let here := ((group :: groups).takeWhile (· == 0)).length
      longestZeros (i + 1) (if best.2 < here then (i, here) else best) groups

/-- A number as hexadecimal digits in small letters. -/
def lowerHex (n : Nat) : List Char := Nat.toDigits 16 n

/-- An IPv6 address with its longest run of zeros as a double colon. -/
def ipv6Text (groups : List Nat) : List Char :=
  let (start, length) := longestZeros 0 (0, 1) groups
  let text (groups : List Nat) : List Char := joinWith [':'] (groups.map lowerHex)
  if 2 ≤ length then
    text (groups.take start) ++ [':', ':'] ++ text (groups.drop (start + length))
  else text groups

/-! ## Hosts of a scheme -/

def bracketed (text : List Char) : Except UrlError (List Char) :=
  match text.getLast?, ipv6? ((text.drop 1).dropLast) with
  | some ']', some groups => .ok (['['] ++ ipv6Text groups ++ [']'])
  | _, _ => .error .invalidIPv6Address

def specialHost (text : List Char) : Except UrlError (List Char) :=
  if text.head? = some '[' then bracketed text
  else
    match Domain.ascii? (textOfBytes (decode text)) with
    | none => .error .invalidDomainName
    | some [] => .error .emptyHost
    | some name =>
        if endsInNumber name then
          match ipv4? name with
          | some address => .ok address
          | none => .error .invalidIPv4Address
        else .ok name

/-- The host of another scheme, which can be empty. -/
def plainHost (text : List Char) : Except UrlError (List Char) :=
  if text.head? = some '[' then bracketed text
  else if text.any fun c => "\x00\t\n\r #/:<>?@[\\]^|".toList.contains c then
    .error .invalidDomainCharacter
  else .ok (encode isControl text)

end Url

end Asm6502
