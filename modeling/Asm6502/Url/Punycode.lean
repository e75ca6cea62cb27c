/-!
# Punycode

Names beyond ASCII as ASCII text: first the ASCII characters, then the others in increasing order,
each by its distance from the one before.  A distance is a number of variable length in base 36
whose thresholds adapt to the distances before it.
-/

namespace Asm6502

namespace Punycode

def digit (n : Nat) : Char :=
  if n < 26 then Char.ofNat (97 + n) else Char.ofNat (22 + n)

def digitValue? (c : Char) : Option Nat :=
  if 'a' ≤ c ∧ c ≤ 'z' then some (c.toNat - 97)
  else if 'A' ≤ c ∧ c ≤ 'Z' then some (c.toNat - 65)
  else if '0' ≤ c ∧ c ≤ '9' then some (c.toNat - 22)
  else none

/-- The digit at which a number can end, for the weight of its place. -/
def threshold (place bias : Nat) : Nat :=
  if place ≤ bias then 1 else if bias + 26 ≤ place then 26 else place - bias

theorem one_le_threshold (place bias : Nat) : 1 ≤ threshold place bias := by
  unfold threshold
  split
  · exact Nat.le_refl 1
  · split <;> omega

def shrink (distance steps : Nat) : Nat × Nat :=
  if 455 < distance then shrink (distance / 35) (steps + 36) else (distance, steps)
termination_by distance
decreasing_by exact Nat.div_lt_self (by omega) (by omega)

/-- The bias after a distance was written as one of several. -/
def adapt (distance count : Nat) (isFirst : Bool) : Nat :=
  let scaled := if isFirst then distance / 700 else distance / 2
  let (rest, steps) := shrink (scaled + scaled / count) 0
  steps + 36 * rest / (rest + 38)

def writeDistance (bias place distance : Nat) : List Char :=
  let t := threshold place bias
  if distance < t then [digit distance]
  else
    digit (t + (distance - t) % (36 - t)) ::
      writeDistance bias (place + 36) ((distance - t) / (36 - t))
termination_by distance
decreasing_by
  have h1 := one_le_threshold place bias
  have h2 := Nat.div_le_self (distance - threshold place bias) (36 - threshold place bias)
  omega

structure Writer where
  written : List Char
  distance : Nat
  bias : Nat
  count : Nat
  basic : Nat

/-- Goes over one character while the ones with the given code are written. -/
def Writer.step (code : Nat) (w : Writer) (c : Char) : Writer :=
  if c.toNat < code then { w with distance := w.distance + 1 }
  else if c.toNat = code then
    { w with
      written := w.written ++ writeDistance w.bias 36 w.distance
      distance := 0
      bias := adapt w.distance (w.count + 1) (w.count == w.basic)
      count := w.count + 1 }
  else w

def Writer.run (text : List Char) : Writer -> Nat -> List Nat -> Writer
  | w, _, [] => w
  | w, next, code :: codes =>
      let w := { w with distance := w.distance + (code - next) * (w.count + 1) }
      let w := text.foldl (Writer.step code) w
      Writer.run text { w with distance := w.distance + 1 } (code + 1) codes

def encode (text : List Char) : List Char :=
  let basic := text.filter fun c => c.toNat < 128
  let codes := ((text.filter fun c => 128 ≤ c.toNat).map Char.toNat).mergeSort.eraseDups
  let start : Writer :=
    { written := basic ++ (if basic.isEmpty then [] else ['-'])
      distance := 0, bias := 72, count := basic.length, basic := basic.length }
  (start.run text 128 codes).written

def readDistance? (bias : Nat) : Nat -> Nat -> Nat -> List Char -> Option (Nat × List Char)
  | _, _, _, [] => none
  | place, weight, value, c :: rest =>
      match digitValue? c with
      | none => none
      | some d =>
          let t := threshold place bias
          let value := value + d * weight
          if d < t then some (value, rest)
          else readDistance? bias (place + 36) (weight * (36 - t)) value rest

theorem length_readDistance?_lt {bias place weight value : Nat} {text : List Char}
    {result : Nat × List Char}
    (h : readDistance? bias place weight value text = some result) :
    result.2.length < text.length := by
  induction text generalizing place weight value with
  | nil => simp [readDistance?] at h
  | cons c rest ih =>
      unfold readDistance? at h
      split at h
      · cases h
      · simp only at h
        split at h
        · cases h
          simp
        · exact Nat.lt_succ_of_lt (ih h)

/-- Reads the characters beyond ASCII and puts each at its place among those before. -/
def insertAll? (bias next index : Nat) (out text : List Char) : Option (List Char) :=
  if text.isEmpty then some out
  else
    match _h : readDistance? bias 36 1 index text with
    | none => none
    | some (value, rest) =>
        let count := out.length + 1
        let code := next + value / count
        let place := value % count
        if code < 0xD800 || (0xDFFF < code && code < 0x110000) then
          insertAll? (adapt (value - index) count (index == 0 && next == 128)) code (place + 1)
            (out.insertIdx place (Char.ofNat code)) rest
        else none
termination_by text.length
decreasing_by exact length_readDistance?_lt _h

def decode? (text : List Char) : Option (List Char) :=
  let tail := (text.reverse.takeWhile (· != '-')).reverse
  let basic := (text.take (text.length - tail.length)).dropLast
  insertAll? 72 128 0 basic tail

end Punycode

end Asm6502
