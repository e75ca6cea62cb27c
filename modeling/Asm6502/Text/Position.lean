/-!
# Positions and spans

Where something stands in a text: a zero-based row and column, and the span from one position to
another.  Columns count characters.  A row ends at a line feed, at a carriage return, or at a
carriage return directly followed by a line feed, which together are one break.
-/

namespace Asm6502

/-- A row and a column, both counted from zero. -/
structure Position where
  line : Nat
  column : Nat
deriving DecidableEq, Repr, Inhabited

namespace Position

def origin : Position := ⟨0, 0⟩

protected def le (a b : Position) : Prop :=
  a.line < b.line ∨ (a.line = b.line ∧ a.column ≤ b.column)

instance : LE Position := ⟨Position.le⟩

instance (a b : Position) : Decidable (a ≤ b) :=
  inferInstanceAs (Decidable (a.line < b.line ∨ (a.line = b.line ∧ a.column ≤ b.column)))

instance : LT Position := ⟨fun a b => ¬ b ≤ a⟩

instance (a b : Position) : Decidable (a < b) :=
  inferInstanceAs (Decidable (¬ b ≤ a))

instance : Min Position := minOfLe

instance : Max Position := maxOfLe

instance : Ord Position where
  compare a b := (compare a.line b.line).then (compare a.column b.column)

theorem le_iff {a b : Position} :
    a ≤ b ↔ a.line < b.line ∨ (a.line = b.line ∧ a.column ≤ b.column) :=
  Iff.rfl

def nextLine (p : Position) : Position := ⟨p.line + 1, 0⟩

def nextColumn (p : Position) : Position := ⟨p.line, p.column + 1⟩

def advance : Position -> List Char -> Position
  | p, [] => p
  | p, '\n' :: rest => advance p.nextLine rest
  | p, '\r' :: '\n' :: rest => advance p.nextLine rest
  | p, '\r' :: rest => advance p.nextLine rest
  | p, _ :: rest => advance p.nextColumn rest

/-- Row and column as written for a reader, counted from one. -/
def text (p : Position) : String :=
  toString (p.line + 1) ++ ":" ++ toString (p.column + 1)

end Position

/-- The stretch from one position to another. -/
structure Span where
  start : Position
  stop : Position
deriving DecidableEq, Repr, Inhabited

namespace Span

def empty (p : Position) : Span := ⟨p, p⟩

def origin : Span := empty .origin

def union (a b : Span) : Span := ⟨min a.start b.start, max a.stop b.stop⟩

def cover? : List Span -> Option Span
  | [] => none
  | span :: rest => some (rest.foldl union span)

def contains (span : Span) (p : Position) : Bool :=
  decide (span.start ≤ p ∧ p ≤ span.stop)

def containsSpan (span other : Span) : Bool :=
  decide (span.start ≤ other.start ∧ other.stop ≤ span.stop)

/-- Spans are ordered by their start, and by their end for one start. -/
instance : Ord Span where
  compare a b := (compare a.start b.start).then (compare a.stop b.stop)

def text (span : Span) : String :=
  span.start.text ++ "-" ++ span.stop.text

end Span

end Asm6502
