import Asm6502.Text.Position
import Asm6502.Uri

/-!
# Locations

Where something stands: a document and a span in it.
-/

namespace Asm6502

structure Location where
  uri : Uri
  span : Span
deriving DecidableEq, Repr, Inhabited

namespace Location

def contains (location : Location) (p : Position) : Bool :=
  location.span.contains p

/-- The smallest location in the first document that covers both spans. -/
def union (a b : Location) : Location := ⟨a.uri, a.span.union b.span⟩

/-- Locations are ordered by the text of their document, then by their span. -/
instance : Ord Location where
  compare a b := (compare a.uri.text b.uri.text).then (compare a.span b.span)

def text (location : Location) : String :=
  location.uri.text ++ ":" ++ location.span.start.text

end Location

end Asm6502
