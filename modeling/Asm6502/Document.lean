import Asm6502.Line.OfConcrete
import Asm6502.Token.Lexer

/-!
# Documents

A source text that was read: its lines and its faults.  Reading never fails; whatever could not be
read is reported, and the lines hold the rest.
-/

namespace Asm6502

inductive SourceError where
  | lex (error : LexError)
  | parse (error : ParseError)
deriving DecidableEq, Repr, Inhabited

namespace SourceError

def span : SourceError -> Span
  | lex error => error.span
  | parse error => error.span

end SourceError

structure Document where
  uri : Uri
  file : File
  /-- The faults of the text first, then those of the grammar. -/
  errors : List SourceError
deriving Repr

instance : Inhabited Document := ⟨⟨default, default, []⟩⟩

namespace Document

/-- Reads a source text.  Faults of the text in the body of a macro do not count, because a body
is only text until the macro is used. -/
def ofText (text : String) (uri : Uri) : Document :=
  let stream := tokenize text
  let concrete := ConcreteFile.ofTokens stream.tokens stream.comments text
  let isRaw (row : Nat) : Bool :=
    concrete.rawRows.any fun range => range.1 ≤ row && row < range.2
  { uri := uri
    file := concrete.lower uri
    errors :=
      (stream.errors.filter fun error => !isRaw error.span.start.line).map SourceError.lex ++
        concrete.errors.map SourceError.parse }

@[simp]
theorem uri_ofText (text : String) (uri : Uri) : (ofText text uri).uri = uri :=
  rfl

end Document

end Asm6502
