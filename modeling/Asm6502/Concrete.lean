import Asm6502.Token

/-!
# Concrete lines

Source lines with every token they were read from.  A line stands for one row of the source, or
for all rows of the block that it opens.
-/

namespace Asm6502

namespace Concrete

inductive Expr where
  /-- A number, string, character or program counter. -/
  | atom (token : Token)
  /-- One name, or several joined by commas. -/
  | label (fragments : List Token)
  | macroArgument (opening number closing : Token)
  | unary (operator : Token) (operand : Expr)
  | binary (left : Expr) (operator : Token) (right : Expr)
  | round (opening : Token) (inner : Expr) (closing : Token)
  | square (opening : Token) (inner : Expr) (closing : Token)
deriving DecidableEq, Repr, Inhabited

def Expr.span : Expr -> Span
  | .atom token => token.span
  | .label [] => .origin
  | .label (first :: rest) => first.span.union ((first :: rest).getLastD first).span
  | .macroArgument opening _ closing => opening.span.union closing.span
  | .unary operator operand => operator.span.union operand.span
  | .binary left _ right => left.span.union right.span
  | .round opening _ closing => opening.span.union closing.span
  | .square opening _ closing => opening.span.union closing.span

inductive Argument where
  | immediate (hash : Token) (value : Expr)
  /-- An address, which an ending can index. -/
  | address (value : Expr) (ending : Option Token)
  | indirect (opening : Token) (value : Expr) (closing : Token)
deriving DecidableEq, Repr, Inhabited

namespace Argument

def value : Argument -> Expr
  | immediate _ value => value
  | address value _ => value
  | indirect _ value _ => value

def span : Argument -> Span
  | immediate hash value => hash.span.union value.span
  | address value none => value.span
  | address value (some ending) => value.span.union ending.span
  | indirect opening _ closing => opening.span.union closing.span

end Argument

/-- A label at the front of a line: fragments joined by commas, and an optional colon. -/
structure Label where
  first : Token
  others : List Token
  colon : Option Token
deriving DecidableEq, Repr, Inhabited

namespace Label

def fragments (label : Label) : List Token := label.first :: label.others

/-- From the first fragment to the last token of a label. -/
def span (label : Label) : Span :=
  let named := label.first.span.union (label.others.getLastD label.first).span
  match label.colon with
  | some colon => named.union colon.span
  | none => named

end Label

/-- A command of one row: an instruction, a directive or the use of a macro. -/
structure Command where
  name : Option Token
  extension : Option Token
  arguments : List Argument
  span : Span
deriving DecidableEq, Repr, Inhabited

/-- The definition of a macro.  Its body is kept as text. -/
structure MacroBlock where
  keyword : Token
  name : Option Token
  body : String
  ending : Option Token
  span : Span
deriving DecidableEq, Repr, Inhabited

/-- What a line has whatever stands on it. -/
structure Margin where
  label : Option Label
  comment : Option Token
  span : Span
deriving DecidableEq, Repr, Inhabited

/-- A row with at most one command, or a block with all its rows. -/
inductive Line where
  | command (margin : Margin) (command : Option Command)
  | macroBlock (margin : Margin) (block : MacroBlock)
  | conditional (margin : Margin) (keyword : Token) (condition : Option Expr)
      (thenLines : List Line) (elseKeyword : Option Token) (elseLines : List Line)
      (ending : Option Token) (span : Span)
  | repetition (margin : Margin) (keyword : Token) (count : Option Expr)
      (body : List Line) (ending : Option Token) (span : Span)
deriving Repr

instance : Inhabited Line := ⟨.command default none⟩

def Line.margin : Line -> Margin
  | .command margin _ => margin
  | .macroBlock margin _ => margin
  | .conditional margin _ _ _ _ _ _ _ => margin
  | .repetition margin _ _ _ _ _ => margin

def Line.span (line : Line) : Span := line.margin.span

end Concrete

end Asm6502
