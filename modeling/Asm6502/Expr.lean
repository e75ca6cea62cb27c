import Asm6502.Location

/-!
# Expressions

Operands of commands with the punctuation gone: what a value is made of and where each part of it
stands.
-/

namespace Asm6502

/-- A name in the source.  The names `.`, `..`, `...` and `*` stand for the program counter. -/
structure Identifier where
  name : String
  programCounter : Bool
  location : Location
deriving DecidableEq, Repr, Inhabited

/-- A label name made of several fragments. -/
structure DynamicLabel where
  fragments : List Identifier
  location : Location
deriving DecidableEq, Repr, Inhabited

def DynamicLabel.key (label : DynamicLabel) : String :=
  ",".intercalate (label.fragments.map Identifier.name)

/-- An operator in front of its operand. -/
inductive UnaryOp where
  | negate
  | bitNot
  | not
  | lowByte
  | highByte
deriving DecidableEq, Repr, Inhabited

namespace UnaryOp

def all : List UnaryOp := [negate, bitNot, not, lowByte, highByte]

def sign : UnaryOp -> String
  | negate => "-"
  | bitNot => "~"
  | not => "!"
  | lowByte => "<"
  | highByte => ">"

def ofSign? (text : String) : Option UnaryOp :=
  all.find? fun op => op.sign == text

end UnaryOp

/-- An operator between its operands. -/
inductive BinaryOp where
  | add
  | subtract
  | multiply
  | divide
  | modulo
  | bitAnd
  | and
  | bitOr
  | or
  | xor
  | equal
  | notEqual
  | less
  | lessEqual
  | greater
  | greaterEqual
  | shiftLeft
  | shiftRight
deriving DecidableEq, Repr, Inhabited

namespace BinaryOp

def all : List BinaryOp := [
  add, subtract, multiply, divide, modulo, bitAnd, and, bitOr, or, xor, equal, notEqual, less,
  lessEqual, greater, greaterEqual, shiftLeft, shiftRight]

def sign : BinaryOp -> String
  | add => "+"
  | subtract => "-"
  | multiply => "*"
  | divide => "/"
  | modulo => "%"
  | bitAnd => "&"
  | and => "&&"
  | bitOr => "|"
  | or => "||"
  | xor => "^"
  | equal => "=="
  | notEqual => "!="
  | less => "<"
  | lessEqual => "<="
  | greater => ">"
  | greaterEqual => ">="
  | shiftLeft => "<<"
  | shiftRight => ">>"

def ofSign? (text : String) : Option BinaryOp :=
  all.find? fun op => op.sign == text

end BinaryOp

/-- The two kinds of brackets around an expression. -/
inductive BracketKind where
  | round
  | square
deriving DecidableEq, Repr, Inhabited

inductive Expr where
  /-- A number as written, with its value unless its digits do not belong to its base. -/
  | number (text : String) (value : Option Int64) (location : Location)
  | identifier (identifier : Identifier)
  | dynamicLabel (label : DynamicLabel)
  /-- The text between quotes. -/
  | string (value : String) (location : Location)
  | char (value : Char) (location : Location)
  /-- The argument of a macro with the given ordinal. -/
  | macroArgument (ordinal : Nat) (location : Location)
  | unary (op : UnaryOp) (operand : Expr) (location : Location)
  | binary (op : BinaryOp) (left right : Expr) (location : Location)
  | brackets (kind : BracketKind) (inner : Expr) (location : Location)
deriving DecidableEq, Repr, Inhabited

namespace Expr

def location : Expr -> Location
  | number _ _ location => location
  | identifier id => id.location
  | dynamicLabel label => label.location
  | string _ location => location
  | char _ location => location
  | macroArgument _ location => location
  | unary _ _ location => location
  | binary _ _ _ location => location
  | brackets _ _ location => location

def children : Expr -> List Expr
  | unary _ operand _ => [operand]
  | binary _ left right _ => [left, right]
  | brackets _ inner _ => [inner]
  | _ => []

def parts : Expr -> List Expr
  | unary op operand location => unary op operand location :: operand.parts
  | binary op left right location => binary op left right location :: (left.parts ++ right.parts)
  | brackets kind inner location => brackets kind inner location :: inner.parts
  | e => [e]

end Expr

end Asm6502
