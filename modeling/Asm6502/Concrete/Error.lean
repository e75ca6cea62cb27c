import Asm6502.Token

/-!
# Faults of the grammar

What can be wrong with the tokens of a row or with the nesting of blocks.
-/

namespace Asm6502

namespace Concrete

def nestingLimit : Nat := 256

/-- What should have stood in the place of a token. -/
inductive Expected where
  | argument
  | argumentSeparator
  | closingBrace
  | closingBracket
  | closingParen
  | command
  | condition
  | endOfLine
  | expression
  | indirectEnding
  | macroArgumentNumber
  | macroName
  | repeatCount
  | whitespaceAfterLabel
deriving DecidableEq, Repr, Inhabited

def Expected.text : Expected -> String
  | argument => "argument"
  | argumentSeparator => "',' or whitespace"
  | closingBrace => "'\x7d'"
  | closingBracket => "']'"
  | closingParen => "')'"
  | command => "command"
  | condition => "condition"
  | endOfLine => "end of line"
  | expression => "expression"
  | indirectEnding => "')', ',X)' or '),Y'"
  | macroArgumentNumber => "macro argument number"
  | macroName => "macro name"
  | repeatCount => "repeat count"
  | whitespaceAfterLabel => "whitespace after label"

inductive Terminator where
  | endIf
  | repend
  | endM
deriving DecidableEq, Repr, Inhabited

def Terminator.text : Terminator -> String
  | endIf => "ENDIF"
  | repend => "REPEND"
  | endM => "ENDM"

end Concrete

inductive ParseError where
  | unexpectedToken (expected : Concrete.Expected) (found : Token)
  | unterminatedBlock (expected : Concrete.Terminator) (opened : Token)
  | unknownExtension (token : Token)
  | nestingTooDeep (token : Token)
deriving DecidableEq, Repr, Inhabited

namespace ParseError

def token : ParseError -> Token
  | unexpectedToken _ found => found
  | unterminatedBlock _ opened => opened
  | unknownExtension token => token
  | nestingTooDeep token => token

def span (error : ParseError) : Span := error.token.span

def describe (token : Token) : String :=
  match token.kind with
  | .newline => "end of line"
  | .eof => "end of file"
  | _ => "'" ++ token.literal ++ "'"

def message : ParseError -> String
  | unexpectedToken expected found => "Expected " ++ expected.text ++ ", found " ++ describe found
  | unterminatedBlock expected opened =>
      "Missing " ++ expected.text ++ " for '" ++ opened.literal ++ "'"
  | unknownExtension token => "Unknown command extension '" ++ token.literal ++ "'"
  | nestingTooDeep _ =>
      "Expression nested deeper than " ++ toString Concrete.nestingLimit ++ " levels"

end ParseError

end Asm6502
