import Asm6502.Text.Position

/-!
# Tokens

The lexical units of a source text.  A token keeps its text exactly as written and the span where
it stands.  Keywords that open or close blocks have kinds of their own.
-/

namespace Asm6502

inductive Token.Kind where
  /-- A label, mnemonic, directive or symbol name, its leading dot included. -/
  | identifier
  /-- A number with the sign `%`. -/
  | binary
  /-- A number with a leading zero. -/
  | octal
  | decimal
  /-- A number with the sign `$`. -/
  | hex
  /-- A string, its quotes included. -/
  | stringLiteral
  /-- An apostrophe and one character. -/
  | charLiteral
  | hash
  | comma
  | colon
  | parenLeft
  | parenRight
  | bracketLeft
  | bracketRight
  | braceLeft
  | braceRight
  | dot
  | doubleDot
  | tripleDot
  | star
  | plus
  | minus
  | slash
  | percent
  | ampersand
  | doubleAmpersand
  | pipe
  | doublePipe
  | caret
  | tilde
  | bang
  | question
  | equals
  | doubleEquals
  | notEquals
  | less
  | lessEqual
  | greater
  | greaterEqual
  | shiftLeft
  | shiftRight
  /-- The ending `,X` of an indexed address. -/
  | commaX
  /-- The ending `,Y` of an indexed address. -/
  | commaY
  /-- The ending `,X)` of an indexed indirect address. -/
  | commaXParen
  /-- The ending `),Y` of an indirect indexed address. -/
  | parenCommaY
  | ifWord
  | ifConstWord
  | ifNConstWord
  | elseWord
  | endIfWord
  | repeatWord
  | rependWord
  | macWord
  | endMWord
  /-- A comment, which never stands among the other tokens. -/
  | comment
  | newline
  | whitespace
  | eof
deriving DecidableEq, Repr, Inhabited

namespace Token.Kind

def name : Kind -> String
  | identifier => "Identifier"
  | binary => "Binary"
  | octal => "Octal"
  | decimal => "Decimal"
  | hex => "Hex"
  | stringLiteral => "StringLiteral"
  | charLiteral => "CharLiteral"
  | hash => "Hash"
  | comma => "Comma"
  | colon => "Colon"
  | parenLeft => "ParenLeft"
  | parenRight => "ParenRight"
  | bracketLeft => "BracketLeft"
  | bracketRight => "BracketRight"
  | braceLeft => "BraceLeft"
  | braceRight => "BraceRight"
  | dot => "Dot"
  | doubleDot => "DoubleDot"
  | tripleDot => "TripleDot"
  | star => "Star"
  | plus => "Plus"
  | minus => "Minus"
  | slash => "Slash"
  | percent => "Percent"
  | ampersand => "Ampersand"
  | doubleAmpersand => "DoubleAmpersand"
  | pipe => "Pipe"
  | doublePipe => "DoublePipe"
  | caret => "Caret"
  | tilde => "Tilde"
  | bang => "Bang"
  | question => "Question"
  | equals => "Equals"
  | doubleEquals => "DoubleEquals"
  | notEquals => "NotEquals"
  | less => "Less"
  | lessEqual => "LessEqual"
  | greater => "Greater"
  | greaterEqual => "GreaterEqual"
  | shiftLeft => "ShiftLeft"
  | shiftRight => "ShiftRight"
  | commaX => "CommaX"
  | commaY => "CommaY"
  | commaXParen => "CommaXParen"
  | parenCommaY => "ParenCommaY"
  | ifWord => "If"
  | ifConstWord => "IfConst"
  | ifNConstWord => "IfNConst"
  | elseWord => "Else"
  | endIfWord => "EndIf"
  | repeatWord => "Repeat"
  | rependWord => "Repend"
  | macWord => "Mac"
  | endMWord => "EndM"
  | comment => "Comment"
  | newline => "Newline"
  | whitespace => "Whitespace"
  | eof => "Eof"

def all : List Kind := [
  identifier, binary, octal, decimal, hex, stringLiteral, charLiteral, hash, comma, colon,
  parenLeft, parenRight, bracketLeft, bracketRight, braceLeft, braceRight, dot, doubleDot,
  tripleDot, star, plus, minus, slash, percent, ampersand, doubleAmpersand, pipe, doublePipe,
  caret, tilde, bang, question, equals, doubleEquals, notEquals, less, lessEqual, greater,
  greaterEqual, shiftLeft, shiftRight, commaX, commaY, commaXParen, parenCommaY, ifWord,
  ifConstWord, ifNConstWord, elseWord, endIfWord, repeatWord, rependWord, macWord, endMWord,
  comment, newline, whitespace, eof]

def ofName? (text : String) : Option Kind :=
  all.find? fun kind => kind.name == text

/-- A keyword spelled in capitals and without a dot. -/
def ofKeyword? : String -> Option Kind
  | "IF" => some ifWord
  | "IFCONST" => some ifConstWord
  | "IFNCONST" => some ifNConstWord
  | "ELSE" => some elseWord
  | "ENDIF" => some endIfWord
  | "EIF" => some endIfWord
  | "REPEAT" => some repeatWord
  | "REPEND" => some rependWord
  | "MAC" => some macWord
  | "MACRO" => some macWord
  | "ENDM" => some endMWord
  | _ => none

/-- Keywords open, divide or close a block. -/
def isKeyword : Kind -> Bool
  | ifWord | ifConstWord | ifNConstWord | elseWord | endIfWord | repeatWord | rependWord
  | macWord | endMWord => true
  | _ => false

def isNumber : Kind -> Bool
  | binary | octal | decimal | hex => true
  | _ => false

/-- Identifiers and keywords both name symbols where a label or an operand is expected. -/
def isWord (kind : Kind) : Bool :=
  kind == identifier || kind.isKeyword

def isBinarySign : Kind -> Bool
  | plus | minus | star | slash | percent | ampersand | doubleAmpersand | pipe | doublePipe
  | caret | doubleEquals | notEquals | less | lessEqual | greater | greaterEqual | shiftLeft
  | shiftRight => true
  | _ => false

def isUnarySign : Kind -> Bool
  | minus | tilde | bang | less | greater => true
  | _ => false

/-- Behind such a token a `%` is an operator and not the sign of a binary number. -/
def endsOperand (kind : Kind) : Bool :=
  kind.isWord || kind.isNumber ||
    match kind with
    | parenRight | bracketRight | braceRight | charLiteral | stringLiteral => true
    | _ => false

def isLineEnd : Kind -> Bool
  | newline | eof => true
  | _ => false

end Token.Kind

/-- A lexical unit: its kind, its text as written, and where it stands. -/
structure Token where
  kind : Token.Kind
  literal : String
  span : Span
deriving DecidableEq, Repr, Inhabited

namespace Token

def endOfText (p : Position) : Token := ⟨.eof, "", .empty p⟩

def text (token : Token) : String :=
  match token.kind with
  | .newline => token.span.text ++ ": Newline"
  | .eof => token.span.text ++ ": <eof>"
  | kind => token.span.text ++ ": " ++ kind.name ++ " '" ++ token.literal ++ "'"

end Token

end Asm6502
