import Asm6502.Concrete.Command

/-!
# Rows

The tokens of a text up to its end are divided into rows by the line breaks.  Each row is read on
its own: it holds a label, a command, or the head of a block.  A fault never reaches beyond its
row.
-/

namespace Asm6502

namespace Concrete

/-- The tokens of a row and the line break or end of text at which it stops. -/
structure Row where
  tokens : List Token
  stop : Token
deriving DecidableEq, Repr, Inhabited

namespace Row

def number (row : Row) : Nat := (peek row.stop row.tokens).span.start.line

def head? (row : Row) : Option (Token × List Token) :=
  match skipBlanks row.tokens with
  | [] => none
  | token :: rest => some (token, rest)

end Row

/-- The mark at which reading ends: the first end of text among the tokens, or one behind the last
token. -/
def endMark (tokens : List Token) : Token :=
  match tokens.find? fun token => token.kind == .eof with
  | some token => token
  | none => Token.endOfText ((tokens.getLast?.map fun token => token.span.stop).getD .origin)

/-- Divides tokens into rows, up to the first end of text.  The last row stops at the given mark
when no line break ends it. -/
def rowsUpTo (mark : Token) : List Token -> List Row
  | [] => []
  | token :: rest =>
      if token.kind = .eof then []
      else if token.kind = .newline then ⟨[], token⟩ :: rowsUpTo mark rest
      else
        match rowsUpTo mark rest with
        | [] => [⟨[token], mark⟩]
        | row :: rows => ⟨token :: row.tokens, row.stop⟩ :: rows

def rows (tokens : List Token) : List Row :=
  rowsUpTo (endMark tokens) tokens

/-- What a row holds besides its label. -/
inductive Content where
  | command (command : Option Command)
  | conditional (keyword : Token) (condition : Option Expr)
  | repetition (keyword : Token) (count : Option Expr)
  | macroBlock (keyword : Token) (name : Option Token)
deriving DecidableEq, Repr, Inhabited

/-- Nothing but white space may be left on a row. -/
def restErrors (stop : Token) (tokens : List Token) : List ParseError :=
  match skipBlanks tokens with
  | [] => []
  | token :: rest => [unexpected stop (token :: rest) .endOfLine]

/-- Reads the expression at the head of a block.  Nothing may follow it on its row. -/
def readHeadExpr (stop : Token) (expected : Expected) (tokens : List Token)
    (levels : Nat := nestingLimit) : Option Expr × List ParseError :=
  match skipBlanks tokens with
  | [] => (none, [unexpected stop [] expected])
  | first :: rest =>
      match readExpr stop false (first :: rest) levels with
      | .error error => (none, [error])
      | .ok (e, rest) => (some e, restErrors stop rest)

/-- Reads the name of a macro, which can be any token.  Nothing may follow it on its row. -/
def readMacroName (stop : Token) (tokens : List Token) : Option Token × List ParseError :=
  match skipBlanks tokens with
  | [] => (none, [unexpected stop [] .macroName])
  | name :: rest => (some name, restErrors stop rest)

def readContent (stop first : Token) (tokens : List Token) (levels : Nat := nestingLimit) :
    Content × List ParseError :=
  match first.kind with
  | .ifWord | .ifConstWord | .ifNConstWord =>
      let (condition, errors) := readHeadExpr stop .condition tokens levels
      (.conditional first condition, errors)
  | .repeatWord =>
      let (count, errors) := readHeadExpr stop .repeatCount tokens levels
      (.repetition first count, errors)
  | .macWord =>
      let (name, errors) := readMacroName stop tokens
      (.macroBlock first name, errors)
  | .identifier | .equals =>
      let (command, errors) := readCommandTail stop (some first) tokens levels
      (.command (some command), errors)
  | kind =>
      if startsArgument kind then
        let (command, errors) := readCommandTail stop none (first :: tokens) levels
        (.command (some command), errors)
      else (.command none, [unexpected stop (first :: tokens) .command])

def readBehindLabel (stop : Token) (hasLabel : Bool) (tokens : List Token)
    (levels : Nat := nestingLimit) : Content × List ParseError :=
  match tokens with
  | [] => (.command none, [])
  | first :: rest =>
      if first.kind = .whitespace then
        match skipBlanks rest with
        | [] => (.command none, [])
        | first :: rest => readContent stop first rest levels
      else if hasLabel ∧ first.kind ≠ .equals then
        (.command none, [unexpected stop tokens .whitespaceAfterLabel])
      else readContent stop first rest levels

/-- The label and the content of a row, with its faults in order. -/
def Row.read (row : Row) (levels : Nat := nestingLimit) :
    Option Label × Content × List ParseError :=
  let (label, rest) := readLabel? row.tokens
  let (content, errors) := readBehindLabel row.stop label.isSome rest levels
  (label, content, errors)

end Concrete

end Asm6502
