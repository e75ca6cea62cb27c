import Asm6502.Concrete.File

/-!
# Reading by position

Lines are read from a place that moves over the tokens one by one.  Two counters go with the place:
the brackets around it, inside which white space is insignificant, and the levels of the expression
that is being read.  Faults are noted where they are met, and every reader that gives up leaves the
place where it stands.

No loop comes with a measure: a reader gives no answer if it never ends.
-/

namespace Asm6502

namespace Concrete

/-- A place among the tokens of a text, with what was found in front of it. -/
structure Cursor where
  tokens : List Token
  source : List (List Char)
  position : Nat
  /-- The comments that no line has taken yet. -/
  comments : List Token
  /-- The number of brackets around the place. -/
  depth : Nat
  /-- The levels of the expression that is being read. -/
  nesting : Nat
  rawRows : List (Nat × Nat)
  errors : List ParseError

namespace Cursor

def start (tokens comments : List Token) (source : String) : Cursor :=
  ⟨tokens, sourceRows source.toList, 0, comments, 0, 0, [], []⟩

/-- What stands behind the last token: an end of text, which may be that token itself. -/
def behindLast (tokens : List Token) : Token :=
  match tokens.getLast? with
  | some token => if token.kind = .eof then token else .endOfText token.span.stop
  | none => .endOfText .origin

def ahead (c : Cursor) (count : Nat) : Token :=
  c.tokens[c.position + count]?.getD (behindLast c.tokens)

def current (c : Cursor) : Token := c.ahead 0

def kind (c : Cursor) : Token.Kind := c.current.kind

def goto (c : Cursor) (position : Nat) : Cursor := { c with position := position }

/-- The place behind the current token.  It stays behind the last one. -/
def next (c : Cursor) : Cursor :=
  if c.position < c.tokens.length then c.goto (c.position + 1) else c

def fault (c : Cursor) (error : ParseError) : Cursor :=
  { c with errors := c.errors ++ [error] }

def expected (c : Cursor) (what : Expected) : Cursor :=
  c.fault (.unexpectedToken what c.current)

/-! ## Rows -/

def skipSpace (c : Cursor) : Option Cursor :=
  if c.kind = .whitespace then c.next |>.skipSpace else some c
partial_fixpoint

def skipRow (c : Cursor) : Option Cursor :=
  if c.kind.isLineEnd then some c else c.next |>.skipRow
partial_fixpoint

/-- Nothing but white space may be left on a row.  Its line break is passed over. -/
def finishRow (c : Cursor) : Option Cursor := do
  let c <- c.skipSpace
  let c <- if c.kind.isLineEnd then some c else (c.expected .endOfLine).skipRow
  return if c.kind = .newline then c.next else c

/-- The first token from some places on that is not white space. -/
def headFrom (c : Cursor) (count : Nat) : Option Token :=
  if (c.ahead count).kind = .whitespace then c |>.headFrom (count + 1) else some (c.ahead count)
partial_fixpoint

def atTerminator (c : Cursor) (terminators : List Token.Kind) : Option Bool := do
  let token <- c.headFrom 0
  return terminators.contains token.kind

def takeTerminator (c : Cursor) (terminator : Token.Kind) : Option (Option Token × Cursor) := do
  if <- c.atTerminator [terminator] then
    let c <- c.skipSpace
    return (some c.current, c.next)
  else return (none, c)

/-! ## Expressions -/

def skipInside (c : Cursor) : Option Cursor :=
  if 0 < c.depth then c.skipSpace else some c

def expect (c : Cursor) (kind : Token.Kind) (what : Expected) :
    Option (Option Token × Cursor) :=
  if c.kind = kind then some (some c.current, c.next) else some (none, c.expected what)

def macroArgument (c : Cursor) : Option (Option Expr × Cursor) := do
  let opening := c.current
  match <- c.next.expect .decimal .macroArgumentNumber with
  | (none, c) => return (none, c)
  | (some number, c) =>
      match <- c.expect .braceRight .closingBrace with
      | (none, c) => return (none, c)
      | (some closing, c) => return (some (.macroArgument opening number closing), c)

/-- Inside brackets a comma joins names into one label. -/
def joinNames (c : Cursor) (names : List Token) : Option (List Token × Cursor) :=
  if 0 < c.depth ∧ c.kind = .comma ∧ (c.ahead 1).kind.isWord then
    c.next.next |>.joinNames (names ++ [c.next.current])
  else some (names, c)
partial_fixpoint

mutual

def expression (c : Cursor) : Option (Option Expr × Cursor) := do
  match <- c |>.operandBelow with
  | (none, c) => return (none, c)
  | (some left, c) => c |>.tail left
partial_fixpoint

/-- The chain behind an operand.  Its levels are given back behind it. -/
def tail (c : Cursor) (left : Expr) : Option (Option Expr × Cursor) := do
  let (e, last) <- c |>.chain left
  return (e, { last with nesting := c.nesting })
partial_fixpoint

def chain (c : Cursor) (left : Expr) : Option (Option Expr × Cursor) := do
  let c <- c.skipInside
  if c.kind.isBinarySign then
    let operator := c.current
    let c <- c.next.skipInside
    match <- { c with nesting := c.nesting + 1 } |>.operandBelow with
    | (none, c) => return (none, c)
    | (some right, c) => c |>.chain (.binary left operator right)
  else return (some left, c)
partial_fixpoint

/-- An operand one level further down, if there is one left. -/
def operandBelow (c : Cursor) : Option (Option Expr × Cursor) :=
  if nestingLimit ≤ c.nesting then some (none, c.fault (.nestingTooDeep c.current))
  else do
    let (e, c) <- { c with nesting := c.nesting + 1 } |>.operand
    return (e, { c with nesting := c.nesting - 1 })
partial_fixpoint

def operand (c : Cursor) : Option (Option Expr × Cursor) :=
  let token := c.current
  if token.kind = .parenLeft then c |>.brackets .parenRight .closingParen (.round token)
  else if token.kind = .bracketLeft then c |>.brackets .bracketRight .closingBracket (.square token)
  else if token.kind = .braceLeft then c.macroArgument
  else if token.kind.isUnarySign then do
    match <- c.next |>.operandBelow with
    | (none, c) => return (none, c)
    | (some e, c) => return (some (.unary token e), c)
  else if isAtom token.kind then some (some (.atom token), c.next)
  else if token.kind.isWord then do
    let (names, c) <- c.next.joinNames [token]
    return (some (.label names), c)
  else some (none, c.expected .expression)
partial_fixpoint

def brackets (c : Cursor) (closing : Token.Kind) (what : Expected)
    (build : Expr -> Token -> Expr) : Option (Option Expr × Cursor) := do
  match <- c |>.bracketed with
  | (none, c) => return (none, c)
  | (some inner, c) =>
      match <- c.expect closing what with
      | (none, c) => return (none, c)
      | (some closing, c) => return (some (build inner closing), c)
partial_fixpoint

/-- What an opening bracket encloses.  The brackets around the place are counted back whatever was
read. -/
def bracketed (c : Cursor) : Option (Option Expr × Cursor) := do
  let c <- { c.next with depth := c.next.depth + 1 }.skipSpace
  let (value, c) <- c |>.expression
  let c <- c.skipSpace
  return (value, { c with depth := c.depth - 1 })
partial_fixpoint

end

/-! ## Labels -/

def labelFragments (c : Cursor) (fragments : List Token) : Option (List Token × Cursor) :=
  if c.kind = .comma ∧ (c.ahead 1).kind.isWord then
    c.next.next |>.labelFragments (fragments ++ [c.next.current])
  else if c.kind = .commaX ∨ c.kind = .commaY then
    c.next |>.labelFragments (fragments ++ [endingFragment c.current])
  else some (fragments, c)
partial_fixpoint

def labelEnding (c : Cursor) (first : Token) (others : List Token) : Label × Cursor :=
  if c.kind = .colon then (⟨first, others, some c.current⟩, c.next)
  else (⟨first, others, none⟩, c)

/-- Only a name can have further fragments. -/
def label (c : Cursor) : Option (Label × Cursor) :=
  let first := c.current
  if first.kind = .identifier then do
    let (others, c) <- c.next.labelFragments []
    return c.labelEnding first others
  else some (c.next.labelEnding first [])

/-- A label starts in the first column, or anywhere when directly followed by a colon. -/
def label? (c : Cursor) : Option (Option Label × Cursor) := do
  if (c.kind = .identifier ∨ c.kind = .dot) ∧ c.current.span.start.column = 0 then
    let (label, c) <- c.label
    return (some label, c)
  else if c.kind = .whitespace ∧ (c.ahead 1).kind = .identifier ∧ (c.ahead 2).kind = .colon then
    let c <- c.skipSpace
    let (label, c) <- c.label
    return (some label, c)
  else return (none, c)

/-! ## Commands -/

def address (c : Cursor) (value : Expr) : Option Argument × Cursor :=
  if c.kind = .commaX ∨ c.kind = .commaY then (some (.address value (some c.current)), c.next)
  else (some (.address value none), c)

/-- The ending of an indirect argument.  Parentheses that more of an expression or an index by X
follows only group a part of an address. -/
def indirectEnding (c : Cursor) (opening : Token) (value : Expr) :
    Option (Option Argument × Cursor) := do
  let closing := c.current
  if closing.kind = .parenRight then
    let c := c.next
    if c.kind.isBinarySign ∨ c.kind = .commaX then
      match <- c.tail (.round opening value closing) with
      | (none, c) => return (none, c)
      | (some value, c) => return c.address value
    else return (some (.indirect opening value closing), c)
  else if closing.kind = .commaXParen ∨ closing.kind = .parenCommaY then
    return (some (.indirect opening value closing), c.next)
  else return (none, c.expected .indirectEnding)

def indirect (c : Cursor) : Option (Option Argument × Cursor) := do
  let opening := c.current
  match <- c.bracketed with
  | (none, c) => return (none, c)
  | (some value, c) => c.indirectEnding opening value

def argument (c : Cursor) : Option (Option Argument × Cursor) := do
  let first := c.current
  if first.kind = .hash then
    match <- c.next.expression with
    | (none, c) => return (none, c)
    | (some value, c) => return (some (.immediate first value), c)
  else if first.kind = .parenLeft then c.indirect
  else
    match <- c.expression with
    | (none, c) => return (none, c)
    | (some value, c) => return c.address value

def separator (c : Cursor) (afterName isFirst spaced : Bool) : Option (Bool × Cursor) := do
  if !isFirst || (afterName && !spaced) then
    if c.kind = .comma then
      let c <- c.next.skipSpace
      if c.kind.isLineEnd then return (false, c.expected .argument) else return (true, c)
    else if !spaced && !isFirst then
      let c <- (c.expected .argumentSeparator).skipRow
      return (false, c)
    else return (true, c)
  else return (true, c)

def arguments (c : Cursor) (afterName : Bool) (found : List Argument) :
    Option (List Argument × Cursor) := do
  let first <- c.skipSpace
  if first.kind.isLineEnd then return (found, first)
  else
    let (follows, c) <- first.separator afterName found.isEmpty (first.position != c.position)
    if follows then
      match <- c.argument with
      | (some argument, c) => c |>.arguments afterName (found ++ [argument])
      | (none, c) => return (found, <- c.skipRow)
    else return (found, c)
partial_fixpoint

def extension (c : Cursor) (name : Token) : Option Token × Cursor :=
  let ext := c.current
  if ext.kind = .identifier ∧ ext.literal.toList.head? = some '.' ∧
      ext.span.start = name.span.stop then
    (some ext,
      if (Extension.ofSuffix? ext.literal).isNone then c.next.fault (.unknownExtension ext)
      else c.next)
  else (none, c)

def commandTail (c : Cursor) (name ext : Option Token) : Option (Command × Cursor) := do
  let (arguments, c) <- c.arguments name.isSome []
  return (⟨name, ext, arguments, commandSpan c.current name ext arguments⟩, c)

def command (c : Cursor) : Option (Command × Cursor) :=
  if c.kind = .identifier ∨ c.kind = .equals then
    let (ext, next) := c.next.extension c.current
    next.commandTail (some c.current) ext
  else c.commandTail none none

/-- The expression at the head of a block.  A broken one gives up its row. -/
def headExpression (c : Cursor) (what : Expected) : Option (Option Expr × Cursor) := do
  let c <- c.skipSpace
  if c.kind.isLineEnd then return (none, c.expected what)
  else
    match <- c.expression with
    | (none, c) => return (none, <- c.skipRow)
    | (some e, c) => return (some e, c)

/-! ## Lines -/

structure Body where
  span : Option Span
  line : Margin -> Line

namespace Body

def ofCommand (command : Option Command) : Body :=
  ⟨command.map Command.span, fun margin => .command margin command⟩

def ofConditional (keyword : Token) (condition : Option Expr) (thenLines : List Line)
    (elseKeyword : Option Token) (elseLines : List Line) (ending : Option Token) : Body :=
  let span := (condition.toList.map Expr.span ++ thenLines.map Line.span ++
    elseLines.map Line.span ++ (ending.or elseKeyword).toList.map Token.span).foldl Span.union
      keyword.span
  ⟨some span, fun margin =>
    .conditional margin keyword condition thenLines elseKeyword elseLines ending span⟩

def ofRepetition (keyword : Token) (count : Option Expr) (lines : List Line)
    (ending : Option Token) : Body :=
  let span := (count.toList.map Expr.span ++ lines.map Line.span ++
    ending.toList.map Token.span).foldl Span.union keyword.span
  ⟨some span, fun margin => .repetition margin keyword count lines ending span⟩

def ofMacro (keyword : Token) (name : Option Token) (last : Option Span) (text : String)
    (ending : Option Token) : Body :=
  let span := (name.toList.map Token.span ++ last.toList ++
    ending.toList.map Token.span).foldl Span.union keyword.span
  ⟨some span, fun margin => .macroBlock margin ⟨keyword, name, text, ending, span⟩⟩

end Body

def commandBody (c : Cursor) : Option (Body × Cursor) := do
  if c.kind = .identifier ∨ c.kind = .equals ∨ startsArgument c.kind then
    let (command, c) <- c.command
    return (.ofCommand (some command), c)
  else
    let c <- (c.expected .command).skipRow
    return (.ofCommand none, c)

def passRow (c : Cursor) : Option (Span × Cursor) :=
  if c.kind.isLineEnd ∨ c.next.kind = .eof then some (c.current.span, c.next)
  else c.next |>.passRow
partial_fixpoint

def passRows (c : Cursor) (last : Option Span) : Option (Option Span × Cursor) := do
  if c.kind = .eof then return (last, c)
  else if <- c.atTerminator [.endMWord] then return (last, c)
  else
    let (span, c) <- c.passRow
    c |>.passRows (some span)
partial_fixpoint

/-- The number of the row at which a block ends.  The text ends behind its last row. -/
def endRow (c : Cursor) : Nat :=
  if c.kind = .eof then c.source.length else c.current.span.start.line

/-- A block without its terminator is reported. -/
def orMissing (c : Cursor) (ending : Option Token) (error : ParseError) : Cursor :=
  if ending.isNone then c.fault error else c

/-- The name of a macro can be any token. -/
def macroName (c : Cursor) : Option (Option Token × Cursor) := do
  let c <- c.skipSpace
  if c.kind.isLineEnd then return (none, c.expected .macroName)
  else return (some c.current, c.next)

/-- A macro behind its first row.  Its body is the text of its rows. -/
def macroBody (c : Cursor) (keyword : Token) (name : Option Token) : Option (Body × Cursor) := do
  let (last, c) <- c.passRows none
  let firstRow := keyword.span.start.line + 1
  let stopRow := max c.endRow firstRow
  let text := rowText c.source firstRow stopRow
  let (ending, c) <-
    { c with rawRows := c.rawRows ++ [(firstRow, stopRow)] }.takeTerminator .endMWord
  return (.ofMacro keyword name last text ending,
    c.orMissing ending (.unterminatedBlock .endM keyword))

def macroBlock (c : Cursor) : Option (Body × Cursor) := do
  let keyword := c.current
  let (name, c) <- c.next.macroName
  let c <- c.finishRow
  c.macroBody keyword name

/-- A line takes the first comment on its first row. -/
def addMargin (c : Cursor) (label : Option Label) (row : Nat) (body : Body) : Line × Cursor :=
  let onRow := fun comment : Token => comment.span.start.line == row
  let comment := c.comments.find? onRow
  let span := (Span.cover? ((label.map Label.span).toList ++ body.span.toList ++
    (comment.map Token.span).toList)).getD (.empty ⟨row, 0⟩)
  (body.line ⟨label, comment, span⟩,
    { c with comments := c.comments.filter fun comment => !onRow comment })

def endIf (c : Cursor) (keyword : Token) (condition : Option Expr) (thenLines : List Line)
    (elseKeyword : Option Token) (elseLines : List Line) : Option (Body × Cursor) := do
  let (ending, c) <- c.takeTerminator .endIfWord
  return (.ofConditional keyword condition thenLines elseKeyword elseLines ending,
    c.orMissing ending (.unterminatedBlock .endIf keyword))

mutual

def lines (c : Cursor) (terminators : List Token.Kind) (found : List Line) :
    Option (List Line × Cursor) := do
  if c.kind = .eof then return (found, c)
  else if <- c.atTerminator terminators then return (found, c)
  else
    let (line, c) <- c |>.line
    c |>.lines terminators (found ++ [line])
partial_fixpoint

def line (c : Cursor) : Option (Line × Cursor) := do
  let row := c.current.span.start.line
  let (label, c) <- c.label?
  let (body, c) <- c |>.behindLabel label.isSome
  let c <- c.finishRow
  return c.addMargin label row body
partial_fixpoint

def behindLabel (c : Cursor) (hasLabel : Bool) : Option (Body × Cursor) := do
  if hasLabel ∧ c.kind = .equals then c |>.body
  else if c.kind = .whitespace then
    let c <- c.skipSpace
    if c.kind.isLineEnd then return (.ofCommand none, c) else c |>.body
  else if c.kind.isLineEnd then return (.ofCommand none, c)
  else if hasLabel then
    let c <- (c.expected .whitespaceAfterLabel).skipRow
    return (.ofCommand none, c)
  else c |>.body
partial_fixpoint

def body (c : Cursor) : Option (Body × Cursor) :=
  match c.kind with
  | .ifWord | .ifConstWord | .ifNConstWord => c |>.conditional
  | .repeatWord => c |>.repetition
  | .macWord => c.macroBlock
  | _ => c.commandBody
partial_fixpoint

def conditional (c : Cursor) : Option (Body × Cursor) := do
  let keyword := c.current
  let (condition, c) <- c.next.headExpression .condition
  let c <- c.finishRow
  c |>.branches keyword condition
partial_fixpoint

def branches (c : Cursor) (keyword : Token) (condition : Option Expr) :
    Option (Body × Cursor) := do
  let (thenLines, c) <- c |>.lines [.elseWord, .endIfWord] []
  match <- c.takeTerminator .elseWord with
  | (none, c) => c.endIf keyword condition thenLines none []
  | (some elseKeyword, c) =>
      let c <- c.finishRow
      let (elseLines, c) <- c |>.lines [.endIfWord] []
      c.endIf keyword condition thenLines (some elseKeyword) elseLines
partial_fixpoint

def repetition (c : Cursor) : Option (Body × Cursor) := do
  let keyword := c.current
  let (count, c) <- c.next.headExpression .repeatCount
  let c <- c.finishRow
  c |>.repeated keyword count
partial_fixpoint

def repeated (c : Cursor) (keyword : Token) (count : Option Expr) : Option (Body × Cursor) := do
  let (lines, c) <- c |>.lines [.rependWord] []
  let (ending, c) <- c.takeTerminator .rependWord
  return (.ofRepetition keyword count lines ending,
    c.orMissing ending (.unterminatedBlock .repend keyword))
partial_fixpoint

end

end Cursor

end Concrete

/-- Reads the lines of a text by position. -/
def ConcreteFile.byPosition (tokens comments : List Token) (source : String) :
    Option (ConcreteFile × Concrete.Cursor) := do
  let (lines, c) <- (Concrete.Cursor.start tokens comments source).lines [] []
  return (⟨lines, c.errors, c.rawRows⟩, c)

end Asm6502
