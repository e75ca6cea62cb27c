import Asm6502.Concrete.Row

/-!
# Blocks of rows

The rows of a text are gone through one by one with the blocks that are still open.  A row that is
headed by the terminator of the innermost block closes it; a row that opens a block is kept until
then; any other row becomes a line of the innermost block.  At the end of the text all open blocks
are closed and reported.

The rows of a macro body are not read.  The body is the text of its rows.
-/

namespace Asm6502

namespace Concrete

/-- The rows of a source text, each with its line break.  A text ends in a row without one. -/
def sourceRows : List Char -> List (List Char)
  | [] => [[]]
  | '\n' :: rest => ['\n'] :: sourceRows rest
  | '\r' :: '\n' :: rest => ['\r', '\n'] :: sourceRows rest
  | '\r' :: rest => ['\r'] :: sourceRows rest
  | c :: rest =>
      match sourceRows rest with
      | [] => [[c]]
      | row :: rows => (c :: row) :: rows

def rowText (source : List (List Char)) (first stop : Nat) : String :=
  String.ofList ((source.drop first).take (stop - first)).flatten

/-- The row and the label of a line that opens a block. -/
structure LineStart where
  label : Option Label
  number : Nat
deriving DecidableEq, Repr, Inhabited

/-- A block whose terminator was not met yet. -/
inductive OpenBlock where
  /-- The first part of a conditional. -/
  | thenPart (start : LineStart) (keyword : Token) (condition : Option Expr)
  /-- The second part of a conditional, with the lines of the first. -/
  | elsePart (start : LineStart) (keyword : Token) (condition : Option Expr)
      (thenLines : List Line) (elseKeyword : Token)
  | repetition (start : LineStart) (keyword : Token) (count : Option Expr)
  /-- A macro, with the span of the last token that was passed over. -/
  | macroBlock (start : LineStart) (keyword : Token) (name : Option Token) (last : Option Span)
deriving Repr

/-- An open block and the lines before it in the block around it. -/
structure Frame where
  before : List Line
  block : OpenBlock
deriving Repr

structure State where
  /-- The open blocks, the innermost first. -/
  frames : List Frame
  /-- The lines of the innermost block so far. -/
  lines : List Line
  errors : List ParseError
  /-- The comments that no line has taken yet. -/
  comments : List Token
  /-- The rows of macro bodies, each range with its end excluded. -/
  rawRows : List (Nat × Nat)
deriving Repr

namespace State

/-- Adds a line to the innermost block.  It takes the first comment on its first row. -/
def addLine (state : State) (start : LineStart) (content : Option Span)
    (build : Margin -> Line) : State :=
  let onRow := fun comment : Token => comment.span.start.line == start.number
  let comment := state.comments.find? onRow
  let span := (Span.cover? ((start.label.map Label.span).toList ++ content.toList ++
    (comment.map Token.span).toList)).getD (.empty ⟨start.number, 0⟩)
  { state with
    lines := state.lines ++ [build ⟨start.label, comment, span⟩]
    comments := state.comments.filter fun comment => !onRow comment }

/-- Closes a block whose lines are the current ones. -/
def close (source : List (List Char)) (state : State) (frame : Frame) (frames : List Frame)
    (ending : Option Token) (endRow : Nat) : State :=
  let inner := state.lines
  let outer := { state with frames := frames, lines := frame.before }
  match frame.block with
  | .thenPart start keyword condition =>
      let span := (condition.toList.map Expr.span ++ inner.map Line.span ++
        ending.toList.map Token.span).foldl Span.union keyword.span
      outer.addLine start (some span) fun margin =>
        .conditional margin keyword condition inner none [] ending span
  | .elsePart start keyword condition thenLines elseKeyword =>
      let span := (condition.toList.map Expr.span ++ thenLines.map Line.span ++
        inner.map Line.span ++ [(ending.getD elseKeyword).span]).foldl Span.union keyword.span
      outer.addLine start (some span) fun margin =>
        .conditional margin keyword condition thenLines (some elseKeyword) inner ending span
  | .repetition start keyword count =>
      let span := (count.toList.map Expr.span ++ inner.map Line.span ++
        ending.toList.map Token.span).foldl Span.union keyword.span
      outer.addLine start (some span) fun margin =>
        .repetition margin keyword count inner ending span
  | .macroBlock start keyword name last =>
      let span := (name.toList.map Token.span ++ last.toList ++
        ending.toList.map Token.span).foldl Span.union keyword.span
      let firstRow := keyword.span.start.line + 1
      let stopRow := max endRow firstRow
      let body := rowText source firstRow stopRow
      { outer with rawRows := outer.rawRows ++ [(firstRow, stopRow)] }.addLine start (some span)
        fun margin => .macroBlock margin ⟨keyword, name, body, ending, span⟩

def readRow (state : State) (row : Row) : State :=
  let (label, content, errors) := row.read
  let start : LineStart := ⟨label, row.number⟩
  let state := { state with errors := state.errors ++ errors }
  let opened (block : OpenBlock) : State :=
    { state with frames := ⟨state.lines, block⟩ :: state.frames, lines := [] }
  match content with
  | .command command =>
      state.addLine start (command.map Command.span) fun margin => .command margin command
  | .conditional keyword condition => opened (.thenPart start keyword condition)
  | .repetition keyword count => opened (.repetition start keyword count)
  | .macroBlock keyword name => opened (.macroBlock start keyword name none)

def step (source : List (List Char)) (state : State) (row : Row) : State :=
  match state.frames with
  | [] => state.readRow row
  | frame :: frames =>
      let terminated (token : Token) (rest : List Token) : State :=
        { state with errors := state.errors ++ restErrors row.stop rest }.close source frame frames
          (some token) row.number
      match frame.block, row.head? with
      | .thenPart start keyword condition, some (token, rest) =>
          if token.kind = .elseWord then
            { state with
              frames := ⟨frame.before,
                .elsePart start keyword condition state.lines token⟩ :: frames
              lines := []
              errors := state.errors ++ restErrors row.stop rest }
          else if token.kind = .endIfWord then terminated token rest
          else state.readRow row
      | .elsePart .., some (token, rest) =>
          if token.kind = .endIfWord then terminated token rest else state.readRow row
      | .repetition .., some (token, rest) =>
          if token.kind = .rependWord then terminated token rest else state.readRow row
      | .macroBlock start keyword name _, head =>
          let passed : State :=
            let last :=
              if row.stop.kind = .newline then row.stop else row.tokens.getLastD row.stop
            { state with
              frames := ⟨frame.before,
                .macroBlock start keyword name (some last.span)⟩ :: frames }
          match head with
          | some (token, rest) =>
              if token.kind = .endMWord then terminated token rest else passed
          | none => passed
      | _, none => state.readRow row

def missing : OpenBlock -> ParseError
  | .thenPart _ keyword _ => .unterminatedBlock .endIf keyword
  | .elsePart _ keyword _ _ _ => .unterminatedBlock .endIf keyword
  | .repetition _ keyword _ => .unterminatedBlock .repend keyword
  | .macroBlock _ keyword _ _ => .unterminatedBlock .endM keyword

/-- Closes the blocks that are open at the end of the text, the innermost first. -/
def closeAll (source : List (List Char)) : List Frame -> State -> State
  | [], state => state
  | frame :: frames, state =>
      closeAll source frames
        ({ state with errors := state.errors ++ [missing frame.block] }.close source frame frames
          none source.length)

end State

end Concrete

/-- The lines of a text, its faults and the rows of its macro bodies. -/
structure ConcreteFile where
  lines : List Concrete.Line
  errors : List ParseError
  rawRows : List (Nat × Nat)
deriving Repr

namespace ConcreteFile

def span (file : ConcreteFile) : Span :=
  (Span.cover? (file.lines.map Concrete.Line.span)).getD .origin

/-- Reads the lines of a text from its tokens and comments.  The text itself is only used for the
bodies of macros. -/
def ofTokens (tokens comments : List Token) (source : String) : ConcreteFile :=
  let text := Concrete.sourceRows source.toList
  let start : Concrete.State := ⟨[], [], [], comments, []⟩
  let state := (Concrete.rows tokens).foldl (Concrete.State.step text) start
  let state := Concrete.State.closeAll text state.frames state
  ⟨state.lines, state.errors, state.rawRows⟩

end ConcreteFile

end Asm6502
