import Asm6502.Concrete.File

/-!
# Steps over rows

What a row does depends on the innermost open block and on the first token of the row.  The block
can take the row as a line, be closed by it, go over to its second part, or pass over it.
-/

namespace Asm6502

namespace Concrete

/-- What the innermost open block makes of a row. -/
inductive Turn where
  | read
  | close (token : Token) (rest : List Token)
  /-- A conditional goes over to its second part. -/
  | divide (start : LineStart) (keyword : Token) (condition : Option Expr) (token : Token)
      (rest : List Token)
  /-- A row of a macro body, which ends in the given span. -/
  | pass (start : LineStart) (keyword : Token) (name : Option Token) (last : Span)

/-- The span in which a row of a macro body ends. -/
def Row.lastSpan (row : Row) : Span :=
  (if row.stop.kind = .newline then row.stop else row.tokens.getLastD row.stop).span

def OpenBlock.turn (row : Row) (block : OpenBlock) : Turn :=
  match block, row.head? with
  | .thenPart start keyword condition, some (token, rest) =>
      if token.kind = .elseWord then .divide start keyword condition token rest
      else if token.kind = .endIfWord then .close token rest
      else .read
  | .elsePart .., some (token, rest) =>
      if token.kind = .endIfWord then .close token rest else .read
  | .repetition .., some (token, rest) =>
      if token.kind = .rependWord then .close token rest else .read
  | .macroBlock start keyword name _, some (token, rest) =>
      if token.kind = .endMWord then .close token rest
      else .pass start keyword name row.lastSpan
  | .macroBlock start keyword name _, none => .pass start keyword name row.lastSpan
  | _, none => .read

namespace LineStart

def onRow (start : LineStart) (comment : Token) : Bool :=
  comment.span.start.line == start.number

def margin (start : LineStart) (content : Option Span) (comment : Option Token) : Margin :=
  ⟨start.label, comment, (Span.cover? ((start.label.map Label.span).toList ++ content.toList ++
    (comment.map Token.span).toList)).getD (.empty ⟨start.number, 0⟩)⟩

end LineStart

namespace State

/-- The state in front of the first row. -/
def fresh (comments : List Token) : State := ⟨[], [], [], comments, []⟩

def fault (state : State) (faults : List ParseError) : State :=
  { state with errors := state.errors ++ faults }

def opened (state : State) (block : OpenBlock) : State :=
  { state with frames := ⟨state.lines, block⟩ :: state.frames, lines := [] }

/-- The state after the innermost block met a row. -/
def take (source : List (List Char)) (state : State) (frame : Frame) (frames : List Frame)
    (row : Row) : Turn -> State
  | .read => state.readRow row
  | .close token rest =>
      (state.fault (restErrors row.stop rest)).close source frame frames (some token) row.number
  | .divide start keyword condition token rest =>
      { state with
        frames := ⟨frame.before, .elsePart start keyword condition state.lines token⟩ :: frames
        lines := []
        errors := state.errors ++ restErrors row.stop rest }
  | .pass start keyword name last =>
      { state with frames := ⟨frame.before, .macroBlock start keyword name (some last)⟩ :: frames }

theorem addLine_eq (state : State) (start : LineStart) (content : Option Span)
    (build : Margin -> Line) :
    state.addLine start content build =
      { state with
        lines := state.lines ++
          [build (start.margin content (state.comments.find? start.onRow))]
        comments := state.comments.filter fun comment => !start.onRow comment } :=
  rfl

theorem step_of_no_frames (source : List (List Char)) {state : State} (h : state.frames = [])
    (row : Row) : state.step source row = state.readRow row := by
  simp [step, h]

theorem step_of_frames (source : List (List Char)) {state : State} {frame : Frame}
    {frames : List Frame} (h : state.frames = frame :: frames) (row : Row) :
    state.step source row = state.take source frame frames row (frame.block.turn row) := by
  obtain ⟨before, block⟩ := frame
  simp only [step, h, OpenBlock.turn]
  cases block with
  | thenPart start keyword condition =>
      cases row.head? with
      | none => rfl
      | some head =>
          simp only
          split
          · rfl
          · split
            · simp only [take, fault, h]
            · rfl
  | elsePart start keyword condition thenLines elseKeyword =>
      cases row.head? with
      | none => rfl
      | some head =>
          simp only
          split
          · simp only [take, fault, h]
          · rfl
  | repetition start keyword count =>
      cases row.head? with
      | none => rfl
      | some head =>
          simp only
          split
          · simp only [take, fault, h]
          · rfl
  | macroBlock start keyword name last =>
      cases row.head? with
      | none => rfl
      | some head =>
          simp only
          split
          · simp only [take, fault, h]
          · rfl

theorem readRow_eq (state : State) (row : Row) :
    state.readRow row =
      match row.read.2.1 with
      | .command command =>
          (state.fault row.read.2.2).addLine ⟨row.read.1, row.number⟩ (command.map Command.span)
            fun margin => .command margin command
      | .conditional keyword condition =>
          (state.fault row.read.2.2).opened
            (.thenPart ⟨row.read.1, row.number⟩ keyword condition)
      | .repetition keyword count =>
          (state.fault row.read.2.2).opened (.repetition ⟨row.read.1, row.number⟩ keyword count)
      | .macroBlock keyword name =>
          (state.fault row.read.2.2).opened
            (.macroBlock ⟨row.read.1, row.number⟩ keyword name none) :=
  rfl

theorem frames_close (source : List (List Char)) (state : State) (frame : Frame)
    (frames : List Frame) (ending : Option Token) (endRow : Nat) :
    (state.close source frame frames ending endRow).frames = frames := by
  unfold close
  cases frame.block <;> rfl

/-- At the end of the text no block stays open. -/
theorem frames_closeAll (source : List (List Char)) (frames : List Frame) (state : State)
    (h : state.frames = frames) : (closeAll source frames state).frames = [] := by
  induction frames generalizing state with
  | nil => exact h
  | cons frame frames ih => exact ih _ (frames_close source _ frame frames none source.length)

/-- What stands in the file once all open blocks are closed. -/
def finish (source : List (List Char)) (state : State) : ConcreteFile :=
  let closed := closeAll source state.frames state
  ⟨closed.lines, closed.errors, closed.rawRows⟩

end State

end Concrete

theorem ConcreteFile.ofTokens_eq (tokens comments : List Token) (source : String) :
    ConcreteFile.ofTokens tokens comments source =
      ((Concrete.rows tokens).foldl (Concrete.State.step (Concrete.sourceRows source.toList))
        (Concrete.State.fresh comments)).finish (Concrete.sourceRows source.toList) :=
  rfl

end Asm6502
