import Asm6502.Proofs.BlockSteps

/-!
# Roles of rows

A row of a text starts a line, ends a block or a part of one, or is passed over in the body of a
macro.  A line is built from the row that starts it and, when that row opens a block, from the rows
up to the terminator of the block or up to the end of the text.  The open blocks are put together
step by step, so that how a line was built is an invariant of the steps; what holds of all lines is
proved by induction over how they were built.
-/

namespace Asm6502

namespace Concrete

/-! ## Rows of a line -/

structure EndRow where
  row : Row
  token : Token
  rest : List Token
  head : row.head? = some (token, rest)
  keyword : token.kind.isKeyword = true

inductive Role where
  /-- The row is a line or opens a block. -/
  | read (row : Row)
  | ends (ending : EndRow)
  /-- The row lies in the body of a macro. -/
  | passed (row : Row)

namespace Role

def row : Role -> Row
  | read row => row
  | ends ending => ending.row
  | passed row => row

def faults : Role -> List ParseError
  | read row => row.read.2.2
  | ends ending => restErrors ending.row.stop ending.rest
  | passed _ => []

end Role

def Row.start (row : Row) : LineStart := ⟨row.read.1, row.number⟩

def LineStart.Takes (comments : List Token) (start : LineStart) (comment : Option Token) : Prop :=
  ∀ c ∈ comment, c ∈ comments ∧ start.onRow c = true

def word (last : Option EndRow) : Option Token := last.map EndRow.token

def stopRow (source : List (List Char)) (last : Option EndRow) : Nat :=
  last.elim source.length fun ending => ending.row.number

def closing (last : Option EndRow) : List Role := last.toList.map .ends

/-- What a block lacks that the end of the text closes. -/
def lacking (fault : ParseError) (last : Option EndRow) : List ParseError :=
  if last.isNone then [fault] else []

/-- Lines that are built from rows in their roles, with the rows of the bodies of macros and with
the faults of the blocks that the end of the text closes. -/
inductive Built (comments : List Token) (source : List (List Char)) :
    List Role -> List Line -> List (Nat × Nat) -> List ParseError -> Prop where
  | nil : Built comments source [] [] [] []
  | command {roles : List Role} {lines : List Line} {bodies : List (Nat × Nat)} {row : Row}
      {content : Option Command} {comment : Option Token}
      (before : Built comments source roles lines bodies [])
      (hread : row.read.2.1 = .command content) (hcomment : row.start.Takes comments comment) :
      Built comments source (roles ++ [.read row])
        (lines ++ [.command (row.start.margin (content.map Command.span) comment) content])
        bodies []
  | macroBlock {roles : List Role} {lines : List Line} {bodies : List (Nat × Nat)} {row : Row}
      {keyword : Token} {name comment : Option Token} {span : Span} {first stop : Nat}
      (passed : List Row) (last : Option EndRow)
      (before : Built comments source roles lines bodies [])
      (hread : row.read.2.1 = .macroBlock keyword name)
      (hcomment : row.start.Takes comments comment)
      (hpassed : ∀ row ∈ passed, ∀ head ∈ row.head?, head.1.kind ≠ .endMWord)
      (hlast : ∀ ending ∈ last, ending.token.kind = .endMWord)
      (hspan : span = (name.toList.map Token.span ++ (passed.getLast?.map Row.lastSpan).toList ++
        (word last).toList.map Token.span).foldl Span.union keyword.span)
      (hfirst : first = keyword.span.start.line + 1)
      (hstop : stop = max (stopRow source last) first) :
      Built comments source (roles ++ (.read row :: passed.map .passed ++ closing last))
        (lines ++ [.macroBlock (row.start.margin (some span) comment)
          ⟨keyword, name, rowText source first stop, word last, span⟩])
        (bodies ++ [(first, stop)]) (lacking (.unterminatedBlock .endM keyword) last)
  | conditional {roles thenRoles elseRoles : List Role} {lines thenLines elseLines : List Line}
      {bodies thenBodies elseBodies : List (Nat × Nat)} {thenFaults elseFaults : List ParseError}
      {row : Row} {keyword : Token} {condition : Option Expr} {comment : Option Token} {span : Span}
      (divider last : Option EndRow)
      (before : Built comments source roles lines bodies [])
      (hread : row.read.2.1 = .conditional keyword condition)
      (hcomment : row.start.Takes comments comment)
      (thenPart : Built comments source thenRoles thenLines thenBodies thenFaults)
      (elsePart : Built comments source elseRoles elseLines elseBodies elseFaults)
      (hwhole : divider = none -> elseRoles = [] ∧ elseFaults = [])
      (hdivided : divider ≠ none -> thenFaults = [])
      (hclosed : last ≠ none -> thenFaults ++ elseFaults = [])
      (hdivider : ∀ ending ∈ divider, ending.token.kind = .elseWord)
      (hlast : ∀ ending ∈ last, ending.token.kind = .endIfWord)
      (hspan : span = (condition.toList.map Expr.span ++ thenLines.map Line.span ++
        elseLines.map Line.span ++ ((word last).or (word divider)).toList.map Token.span).foldl
          Span.union keyword.span) :
      Built comments source
        (roles ++ (.read row :: thenRoles ++ closing divider ++ elseRoles ++
          closing last))
        (lines ++ [.conditional (row.start.margin (some span) comment) keyword condition thenLines
          (word divider) elseLines (word last) span])
        (bodies ++ thenBodies ++ elseBodies)
        (thenFaults ++ elseFaults ++ lacking (.unterminatedBlock .endIf keyword) last)
  | repetition {roles innerRoles : List Role} {lines inner : List Line}
      {bodies innerBodies : List (Nat × Nat)} {innerFaults : List ParseError} {row : Row}
      {keyword : Token} {count : Option Expr} {comment : Option Token} {span : Span}
      (last : Option EndRow) (before : Built comments source roles lines bodies [])
      (hread : row.read.2.1 = .repetition keyword count)
      (hcomment : row.start.Takes comments comment)
      (body : Built comments source innerRoles inner innerBodies innerFaults)
      (hclosed : last ≠ none -> innerFaults = [])
      (hlast : ∀ ending ∈ last, ending.token.kind = .rependWord)
      (hspan : span = (count.toList.map Expr.span ++ inner.map Line.span ++
        (word last).toList.map Token.span).foldl Span.union keyword.span) :
      Built comments source (roles ++ (.read row :: innerRoles ++ closing last))
        (lines ++ [.repetition (row.start.margin (some span) comment) keyword count inner
          (word last) span])
        (bodies ++ innerBodies) (innerFaults ++ lacking (.unterminatedBlock .repend keyword) last)

variable {comments : List Token} {source : List (List Char)} {roles : List Role}
  {lines : List Line} {bodies : List (Nat × Nat)} {unclosed : List ParseError}

/-- Without rows there are no lines. -/
theorem Built.cast (h : Built comments source roles lines bodies unclosed) {others : List Role}
    {more : List (Nat × Nat)} {faults : List ParseError} (hroles : roles = others)
    (hbodies : bodies = more) (hunclosed : unclosed = faults) :
    Built comments source others lines more faults := by
  subst hroles hbodies hunclosed
  exact h

theorem Built.eq_nil (h : Built comments source roles lines bodies unclosed) (hroles : roles = []) :
    lines = [] ∧ bodies = [] ∧ unclosed = [] := by
  cases h with
  | nil => exact ⟨rfl, rfl, rfl⟩
  | command | macroBlock | conditional | repetition => simp at hroles

theorem Built.exists_macro (h : Built comments source roles lines bodies unclosed) {row : Row}
    (hrow : .passed row ∈ roles) : ∃ first : Row, .read first ∈ roles ∧
      ∃ keyword name, first.read.2.1 = .macroBlock keyword name := by
  have hclosing (last : Option EndRow) : .passed row ∉ closing last := by simp [closing]
  induction h with
  | nil => cases hrow
  | command _ _ _ ih => grind
  | @macroBlock _ _ _ first keyword name _ _ _ _ _ _ _ hread =>
      exact ⟨first, by simp, keyword, name, hread⟩
  | conditional _ _ _ _ _ _ _ _ _ _ _ _ _ ih ihthen ihelse => grind
  | repetition _ _ _ _ _ _ _ _ ih ihbody => grind

theorem forall_mem_closing {last : Option EndRow} {P : Role -> Prop} :
    (∀ role ∈ closing last, P role) ↔ ∀ ending ∈ last, P (.ends ending) := by
  cases last <;> simp [closing]

/-- A line from rows that play their roles, whatever stands before and behind it. -/
inductive Line.From (plays : Role -> Prop) (comments : List Token) : Line -> Prop where
  | command {row : Row} {content : Option Command} {comment : Option Token}
      (hrow : plays (.read row)) (hread : row.read.2.1 = .command content)
      (hcomment : row.start.Takes comments comment) :
      From plays comments (.command (row.start.margin (content.map Command.span) comment) content)
  | macroBlock {row : Row} {keyword : Token} {name comment : Option Token} {span : Span}
      {passed : List Row} {last : Option EndRow} (body : String) (hrow : plays (.read row))
      (hread : row.read.2.1 = .macroBlock keyword name)
      (hcomment : row.start.Takes comments comment)
      (hpassed : ∀ row ∈ passed, plays (.passed row))
      (hlast : ∀ ending ∈ last, plays (.ends ending))
      (hspan : span = (name.toList.map Token.span ++ (passed.getLast?.map Row.lastSpan).toList ++
        (word last).toList.map Token.span).foldl Span.union keyword.span) :
      From plays comments (.macroBlock (row.start.margin (some span) comment)
        ⟨keyword, name, body, word last, span⟩)
  | conditional {row : Row} {keyword : Token} {condition : Option Expr} {comment : Option Token}
      {span : Span} {thenLines elseLines : List Line} {divider last : Option EndRow}
      (hrow : plays (.read row)) (hread : row.read.2.1 = .conditional keyword condition)
      (hcomment : row.start.Takes comments comment)
      (hthen : ∀ line ∈ thenLines, From plays comments line)
      (hdivider : ∀ ending ∈ divider, plays (.ends ending))
      (helse : ∀ line ∈ elseLines, From plays comments line)
      (hlast : ∀ ending ∈ last, plays (.ends ending))
      (hspan : span = (condition.toList.map Expr.span ++ thenLines.map Line.span ++
        elseLines.map Line.span ++ ((word last).or (word divider)).toList.map Token.span).foldl
          Span.union keyword.span) :
      From plays comments (.conditional (row.start.margin (some span) comment) keyword condition
        thenLines (word divider) elseLines (word last) span)
  | repetition {row : Row} {keyword : Token} {count : Option Expr} {comment : Option Token}
      {span : Span} {inner : List Line} {last : Option EndRow}
      (hrow : plays (.read row)) (hread : row.read.2.1 = .repetition keyword count)
      (hcomment : row.start.Takes comments comment)
      (hbody : ∀ line ∈ inner, From plays comments line)
      (hlast : ∀ ending ∈ last, plays (.ends ending))
      (hspan : span = (count.toList.map Expr.span ++ inner.map Line.span ++
        (word last).toList.map Token.span).foldl Span.union keyword.span) :
      From plays comments (.repetition (row.start.margin (some span) comment) keyword count inner
        (word last) span)

theorem Built.from (h : Built comments source roles lines bodies unclosed) {plays : Role -> Prop}
    (hroles : ∀ role ∈ roles, plays role) : ∀ line ∈ lines, line.From plays comments := by
  induction h with
  | nil => simp
  | command _ hread hcomment ih =>
      simp only [List.forall_mem_append, List.forall_mem_singleton] at hroles ⊢
      exact ⟨ih hroles.1, .command hroles.2 hread hcomment⟩
  | macroBlock passed last _ hread hcomment _ _ hspan _ _ ih =>
      simp only [List.forall_mem_append, List.forall_mem_singleton, List.forall_mem_cons,
        List.forall_mem_map, forall_mem_closing] at hroles ⊢
      obtain ⟨hbefore, ⟨hrow, hpassed⟩, hlast⟩ := hroles
      exact ⟨ih hbefore, .macroBlock _ hrow hread hcomment hpassed hlast hspan⟩
  | conditional divider last _ hread hcomment _ _ _ _ _ _ _ hspan ih ihthen ihelse =>
      simp only [List.forall_mem_append, List.forall_mem_singleton, List.forall_mem_cons,
        forall_mem_closing] at hroles ⊢
      obtain ⟨hbefore, ⟨⟨⟨hrow, hthen⟩, hdivider⟩, helse⟩, hlast⟩ := hroles
      exact ⟨ih hbefore, .conditional hrow hread hcomment (ihthen hthen) hdivider (ihelse helse)
        hlast hspan⟩
  | repetition last _ hread hcomment _ _ _ hspan ih ihbody =>
      simp only [List.forall_mem_append, List.forall_mem_singleton, List.forall_mem_cons,
        forall_mem_closing] at hroles ⊢
      obtain ⟨hbefore, ⟨hrow, hbody⟩, hlast⟩ := hroles
      exact ⟨ih hbefore, .repetition hrow hread hcomment (ihbody hbody) hlast hspan⟩

/-! ## Turns -/

namespace OpenBlock

def terminator : OpenBlock -> Token.Kind
  | .thenPart .. | .elsePart .. => .endIfWord
  | .repetition .. => .rependWord
  | .macroBlock .. => .endMWord

def isMacro : OpenBlock -> Bool
  | .macroBlock .. => true
  | _ => false

/-- What it takes for a block to make something of a row. -/
def Allows (row : Row) (block : OpenBlock) : Turn -> Prop
  | .read => block.isMacro = false
  | .close token rest => row.head? = some (token, rest) ∧ token.kind = block.terminator
  | .divide start keyword condition token rest =>
      block = .thenPart start keyword condition ∧ row.head? = some (token, rest) ∧
        token.kind = .elseWord
  | .pass start keyword name last =>
      (∃ earlier, block = .macroBlock start keyword name earlier) ∧ last = row.lastSpan ∧
        ∀ head ∈ row.head?, head.1.kind ≠ .endMWord

theorem turn_spec (row : Row) (block : OpenBlock) : block.Allows row (block.turn row) := by
  cases hhead : row.head? with
  | none => cases block <;> simp [turn, hhead, Allows, isMacro]
  | some head =>
      obtain ⟨token, rest⟩ := head
      cases block with
      | thenPart start keyword condition =>
          simp only [turn, hhead]
          split
          · next hkind => exact ⟨rfl, hhead, hkind⟩
          · split
            · next hkind => exact ⟨hhead, hkind⟩
            · rfl
      | elsePart | repetition =>
          simp only [turn, hhead]
          split
          · next hkind => exact ⟨hhead, hkind⟩
          · rfl
      | macroBlock start keyword name last =>
          simp only [turn, hhead]
          split
          · next hkind => exact ⟨hhead, hkind⟩
          · next hkind => exact ⟨⟨last, rfl⟩, rfl, by simpa [hhead] using hkind⟩

end OpenBlock

/-! ## Open blocks -/

def OpenBlock.Built (comments : List Token) (source : List (List Char)) (roles : List Role)
    (bodies : List (Nat × Nat)) : OpenBlock -> Prop
  | .thenPart start keyword condition =>
      ∃ row, roles = [.read row] ∧ bodies = [] ∧ start = row.start ∧
        row.read.2.1 = .conditional keyword condition
  | .elsePart start keyword condition thenLines elseKeyword =>
      ∃ row thenRoles divider, roles = .read row :: thenRoles ++ [.ends divider] ∧
        start = row.start ∧ row.read.2.1 = .conditional keyword condition ∧
        Concrete.Built comments source thenRoles thenLines bodies [] ∧
        divider.token = elseKeyword ∧ elseKeyword.kind = .elseWord
  | .repetition start keyword count =>
      ∃ row, roles = [.read row] ∧ bodies = [] ∧ start = row.start ∧
        row.read.2.1 = .repetition keyword count
  | .macroBlock start keyword name last =>
      ∃ row, ∃ passed : List Row, roles = .read row :: passed.map .passed ∧ bodies = [] ∧
        start = row.start ∧ row.read.2.1 = .macroBlock keyword name ∧
        last = passed.getLast?.map Row.lastSpan ∧
        ∀ row ∈ passed, ∀ head ∈ row.head?, head.1.kind ≠ .endMWord

/-- Open blocks, the innermost first, with the lines before each of them. -/
inductive FramesBuilt (comments : List Token) (source : List (List Char)) :
    List Role -> List Frame -> List (Nat × Nat) -> Prop where
  | nil : FramesBuilt comments source [] [] []
  | cons {outer roles own : List Role} {frame : Frame} {frames : List Frame}
      {outerBodies bodies ownBodies : List (Nat × Nat)}
      (around : FramesBuilt comments source outer frames outerBodies)
      (before : Built comments source roles frame.before bodies [])
      (block : frame.block.Built comments source own ownBodies) :
      FramesBuilt comments source (outer ++ roles ++ own) (frame :: frames)
        (outerBodies ++ bodies ++ ownBodies)

namespace State

/-- The rows so far are those of the open blocks and then those of the current lines.  Only the
innermost block can be a macro, and then there are no current lines. -/
structure Built (comments : List Token) (source : List (List Char)) (roles : List Role)
    (unclosed : List ParseError) (state : State) : Prop where
  rows : ∃ outer inner outerBodies innerBodies, roles = outer ++ inner ∧
    state.rawRows = outerBodies ++ innerBodies ∧
    FramesBuilt comments source outer state.frames outerBodies ∧
    Concrete.Built comments source inner state.lines innerBodies unclosed ∧
    ∀ frame ∈ state.frames.head?, frame.block.isMacro = true -> inner = []
  around : ∀ frame ∈ state.frames.tail, frame.block.isMacro = false
  errors : state.errors = roles.flatMap Role.faults ++ unclosed
  comments : ∀ comment ∈ state.comments, comment ∈ comments

variable {state : State} {row : Row}

theorem takes_find? {start : LineStart} (h : ∀ comment ∈ state.comments, comment ∈ comments) :
    start.Takes comments (state.comments.find? start.onRow) :=
  fun c hc => ⟨h c (List.mem_of_find?_eq_some hc), List.find?_some hc⟩

theorem errors_readRow (state : State) (row : Row) :
    (state.readRow row).errors = state.errors ++ row.read.2.2 := by
  rw [readRow_eq]
  cases row.read.2.1 <;> rfl

theorem errors_close (source : List (List Char)) (state : State) (frame : Frame)
    (frames : List Frame) (ending : Option Token) (endRow : Nat) :
    (state.close source frame frames ending endRow).errors = state.errors := by
  unfold close
  cases frame.block <;> rfl

theorem Built.readRow (h : state.Built comments source roles [])
    (hmacros : ∀ frame ∈ state.frames, frame.block.isMacro = false) :
    (state.readRow row).Built comments source (roles ++ [.read row]) [] := by
  obtain ⟨⟨outer, inner, outerBodies, innerBodies, rfl, hbodies, hframes, hlines, -⟩, -, herrors,
    hcomments⟩ := h
  have hfaults : (state.readRow row).errors =
      (outer ++ inner ++ [Role.read row]).flatMap Role.faults ++ [] := by
    simp [errors_readRow, herrors, Role.faults]
  have hopened {block : OpenBlock} (hblock : block.Built comments source [.read row] []) :
      (state.fault row.read.2.2 |>.opened block).Built comments source
        (outer ++ inner ++ [.read row]) [] := by
    refine ⟨⟨outer ++ inner ++ [.read row], [], outerBodies ++ innerBodies ++ [], [], by simp,
      by simpa [opened, fault] using hbodies, .cons hframes hlines hblock, .nil, fun _ _ _ => rfl⟩,
      hmacros, ?_, hcomments⟩
    rw [← hfaults, errors_readRow]
    rfl
  have hread := readRow_eq state row
  cases hcontent : row.read.2.1 with
  | command command =>
      rw [hcontent] at hread
      rw [hread] at hfaults ⊢
      refine ⟨⟨outer, inner ++ [.read row], outerBodies, innerBodies, by simp, hbodies, hframes,
        .command hlines hcontent (takes_find? hcomments), fun frame hframe hisMacro => ?_⟩,
        fun frame hframe => hmacros frame (List.mem_of_mem_tail hframe), hfaults,
        fun c hc => hcomments c (List.mem_filter.1 hc).1⟩
      rw [hmacros frame (List.mem_of_mem_head? hframe)] at hisMacro
      cases hisMacro
  | conditional keyword condition =>
      rw [hread, hcontent]
      exact hopened ⟨row, rfl, rfl, rfl, hcontent⟩
  | repetition keyword count =>
      rw [hread, hcontent]
      exact hopened ⟨row, rfl, rfl, rfl, hcontent⟩
  | macroBlock keyword name =>
      rw [hread, hcontent]
      exact hopened ⟨row, [], rfl, rfl, rfl, hcontent, rfl, by simp⟩

def closeAt (source : List (List Char)) (state : State) (frame : Frame) (frames : List Frame)
    (last : Option EndRow) : State :=
  (state.fault (last.elim [missing frame.block] fun ending =>
    restErrors ending.row.stop ending.rest)).close source frame frames (word last)
      (stopRow source last)

theorem comments_close (source : List (List Char)) (state : State) (frame : Frame)
    (frames : List Frame) (ending : Option Token) (endRow : Nat) :
    (state.close source frame frames ending endRow).comments ⊆ state.comments := by
  unfold close
  cases frame.block <;> exact List.filter_sublist.subset

theorem Built.closeAt (h : state.Built comments source roles unclosed) {frame : Frame}
    {frames : List Frame} (hframes : state.frames = frame :: frames) (last : Option EndRow)
    (hlast : ∀ ending ∈ last, ending.token.kind = frame.block.terminator)
    (hclosed : last ≠ none -> unclosed = []) :
    (state.closeAt source frame frames last).Built comments source (roles ++ closing last)
      (unclosed ++ lacking (missing frame.block) last) := by
  obtain ⟨⟨outer, inner, outerBodies, innerBodies, rfl, hbodies, hopen, hlines, hmacros⟩, houter,
    herrors, hcomments⟩ := h
  rw [hframes] at hopen hmacros houter
  have hfaults : (state.closeAt source frame frames last).errors =
      (outer ++ inner ++ closing last).flatMap Role.faults ++
        (unclosed ++ lacking (missing frame.block) last) := by
    rw [State.closeAt, errors_close]
    cases last with
    | none => simp [fault, herrors, lacking, closing]
    | some ending => simp [fault, herrors, lacking, closing, Role.faults, hclosed]
  cases hopen with
  | @cons outer roles own _ _ outerBodies bodies ownBodies around before block =>
      have hnext : (state.closeAt source frame frames last).frames = frames := frames_close ..
      have hresult {all : List Role} {others : List (Nat × Nat)}
          (hall : all = roles ++ own ++ inner ++ closing last)
          (hothers : (state.closeAt source frame frames last).rawRows = outerBodies ++ others)
          (hlines : Concrete.Built comments source all
            (state.closeAt source frame frames last).lines
            others (unclosed ++ lacking (missing frame.block) last)) :
          (state.closeAt source frame frames last).Built comments source
            (outer ++ roles ++ own ++ inner ++ closing last)
            (unclosed ++ lacking (missing frame.block) last) := by
        refine ⟨⟨outer, all, outerBodies, others, by simp [hall], hothers, by rwa [hnext], hlines,
          ?_⟩, ?_, hfaults, fun c hc => hcomments c
            (comments_close source (state.fault _) frame frames _ _ hc)⟩
        · intro frame hframe hisMacro
          rw [hnext] at hframe
          rw [houter frame (List.mem_of_mem_head? hframe)] at hisMacro
          cases hisMacro
        · rw [hnext]
          exact fun frame hframe => houter frame (List.mem_of_mem_tail hframe)
      obtain ⟨lines, openBlock⟩ := frame
      cases openBlock with
      | thenPart start keyword condition =>
          obtain ⟨row, rfl, rfl, rfl, hread⟩ := block
          refine hresult ?_ ?_ (Concrete.Built.cast (.conditional none last before hread
            (takes_find? hcomments) hlines .nil (fun _ => ⟨rfl, rfl⟩) (by simp)
            (by simpa using hclosed) (by simp) hlast ?_) rfl rfl ?_)
          · simp [closing]
          · simp [State.closeAt, State.close, addLine, fault, hbodies]
          · simp [word, fault]
          · simp [missing]
      | elsePart start keyword condition thenLines elseKeyword =>
          obtain ⟨row, thenRoles, divider, rfl, rfl, hread, hthen, rfl, hdivider⟩ := block
          refine hresult ?_ ?_ (Concrete.Built.cast (.conditional (some divider) last before hread
            (takes_find? hcomments) hthen hlines (by simp) (by simp) (by simpa using hclosed)
            (by simpa using hdivider) hlast ?_) rfl rfl ?_)
          · simp [closing]
          · simp [State.closeAt, State.close, addLine, fault, hbodies]
          · cases last <;> simp [word, fault]
          · simp [missing]
      | repetition start keyword count =>
          obtain ⟨row, rfl, rfl, rfl, hread⟩ := block
          refine hresult ?_ ?_ (Concrete.Built.cast (.repetition last before hread
            (takes_find? hcomments) hlines hclosed hlast rfl) rfl rfl ?_)
          · simp
          · simp [State.closeAt, State.close, addLine, fault, hbodies]
          · simp [missing]
      | macroBlock start keyword name passed =>
          obtain ⟨row, passed, rfl, rfl, rfl, hread, rfl, hpassed⟩ := block
          obtain rfl := hmacros _ rfl rfl
          obtain ⟨-, rfl, rfl⟩ := hlines.eq_nil rfl
          refine hresult ?_ ?_ (Concrete.Built.cast (.macroBlock passed last before hread
            (takes_find? hcomments) hpassed hlast rfl rfl rfl) rfl rfl ?_)
          · simp
          · simp [State.closeAt, State.close, addLine, fault, hbodies]
          · simp [missing]

theorem Built.step (h : state.Built comments source roles []) (row : Row) :
    ∃ role : Role, role.row = row ∧
      (state.step source row).Built comments source (roles ++ [role]) [] := by
  cases hframes : state.frames with
  | nil =>
      rw [step_of_no_frames source hframes]
      exact ⟨.read row, rfl, h.readRow (by simp [hframes])⟩
  | cons frame frames =>
      have houter := h.around
      rw [hframes] at houter
      have hturn := frame.block.turn_spec row
      rw [step_of_frames source hframes]
      generalize frame.block.turn row = turn at hturn
      cases turn with
      | read =>
          refine ⟨.read row, rfl, h.readRow ?_⟩
          rw [hframes]
          exact List.forall_mem_cons.2 ⟨hturn, houter⟩
      | close token rest =>
          obtain ⟨hhead, hkind⟩ := hturn
          have hkeyword : token.kind.isKeyword = true := by
            rw [hkind]
            cases frame.block <;> rfl
          exact ⟨.ends ⟨row, token, rest, hhead, hkeyword⟩, rfl,
            h.closeAt hframes (some ⟨row, token, rest, hhead, hkeyword⟩) (by simpa using hkind)
              (by simp)⟩
      | divide start keyword condition token rest =>
          obtain ⟨hblock, hhead, hkind⟩ := hturn
          obtain ⟨⟨outer, inner, outerBodies, innerBodies, rfl, hbodies, hopen, hlines, -⟩, -,
            herrors, hcomments⟩ := h
          rw [hframes] at hopen
          cases hopen with
          | @cons outer roles own _ _ outerBodies bodies ownBodies around before block =>
              rw [hblock] at block
              obtain ⟨first, rfl, rfl, rfl, hread⟩ := block
              let divider : EndRow := ⟨row, token, rest, hhead, by rw [hkind]; rfl⟩
              refine ⟨.ends divider, rfl, ⟨outer ++ roles ++ (.read first :: inner ++
                [.ends divider]), [], outerBodies ++ bodies ++ innerBodies, [], by simp,
                by simpa [take] using hbodies,
                .cons around before ⟨first, inner, divider, rfl, rfl, hread, hlines, rfl, hkind⟩,
                .nil, fun _ _ _ => rfl⟩, houter, ?_, hcomments⟩
              simp [take, herrors, Role.faults, divider]
      | pass start keyword name last =>
          obtain ⟨⟨earlier, hblock⟩, rfl, hhead⟩ := hturn
          obtain ⟨⟨outer, inner, outerBodies, innerBodies, rfl, hbodies, hopen, hlines, hmacros⟩, -,
            herrors, hcomments⟩ := h
          rw [hframes] at hopen hmacros
          obtain rfl := hmacros frame rfl (by rw [hblock]; rfl)
          cases hopen with
          | @cons outer roles own _ _ outerBodies bodies ownBodies around before block =>
              rw [hblock] at block
              obtain ⟨first, passed, rfl, rfl, rfl, hread, -, hpassed⟩ := block
              refine ⟨.passed row, rfl, ⟨outer ++ roles ++ (.read first :: (passed ++ [row]).map
                .passed), [], outerBodies ++ bodies ++ [], innerBodies, by simp, hbodies,
                .cons around before ⟨first, passed ++ [row], rfl, rfl, rfl, hread, by simp, ?_⟩,
                hlines, fun _ _ _ => rfl⟩, houter, ?_, hcomments⟩
              · exact List.forall_mem_append.2 ⟨hpassed, by simpa using hhead⟩
              · simp [take, herrors, Role.faults]

theorem Built.foldl_step (h : state.Built comments source roles []) (rows : List Row) :
    ∃ more : List Role, more.map Role.row = rows ∧
      (rows.foldl (State.step source) state).Built comments source (roles ++ more) [] := by
  induction rows generalizing state roles with
  | nil => exact ⟨[], rfl, by simpa using h⟩
  | cons row rows ih =>
      obtain ⟨role, hrole, hstep⟩ := h.step row
      obtain ⟨more, hmore, hrest⟩ := ih hstep
      exact ⟨role :: more, by rw [List.map_cons, hrole, hmore], by simpa using hrest⟩

theorem exists_built (comments : List Token) (source : List (List Char)) (rows : List Row) :
    ∃ roles : List Role, roles.map Role.row = rows ∧
      (rows.foldl (State.step source) (State.fresh comments)).Built comments source roles [] := by
  have hfresh : (State.fresh comments).Built comments source [] [] :=
    ⟨⟨[], [], [], [], rfl, rfl, .nil, .nil, by simp⟩, by simp [State.fresh], rfl, fun _ h => h⟩
  exact hfresh.foldl_step rows

/-- The end of the text closes all blocks. -/
theorem Built.closeAll {frames : List Frame} (h : state.Built comments source roles unclosed)
    (hframes : state.frames = frames) :
    ∃ unclosed, Concrete.Built comments source roles (State.closeAll source frames state).lines
        (State.closeAll source frames state).rawRows unclosed ∧
      (State.closeAll source frames state).errors = roles.flatMap Role.faults ++ unclosed := by
  induction frames generalizing state unclosed with
  | nil =>
      obtain ⟨⟨outer, inner, outerBodies, innerBodies, rfl, hbodies, hopen, hlines, -⟩, -, herrors,
        -⟩ := h
      rw [hframes] at hopen
      cases hopen
      exact ⟨unclosed, by rwa [State.closeAll, hbodies], herrors⟩
  | cons frame frames ih =>
      have hclosed := h.closeAt hframes none (by simp) (by simp)
      rw [closing, Option.toList_none, List.map_nil, List.append_nil] at hclosed
      exact ih hclosed (frames_close ..)

end State

end Concrete

/-- The lines of a text are built from its rows.  Its faults are those found on the rows, and then
those of the blocks that the end of the text closes. -/
theorem ConcreteFile.ofTokens_built (tokens comments : List Token) (source : String) :
    ∃ roles unclosed, roles.map Concrete.Role.row = Concrete.rows tokens ∧
      Concrete.Built comments (Concrete.sourceRows source.toList) roles
        (ofTokens tokens comments source).lines (ofTokens tokens comments source).rawRows unclosed ∧
      (ofTokens tokens comments source).errors =
        roles.flatMap Concrete.Role.faults ++ unclosed := by
  obtain ⟨roles, hroles, hread⟩ := Concrete.State.exists_built comments
    (Concrete.sourceRows source.toList) (Concrete.rows tokens)
  obtain ⟨unclosed, hbuilt, herrors⟩ := hread.closeAll rfl
  exact ⟨roles, unclosed, hroles, hbuilt, herrors⟩

end Asm6502
