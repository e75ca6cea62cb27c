import Asm6502.Proofs.ExprRoundTrip
import Asm6502.Proofs.RowFaults
import Asm6502.Proofs.RowIndependence

/-!
# Reading blocks back

A text is written from a forest.  Its trees are plain rows, conditionals of one or two parts and
repetitions; each head, divider and terminator has a row of its own.  The rows are read with a stack
of open blocks, and what stands on the stack never matters to a tree: its rows add one line to the
innermost block and leave the stack as it was.  So every terminator closes the block that the tree
opened, and the whole forest is read back.
-/

namespace Asm6502

namespace Concrete

/-! ## Written rows -/

/-- The words that divide or close a block. -/
def endsPart : Token.Kind -> Bool
  | .elseWord | .endIfWord | .rependWord | .endMWord => true
  | _ => false

def Row.written (row : Row) : List Token := row.tokens ++ [row.stop]

/-- A row that opens no block and does not start with a word that divides or closes one.  It may
have any fault. -/
structure PlainRow extends Row where
  inner : ∀ token ∈ tokens, token.kind.isLineEnd = false
  opens : ∀ token ∈ tokens, opensBlock token.kind = false
  head : ∀ token ∈ (skipBlanks tokens).head?, endsPart token.kind = false
  broken : stop.kind = .newline

structure WordRow (words : List Token.Kind) where
  indent : List Token
  word : Token
  behind : List Token
  newline : Token
  indented : ∀ token ∈ indent, token.kind = .whitespace
  word_mem : word.kind ∈ words
  inner : ∀ token ∈ behind, token.kind.isLineEnd = false
  broken : newline.kind = .newline

/-- The head of a block with an expression that is read without a fault.  Every expression of the
grammar that is not nested too deep makes one, as `readHeadExpr_append` says. -/
structure HeadRow (words : List Token.Kind) extends WordRow words where
  value : Expr
  reads : ∀ expected, readHeadExpr newline expected behind = (some value, [])

structure MarkRow (words : List Token.Kind) extends WordRow words where
  bare : ∀ token ∈ behind, token.kind = .whitespace

namespace WordRow

variable {words : List Token.Kind}

def row (w : WordRow words) : Row := ⟨w.indent ++ w.word :: w.behind, w.newline⟩

theorem skipBlanks_row (w : WordRow words) (hwords : ∀ kind ∈ words, kind.isKeyword = true) :
    skipBlanks w.row.tokens = w.word :: w.behind := by
  have hword : w.word.kind ≠ .whitespace := ne_of_class rfl (hwords _ w.word_mem)
  rw [row, skipBlanks_append w.indented, skipBlanks_cons hword]

theorem head?_row (w : WordRow words) (hwords : ∀ kind ∈ words, kind.isKeyword = true) :
    w.row.head? = some (w.word, w.behind) := by
  simp only [Row.head?, w.skipBlanks_row hwords]

theorem inner_row (w : WordRow words) (hwords : ∀ kind ∈ words, kind.isKeyword = true) :
    ∀ token ∈ w.row.tokens, token.kind.isLineEnd = false := by
  intro token htoken
  rcases List.mem_append.1 htoken with h | h
  · rw [w.indented token h]
    rfl
  · rcases List.mem_cons.1 h with rfl | h
    · have hword := hwords _ w.word_mem
      revert hword
      cases w.word.kind <;> decide
    · exact w.inner token h

theorem readLabel?_row (w : WordRow words) (hwords : ∀ kind ∈ words, kind.isKeyword = true) :
    readLabel? w.row.tokens = (none, w.row.tokens) := by
  have hword := hwords _ w.word_mem
  have hidentifier : w.word.kind ≠ .identifier := ne_of_class rfl hword
  have hdot : w.word.kind ≠ .dot := ne_of_class rfl hword
  have hblank : w.word.kind ≠ .whitespace := ne_of_class rfl hword
  unfold row
  match hindent : w.indent with
  | [] => simp [readLabel?, hidentifier, hdot, hblank]
  | [first] =>
      have hfirst : first.kind = .whitespace := w.indented first (by simp [hindent])
      cases w.behind <;> simp [readLabel?, hfirst, hidentifier]
  | first :: second :: rest =>
      have hfirst : first.kind = .whitespace := w.indented first (by simp [hindent])
      have hsecond : second.kind = .whitespace := w.indented second (by simp [hindent])
      cases rest <;> simp [readLabel?, hfirst, hsecond]

theorem read_row (w : WordRow words) (hwords : ∀ kind ∈ words, kind.isKeyword = true) :
    w.row.read = (none, readContent w.newline w.word w.behind) := by
  have hblank : w.word.kind ≠ .whitespace := ne_of_class rfl (hwords _ w.word_mem)
  have hskip := w.skipBlanks_row hwords
  have hbehind : readBehindLabel w.newline false w.row.tokens =
      readContent w.newline w.word w.behind := by
    unfold row at hskip ⊢
    cases hindent : w.indent with
    | nil => simp [readBehindLabel, hblank]
    | cons first rest =>
        have hfirst : first.kind = .whitespace := w.indented first (by simp [hindent])
        have hrest : skipBlanks (rest ++ w.word :: w.behind) = w.word :: w.behind := by
          rw [hindent] at hskip
          simpa [skipBlanks, hfirst] using hskip
        simp [readBehindLabel, hfirst, hrest]
  simp only [Row.read, w.readLabel?_row hwords, Option.isSome_none]
  exact congrArg (Prod.mk none) hbehind

theorem head_row (w : WordRow words) (hwords : ∀ kind ∈ words, kind.isKeyword = true)
    (hopens : ∀ kind ∈ words, endsPart kind = false) :
    ∀ token ∈ (skipBlanks w.row.tokens).head?, endsPart token.kind = false := by
  rw [w.skipBlanks_row hwords]
  rintro token ⟨⟩
  exact hopens _ w.word_mem

end WordRow

theorem HeadRow.read_condition (head : HeadRow [.ifWord, .ifConstWord, .ifNConstWord]) :
    head.row.read = (none, .conditional head.word (some head.value), []) := by
  have hword := head.word_mem
  have hreads := head.reads .condition
  rw [head.read_row (by decide)]
  simp only [List.mem_cons, List.not_mem_nil, or_false] at hword
  rcases hword with h | h | h <;> simp [readContent, h, hreads]

theorem HeadRow.read_count (head : HeadRow [.repeatWord]) :
    head.row.read = (none, .repetition head.word (some head.value), []) := by
  have hword : head.word.kind = .repeatWord := List.mem_singleton.1 head.word_mem
  have hreads := head.reads .repeatCount
  rw [head.read_row (by decide)]
  simp [readContent, hword, hreads]

theorem restErrors_of_blank (stop : Token) {tokens : List Token}
    (h : ∀ token ∈ tokens, token.kind = .whitespace) : restErrors stop tokens = [] := by
  have hskip := skipBlanks_append h []
  rw [List.append_nil] at hskip
  rw [restErrors, hskip]
  rfl

/-- An expression of the grammar that is not nested too deep makes the head of a block, with white
space around it. -/
theorem readHeadExpr_append (stop : Token) (expected : Expected) {gap tokens trail : List Token}
    {e : Expr} (hgap : ∀ token ∈ gap, token.kind = .whitespace) (hspells : e.Spells tokens)
    (hcanonical : e.Canonical false) (hlevels : e.levels ≤ nestingLimit)
    (htrail : ∀ token ∈ trail, token.kind = .whitespace) :
    readHeadExpr stop expected (gap ++ (tokens ++ trail)) = (some e, []) := by
  have hend : ∀ token ∈ trail.head?, token.kind.isBinarySign = false := by
    intro token htoken
    rw [htrail token (List.mem_of_mem_head? htoken)]
    rfl
  have hread := (readExpr_append stop hcanonical hspells hend).1 hlevels
  obtain ⟨first, rest, rfl, hfirst⟩ := hspells.exists_cons hcanonical
  rw [List.cons_append] at hread ⊢
  simp only [readHeadExpr, skipBlanks_append hgap, skipBlanks_cons hfirst, hread,
    restErrors_of_blank stop htrail]

section Terminators

variable (start : LineStart) (keyword : Token) (condition : Option Expr)

theorem MarkRow.turn_thenPart (ending : MarkRow [.endIfWord]) :
    (OpenBlock.thenPart start keyword condition).turn ending.row =
      .close ending.word ending.behind := by
  have hword : ending.word.kind = .endIfWord := List.mem_singleton.1 ending.word_mem
  simp [OpenBlock.turn, ending.head?_row (by decide), hword]

theorem MarkRow.turn_elsePart (thenLines : List Line) (elseKeyword : Token)
    (ending : MarkRow [.endIfWord]) :
    (OpenBlock.elsePart start keyword condition thenLines elseKeyword).turn ending.row =
      .close ending.word ending.behind := by
  have hword : ending.word.kind = .endIfWord := List.mem_singleton.1 ending.word_mem
  simp [OpenBlock.turn, ending.head?_row (by decide), hword]

theorem MarkRow.turn_repetition (ending : MarkRow [.rependWord]) :
    (OpenBlock.repetition start keyword condition).turn ending.row =
      .close ending.word ending.behind := by
  have hword : ending.word.kind = .rependWord := List.mem_singleton.1 ending.word_mem
  simp [OpenBlock.turn, ending.head?_row (by decide), hword]

theorem MarkRow.turn_divider (divider : MarkRow [.elseWord]) :
    (OpenBlock.thenPart start keyword condition).turn divider.row =
      .divide start keyword condition divider.word divider.behind := by
  have hword : divider.word.kind = .elseWord := List.mem_singleton.1 divider.word_mem
  simp [OpenBlock.turn, divider.head?_row (by decide), hword]

end Terminators

/-! ## Trees -/

/-- A part of a text: a plain row, or a block with the parts inside it. -/
inductive Tree where
  | plain (row : PlainRow)
  | conditional (head : HeadRow [.ifWord, .ifConstWord, .ifNConstWord]) (body : List Tree)
      (ending : MarkRow [.endIfWord])
  /-- A conditional with a second part. -/
  | divided (head : HeadRow [.ifWord, .ifConstWord, .ifNConstWord]) (body : List Tree)
      (divider : MarkRow [.elseWord]) (other : List Tree) (ending : MarkRow [.endIfWord])
  | repetition (head : HeadRow [.repeatWord]) (body : List Tree) (ending : MarkRow [.rependWord])

namespace Tree

mutual

def rows : Tree -> List Row
  | plain row => [row.toRow]
  | conditional head body ending => head.row :: rowsAll body ++ [ending.row]
  | divided head body divider other ending =>
      head.row :: rowsAll body ++ divider.row :: rowsAll other ++ [ending.row]
  | repetition head body ending => head.row :: rowsAll body ++ [ending.row]

def rowsAll : List Tree -> List Row
  | [] => []
  | tree :: trees => tree.rows ++ rowsAll trees

end

mutual

/-- The plain rows of a tree in order, those inside blocks included. -/
def plainRows : Tree -> List Row
  | plain row => [row.toRow]
  | conditional _ body _ => plainRowsAll body
  | divided _ body _ other _ => plainRowsAll body ++ plainRowsAll other
  | repetition _ body _ => plainRowsAll body

def plainRowsAll : List Tree -> List Row
  | [] => []
  | tree :: trees => tree.plainRows ++ plainRowsAll trees

end

/-- A forest written out. -/
def written (trees : List Tree) : List Token := (rowsAll trees).flatMap Row.written

end Tree

/-! ## Lines of trees -/

/-- A line with its content, which takes the first comment on its row, and the comments that are
left after it. -/
def LineStart.line (start : LineStart) (content : Option Span) (build : Margin -> Line)
    (comments : List Token) : Line × List Token :=
  (build (start.margin content (comments.find? start.onRow)),
    comments.filter fun comment => !start.onRow comment)

/-- The command of a row that holds no head of a block. -/
def Content.command? : Content -> Option Command
  | .command c => c
  | _ => none

namespace Tree

def plainLine (row : Row) : List Token -> Line × List Token :=
  LineStart.line ⟨row.read.1, row.number⟩ (row.read.2.1.command?.map Command.span)
    fun margin => .command margin row.read.2.1.command?

def blockLine {heads ends : List Token.Kind} (head : HeadRow heads) (parts : List Span)
    (ending : MarkRow ends) (build : Margin -> Span -> Line) : List Token -> Line × List Token :=
  let span := (head.value.span :: parts ++ [ending.word.span]).foldl Span.union head.word.span
  LineStart.line ⟨none, head.row.number⟩ (some span) fun margin => build margin span

mutual

/-- The line that a tree is, and the comments that its lines leave.  The lines inside a block take
their comments before the block itself does. -/
def line : Tree -> List Token -> Line × List Token
  | plain row, comments => plainLine row.toRow comments
  | conditional head body ending, comments =>
      let (inner, comments) := lines body comments
      blockLine head (inner.map Line.span) ending (fun margin span =>
        .conditional margin head.word (some head.value) inner none [] (some ending.word) span)
        comments
  | divided head body divider other ending, comments =>
      let (first, comments) := lines body comments
      let (second, comments) := lines other comments
      blockLine head (first.map Line.span ++ second.map Line.span) ending (fun margin span =>
        .conditional margin head.word (some head.value) first (some divider.word) second
          (some ending.word) span)
        comments
  | repetition head body ending, comments =>
      let (inner, comments) := lines body comments
      blockLine head (inner.map Line.span) ending (fun margin span =>
        .repetition margin head.word (some head.value) inner (some ending.word) span)
        comments

def lines : List Tree -> List Token -> List Line × List Token
  | [], comments => ([], comments)
  | tree :: trees, comments =>
      let (first, comments) := tree.line comments
      let (rest, comments) := lines trees comments
      (first :: rest, comments)

end

end Tree

/-! ## Reading trees -/

namespace State

variable {state : State}

/-- Whether the innermost open block is a macro, whose rows are passed over. -/
def inMacro (state : State) : Bool :=
  match state.frames with
  | ⟨_, .macroBlock ..⟩ :: _ => true
  | _ => false

def grown (state : State) (lines : List Line) (comments : List Token)
    (errors : List ParseError) : State :=
  { state with
    lines := state.lines ++ lines
    comments := comments
    errors := state.errors ++ errors }

theorem grown_nil (state : State) : state.grown [] state.comments [] = state := by
  simp [grown]

theorem grown_grown (state : State) (first second : List Line) (left comments : List Token)
    (errors more : List ParseError) :
    (state.grown first left errors).grown second comments more =
      state.grown (first ++ second) comments (errors ++ more) := by
  simp [grown]

theorem grown_fault (state : State) (lines : List Line) (comments : List Token)
    (errors more : List ParseError) :
    (state.fault errors).grown lines comments more =
      state.grown lines comments (errors ++ more) := by
  simp [grown, fault]

@[simp] theorem inMacro_grown (state : State) (lines : List Line) (comments : List Token)
    (errors : List ParseError) : (state.grown lines comments errors).inMacro = state.inMacro :=
  rfl

theorem addLine_eq_grown (state : State) (start : LineStart) (content : Option Span)
    (build : Margin -> Line) :
    state.addLine start content build =
      state.grown [(start.line content build state.comments).1]
        (start.line content build state.comments).2 [] := by
  simp [addLine_eq, grown, LineStart.line]

/-- Outside macros a row is read unless it starts with a word that divides or closes a block. -/
theorem step_eq_readRow (source : List (List Char)) {row : Row} (hstate : state.inMacro = false)
    (hrow : ∀ token ∈ (skipBlanks row.tokens).head?, endsPart token.kind = false) :
    state.step source row = state.readRow row := by
  have hhead : ∀ token rest, row.head? = some (token, rest) -> endsPart token.kind = false := by
    intro token rest h
    unfold Row.head? at h
    split at h
    · cases h
    · next heq =>
      cases h
      exact hrow token (by rw [heq]; rfl)
  cases hframes : state.frames with
  | nil => exact step_of_no_frames source hframes row
  | cons frame frames =>
      rw [step_of_frames source hframes]
      obtain ⟨before, block⟩ := frame
      cases hh : row.head? with
      | none =>
          cases block with
          | macroBlock => simp [inMacro, hframes] at hstate
          | _ => simp [OpenBlock.turn, hh, take]
      | some head =>
          obtain ⟨token, rest⟩ := head
          have hne (word : Token.Kind) (hword : endsPart word = true) : token.kind ≠ word := by
            rintro rfl
            rw [hhead token rest hh] at hword
            cases hword
          cases block with
          | macroBlock => simp [inMacro, hframes] at hstate
          | thenPart => simp [OpenBlock.turn, hh, take, hne .elseWord rfl, hne .endIfWord rfl]
          | elsePart => simp [OpenBlock.turn, hh, take, hne .endIfWord rfl]
          | repetition => simp [OpenBlock.turn, hh, take, hne .rependWord rfl]

theorem fault_nil (state : State) : state.fault [] = state := by
  simp [fault]

variable (source : List (List Char))

theorem step_plainRow (hstate : state.inMacro = false) (plain : PlainRow) :
    state.step source plain.toRow =
      state.grown [(Tree.plainLine plain.toRow state.comments).1]
        (Tree.plainLine plain.toRow state.comments).2 plain.toRow.read.2.2 := by
  obtain ⟨command, hcommand⟩ := plain.toRow.read_spec.2.command plain.opens
  rw [step_eq_readRow source hstate plain.head, readRow_eq]
  simp only [hcommand, addLine_eq_grown, Tree.plainLine, Content.command?]
  simp [grown, fault]

theorem step_conditionRow (hstate : state.inMacro = false)
    (head : HeadRow [.ifWord, .ifConstWord, .ifNConstWord]) :
    state.step source head.row =
      state.opened (.thenPart ⟨none, head.row.number⟩ head.word (some head.value)) := by
  have hread := step_eq_readRow source hstate (head.head_row (by decide) (by decide))
  rw [hread, readRow_eq, head.read_condition]
  exact congrArg (opened · _) state.fault_nil

theorem step_countRow (hstate : state.inMacro = false) (head : HeadRow [.repeatWord]) :
    state.step source head.row =
      state.opened (.repetition ⟨none, head.row.number⟩ head.word (some head.value)) := by
  have hread := step_eq_readRow source hstate (head.head_row (by decide) (by decide))
  rw [hread, readRow_eq, head.read_count]
  exact congrArg (opened · _) state.fault_nil

theorem step_endRow {frame : Frame} {frames : List Frame} (hframes : state.frames = frame :: frames)
    {words : List Token.Kind} (ending : MarkRow words)
    (hturn : frame.block.turn ending.row = .close ending.word ending.behind) :
    state.step source ending.row =
      state.close source frame frames (some ending.word) ending.row.number := by
  have hrest : restErrors ending.row.stop ending.behind = [] := restErrors_of_blank _ ending.bare
  rw [step_of_frames source hframes, hturn, take, hrest, fault_nil]

/-- The divider of a conditional leaves its second part open. -/
theorem step_dividerRow {before : List Line} {start : LineStart} {keyword : Token}
    {condition : Option Expr} {frames : List Frame}
    (hframes : state.frames = ⟨before, .thenPart start keyword condition⟩ :: frames)
    (divider : MarkRow [.elseWord]) :
    state.step source divider.row =
      { state with
        frames := ⟨before, .elsePart start keyword condition state.lines divider.word⟩ :: frames
        lines := [] } := by
  have hrest : restErrors divider.row.stop divider.behind = [] := restErrors_of_blank _ divider.bare
  rw [step_of_frames source hframes, divider.turn_divider, take, hrest, List.append_nil]

end State

namespace Tree

variable (source : List (List Char))

mutual

/-- The rows of a tree add its line to the innermost block and change nothing else. -/
theorem foldl_step_rows (tree : Tree) (state : State) (hstate : state.inMacro = false) :
    tree.rows.foldl (State.step source) state =
      state.grown [(tree.line state.comments).1] (tree.line state.comments).2
        (tree.plainRows.flatMap fun row => row.read.2.2) := by
  match tree with
  | .plain row =>
      simp only [rows, line, plainRows, List.foldl_cons, List.foldl_nil, List.flatMap_cons,
        List.flatMap_nil, List.append_nil]
      exact State.step_plainRow source hstate row
  | .conditional head body ending =>
      simp only [rows, List.cons_append, List.foldl_cons, List.foldl_append, List.foldl_nil]
      rw [State.step_conditionRow source hstate head, foldl_step_rowsAll body _ rfl,
        State.step_endRow source rfl ending (ending.turn_thenPart _ _ _)]
      rfl
  | .divided head body divider other ending =>
      simp only [rows, List.cons_append, List.foldl_cons, List.foldl_append, List.foldl_nil]
      rw [State.step_conditionRow source hstate head, foldl_step_rowsAll body _ rfl,
        State.step_dividerRow source rfl divider, foldl_step_rowsAll other _ rfl,
        State.step_endRow source rfl ending (ending.turn_elsePart _ _ _ _ _)]
      rw [plainRows, List.flatMap_append, ← State.grown_fault]
      rfl
  | .repetition head body ending =>
      simp only [rows, List.cons_append, List.foldl_cons, List.foldl_append, List.foldl_nil]
      rw [State.step_countRow source hstate head, foldl_step_rowsAll body _ rfl,
        State.step_endRow source rfl ending (ending.turn_repetition _ _ _)]
      rfl

theorem foldl_step_rowsAll (trees : List Tree) (state : State) (hstate : state.inMacro = false) :
    (rowsAll trees).foldl (State.step source) state =
      state.grown (lines trees state.comments).1 (lines trees state.comments).2
        ((plainRowsAll trees).flatMap fun row => row.read.2.2) := by
  match trees with
  | [] => exact state.grown_nil.symm
  | tree :: trees =>
      simp only [rowsAll, plainRowsAll, lines, List.foldl_append, List.flatMap_append]
      rw [foldl_step_rows tree state hstate,
        foldl_step_rowsAll trees _ ((state.inMacro_grown _ _ _).trans hstate), State.grown_grown]
      rfl

end

mutual

theorem inner_rows (tree : Tree) :
    ∀ row ∈ tree.rows, (∀ token ∈ row.tokens, token.kind.isLineEnd = false) ∧
      row.stop.kind = .newline := by
  match tree with
  | .plain row => simpa [rows] using ⟨row.inner, row.broken⟩
  | .conditional head body ending =>
      simp only [rows, List.cons_append, List.forall_mem_cons, List.forall_mem_append]
      exact ⟨⟨head.inner_row (by decide), head.broken⟩, inner_rowsAll body,
        ⟨ending.inner_row (by decide), ending.broken⟩, by simp⟩
  | .divided head body divider other ending =>
      simp only [rows, List.cons_append, List.append_assoc, List.forall_mem_cons,
        List.forall_mem_append]
      exact ⟨⟨head.inner_row (by decide), head.broken⟩, inner_rowsAll body,
        ⟨divider.inner_row (by decide), divider.broken⟩, inner_rowsAll other,
        ⟨ending.inner_row (by decide), ending.broken⟩, by simp⟩
  | .repetition head body ending =>
      simp only [rows, List.cons_append, List.forall_mem_cons, List.forall_mem_append]
      exact ⟨⟨head.inner_row (by decide), head.broken⟩, inner_rowsAll body,
        ⟨ending.inner_row (by decide), ending.broken⟩, by simp⟩

theorem inner_rowsAll (trees : List Tree) :
    ∀ row ∈ rowsAll trees, (∀ token ∈ row.tokens, token.kind.isLineEnd = false) ∧
      row.stop.kind = .newline := by
  match trees with
  | [] => simp [rowsAll]
  | tree :: trees =>
      simp only [rowsAll, List.forall_mem_append]
      exact ⟨inner_rows tree, inner_rowsAll trees⟩

end

end Tree

theorem rowsUpTo_written (mark : Token) {written : List Row}
    (h : ∀ row ∈ written, (∀ token ∈ row.tokens, token.kind.isLineEnd = false) ∧
      row.stop.kind = .newline) (tail : List Token) :
    rowsUpTo mark (written.flatMap Row.written ++ tail) = written ++ rowsUpTo mark tail := by
  induction written with
  | nil => rfl
  | cons row rest ih =>
      obtain ⟨hrow, hrest⟩ := List.forall_mem_cons.1 h
      simp only [List.flatMap_cons, Row.written, List.append_assoc, List.cons_append,
        List.nil_append]
      rw [rowsUpTo_append hrow.1 hrow.2]
      exact congrArg (row :: ·) (ih hrest)

/-- A forest that is written out is read back as it was, whatever its nesting.  The faults are those
of its plain rows, and no block lacks its terminator. -/
theorem ofTokens_written (trees : List Tree) {tail : List Token}
    (htail : ∀ token ∈ tail.head?, token.kind = .eof) (comments : List Token) (source : String) :
    ConcreteFile.ofTokens (Tree.written trees ++ tail) comments source =
        ⟨(Tree.lines trees comments).1,
          (Tree.plainRowsAll trees).flatMap fun row => row.read.2.2, []⟩ ∧
      ∀ error ∈ (ConcreteFile.ofTokens (Tree.written trees ++ tail) comments source).errors,
        error.isUnterminated = false := by
  have hend (mark : Token) : rowsUpTo mark tail = [] := by
    cases tail with
    | nil => rfl
    | cons token rest => simp [rowsUpTo, htail token rfl]
  have hrows : rows (Tree.written trees ++ tail) = Tree.rowsAll trees := by
    rw [rows, Tree.written, rowsUpTo_written _ (Tree.inner_rowsAll trees), hend, List.append_nil]
  have hread : ConcreteFile.ofTokens (Tree.written trees ++ tail) comments source =
      ⟨(Tree.lines trees comments).1,
        (Tree.plainRowsAll trees).flatMap fun row => row.read.2.2, []⟩ := by
    rw [ConcreteFile.ofTokens_eq, hrows, Tree.foldl_step_rowsAll _ trees _ rfl]
    rfl
  refine ⟨hread, ?_⟩
  rw [hread]
  intro error herror
  obtain ⟨row, -, hrow⟩ := List.mem_flatMap.1 herror
  exact (row.foundAmong_read error hrow).found

def sampleHead {words : List Token.Kind} (kind : Token.Kind) (literal : String)
    (hkind : kind ∈ words) : HeadRow words where
  indent := [unplaced .whitespace " "]
  word := unplaced kind literal
  behind := unplaced .whitespace " " :: negatedEntryTokens
  newline := lineBreak
  indented := by decide
  word_mem := hkind
  inner := by decide
  broken := rfl
  value := negatedEntry
  reads expected := by
    have h : readHeadExpr lineBreak expected
        ([unplaced .whitespace " "] ++ (negatedEntryTokens ++ [])) = (some negatedEntry, []) :=
      readHeadExpr_append lineBreak expected (by decide) negatedEntry_spells negatedEntry_canonical
        (by decide) (by simp)
    rwa [List.append_nil] at h

def sampleMark (kind : Token.Kind) (literal : String) : MarkRow [kind] where
  indent := []
  word := unplaced kind literal
  behind := [unplaced .whitespace " "]
  newline := lineBreak
  indented := by simp
  word_mem := List.mem_singleton.2 rfl
  inner := by decide
  broken := rfl
  bare := by decide

/-- A conditional with a broken row before its divider and an empty repetition behind it, all inside
a repetition. -/
def nestedBlocks : List Tree :=
  let empty : Tree :=
    .repetition (sampleHead .repeatWord "REPEAT" (by decide)) [] (sampleMark .rependWord "REPEND")
  let inner : Tree :=
    .divided (sampleHead .ifWord "IF" (by decide))
      [.plain ⟨⟨brokenRow, lineBreak⟩, by decide, by decide, by decide, rfl⟩]
      (sampleMark .elseWord "ELSE") [empty] (sampleMark .endIfWord "EIF")
  [.repetition (sampleHead .repeatWord "REPEAT" (by decide)) [inner]
    (sampleMark .rependWord "REPEND")]

/-- The nested blocks are read back with no fault but the one of the broken row. -/
theorem ofTokens_nestedBlocks :
    ConcreteFile.ofTokens (Tree.written nestedBlocks ++ [unplaced .eof ""]) [] "" =
        ⟨(Tree.lines nestedBlocks []).1, (Row.mk brokenRow lineBreak).read.2.2, []⟩ ∧
      (Row.mk brokenRow lineBreak).read.2.2 ≠ [] := by
  have hend : ∀ token ∈ [unplaced .eof ""].head?, token.kind = .eof := by
    rintro token ⟨⟩
    rfl
  have hplain : Tree.plainRowsAll nestedBlocks = [⟨brokenRow, lineBreak⟩] := rfl
  refine ⟨?_, by decide +kernel⟩
  rw [(ofTokens_written nestedBlocks hend [] "").1, hplain, List.flatMap_singleton]

end Concrete

end Asm6502
