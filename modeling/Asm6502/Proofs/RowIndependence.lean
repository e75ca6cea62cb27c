import Asm6502.Proofs.BlockSteps
import Asm6502.Proofs.RowReading

/-!
# Rows are read on their own

A row that opens no block becomes one line, whatever is wrong with it, and leaves behind nothing but
this line and its faults.  The rows after it are read as if they were the whole text.  The lines of
earlier rows stand below everything that later rows do: in front of the lines outside all blocks.
-/

namespace Asm6502

namespace Concrete

/-! ## Dividing tokens into rows -/

theorem rowsUpTo_cons_of_inner {mark token : Token} {rest : List Token} {row : Row}
    {rows : List Row} (htoken : token.kind.isLineEnd = false)
    (h : rowsUpTo mark rest = row :: rows) :
    rowsUpTo mark (token :: rest) = ⟨token :: row.tokens, row.stop⟩ :: rows := by
  have heof : token.kind ≠ .eof := by
    intro hkind
    simp [hkind, Token.Kind.isLineEnd] at htoken
  have hnewline : token.kind ≠ .newline := by
    intro hkind
    simp [hkind, Token.Kind.isLineEnd] at htoken
  simp [rowsUpTo, heof, hnewline, h]

theorem rowsUpTo_append {mark newline : Token} {tokens : List Token}
    (htokens : ∀ token ∈ tokens, token.kind.isLineEnd = false) (hnewline : newline.kind = .newline)
    (rest : List Token) :
    rowsUpTo mark (tokens ++ newline :: rest) = ⟨tokens, newline⟩ :: rowsUpTo mark rest := by
  induction tokens with
  | nil => simp [rowsUpTo, hnewline]
  | cons token tokens ih =>
      have htail := ih fun t ht => htokens t (List.mem_cons_of_mem token ht)
      exact rowsUpTo_cons_of_inner (htokens token List.mem_cons_self) htail

theorem endMark_append {front rest : List Token} (hfront : ∀ token ∈ front, token.kind ≠ .eof)
    (hrest : rest ≠ []) : endMark (front ++ rest) = endMark rest := by
  have hfind : front.find? (fun token => token.kind == .eof) = none := by
    rw [List.find?_eq_none]
    intro token htoken
    simpa using hfront token htoken
  have hlast : (front ++ rest).getLast? = rest.getLast? := by
    rw [List.getLast?_append]
    cases hl : rest.getLast? with
    | none => exact absurd (List.getLast?_eq_none_iff.1 hl) hrest
    | some token => rfl
  unfold endMark
  rw [List.find?_append, hfind, Option.none_or, hlast]

theorem rows_append {newline : Token} {tokens : List Token}
    (htokens : ∀ token ∈ tokens, token.kind.isLineEnd = false) (hnewline : newline.kind = .newline)
    (rest : List Token) :
    rows (tokens ++ newline :: rest) = ⟨tokens, newline⟩ :: rows rest := by
  unfold rows
  rw [rowsUpTo_append htokens hnewline]
  cases rest with
  | nil => rfl
  | cons token rest =>
      have hfront : ∀ t ∈ tokens ++ [newline], t.kind ≠ .eof := by
        intro t ht heof
        rcases List.mem_append.1 ht with ht | ht
        · have hinner := htokens t ht
          simp [heof, Token.Kind.isLineEnd] at hinner
        · rw [List.mem_singleton.1 ht, hnewline] at heof
          cases heof
      have hmark := endMark_append hfront (List.cons_ne_nil token rest)
      rw [List.append_assoc, List.singleton_append] at hmark
      rw [hmark]

/-- No token is left in front of the end of the text. -/
def AtEnd (tokens : List Token) : Prop := ∀ token ∈ tokens.head?, token.kind = .eof

theorem rowsUpTo_eq_nil_iff {mark : Token} {tokens : List Token} :
    rowsUpTo mark tokens = [] ↔ AtEnd tokens := by
  cases tokens with
  | nil => simp [rowsUpTo, AtEnd]
  | cons token rest =>
      rw [rowsUpTo]
      by_cases heof : token.kind = .eof
      · simp [heof, AtEnd]
      · by_cases hnewline : token.kind = .newline
        · simp [hnewline, AtEnd]
        · cases rowsUpTo mark rest <;> simp [heof, hnewline, AtEnd]

theorem rowsUpTo_last {mark : Token} {tokens rest : List Token}
    (htokens : ∀ token ∈ tokens, token.kind.isLineEnd = false) (hsome : tokens ≠ [])
    (hrest : AtEnd rest) : rowsUpTo mark (tokens ++ rest) = [⟨tokens, mark⟩] := by
  induction tokens with
  | nil => exact absurd rfl hsome
  | cons token tail ih =>
      obtain ⟨htoken, htail⟩ := List.forall_mem_cons.1 htokens
      by_cases hempty : tail = []
      · have heof : token.kind ≠ .eof := fun heof => by simp [heof, Token.Kind.isLineEnd] at htoken
        have hnewline : token.kind ≠ .newline :=
          fun hnewline => by simp [hnewline, Token.Kind.isLineEnd] at htoken
        simp [hempty, rowsUpTo, heof, hnewline, rowsUpTo_eq_nil_iff.2 hrest]
      · exact rowsUpTo_cons_of_inner htoken (ih htail hempty)

def Row.taken (row : Row) : List Token :=
  if row.stop.kind = .newline then row.tokens ++ [row.stop] else row.tokens

theorem kind_endMark (tokens : List Token) : (endMark tokens).kind = .eof := by
  unfold endMark
  cases hfind : tokens.find? fun token => token.kind == .eof with
  | none => rfl
  | some token =>
      have heof := List.find?_some hfind
      simpa using heof

/-- The rows hold every token in front of the end of the text. -/
theorem flatMap_taken_rowsUpTo {mark : Token} (hmark : mark.kind = .eof) (tokens : List Token) :
    (rowsUpTo mark tokens).flatMap Row.taken =
      tokens.takeWhile fun token => token.kind != .eof := by
  induction tokens with
  | nil => rfl
  | cons token rest ih =>
      rw [rowsUpTo]
      by_cases heof : token.kind = .eof
      · simp [heof]
      · by_cases hnewline : token.kind = .newline
        · simp [hnewline, ih, Row.taken]
        · have hkind : (token.kind != .eof) = true := by simpa using heof
          rw [if_neg heof, if_neg hnewline, List.takeWhile_cons, if_pos hkind, ← ih]
          cases rowsUpTo mark rest with
          | nil => simp [Row.taken, hmark]
          | cons row rows =>
              by_cases hstop : row.stop.kind = .newline <;> simp [Row.taken, hstop]

/-! ## Lines below a state -/

namespace State

/-- Lines with earlier lines in front of them, unless they stand inside a block. -/
def under (earlier : List Line) (frames : List Frame) (lines : List Line) : List Line :=
  if frames.isEmpty then earlier ++ lines else lines

/-- Open blocks with earlier lines in front of the outermost one. -/
def below (earlier : List Line) : List Frame -> List Frame
  | [] => []
  | frame :: frames => ⟨under earlier frames frame.before, frame.block⟩ :: below earlier frames

/-- A state to which earlier rows gave lines and faults. -/
def behind (earlier : List Line) (faults : List ParseError) (state : State) : State :=
  { state with
    frames := below earlier state.frames
    lines := under earlier state.frames state.lines
    errors := faults ++ state.errors }

variable (earlier : List Line) (faults : List ParseError) (source : List (List Char))

theorem under_append (frames : List Frame) (lines more : List Line) :
    under earlier frames (lines ++ more) = under earlier frames lines ++ more := by
  unfold under
  split
  · rw [List.append_assoc]
  · rfl

theorem addLine_behind (state : State) (start : LineStart) (content : Option Span)
    (build : Margin -> Line) :
    (state.behind earlier faults).addLine start content build =
      (state.addLine start content build).behind earlier faults := by
  simp only [addLine, behind, under_append]

theorem fault_behind (state : State) (errors : List ParseError) :
    (state.behind earlier faults).fault errors = (state.fault errors).behind earlier faults := by
  simp only [fault, behind, List.append_assoc]

theorem opened_behind (state : State) (block : OpenBlock) :
    (state.behind earlier faults).opened block = (state.opened block).behind earlier faults := by
  simp only [opened, behind, below]
  rfl

theorem close_behind (state : State) (frame : Frame) (frames : List Frame)
    (hframes : state.frames = frame :: frames) (ending : Option Token) (endRow : Nat) :
    (state.behind earlier faults).close source
        ⟨under earlier frames frame.before, frame.block⟩ (below earlier frames) ending endRow =
      (state.close source frame frames ending endRow).behind earlier faults := by
  have hlines : (state.behind earlier faults).lines = state.lines := by
    simp [behind, hframes, under]
  unfold close
  cases frame.block with
  | thenPart | elsePart | repetition =>
      simp only [hlines, ← addLine_behind]
      rfl
  | macroBlock start keyword name last =>
      simp only [← addLine_behind]
      rfl

theorem readRow_behind (state : State) (row : Row) :
    (state.behind earlier faults).readRow row = (state.readRow row).behind earlier faults := by
  rw [readRow_eq, readRow_eq]
  cases row.read.2.1 with
  | command command => simp only [fault_behind, addLine_behind]
  | conditional | repetition | macroBlock => simp only [fault_behind, opened_behind]

theorem take_behind (state : State) (frame : Frame) (frames : List Frame)
    (hframes : state.frames = frame :: frames) (row : Row) (turn : Turn) :
    (state.behind earlier faults).take source
        ⟨under earlier frames frame.before, frame.block⟩ (below earlier frames) row turn =
      (state.take source frame frames row turn).behind earlier faults := by
  -- The lines of an open block are its own: earlier lines stand below all blocks.
  have hlines : (state.behind earlier faults).lines = state.lines := by
    simp [behind, hframes, under]
  cases turn with
  | read => exact readRow_behind earlier faults state row
  | close token rest =>
      simp only [take, fault_behind]
      exact close_behind earlier faults source (state.fault (restErrors row.stop rest)) frame frames
        hframes (some token) row.number
  | divide start keyword condition token rest =>
      simp only [take, hlines]
      simp [behind, below, under]
  | pass start keyword name last =>
      simp only [take, behind, below, hframes]
      rfl

theorem step_behind (state : State) (row : Row) :
    (state.behind earlier faults).step source row =
      (state.step source row).behind earlier faults := by
  cases hframes : state.frames with
  | nil =>
      have hbehind : (state.behind earlier faults).frames = [] := by simp [behind, hframes, below]
      rw [step_of_no_frames source hframes, step_of_no_frames source hbehind, readRow_behind]
  | cons frame frames =>
      have hbehind : (state.behind earlier faults).frames =
          ⟨under earlier frames frame.before, frame.block⟩ :: below earlier frames := by
        simp [behind, hframes, below]
      rw [step_of_frames source hframes, step_of_frames source hbehind]
      exact take_behind earlier faults source state frame frames hframes row _

theorem foldl_step_behind (rows : List Row) (state : State) :
    rows.foldl (step source) (state.behind earlier faults) =
      (rows.foldl (step source) state).behind earlier faults := by
  induction rows generalizing state with
  | nil => rfl
  | cons row rows ih =>
      rw [List.foldl_cons, List.foldl_cons, step_behind]
      exact ih (state.step source row)

theorem closeAll_behind (frames : List Frame) (state : State) (h : state.frames = frames) :
    closeAll source (below earlier frames) (state.behind earlier faults) =
      (closeAll source frames state).behind earlier faults := by
  induction frames generalizing state with
  | nil => rfl
  | cons frame frames ih =>
      have hfault := fault_behind earlier faults state [missing frame.block]
      have hclose := close_behind earlier faults source (state.fault [missing frame.block]) frame
        frames h none source.length
      have hframes := frames_close source (state.fault [missing frame.block]) frame frames none
        source.length
      have hrest := ih _ hframes
      rw [← hclose, ← hfault] at hrest
      exact hrest

theorem finish_behind (state : State) :
    (state.behind earlier faults).finish source =
      ⟨earlier ++ (state.finish source).lines, faults ++ (state.finish source).errors,
        (state.finish source).rawRows⟩ := by
  have hclosed := closeAll_behind earlier faults source state.frames state rfl
  have hframes := frames_closeAll source state.frames state rfl
  have hfinish : (state.behind earlier faults).finish source =
      ⟨((closeAll source state.frames state).behind earlier faults).lines,
        ((closeAll source state.frames state).behind earlier faults).errors,
        ((closeAll source state.frames state).behind earlier faults).rawRows⟩ := by
    rw [← hclosed]
    rfl
  rw [hfinish]
  simp only [behind, hframes, under]
  rfl

theorem fresh_step (row : Row) (hopens : ∀ token ∈ row.tokens, opensBlock token.kind = false) :
    ∃ line, (fresh []).step source row = (fresh []).behind [line] row.read.2.2 := by
  obtain ⟨command, hcommand⟩ := row.read_spec.2.command hopens
  let start : LineStart := ⟨row.read.1, row.number⟩
  refine ⟨.command (start.margin (command.map Command.span) none) command, ?_⟩
  rw [step_of_no_frames source rfl, readRow_eq, hcommand]
  simp only [addLine_eq, fault, behind, fresh, below, under, List.find?_nil, List.filter_nil,
    List.nil_append, List.append_nil, List.isEmpty_nil, if_true]
  rfl

end State

/-- A row without a word that opens a block, however broken it is, becomes one line.  The reader
goes on behind it from the state in front of a first row, so that the rest of the text is read as if
it stood alone. -/
theorem ofTokens_row_append {tokens : List Token} {newline : Token}
    (hinner : ∀ token ∈ tokens, token.kind.isLineEnd = false ∧ opensBlock token.kind = false)
    (hnewline : newline.kind = .newline) (rest : List Token) (source : String) :
    ∃ line errors,
      (State.fresh []).step (sourceRows source.toList) ⟨tokens, newline⟩ =
          { State.fresh [] with lines := [line], errors := errors } ∧
      ConcreteFile.ofTokens (tokens ++ [newline]) [] source = ⟨[line], errors, []⟩ ∧
      ConcreteFile.ofTokens (tokens ++ [newline] ++ rest) [] source =
        ⟨line :: (ConcreteFile.ofTokens rest [] source).lines,
          errors ++ (ConcreteFile.ofTokens rest [] source).errors,
          (ConcreteFile.ofTokens rest [] source).rawRows⟩ := by
  have hends : ∀ token ∈ tokens, token.kind.isLineEnd = false := fun token h => (hinner token h).1
  obtain ⟨line, hstep⟩ := State.fresh_step (sourceRows source.toList) ⟨tokens, newline⟩
    fun token h => (hinner token h).2
  -- Nothing is open after the row, so the state is the fresh one behind what the row left.
  have hread (more : List Token) :
      ConcreteFile.ofTokens (tokens ++ [newline] ++ more) [] source =
        ⟨line :: (ConcreteFile.ofTokens more [] source).lines,
          (Row.read ⟨tokens, newline⟩).2.2 ++ (ConcreteFile.ofTokens more [] source).errors,
          (ConcreteFile.ofTokens more [] source).rawRows⟩ := by
    simp only [ConcreteFile.ofTokens_eq]
    rw [List.append_assoc, List.singleton_append, rows_append hends hnewline, List.foldl_cons,
      hstep, State.foldl_step_behind, State.finish_behind]
    rfl
  refine ⟨line, (Row.read ⟨tokens, newline⟩).2.2, ?_, ?_, hread rest⟩
  · rw [hstep]
    simp [State.behind, State.fresh, State.below, State.under]
  · have halone := hread []
    have hnil : ConcreteFile.ofTokens [] [] source = ⟨[], [], []⟩ := rfl
    rw [hnil, List.append_nil, List.append_nil] at halone
    exact halone

/-- The row `LDA (1+`, which breaks off inside a bracket. -/
def brokenRow : List Token :=
  [⟨.identifier, "LDA", .origin⟩, ⟨.whitespace, " ", .origin⟩, ⟨.parenLeft, "(", .origin⟩,
    ⟨.decimal, "1", .origin⟩, ⟨.plus, "+", .origin⟩]

def lineBreak : Token := ⟨.newline, "\n", .origin⟩

end Concrete

end Asm6502
