import Asm6502.Proofs.CursorBlocks

/-!
# Lines by position

Lines that are read by position are those that the rows of the text lead to.  Each line moves the
place on by at least one token and over no end of the text, and gives the counters back, whatever is
wrong with its rows.  So reading comes to an end, exactly where the text does, and a broken row does
not change how the rows behind it are read.
-/

namespace Asm6502

namespace Concrete

namespace Cursor

variable {c d : Cursor} {stop : Token} {index : Nat} {row : List Token}

/-! ## Lines and blocks -/

/-- The innermost block takes rows as lines unless a terminator heads them. -/
def Admits (terminators : List Token.Kind) (frames : List Frame) : Prop :=
  ∀ frame ∈ frames.head?, ∀ row : Row,
    (∀ token rest, row.head? = some (token, rest) -> token.kind ∉ terminators) ->
      frame.block.turn row = .read

/-- Lines are read up to the end of the text or to a terminator, as the rows lead to them. -/
def LinesEnd (c : Cursor) : Prop :=
  ∀ terminators : List Token.Kind, (∀ word ∈ terminators, word.isLineEnd = false) ->
    ∀ found, ∃ lines last, c.lines terminators found = some (found ++ lines, last) ∧
      c.Reaches last ∧ (last.kind = .eof ∨ last.atTerminator terminators = some true) ∧
      ∀ {frames : List Frame}, Admits terminators frames -> ∀ before,
        c.complete (c.state frames before) = last.complete (last.state frames (before ++ lines))

theorem Ready.closing (hc : c.Ready) {word : Token.Kind} (hword : word.isLineEnd = false)
    (hend : c.kind = .eof ∨ c.atTerminator [word] = some true) {error : ParseError}
    {block : LineStart -> OpenBlock} {lines : List Line} {make : Option Token -> Body}
    (hends : ∀ start, EndsAt (block start) word error)
    (hmake : ∀ (state : State) start before frames ending endRow, state.lines = lines ->
      state.close c.source ⟨before, block start⟩ frames ending endRow =
        { state with frames := frames, lines := before }.addLine start (make ending).span
          (make ending).line) :
    Closes c block lines (c.takeTerminator word >>= fun read =>
      some (make read.1, read.2.orMissing read.1 error)) := by
  obtain ⟨ending, next, position, errors, htake, hfinish, hbehind, hclose⟩ :=
    hc.closes hword hend error
  refine ⟨make ending, _, _, by rw [htake]; rfl, hfinish, hbehind, ?_⟩
  intro start frames before
  rw [hclose (hends start) rfl, hmake _ _ _ _ _ _ rfl]
  rfl

/-- What a block has read so far does not matter for its end. -/
theorem Closes.from {block other : LineStart -> OpenBlock} {lines inner : List Line}
    {result : Option (Body × Cursor)} (h : Closes d other inner result) (hreaches : c.Reaches d)
    (hcomplete : ∀ start frames before,
      c.complete (c.state (⟨before, block start⟩ :: frames) lines) =
        d.complete (d.state (⟨before, other start⟩ :: frames) inner)) :
    Closes c block lines result := by
  obtain ⟨body, last, behind, hresult, hfinish, hbehind, hclose⟩ := h
  refine ⟨body, last, behind, hresult, hfinish, hreaches.trans hbehind, ?_⟩
  intro start frames before
  rw [hcomplete, hclose]

/-- A block whose rows are lines up to the one word that ends it. -/
theorem LinesEnd.closes (h : c.LinesEnd) {word : Token.Kind} (hword : word.isLineEnd = false)
    {error : ParseError} {block : LineStart -> OpenBlock}
    {make : List Line -> Option Token -> Body}
    (hturn : ∀ start (row : Row), (block start).turn row = row.head?.elim .read fun head =>
      if head.1.kind = word then .close head.1 head.2 else .read)
    (hmissing : ∀ start, State.missing (block start) = error)
    (hmake : ∀ source (state : State) start before frames ending endRow,
      state.close source ⟨before, block start⟩ frames ending endRow =
        { state with frames := frames, lines := before }.addLine start
          (make state.lines ending).span (make state.lines ending).line) :
    Closes c block [] (c.lines [word] [] >>= fun read => read.2.takeTerminator word >>= fun ended =>
      some (make read.1 ended.1, ended.2.orMissing ended.1 error)) := by
  obtain ⟨lines, last, hread, hreaches, hend, hcomplete⟩ :=
    h [word] (List.forall_mem_singleton.2 hword) []
  have hclosed : Closes last block lines (last.takeTerminator word >>= fun ended =>
      some (make lines ended.1, ended.2.orMissing ended.1 error)) := by
    refine hreaches.ready.closing hword hend ?_ ?_
    · intro start
      refine ⟨?_, hmissing start⟩
      intro row token rest hhead hkind
      rw [hturn, hhead]
      exact if_pos hkind
    · rintro state start before frames ending endRow rfl
      exact hmake _ state start before frames ending endRow
  rw [hread]
  refine hclosed.from hreaches fun start frames before => hcomplete ?_ []
  intro frame hframe row hhead
  cases hframe
  rw [hturn]
  cases hrow : row.head? with
  | none => rfl
  | some head => exact if_neg (by simpa using hhead head.1 head.2 hrow)

theorem LinesEnd.repeated (h : c.LinesEnd) (keyword : Token) (count : Option Expr) :
    Closes c (.repetition · keyword count) [] (c.repeated keyword count) := by
  rw [Cursor.repeated]
  refine h.closes rfl ?_ (fun _ => rfl) (fun _ _ _ _ _ _ _ => rfl)
  intro start row
  unfold OpenBlock.turn
  cases row.head? <;> rfl

theorem admits_thenPart (start : LineStart) (keyword : Token) (condition : Option Expr)
    (before : List Line) (frames : List Frame) :
    Admits [.elseWord, .endIfWord] (⟨before, .thenPart start keyword condition⟩ :: frames) := by
  intro frame hframe row hhead
  cases hframe
  unfold OpenBlock.turn
  cases hrow : row.head? with
  | none => rfl
  | some head =>
      have hnot := hhead head.1 head.2 hrow
      simp only [List.mem_cons, List.not_mem_nil, or_false, not_or] at hnot
      simp [hnot]

theorem Ready.endIf_thenPart (hc : c.Ready)
    (hend : c.kind = .eof ∨ c.atTerminator [.endIfWord] = some true) (keyword : Token)
    (condition : Option Expr) (lines : List Line) :
    Closes c (.thenPart · keyword condition) lines (c.endIf keyword condition lines none []) := by
  refine hc.closing rfl hend ?_ ?_
  · intro start
    refine ⟨?_, rfl⟩
    intro row token rest hhead hkind
    simp [OpenBlock.turn, hhead, hkind]
  · rintro state start before frames ending endRow rfl
    simp only [State.close, Body.ofConditional, List.map_nil, List.append_nil, Option.or_none]

theorem LinesEnd.endIf_elsePart (h : c.LinesEnd) (keyword : Token) (condition : Option Expr)
    (thenLines : List Line) (elseKeyword : Token) :
    Closes c (.elsePart · keyword condition thenLines elseKeyword) []
      (c.lines [.endIfWord] [] >>= fun read =>
        read.2.endIf keyword condition thenLines (some elseKeyword) read.1) := by
  refine h.closes rfl ?_ (fun _ => rfl) ?_
  · intro start row
    unfold OpenBlock.turn
    cases row.head? <;> rfl
  · intro source state start before frames ending endRow
    cases ending <;> rfl

theorem branches_closes (h : ∀ d, c.Reaches d -> d.LinesEnd) (hc : c.Ready) (keyword : Token)
    (condition : Option Expr) :
    Closes c (.thenPart · keyword condition) [] (c.branches keyword condition) := by
  have hinner : ∀ word ∈ [Token.Kind.elseWord, .endIfWord], word.isLineEnd = false := by decide
  obtain ⟨lines, last, hread, hreaches, hend, hcomplete⟩ := h c hc.reaches _ hinner []
  rw [Cursor.branches, hread]
  refine Closes.from (d := last) ?_ hreaches
    fun start frames before => hcomplete (admits_thenPart start keyword condition before frames) []
  simp only [Option.bind_eq_bind, Option.bind_some, List.nil_append]
  rcases hend with hend | hat
  · rw [takeTerminator_none (atTerminator_end hend (by decide))]
    exact hreaches.ready.endIf_thenPart (.inl hend) keyword condition lines
  · obtain ⟨word, hword, stop, index, row, token, rest, hheaded⟩ := exists_headed hinner hat
    simp only [List.mem_cons, List.not_mem_nil, or_false] at hword
    rcases hword with rfl | rfl
    · obtain ⟨next, htake, hfinish⟩ := hheaded.takeTerminator
      have hbehind := hheaded.reaches hreaches.ready (restErrors stop rest)
      have hclosed := (h _ (hreaches.trans hbehind)).endIf_elsePart keyword condition lines token
      rw [htake]
      simp only [Option.bind_some, hfinish]
      exact hclosed.from hbehind fun start frames before =>
        hheaded.divides hreaches.ready start keyword condition frames before lines
    · rw [takeTerminator_none (hheaded.atTerminator_eq [.elseWord])]
      exact hreaches.ready.endIf_thenPart (.inr (hheaded.atTerminator_eq [.endIfWord])) keyword
        condition lines

/-- The block in which a line stands takes its first row as a line. -/
def Takes (c : Cursor) (frames : List Frame) : Prop :=
  ∀ {stop index row}, AtRow c stop index row ->
    ∀ frame ∈ frames.head?, frame.block.turn ⟨row, stop⟩ = .read

theorem AtRow.step_eq (h : AtRow c stop index row) {frames : List Frame} (htakes : c.Takes frames)
    (before : List Line) :
    (c.state frames before).step c.source ⟨row, stop⟩ =
      (c.state frames before).readRow ⟨row, stop⟩ := by
  cases frames with
  | nil => exact State.step_of_no_frames c.source rfl _
  | cons frame frames =>
      have hframes : (c.state (frame :: frames) before).frames = frame :: frames := rfl
      rw [State.step_of_frames c.source hframes, htakes h frame rfl]
      rfl

/-- What a row holds is read to its end, with all rows of a block that it opens, and the rows lead
to its line. -/
def Becomes (c : Cursor) (row : Row) (result : Option (Body × Cursor)) : Prop :=
  ∃ body last behind, result = some (body, last) ∧ last.finishRow = some behind ∧
    c.Reaches behind ∧ c.position < behind.position ∧
    ∀ {frames : List Frame}, c.Takes frames -> ∀ before,
      c.complete (c.state frames before) = behind.complete ((behind.state frames before).addLine
        ⟨row.read.1, row.number⟩ body.span body.line)

theorem AtRow.becomes (h : AtRow c stop index row) (hc : c.Ready)
    (hlines : ∀ d, c.Reaches d -> c.position < d.position -> d.LinesEnd)
    {result : Option (Body × Cursor)}
    (henters : Enters c stop index (Row.read ⟨row, stop⟩).2 result) :
    Becomes c ⟨row, stop⟩ result := by
  let behind := (c.goto (behindRow stop index)).faults (Row.read ⟨row, stop⟩).2.2
  have hbehind : c.Reaches behind := h.reaches hc _
  have hlt : c.position < behind.position := h.position_lt
  have hstep {frames : List Frame} (htakes : c.Takes frames) (before : List Line) :
      c.complete (c.state frames before) =
        behind.complete ((c.state frames before).readRow ⟨row, stop⟩) := by
    rw [complete_row h hc, h.step_eq htakes]
    rfl
  -- A block is read from behind its first row.
  have hblock {block : LineStart -> OpenBlock} (hclosed : Closes behind block [] result)
      (hopened : ∀ frames before, (c.state frames before).readRow ⟨row, stop⟩ =
        behind.state (⟨before, block ⟨(Row.read ⟨row, stop⟩).1, Row.number ⟨row, stop⟩⟩⟩ :: frames)
          []) :
      Becomes c ⟨row, stop⟩ result := by
    obtain ⟨body, last, final, hresult, hfinish, hfinal, hcomplete⟩ := hclosed
    refine ⟨body, last, final, hresult, hfinish, hbehind.trans hfinal,
      Nat.lt_of_lt_of_le hlt hfinal.position, ?_⟩
    intro frames htakes before
    rw [hstep htakes, hopened, hcomplete]
  have hmore (d : Cursor) (hd : behind.Reaches d) : d.LinesEnd :=
    hlines d (hbehind.trans hd) (Nat.lt_of_lt_of_le hlt hd.position)
  unfold Enters at henters
  cases hcontent : (Row.read ⟨row, stop⟩).2.1 with
  | command command =>
      rw [hcontent] at henters
      obtain ⟨last, hresult, hfinish⟩ := henters
      refine ⟨_, last, behind, hresult, hfinish, hbehind, hlt, ?_⟩
      intro frames htakes before
      rw [hstep htakes, State.readRow_eq, hcontent]
      rfl
  | conditional keyword condition =>
      rw [hcontent] at henters
      have hclosed := branches_closes hmore hbehind.ready keyword condition
      rw [← henters] at hclosed
      refine hblock hclosed fun frames before => ?_
      rw [State.readRow_eq, hcontent]
      rfl
  | repetition keyword count =>
      rw [hcontent] at henters
      have hclosed := (hmore behind hbehind.ready.reaches).repeated keyword count
      rw [← henters] at hclosed
      refine hblock hclosed fun frames before => ?_
      rw [State.readRow_eq, hcontent]
      rfl
  | macroBlock keyword name =>
      rw [hcontent] at henters
      have hclosed := hbehind.ready.macroBody keyword name
      rw [← henters] at hclosed
      refine hblock hclosed fun frames before => ?_
      rw [State.readRow_eq, hcontent]
      rfl

theorem line_moves (hc : c.Ready) (hkind : c.kind ≠ .eof)
    (h : ∀ d, c.Reaches d -> c.position < d.position -> d.LinesEnd) :
    ∃ line last, c.line = some (line, last) ∧ c.Reaches last ∧ c.position < last.position ∧
      ∀ {frames : List Frame}, c.Takes frames -> ∀ before,
        c.complete (c.state frames before) =
          last.complete (last.state frames (before ++ [line])) := by
  obtain ⟨stop, index, row, hrow⟩ := exists_atRow c hkind
  obtain ⟨p, hlabel, hrest⟩ := hrow.label?
  have henters := hrest.behindLabel hc.toIdle (readLabel? row).1.isSome
  obtain ⟨body, last, behind, hbody, hfinish, hreaches, hlt, hcomplete⟩ :=
    hrow.becomes hc h henters
  have hcurrent : c.current = peek stop row := hrow.current_eq
  have hlabel' : c.label? = some ((readLabel? row).1, c.goto p) := hlabel
  let margined := behind.addMargin (readLabel? row).1 (Row.number ⟨row, stop⟩) body
  refine ⟨margined.1, margined.2, ?_, ⟨hreaches.tokens, hreaches.source, hreaches.position,
    ⟨hreaches.ready.depth, hreaches.ready.nesting⟩, hreaches.ready.within,
    hreaches.ready.inner⟩, hlt, ?_⟩
  · rw [Cursor.line, hlabel', hcurrent]
    simp only [Option.bind_eq_bind, Option.bind_some, hbody, hfinish]
    rfl
  · intro frames htakes before
    rw [hcomplete htakes before]
    rfl

/-- A row that no terminator heads is taken as a line. -/
theorem Admits.takes {terminators : List Token.Kind} {frames : List Frame}
    (h : Admits terminators frames) (hat : c.atTerminator terminators = some false) :
    c.Takes frames := by
  intro stop index row hrow frame hframe
  refine h frame hframe _ ?_
  intro token rest hhead hmem
  have hcontains : some _ = some false := (hrow.atTerminator terminators).symm.trans hat
  have hblanks : skipBlanks row = token :: rest := by
    unfold Row.head? at hhead
    split at hhead
    · cases hhead
    · cases hhead
      assumption
  rw [hblanks] at hcontains
  simp [peek, hmem] at hcontains

/-- From every place between rows lines are read to their end. -/
theorem Ready.linesEnd (hc : c.Ready) : c.LinesEnd := by
  induction hleft : c.left using Nat.strongRecOn generalizing c with
  | ind left ih =>
      intro terminators hinner found
      by_cases hend : c.kind = .eof
      · refine ⟨[], c, ?_, hc.reaches, .inl hend, fun _ _ => by rw [List.append_nil]⟩
        rw [Cursor.lines, if_pos hend, List.append_nil]
        rfl
      obtain ⟨stop, index, row, hrow⟩ := exists_atRow c hend
      have hat : c.atTerminator terminators = some _ := hrow.atTerminator terminators
      cases hhead : terminators.contains (peek stop (skipBlanks row)).kind with
      | true =>
          rw [hhead] at hat
          refine ⟨[], c, ?_, hc.reaches, .inr hat, fun _ _ => by rw [List.append_nil]⟩
          rw [Cursor.lines, if_neg hend, hat, List.append_nil]
          rfl
      | false =>
          rw [hhead] at hat
          have hlater (d : Cursor) (hd : c.Reaches d) (hlt : c.position < d.position) :
              d.LinesEnd := ih d.left (hleft ▸ hd.left_lt hlt hend) hd.ready rfl
          obtain ⟨line, next, hline, hnext, hlt, hone⟩ := line_moves hc hend hlater
          obtain ⟨lines, last, hlines, hlast, hstop, hmore⟩ :=
            hlater next hnext hlt terminators hinner (found ++ [line])
          refine ⟨line :: lines, last, ?_, hnext.trans hlast, hstop, ?_⟩
          · rw [Cursor.lines, if_neg hend, hat]
            simp only [Option.bind_eq_bind, Option.bind_some, hline]
            rw [if_neg Bool.false_ne_true, hlines, List.append_assoc]
            rfl
          · intro frames hadmits before
            rw [hone (hadmits.takes hat), hmore hadmits, List.append_assoc]
            rfl

theorem AtRow.line_eq (h : AtRow c stop index row) (hc : c.Ready) {command : Option Command}
    (hcommand : (Row.read ⟨row, stop⟩).2.1 = .command command) :
    c.line = some (((c.goto (behindRow stop index)).faults (Row.read ⟨row, stop⟩).2.2).addMargin
      (Row.read ⟨row, stop⟩).1 (Row.number ⟨row, stop⟩) (.ofCommand command)) := by
  obtain ⟨p, hlabel, hrest⟩ := h.label?
  have henters := hrest.behindLabel hc.toIdle (readLabel? row).1.isSome
  have hread : (readBehindLabel stop (readLabel? row).1.isSome (readLabel? row).2).1 =
      .command command := hcommand
  have hcurrent : c.current = peek stop row := h.current_eq
  have hlabel' : c.label? = some ((readLabel? row).1, c.goto p) := hlabel
  unfold Enters at henters
  rw [hread] at henters
  obtain ⟨last, hbody, hfinish⟩ := henters
  rw [Cursor.line, hlabel', hcurrent]
  simp only [Option.bind_eq_bind, Option.bind_some, hbody, hfinish]
  rfl

/-! ## The whole text -/

theorem ready_start (tokens comments : List Token) (source : String) :
    (start tokens comments source).Ready :=
  ⟨⟨rfl, rfl⟩, Nat.zero_le _, by simp [start]⟩

/-- Reading ends on the first end of the text among the tokens, or behind the last token. -/
theorem Ready.position_eq (hc : c.Ready) (hend : c.kind = .eof) :
    c.position = c.tokens.findIdx fun token => token.kind == .eof := by
  have hinner (i : Nat) (hi : i < c.position) (hlength : i < c.tokens.length) :
      (c.tokens[i].kind == .eof) = false := by
    have hmem : c.tokens[i] ∈ c.tokens.take c.position :=
      List.mem_take_iff_getElem.2 ⟨i, by omega, rfl⟩
    simpa using hc.inner _ hmem
  rcases Nat.lt_or_ge c.position c.tokens.length with hlt | hge
  · refine ((List.findIdx_eq hlt).2 ⟨?_, fun i hi => hinner i hi _⟩).symm
    have hcurrent : c.current = c.tokens[c.position] := by
      simp [current, ahead, List.getElem?_eq_getElem hlt]
    rw [← hcurrent]
    exact beq_iff_eq.2 hend
  · have hposition : c.position = c.tokens.length := Nat.le_antisymm hc.within hge
    rw [hposition, eq_comm, List.findIdx_eq_length]
    intro token htoken
    obtain ⟨i, hi, rfl⟩ := List.mem_iff_getElem.1 htoken
    exact hinner i (by omega) hi

end Cursor

end Concrete

/-- Reading by position and reading row by row come to the same, and the place ends where the text
does. -/
theorem ConcreteFile.byPosition_eq (tokens comments : List Token) (source : String) :
    ∃ last, ConcreteFile.byPosition tokens comments source =
        some (ConcreteFile.ofTokens tokens comments source, last) ∧
      (Concrete.Cursor.start tokens comments source).Reaches last ∧ last.kind = .eof := by
  obtain ⟨lines, last, hlines, hreaches, hend, hcomplete⟩ :=
    (Concrete.Cursor.ready_start tokens comments source).linesEnd [] (by simp) []
  have hnone : last.atTerminator [] ≠ some true := by
    obtain ⟨stop, index, row, hstands⟩ := Concrete.Cursor.exists_stands last.tokens last.position
    have hat : last.atTerminator [] = some false := hstands.atTerminator []
    simp [hat]
  have heof : last.kind = .eof := hend.resolve_right hnone
  have hstate := @hcomplete [] (by simp [Concrete.Cursor.Admits]) []
  rw [Concrete.Cursor.complete_end heof] at hstate
  refine ⟨last, ?_, hreaches, heof⟩
  have hfile : ConcreteFile.ofTokens tokens comments source =
      ⟨lines, last.errors, last.rawRows⟩ :=
    congrArg (fun state : Concrete.State =>
      (⟨state.lines, state.errors, state.rawRows⟩ : ConcreteFile)) hstate
  rw [ConcreteFile.byPosition, hlines, hfile]
  rfl

theorem ConcreteFile.byPosition_file (tokens comments : List Token) (source : String) :
    (ConcreteFile.byPosition tokens comments source).map Prod.fst =
      some (ConcreteFile.ofTokens tokens comments source) := by
  obtain ⟨last, hread, -⟩ := ConcreteFile.byPosition_eq tokens comments source
  rw [hread]
  rfl

namespace Concrete

/-! ## Recovery -/

/-- A row without a word that opens a block, however broken it is, is read as one line, and then the
place stands behind its line break as it stood at the start, but for the faults of the row: both
counters are zero.  So the rest of the text is read as if it stood alone. -/
theorem byPosition_row_append {tokens : List Token} {newline : Token}
    (hinner : ∀ token ∈ tokens, token.kind.isLineEnd = false ∧ opensBlock token.kind = false)
    (hnewline : newline.kind = .newline) (rest : List Token) (source : String) :
    let start := Cursor.start (tokens ++ [newline] ++ rest) [] source
    ∃ line errors,
      start.line = some (line, { start with position := tokens.length + 1, errors := errors }) ∧
      (ConcreteFile.byPosition (tokens ++ [newline]) [] source).map Prod.fst =
        some ⟨[line], errors, []⟩ ∧
      ∃ file, (ConcreteFile.byPosition rest [] source).map Prod.fst = some file ∧
        (ConcreteFile.byPosition (tokens ++ [newline] ++ rest) [] source).map Prod.fst =
          some ⟨line :: file.lines, errors ++ file.errors, file.rawRows⟩ := by
  intro start
  have hopens : ∀ token ∈ tokens, opensBlock token.kind = false := fun token h => (hinner token h).2
  obtain ⟨command, hcommand⟩ := (Row.read_spec ⟨tokens, newline⟩).2.command hopens
  have hrow : Cursor.AtRow start newline tokens.length tokens := by
    refine ⟨⟨fun token h => (hinner token h).1, ?_, Nat.zero_add _, newline :: rest, ?_, rfl⟩,
      .inr hnewline⟩
    · rw [hnewline]
      rfl
    · simp [start, Cursor.start]
  have hline := hrow.line_eq (Cursor.ready_start _ _ _) hcommand
  have hbehind : Cursor.behindRow newline tokens.length = tokens.length + 1 := if_pos hnewline
  rw [hbehind] at hline
  obtain ⟨line, errors, hstep, halone, happend⟩ :=
    ofTokens_row_append hinner hnewline rest source
  rw [State.step_of_no_frames _ rfl, State.readRow_eq, hcommand] at hstep
  have herrors : errors = (Row.read ⟨tokens, newline⟩).2.2 := (congrArg State.errors hstep).symm
  have hlines : [line] = _ := (congrArg State.lines hstep).symm
  refine ⟨line, errors, ?_, ?_, _, ConcreteFile.byPosition_file rest [] source, ?_⟩
  · rw [hline, herrors, List.singleton_inj.1 hlines]
    rfl
  · rw [ConcreteFile.byPosition_file, halone]
  · rw [ConcreteFile.byPosition_file, happend]

def labelRow : List Token := [⟨.identifier, "a", .origin⟩, ⟨.colon, ":", .origin⟩]

/-- A label is read behind the broken row as it is read alone, though the row breaks off inside a
bracket and an expression. -/
theorem byPosition_brokenRow_append :
    let start := Cursor.start (brokenRow ++ [lineBreak] ++ labelRow) [] ""
    ∃ line errors, errors ≠ [] ∧
      start.line = some (line, { start with position := 6, errors := errors }) ∧
      (ConcreteFile.byPosition (brokenRow ++ [lineBreak]) [] "").map Prod.fst =
        some ⟨[line], errors, []⟩ ∧
      ∃ file, (ConcreteFile.byPosition labelRow [] "").map Prod.fst = some file ∧
        (ConcreteFile.byPosition (brokenRow ++ [lineBreak] ++ labelRow) [] "").map Prod.fst =
          some ⟨line :: file.lines, errors ++ file.errors, file.rawRows⟩ := by
  have hinner : ∀ token ∈ brokenRow,
      token.kind.isLineEnd = false ∧ opensBlock token.kind = false := by decide
  have hbreak : lineBreak.kind = .newline := rfl
  obtain ⟨line, errors, hline, halone, happend⟩ :=
    byPosition_row_append hinner hbreak labelRow ""
  refine ⟨line, errors, ?_, hline, halone, happend⟩
  have hfault : (ConcreteFile.ofTokens (brokenRow ++ [lineBreak]) [] "").errors ≠ [] := by
    decide +kernel
  rw [ConcreteFile.byPosition_file, Option.some_inj] at halone
  rw [halone] at hfault
  exact hfault

/-! ## Progress -/

/-- Reading by position makes progress on every list of tokens and comes to its end. -/
theorem byPosition_progress (tokens comments : List Token) (source : String) :
    (Cursor.start tokens comments source).Ready ∧
    (∀ c : Cursor, c.tokens = tokens -> c.Ready -> c.kind ≠ .eof ->
      (∃ line last, c.line = some (line, last) ∧ c.Reaches last ∧ c.position < last.position) ∧
      (∃ span last, c.passRow = some (span, last) ∧ c.Reaches last ∧
        c.position < last.position)) ∧
    ∃ last, ConcreteFile.byPosition tokens comments source =
        some (ConcreteFile.ofTokens tokens comments source, last) ∧
      last.position = tokens.findIdx fun token => token.kind == .eof := by
  refine ⟨Cursor.ready_start tokens comments source, ?_, ?_⟩
  · rintro c rfl hc hkind
    constructor
    · obtain ⟨line, last, hline, hreaches, hlt, -⟩ :=
        Cursor.line_moves hc hkind fun d hd _ => hd.ready.linesEnd
      exact ⟨line, last, hline, hreaches, hlt⟩
    · obtain ⟨stop, index, row, hrow⟩ := c.exists_atRow hkind
      have hpass : c.passRow = _ := hrow.passRow hrow.some_left
      have hreaches := hrow.reaches hc []
      rw [Cursor.faults_nil] at hreaches
      exact ⟨_, _, hpass, hreaches, hrow.position_lt⟩
  · obtain ⟨last, hread, hreaches, hend⟩ := ConcreteFile.byPosition_eq tokens comments source
    refine ⟨last, hread, ?_⟩
    have hlast := hreaches.ready.position_eq hend
    rwa [hreaches.tokens] at hlast

end Concrete

end Asm6502
