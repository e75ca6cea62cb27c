import Asm6502.Proofs.CursorCommands
import Asm6502.Proofs.RowIndependence

/-!
# Blocks by position

Between rows no counter is up, and the rows from a place on lead to a state, with all blocks closed
at the end of the text.  A block that has met its terminator or the end of the text ends as the rows
lead to it: at the terminator the rest of its row is finished, and at the end of the text the block
is reported.  A macro passes over its rows in turns, each of which takes a row.
-/

namespace Asm6502

namespace Concrete

variable {rest : List Token}

theorem Row.lastSpan_cons {token stop : Token} (h : rest ≠ [] ∨ stop.kind = .newline) :
    Row.lastSpan ⟨token :: rest, stop⟩ = Row.lastSpan ⟨rest, stop⟩ := by
  unfold Row.lastSpan
  by_cases hnewline : stop.kind = .newline
  · rw [if_pos hnewline, if_pos hnewline]
  · cases rest with
    | nil => exact absurd rfl (h.resolve_right hnewline)
    | cons next rest => simp [hnewline]

namespace Cursor

variable {c d : Cursor} {stop : Token} {index : Nat} {row : List Token}

/-! ## Places between rows -/

/-- Nothing is being read and no end of the text was passed over. -/
structure Ready (c : Cursor) : Prop extends c.Idle where
  within : c.position ≤ c.tokens.length
  inner : ∀ token ∈ c.tokens.take c.position, token.kind ≠ .eof

/-- A place between rows, not in front of another one in the same text. -/
structure Reaches (c d : Cursor) : Prop where
  tokens : d.tokens = c.tokens
  source : d.source = c.source
  position : c.position ≤ d.position
  ready : d.Ready

theorem Ready.reaches (h : c.Ready) : c.Reaches c :=
  ⟨rfl, rfl, Nat.le_refl _, h⟩

theorem Reaches.trans {e : Cursor} (h₁ : c.Reaches d) (h₂ : d.Reaches e) : c.Reaches e :=
  ⟨h₂.tokens.trans h₁.tokens, h₂.source.trans h₁.source, Nat.le_trans h₁.position h₂.position,
    h₂.ready⟩

/-- The row at a place in front of the end of the text. -/
structure AtRow (c : Cursor) (stop : Token) (index : Nat) (row : List Token) : Prop extends
    Stands c.tokens c.position stop index row where
  some_left : row ≠ [] ∨ stop.kind = .newline

theorem exists_atRow (c : Cursor) (h : c.kind ≠ .eof) :
    ∃ stop index row, AtRow c stop index row := by
  obtain ⟨stop, index, row, hstands⟩ := exists_stands c.tokens c.position
  have hkind : c.kind = (peek stop row).kind := hstands.kind_eq
  refine ⟨stop, index, row, hstands, ?_⟩
  cases row with
  | nil =>
      rcases kind_of_isLineEnd hstands.ends with hstop | hstop
      · exact .inr hstop
      · exact absurd (hkind.trans hstop) h
  | cons => exact .inl (List.cons_ne_nil _ _)

theorem AtRow.kind_ne (h : AtRow c stop index row) : c.kind ≠ .eof := by
  have hkind : c.kind = (peek stop row).kind := h.kind_eq
  rw [hkind]
  cases row with
  | nil =>
      have hstop : stop.kind = .newline := h.some_left.resolve_left fun hne => hne rfl
      simp [peek, hstop]
  | cons token rest =>
      have hinner := h.inner token List.mem_cons_self
      intro heof
      rw [peek, List.headD_cons] at heof
      rw [heof] at hinner
      cases hinner

theorem stands_end (h : c.kind = .eof) :
    ∃ stop, stop.kind = .eof ∧ Stands c.tokens c.position stop c.position [] := by
  obtain ⟨stop, index, row, hstands⟩ := exists_stands c.tokens c.position
  have hnone : row = [] ∧ stop.kind ≠ .newline := by
    constructor
    · refine Classical.not_not.1 fun hsome => ?_
      exact AtRow.kind_ne ⟨hstands, .inl hsome⟩ h
    · exact fun hnewline => AtRow.kind_ne ⟨hstands, .inr hnewline⟩ h
  obtain ⟨rfl, hstop⟩ := hnone
  have hindex : c.position = index := hstands.index_eq
  subst hindex
  exact ⟨stop, (kind_of_isLineEnd hstands.ends).resolve_left hstop, hstands⟩

theorem AtRow.position_lt (h : AtRow c stop index row) : c.position < behindRow stop index := by
  have hindex := h.index_eq
  unfold behindRow
  split
  · omega
  · next hstop =>
    have hlength := List.length_pos_iff.2 (h.some_left.resolve_right hstop)
    omega

variable {p : Nat} {word : Token.Kind}

theorem Stands.drop_eq {tokens : List Token} (h : Stands tokens p stop index row) :
    tokens.drop p = row ++ tokens.drop index ∧
      (tokens.drop index).headD (behindLast tokens) = stop := by
  obtain ⟨more, hsplit, hstop⟩ := h.split
  have hmore : tokens.drop index = more := by
    rw [← h.index_eq, ← List.drop_drop, hsplit, List.drop_left]
  rw [hmore]
  exact ⟨hsplit, hstop⟩

theorem Stands.drop_newline {tokens : List Token} (h : Stands tokens p stop index row)
    (hstop : stop.kind = .newline) : tokens.drop index = stop :: tokens.drop (index + 1) := by
  have hhead := h.drop_eq.2
  cases hrest : tokens.drop index with
  | nil =>
      rw [hrest, List.headD_nil] at hhead
      have heof := kind_behindLast tokens
      rw [hhead, hstop] at heof
      cases heof
  | cons token rest =>
      rw [hrest, List.headD_cons] at hhead
      rw [← List.drop_drop, hrest, hhead]
      rfl

/-- No end of the text stands in front of the end of a row. -/
theorem Ready.take_index (hc : c.Ready) (h : Stands c.tokens c.position stop index row) :
    ∀ token ∈ c.tokens.take index, token.kind ≠ .eof := by
  have htake : c.tokens.take index = c.tokens.take c.position ++ row := by
    rw [← h.index_eq, List.take_add, h.drop_eq.1, List.take_left]
  rw [htake]
  refine List.forall_mem_append.2 ⟨hc.inner, ?_⟩
  intro token htoken heof
  have hinner := h.inner token htoken
  rw [heof] at hinner
  cases hinner

theorem Ready.endMark_eq (hc : c.Ready) (h : Stands c.tokens c.position stop index row)
    (hstop : stop.kind = .eof) : endMark c.tokens = stop := by
  have hfront := hc.take_index h
  have hhead := h.drop_eq.2
  have htokens := List.take_append_drop index c.tokens
  cases hrest : c.tokens.drop index with
  | nil =>
      rw [hrest, List.headD_nil] at hhead
      rw [hrest, List.append_nil] at htokens
      rw [htokens] at hfront
      rw [← hhead]
      have hfind : c.tokens.find? (fun token => token.kind == .eof) = none := by
        rw [List.find?_eq_none]
        intro token htoken
        simpa using hfront token htoken
      unfold endMark behindLast
      rw [hfind]
      cases hlast : c.tokens.getLast? with
      | none => rfl
      | some token =>
          have hne := hfront token (List.mem_of_getLast? hlast)
          simp [hne]
  | cons token rest =>
      rw [hrest, List.headD_cons] at hhead
      rw [hrest] at htokens
      subst hhead
      rw [← htokens, endMark_append hfront (List.cons_ne_nil _ _)]
      simp [endMark, hstop]

theorem atEnd_of_kind (h : c.kind = .eof) : AtEnd (c.tokens.drop c.position) := by
  intro token htoken
  have hcurrent : c.current = token := by
    rw [List.head?_drop] at htoken
    rw [current, ahead, Nat.add_zero, htoken]
    rfl
  rw [← hcurrent]
  exact h

theorem AtRow.rowsUpTo_eq (h : AtRow c stop index row) (hc : c.Ready) :
    rowsUpTo (endMark c.tokens) (c.tokens.drop c.position) =
      ⟨row, stop⟩ :: rowsUpTo (endMark c.tokens) (c.tokens.drop (behindRow stop index)) := by
  rw [h.drop_eq.1]
  unfold behindRow
  by_cases hnewline : stop.kind = .newline
  · rw [if_pos hnewline, h.drop_newline hnewline, rowsUpTo_append h.inner hnewline]
  · have hstop : stop.kind = .eof := (kind_of_isLineEnd h.ends).resolve_left hnewline
    have hend : AtEnd (c.tokens.drop index) :=
      atEnd_of_kind (c := c.goto index) (h.skipRow.2.kind_eq.trans hstop)
    rw [if_neg hnewline, hc.endMark_eq h.toStands hstop, rowsUpTo_eq_nil_iff.2 hend]
    exact rowsUpTo_last h.inner (h.some_left.resolve_right hnewline) hend

theorem AtRow.reaches (h : AtRow c stop index row) (hc : c.Ready) (errors : List ParseError) :
    c.Reaches ((c.goto (behindRow stop index)).faults errors) := by
  have hfront := hc.take_index h.toStands
  have hbehind : behindRow stop index ≤ c.tokens.length ∧
      ∀ token ∈ c.tokens.take (behindRow stop index), token.kind ≠ .eof := by
    unfold behindRow
    split
    · next hnewline =>
      have hbreak := h.drop_newline hnewline
      have hlength := congrArg List.length hbreak
      rw [List.length_drop, List.length_cons] at hlength
      refine ⟨by omega, ?_⟩
      rw [List.take_add, hbreak]
      refine List.forall_mem_append.2 ⟨hfront, ?_⟩
      simp [hnewline]
    · have hlength := congrArg List.length h.drop_eq.1
      have hindex := h.index_eq
      have hwithin := hc.within
      rw [List.length_drop, List.length_append, List.length_drop] at hlength
      exact ⟨by omega, hfront⟩
  exact ⟨rfl, rfl, Nat.le_of_lt h.position_lt, ⟨hc.depth, hc.nesting⟩, hbehind.1, hbehind.2⟩

/-- The number of tokens that are left. -/
def left (c : Cursor) : Nat := c.tokens.length - c.position

theorem Reaches.left_lt (h : c.Reaches d) (hlt : c.position < d.position) (hkind : c.kind ≠ .eof) :
    d.left < c.left := by
  have hlength : c.position < c.tokens.length := by
    refine Nat.lt_of_not_le fun hle => hkind ?_
    have hnone : c.current = behindLast c.tokens := by
      simp [current, ahead, List.getElem?_eq_none hle]
    exact (congrArg Token.kind hnone).trans (kind_behindLast c.tokens)
  unfold left
  rw [h.tokens]
  omega

/-! ## The state that the rows lead to -/

/-- What the rows have led to when the place is between rows. -/
def state (c : Cursor) (frames : List Frame) (lines : List Line) : State :=
  ⟨frames, lines, c.errors, c.comments, c.rawRows⟩

/-- The state at the end of the text, all blocks closed, from the place on. -/
def complete (c : Cursor) (state : State) : State :=
  let last :=
    (rowsUpTo (endMark c.tokens) (c.tokens.drop c.position)).foldl (State.step c.source) state
  State.closeAll c.source last.frames last

theorem complete_row (h : AtRow c stop index row) (hc : c.Ready) (state : State) :
    c.complete state =
      (c.goto (behindRow stop index)).complete (state.step c.source ⟨row, stop⟩) := by
  unfold complete
  rw [h.rowsUpTo_eq hc]
  rfl

theorem complete_end (h : c.kind = .eof) (state : State) :
    c.complete state = State.closeAll c.source state.frames state := by
  unfold complete
  rw [rowsUpTo_eq_nil_iff.2 (atEnd_of_kind h)]
  rfl

/-! ## Terminators -/

theorem Stands.headFrom (h : Stands c.tokens p stop index row) :
    (c.goto p).headFrom 0 = some (peek stop (skipBlanks row)) := by
  have hfrom (tail : List Token) : ∀ count ≤ row.length, row.drop count = tail ->
      (c.goto p).headFrom count = some (peek stop (skipBlanks tail)) := by
    induction tail with
    | nil =>
        intro count hcount htail
        have hahead := h.ahead_eq hcount
        rw [htail] at hahead
        have hblank : (peek stop []).kind ≠ .whitespace := ne_of_class rfl h.ends
        rw [Cursor.headFrom, hahead, if_neg hblank]
        rfl
    | cons token more ih =>
        intro count hcount htail
        have hahead := h.ahead_eq hcount
        have hlength := congrArg List.length htail
        rw [List.length_drop, List.length_cons] at hlength
        have hmore : row.drop (count + 1) = more := by rw [← List.drop_drop, htail]; rfl
        rw [htail] at hahead
        have hpeek : peek stop (token :: more) = token := rfl
        rw [Cursor.headFrom, hahead, hpeek]
        split
        · next hblank => rw [ih (count + 1) (by omega) hmore, skipBlanks_blank hblank]
        · next hblank => rw [skipBlanks_cons hblank, hpeek]
  exact hfrom row 0 (Nat.zero_le _) rfl

theorem Stands.atTerminator (h : Stands c.tokens p stop index row) (terminators : List Token.Kind) :
    (c.goto p).atTerminator terminators =
      some (terminators.contains (peek stop (skipBlanks row)).kind) := by
  unfold Cursor.atTerminator
  rw [h.headFrom]
  rfl

theorem atTerminator_congr (htokens : d.tokens = c.tokens) (hposition : d.position = c.position)
    (terminators : List Token.Kind) : d.atTerminator terminators = c.atTerminator terminators := by
  obtain ⟨stop, index, row, hstands⟩ := exists_stands c.tokens c.position
  have hc := hstands.atTerminator terminators
  rw [← htokens, ← hposition] at hstands
  exact (hstands.atTerminator terminators).trans hc.symm

structure Headed (c : Cursor) (word : Token.Kind) (stop : Token) (index : Nat) (row : List Token)
    (token : Token) (rest : List Token) : Prop extends AtRow c stop index row where
  blanks : skipBlanks row = token :: rest
  kind_word : token.kind = word

theorem Headed.atTerminator_eq {token : Token}
    (h : Headed c word stop index row token rest) (terminators : List Token.Kind) :
    c.atTerminator terminators = some (terminators.contains word) := by
  refine (h.atTerminator terminators).trans ?_
  rw [h.blanks, ← h.kind_word]
  rfl

theorem Headed.takeTerminator {token : Token} (h : Headed c word stop index row token rest) :
    ∃ next, c.takeTerminator word = some (some token, next) ∧
      next.finishRow =
        some ((c.goto (behindRow stop index)).faults (restErrors stop rest)) := by
  obtain ⟨q, hskip, hrow⟩ := h.skipSpace
  rw [h.blanks] at hrow
  obtain ⟨hnext, hrest⟩ := hrow.next_eq
  have hcurrent : (c.goto q).current = token := hrow.current_eq
  have hat : c.atTerminator [word] = some true := by simp [h.atTerminator_eq]
  have hskip' : c.skipSpace = some (c.goto q) := hskip
  refine ⟨c.goto (q + 1), ?_, hrest.finishRow⟩
  unfold Cursor.takeTerminator
  simp only [hat, hskip', hcurrent, hnext, Option.bind_eq_bind, Option.bind_some, if_true]
  rfl

theorem takeTerminator_none (h : c.atTerminator [word] = some false) :
    c.takeTerminator word = some (none, c) := by
  unfold Cursor.takeTerminator
  rw [h]
  rfl

theorem atTerminator_end (h : c.kind = .eof) {terminators : List Token.Kind}
    (hinner : ∀ word ∈ terminators, word.isLineEnd = false) :
    c.atTerminator terminators = some false := by
  obtain ⟨stop, hstop, hstands⟩ := stands_end h
  refine (hstands.atTerminator terminators).trans (congrArg some ?_)
  rw [List.contains_eq_mem, decide_eq_false_iff_not]
  intro hmem
  have hfalse : stop.kind.isLineEnd = false := hinner _ hmem
  rw [hstands.ends] at hfalse
  cases hfalse

theorem exists_headed {terminators : List Token.Kind}
    (hinner : ∀ word ∈ terminators, word.isLineEnd = false)
    (h : c.atTerminator terminators = some true) :
    ∃ word ∈ terminators, ∃ stop index row token rest, Headed c word stop index row token rest := by
  obtain ⟨stop, index, row, hstands⟩ := exists_stands c.tokens c.position
  have hmem : (peek stop (skipBlanks row)).kind ∈ terminators := by
    have hat : some _ = some true := (hstands.atTerminator terminators).symm.trans h
    simpa using hat
  refine ⟨_, hmem, stop, index, row, ?_⟩
  cases hblanks : skipBlanks row with
  | nil =>
      rw [hblanks] at hmem
      have hfalse := hinner _ hmem
      rw [peek, List.headD_nil, hstands.ends] at hfalse
      cases hfalse
  | cons token rest =>
      have hsome : row ≠ [] := by
        rintro rfl
        cases hblanks
      exact ⟨token, rest, ⟨hstands, .inl hsome⟩, hblanks, rfl⟩

/-- A block ends at a word and is reported by an error if it does not meet it. -/
structure EndsAt (block : OpenBlock) (word : Token.Kind) (error : ParseError) : Prop where
  turn : ∀ {row : Row} {token : Token} {rest : List Token}, row.head? = some (token, rest) ->
    token.kind = word -> block.turn row = .close token rest
  missing : State.missing block = error

theorem Ready.closes (hc : c.Ready) (hword : word.isLineEnd = false)
    (h : c.kind = .eof ∨ c.atTerminator [word] = some true) (error : ParseError) :
    ∃ ending next position errors, c.takeTerminator word = some (ending, next) ∧
      (next.orMissing ending error).finishRow = some ((c.goto position).faults errors) ∧
      c.Reaches ((c.goto position).faults errors) ∧
      ∀ {state : State} {before : List Line} {block : OpenBlock} {frames : List Frame},
        EndsAt block word error -> state.frames = ⟨before, block⟩ :: frames ->
          c.complete state = (c.goto position).complete
            ((state.fault errors).close c.source ⟨before, block⟩ frames ending c.endRow) := by
  have hinner : ∀ kind ∈ [word], kind.isLineEnd = false := by simpa using hword
  rcases h with hend | hat
  · obtain ⟨stop, hstop, hstands⟩ := stands_end hend
    have hfinish := hstands.finishRow_faults [error]
    have hbehind : behindRow stop c.position = c.position := by simp [behindRow, hstop]
    rw [hbehind] at hfinish
    refine ⟨none, c, c.position, [error], takeTerminator_none (atTerminator_end hend hinner),
      hfinish, ⟨rfl, rfl, Nat.le_refl _, ⟨hc.depth, hc.nesting⟩, hc.within, hc.inner⟩, ?_⟩
    intro state before block frames hblock hframes
    have hclosed := State.frames_close c.source (state.fault [error]) ⟨before, block⟩ frames none
      c.endRow
    have hrow : c.endRow = c.source.length := if_pos hend
    have hgoto : c.goto c.position = c := rfl
    rw [hgoto, complete_end hend, complete_end hend, hframes, hclosed, hrow]
    simp only [State.closeAll, State.fault, hblock.missing]
  · obtain ⟨word, hmem, stop, index, row, token, rest, hheaded⟩ := exists_headed hinner hat
    obtain rfl := List.mem_singleton.1 hmem
    obtain ⟨next, htake, hfinish⟩ := hheaded.takeTerminator
    refine ⟨some token, next, behindRow stop index, restErrors stop rest, htake, hfinish,
      hheaded.reaches hc _, ?_⟩
    intro state before block frames hblock hframes
    have hhead : Row.head? ⟨row, stop⟩ = some (token, rest) := by simp [Row.head?, hheaded.blanks]
    have hrow : c.endRow = Row.number ⟨row, stop⟩ := by
      have hcurrent : c.current = peek stop row := hheaded.current_eq
      unfold endRow
      rw [if_neg hheaded.kind_ne, hcurrent]
      rfl
    rw [complete_row hheaded.toAtRow hc, State.step_of_frames c.source hframes,
      hblock.turn hhead hheaded.kind_word, hrow]
    rfl

/-- A conditional goes over to its second part. -/
theorem Headed.divides {token : Token}
    (h : Headed c .elseWord stop index row token rest) (hc : c.Ready) (start : LineStart)
    (keyword : Token) (condition : Option Expr) (frames : List Frame) (before lines : List Line) :
    let behind := (c.goto (behindRow stop index)).faults (restErrors stop rest)
    c.complete (c.state (⟨before, .thenPart start keyword condition⟩ :: frames) lines) =
      behind.complete (behind.state
        (⟨before, .elsePart start keyword condition lines token⟩ :: frames) []) := by
  have hhead : Row.head? ⟨row, stop⟩ = some (token, rest) := by simp [Row.head?, h.blanks]
  have hturn : OpenBlock.turn ⟨row, stop⟩ (.thenPart start keyword condition) =
      .divide start keyword condition token rest := by
    simp [OpenBlock.turn, hhead, h.kind_word]
  have hframes : (c.state (⟨before, .thenPart start keyword condition⟩ :: frames) lines).frames =
      ⟨before, .thenPart start keyword condition⟩ :: frames := rfl
  rw [complete_row h.toAtRow hc, State.step_of_frames c.source hframes, hturn]
  rfl

/-! ## Macros -/

theorem Stands.passRow (h : Stands c.tokens p stop index row)
    (hsome : row ≠ [] ∨ stop.kind = .newline) :
    (c.goto p).passRow = some (Row.lastSpan ⟨row, stop⟩, c.goto (behindRow stop index)) := by
  induction row generalizing p with
  | nil =>
      have hnewline : stop.kind = .newline := hsome.resolve_left fun hne => hne rfl
      have hindex : p = index := h.index_eq
      subst hindex
      have hbehind := h.behindRow_eq
      have hkind : (c.goto p).kind = .newline := h.kind_eq.trans hnewline
      have hcurrent : (c.goto p).current = stop := h.current_eq
      rw [if_pos hkind] at hbehind
      rw [Cursor.passRow, if_pos (.inl (by rw [hkind]; rfl)), hcurrent, hbehind]
      simp [Row.lastSpan, hnewline]
  | cons token rest ih =>
      obtain ⟨hnext, hrest⟩ := h.next_eq
      have hcurrent : (c.goto p).current = token := h.current_eq
      have hend : (c.goto p).kind.isLineEnd = false := h.isLineEnd_eq
      rw [Cursor.passRow, hnext, hcurrent, hend]
      by_cases hmore : rest ≠ [] ∨ stop.kind = .newline
      · have heof : (c.goto (p + 1)).kind ≠ .eof :=
          AtRow.kind_ne (c := c.goto (p + 1)) ⟨hrest, hmore⟩
        rw [if_neg (by simp [heof]), ih hrest hmore, Row.lastSpan_cons hmore]
      · obtain ⟨hnone, hnewline⟩ := not_or.1 hmore
        obtain rfl := Classical.not_not.1 hnone
        have hstop : stop.kind = .eof := (kind_of_isLineEnd h.ends).resolve_left hnewline
        have heof : (c.goto (p + 1)).kind = .eof := hrest.kind_eq.trans hstop
        have hindex : p + 1 = index := hrest.index_eq
        rw [if_pos (.inr heof), hindex]
        simp [Row.lastSpan, behindRow, hnewline]

theorem Ready.passRows (hc : c.Ready) (last : Option Span) :
    ∃ passed position, c.passRows last = some (passed, c.goto position) ∧
      c.Reaches (c.goto position) ∧
      ((c.goto position).kind = .eof ∨ (c.goto position).atTerminator [.endMWord] = some true) ∧
      ∀ start keyword name frames before lines,
        c.complete (c.state (⟨before, .macroBlock start keyword name last⟩ :: frames) lines) =
          (c.goto position).complete
            (c.state (⟨before, .macroBlock start keyword name passed⟩ :: frames) lines) := by
  induction hleft : c.left using Nat.strongRecOn generalizing c last with
  | ind left ih =>
      by_cases hend : c.kind = .eof
      · refine ⟨last, c.position, ?_, hc.reaches, .inl hend, fun _ _ _ _ _ _ => rfl⟩
        rw [Cursor.passRows, if_pos hend]
        rfl
      obtain ⟨stop, index, row, hrow⟩ := exists_atRow c hend
      have hat : c.atTerminator [.endMWord] =
          some (decide ((peek stop (skipBlanks row)).kind = .endMWord)) := by
        refine (hrow.atTerminator [.endMWord]).trans ?_
        simp [List.contains_eq_mem]
      by_cases hword : (peek stop (skipBlanks row)).kind = .endMWord
      · simp only [hword, decide_true] at hat
        refine ⟨last, c.position, ?_, hc.reaches, .inr hat, fun _ _ _ _ _ _ => rfl⟩
        rw [Cursor.passRows, if_neg hend, hat]
        rfl
      simp only [hword, decide_false] at hat
      let next := c.goto (behindRow stop index)
      have hreaches : c.Reaches next := by simpa using hrow.reaches hc []
      have hpass : c.passRow = some (Row.lastSpan ⟨row, stop⟩, next) :=
        hrow.passRow hrow.some_left
      obtain ⟨passed, position, hpassed, hmore, hlast, hcomplete⟩ :=
        ih next.left (hleft ▸ hreaches.left_lt hrow.position_lt hend) hreaches.ready
          (some (Row.lastSpan ⟨row, stop⟩)) rfl
      refine ⟨passed, position, ?_, hreaches.trans hmore, hlast, ?_⟩
      · rw [Cursor.passRows, if_neg hend, hat]
        simp only [Option.bind_eq_bind, Option.bind_some, hpass]
        exact hpassed
      · intro start keyword name frames before lines
        have hturn : OpenBlock.turn ⟨row, stop⟩ (.macroBlock start keyword name last) =
            .pass start keyword name (Row.lastSpan ⟨row, stop⟩) := by
          unfold OpenBlock.turn Row.head?
          cases hblanks : skipBlanks row with
          | nil => rfl
          | cons token rest =>
              rw [hblanks] at hword
              exact if_neg hword
        have hframes : (c.state (⟨before, .macroBlock start keyword name last⟩ :: frames)
            lines).frames = ⟨before, .macroBlock start keyword name last⟩ :: frames := rfl
        rw [complete_row hrow hc, State.step_of_frames c.source hframes, hturn]
        exact hcomplete start keyword name frames before lines

/-- A block with some lines is read to its end.  Its rows lead to the line that it becomes, in the
blocks around it. -/
def Closes (c : Cursor) (block : LineStart -> OpenBlock) (lines : List Line)
    (result : Option (Body × Cursor)) : Prop :=
  ∃ body last behind, result = some (body, last) ∧ last.finishRow = some behind ∧
    c.Reaches behind ∧ ∀ start frames before,
      c.complete (c.state (⟨before, block start⟩ :: frames) lines) =
        behind.complete ((behind.state frames before).addLine start body.span body.line)

theorem Ready.macroBody (hc : c.Ready) (keyword : Token) (name : Option Token) :
    Closes c (.macroBlock · keyword name none) [] (c.macroBody keyword name) := by
  obtain ⟨passed, position, hpassed, hreaches, hend, hcomplete⟩ := hc.passRows none
  let stopped := c.goto position
  let firstRow := keyword.span.start.line + 1
  let rows := (firstRow, max stopped.endRow firstRow)
  let noted := { stopped with rawRows := stopped.rawRows ++ [rows] }
  have hready : noted.Ready :=
    ⟨⟨hreaches.ready.depth, hreaches.ready.nesting⟩, hreaches.ready.within, hreaches.ready.inner⟩
  have hend' : noted.kind = .eof ∨ noted.atTerminator [.endMWord] = some true :=
    hend.imp_right (atTerminator_congr (c := stopped) (d := noted) rfl rfl _).trans
  obtain ⟨ending, next, behind, errors, htake, hfinish, hbehind, hclose⟩ :=
    hready.closes rfl hend' (.unterminatedBlock .endM keyword)
  let text := rowText c.source rows.1 rows.2
  refine ⟨.ofMacro keyword name passed text ending, _, _, ?_, hfinish, ?_, ?_⟩
  · unfold Cursor.macroBody
    rw [hpassed]
    exact congrArg (· >>= _) htake
  · exact ⟨hbehind.tokens, hbehind.source, Nat.le_trans hreaches.position hbehind.position,
      hbehind.ready⟩
  · intro start frames before
    have hends : EndsAt (.macroBlock start keyword name passed) .endMWord
        (.unterminatedBlock .endM keyword) := by
      refine ⟨?_, rfl⟩
      intro row token rest hhead hkind
      simp [OpenBlock.turn, hhead, hkind]
    rw [hcomplete]
    exact hclose hends rfl

end Cursor

end Concrete

end Asm6502
