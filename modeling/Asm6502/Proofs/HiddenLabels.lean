import Asm6502.Proofs.MergedLines

/-!
# Hidden labels

A row that starts with several blanks, a name and a colon is taken for a command without its label,
and the colon for a fault in its first argument.  So a text without faults hides no label, and a
label that is hidden leaves a fault behind.
-/

namespace Asm6502

namespace Concrete

/-! ## A row that hides its label -/

theorem exists_of_hidesLabel {tokens : List Token} (h : hidesLabel tokens = true) :
    ∃ first second rest name colon tail, tokens = first :: second :: rest ∧
      first.kind = .whitespace ∧ second.kind = .whitespace ∧
      skipBlanks tokens = name :: colon :: tail ∧ name.kind = .identifier ∧
      colon.kind = .colon := by
  rcases tokens with _ | ⟨first, _ | ⟨second, rest⟩⟩
  · cases h
  · cases h
  · simp only [hidesLabel, Bool.and_eq_true, beq_iff_eq] at h
    obtain ⟨⟨hfirst, hsecond⟩, hlabel⟩ := h
    split at hlabel
    · next name colon tail hskip =>
      rw [Bool.and_eq_true, beq_iff_eq, beq_iff_eq] at hlabel
      refine ⟨first, second, rest, name, colon, tail, rfl, hfirst, hsecond, ?_, hlabel⟩
      rw [skipBlanks_blank hfirst, skipBlanks_blank hsecond, hskip]
    · cases hlabel

theorem readContent_colon (stop : Token) {name colon : Token} (hname : name.kind = .identifier)
    (hcolon : colon.kind = .colon) (tail : List Token) :
    (readContent stop name (colon :: tail)).2 = [.unexpectedToken .expression colon] := by
  have hargument : readArgument stop (colon :: tail) =
      .error (.unexpectedToken .expression colon) := by
    have hoperand (levels : Nat) : readOperand stop (levels + 1) false (colon :: tail) =
        .error (.unexpectedToken .expression colon) := by
      rw [readOperand_cons]
      simp [hcolon, Token.Kind.isUnarySign, isAtom, Token.Kind.isNumber, Token.Kind.isWord,
        Token.Kind.isKeyword, unexpected, peek]
    simp only [readArgument, hcolon, reduceCtorEq, if_false, readExpr, nestingLimit, hoperand]
    rfl
  have harguments : (readArguments stop true true (colon :: tail)).2 =
      some (.unexpectedToken .expression colon) := by
    have hseparator : readSeparator stop true true (colon :: tail) = .ok (colon :: tail) := by
      simp [readSeparator, peek, hcolon, skipBlanks]
    rw [readArguments_eq, if_neg (by simp [skipBlanks, hcolon]), hseparator]
    simp only [hargument]
  simp only [readContent, hname, readCommandTail, readExtension?, hcolon, reduceCtorEq, false_and,
    if_false, extensionErrors, Option.isSome_some, harguments]
  rfl

theorem Row.read_of_hidesLabel {row : Row} {name colon : Token} {tail : List Token}
    (h : hidesLabel row.tokens = true) (hskip : skipBlanks row.tokens = name :: colon :: tail) :
    row.read.2.2 = [.unexpectedToken .expression colon] := by
  obtain ⟨first, second, rest, name', colon', tail', htokens, hfirst, hsecond, hskip', hname,
    hcolon⟩ :=
    exists_of_hidesLabel h
  rw [hskip] at hskip'
  obtain ⟨rfl, rfl, rfl⟩ : name = name' ∧ colon = colon' ∧ tail = tail' := by
    simpa using hskip'
  have hnone : readLabel? row.tokens = (none, row.tokens) := by
    have hhidden : labelInFront? (second :: rest) = none := by
      refine labelInFront?_of_blanks ?_
      rw [skipBlanks_blank hsecond]
      intro hsame
      have hlength := length_skipBlanks_le rest
      rw [hsame, List.length_cons] at hlength
      omega
    rw [htokens, readLabel?_blank hfirst, hhidden]
  rw [Row.read, hnone]
  rw [htokens, skipBlanks_blank hfirst] at hskip
  simp only [htokens, readBehindLabel, hfirst, if_true, hskip]
  exact readContent_colon row.stop hname hcolon tail

namespace State

variable {source : List (List Char)} {state : State}

theorem step_of_name (source : List (List Char)) (hopen : state.openMacro? = none) {row : Row}
    {name : Token} {rest : List Token} (hhead : skipBlanks row.tokens = name :: rest)
    (hname : name.kind = .identifier) : state.step source row = state.readRow row := by
  cases hframes : state.frames with
  | nil => exact step_of_no_frames source hframes row
  | cons frame frames =>
      rw [step_of_frames source hframes]
      have hturn : frame.block.turn row = .read := by
        rw [openMacro?_of_frames hframes] at hopen
        have hhead? : row.head? = some (name, rest) := by rw [Row.head?, hhead]
        cases hblock : frame.block with
        | macroBlock => simp [hblock] at hopen
        | thenPart | elsePart | repetition => simp [OpenBlock.turn, hhead?, hname]
      rw [hturn]
      rfl

/-! ## Faults of the rows that follow -/

/-- The faults of a file from some state on: first those of the rows, then those of the blocks that
are still open. -/
theorem Built.errors_finish {comments : List Token} {roles : List Role}
    (h : state.Built comments source roles []) (rows : List Row) :
    ∃ faults, ((rows.foldl (State.step source) state).finish source).errors =
        state.errors ++ faults ∧
      ∀ fault ∈ faults, fault.isUnterminated = true ∨
        ∃ row ∈ rows, fault.token ∈ row.stop :: row.tokens := by
  obtain ⟨more, rfl, hread⟩ := h.foldl_step rows
  obtain ⟨unclosed, hbuilt, herrors⟩ := hread.closeAll rfl
  refine ⟨more.flatMap Role.faults ++ unclosed, ?_, List.forall_mem_append.2 ⟨?_, ?_⟩⟩
  · rw [h.errors, List.append_nil, ← List.append_assoc, ← List.flatMap_append]
    exact herrors
  · intro fault hfault
    obtain ⟨role, hrole, hfault⟩ := List.mem_flatMap.1 hfault
    exact .inr ⟨role.row, List.mem_map_of_mem hrole, (role.foundAmong fault hfault).token⟩
  · exact fun fault hfault => .inl (hbuilt.unclosed_spec.1 fault hfault)

theorem exists_built_step (comments : List Token) (source : List (List Char)) (before : List Row)
    (row : Row) : ∃ roles, ((before.foldl (State.step source) (State.fresh comments)).step source
      row).Built comments source roles [] := by
  obtain ⟨roles, -, hbuilt⟩ := exists_built comments source (before ++ [row])
  rw [List.foldl_append] at hbuilt
  exact ⟨roles, hbuilt⟩

/-! ## Rows that are read -/

theorem exists_of_not_seesLabels {rows : List Row} (h : ¬ state.SeesLabels source rows) :
    ∃ before row after, rows = before ++ row :: after ∧ state.SeesLabels source before ∧
      (before.foldl (State.step source) state).openMacro? = none ∧
      hidesLabel row.tokens = true := by
  induction rows generalizing state with
  | nil => exact absurd trivial h
  | cons row rows ih =>
      by_cases hrow : state.openMacro? = none -> hidesLabel row.tokens = false
      · obtain ⟨before, hidden, after, rfl, hbefore, hopen, hhides⟩ :=
          ih fun hrows => h ⟨hrow, hrows⟩
        exact ⟨row :: before, hidden, after, rfl, ⟨hrow, hbefore⟩, hopen, hhides⟩
      · have hopen : state.openMacro? = none := by
          by_cases hopen : state.openMacro? = none
          · exact hopen
          · exact absurd (fun hnone => absurd hnone hopen) hrow
        have hhides : hidesLabel row.tokens = true := by
          cases hhides : hidesLabel row.tokens with
          | true => rfl
          | false => exact absurd (fun _ => hhides) hrow
        exact ⟨[], row, rows, rfl, trivial, hopen, hhides⟩

/-- A row that is read and hides its label leaves a fault about the colon. -/
theorem errors_of_hidden (source : List (List Char)) {row : Row}
    (hopen : state.openMacro? = none) (hhides : hidesLabel row.tokens = true) :
    ∃ name colon tail, skipBlanks row.tokens = name :: colon :: tail ∧
      name.kind = .identifier ∧ colon.kind = .colon ∧
      (state.step source row).errors = state.errors ++ [.unexpectedToken .expression colon] := by
  obtain ⟨-, -, -, name, colon, tail, -, -, -, hskip, hname, hcolon⟩ := exists_of_hidesLabel hhides
  refine ⟨name, colon, tail, hskip, hname, hcolon, ?_⟩
  rw [step_of_name source hopen hskip hname, errors_readRow, Row.read_of_hidesLabel hhides hskip]

end State

end Concrete

/-- A text without faults hides no label. -/
theorem ConcreteFile.seesLabels_of_clean {tokens comments : List Token} {source : String}
    (h : (ofTokens tokens comments source).errors = []) :
    (Concrete.State.fresh comments).SeesLabels (Concrete.sourceRows source.toList)
      (Concrete.rows tokens) := by
  by_contra hhidden
  obtain ⟨before, row, after, hrows, -, hopen, hhides⟩ :=
    Concrete.State.exists_of_not_seesLabels hhidden
  obtain ⟨-, colon, -, -, -, -, hstep⟩ := Concrete.State.errors_of_hidden
    (Concrete.sourceRows source.toList) hopen hhides
  obtain ⟨roles, hbuilt⟩ := Concrete.State.exists_built_step comments
    (Concrete.sourceRows source.toList) before row
  obtain ⟨faults, hfaults, -⟩ := hbuilt.errors_finish after
  rw [ofTokens_eq, hrows, List.foldl_append, List.foldl_cons, hfaults, hstep] at h
  simp at h

end Asm6502
