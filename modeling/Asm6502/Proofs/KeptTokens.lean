import Asm6502.Proofs.ExprRoundTrip
import Asm6502.Proofs.LineParts
import Asm6502.Proofs.RowTokens

/-!
# Tokens that a text keeps

Lines hold what their rows hold, in the order of the rows, whether a row is read as a line, opens a
block, goes over to a second part or closes a block.  So the lines of a text without macros hold its
tokens in order, each at most once, and without a fault no meaningful one is missing.
-/

namespace Asm6502

namespace Concrete

/-! ## Tokens of lines -/

def Margin.held (margin : Margin) : List Held := margin.label.toList.flatMap Label.held

mutual

def Line.held : Line -> List Held
  | .command margin c => margin.held ++ (c.toList.flatMap Command.tokens).map .whole
  | .macroBlock margin block =>
      margin.held ++ (block.keyword :: block.name.toList ++ block.ending.toList).map .whole
  | .conditional margin keyword condition thenLines elseKeyword elseLines ending _ =>
      margin.held ++ (keyword :: condition.toList.flatMap Expr.tokens).map .whole ++
        Line.heldAll thenLines ++ elseKeyword.toList.map .whole ++ Line.heldAll elseLines ++
        ending.toList.map .whole
  | .repetition margin keyword count body ending _ =>
      margin.held ++ (keyword :: count.toList.flatMap Expr.tokens).map .whole ++
        Line.heldAll body ++ ending.toList.map .whole

def Line.heldAll : List Line -> List Held
  | [] => []
  | line :: lines => line.held ++ Line.heldAll lines

end

theorem Line.heldAll_append (front back : List Line) :
    heldAll (front ++ back) = heldAll front ++ heldAll back := by
  induction front with
  | nil => rfl
  | cons line lines ih => rw [List.cons_append, heldAll, heldAll, ih, List.append_assoc]

theorem Line.heldAll_singleton (line : Line) : heldAll [line] = line.held := by
  simp [heldAll]

/-! ## Tokens of rows -/

def Role.held : Role -> List Held
  | .read row => row.held
  | .ends ending => [.whole ending.token]
  | .passed _ => []

theorem flatMap_held_closing (last : Option EndRow) :
    (closing last).flatMap Role.held = (word last).toList.map .whole := by
  cases last <;> rfl

variable {comments : List Token} {source : List (List Char)} {roles : List Role}
  {lines : List Line} {bodies : List (Nat × Nat)} {unclosed : List ParseError}

/-- Lines hold what their rows hold, in the order of the rows. -/
theorem Built.heldAll (h : Built comments source roles lines bodies unclosed) :
    Line.heldAll lines = roles.flatMap Role.held := by
  induction h with
  | nil => rfl
  | command _ hread _ ih =>
      simp [Line.heldAll_append, Line.heldAll_singleton, ih, Role.held, Row.held, hread, Line.held,
        Margin.held, Row.start, LineStart.margin, Content.tokens]
  | macroBlock passed last _ hread _ _ _ _ _ _ ih =>
      have hpassed : (passed.map Role.passed).flatMap Role.held = [] := by
        simp [List.flatMap_map, Role.held]
      simp [Line.heldAll_append, Line.heldAll_singleton, ih, Role.held, Row.held, hread, Line.held,
        Margin.held, Row.start, LineStart.margin, Content.tokens, flatMap_held_closing, hpassed]
  | conditional divider last _ hread _ _ _ _ _ _ _ _ _ ih ihthen ihelse =>
      simp [Line.heldAll_append, Line.heldAll_singleton, ih, ihthen, ihelse, Role.held, Row.held,
        hread, Line.held, Margin.held, Row.start, LineStart.margin, Content.tokens,
        flatMap_held_closing]
  | repetition last _ hread _ _ _ _ _ ih ihbody =>
      simp [Line.heldAll_append, Line.heldAll_singleton, ih, ihbody, Role.held, Row.held, hread,
        Line.held, Margin.held, Row.start, LineStart.margin, Content.tokens, flatMap_held_closing]

/-! ## Rows that are accounted for -/

variable {row : Row} {token : Token} {rest : List Token}

theorem meaningful_taken (row : Row) : meaningful row.taken = meaningful row.tokens := by
  unfold Row.taken
  split
  · next h =>
    rw [meaningful_append, meaningful_cons_of_separating (by rw [h]; rfl)]
    simp
  · rfl

theorem Row.accounts_of_head? (h : row.head? = some (token, rest))
    (htoken : isSeparating token.kind = false) :
    Accounts row.tokens [token] (restErrors row.stop rest) := by
  have hskip : skipBlanks row.tokens = token :: rest := by
    unfold Row.head? at h
    split at h
    · cases h
    · next hskip =>
      cases h
      exact hskip
  have hfront : meaningful row.tokens = [token] ++ meaningful rest := by
    rw [meaningful_of_skipBlanks hskip, meaningful_cons htoken]
    rfl
  exact (restErrors_accounts row.stop rest).behind hfront

/-! ## Whole texts -/

def Role.Accounted (role : Role) : Prop :=
  ∃ taken, StandsFor role.held taken ∧ Accounts role.row.tokens taken role.faults

theorem Built.accounted (h : Built comments source roles lines bodies unclosed)
    (hroles : ∀ role ∈ roles, ∀ token ∈ role.row.tokens, token.kind ≠ .macWord) :
    ∀ role ∈ roles, role.Accounted := by
  intro role hrole
  cases role with
  | read row => exact (row.held_spec (hroles _ hrole)).1
  | ends ending =>
      have hword : ending.token.kind.isWord = true := by simp [Token.Kind.isWord, ending.keyword]
      exact ⟨[ending.token], .wholes [ending.token],
        Row.accounts_of_head? ending.head (isSeparating_of_isWord hword)⟩
  | passed row =>
      obtain ⟨first, hfirst, keyword, name, hread⟩ := h.exists_macro hrole
      have hnoMacro := (first.held_spec (hroles _ hfirst)).2
      rw [hread] at hnoMacro
      cases hnoMacro

theorem Role.keeps (h : ∀ role ∈ roles, role.Accounted) :
    ∃ used, StandsFor (roles.flatMap Role.held) used ∧
      used.Sublist (meaningful ((roles.map Role.row).flatMap Row.taken)) ∧
      (roles.flatMap Role.faults = [] ->
        used = meaningful ((roles.map Role.row).flatMap Row.taken)) := by
  induction roles with
  | nil => exact ⟨[], .nil, .slnil, fun _ => rfl⟩
  | cons role roles ih =>
      obtain ⟨⟨taken, htaken, left, hrow, hleft⟩, hroles⟩ := List.forall_mem_cons.1 h
      obtain ⟨used, hused, hsub, hclean⟩ := ih hroles
      simp only [List.flatMap_cons, List.map_cons, meaningful_append, meaningful_taken, hrow]
      refine ⟨taken ++ used, htaken.append hused, ?_, fun hnil => ?_⟩
      · exact (List.sublist_append_left taken left).append hsub
      · obtain ⟨hfaults, hothers⟩ := List.append_eq_nil_iff.1 hnil
        rw [hclean hothers, hleft hfaults, List.append_nil]

theorem flatMap_taken_rows {body : List Token} {mark : Token} (hmark : mark.kind = .eof)
    (hbody : ∀ token ∈ body, token.kind ≠ .eof) :
    (rows (body ++ [mark])).flatMap Row.taken = body := by
  have hinner : ∀ token ∈ body, (token.kind != .eof) = true := by
    intro token htoken
    simpa using hbody token htoken
  rw [rows, flatMap_taken_rowsUpTo (kind_endMark _), List.takeWhile_append_of_pos hinner]
  simp [hmark]

/-- The lines of a text without macros hold tokens of the text in their order, each at most once;
and if there is no fault they hold all of them but white space, line breaks, commas and the end
mark. -/
theorem ofTokens_keeps {body : List Token} {mark : Token} (hmark : mark.kind = .eof)
    (hbody : ∀ token ∈ body, token.kind ≠ .eof ∧ token.kind ≠ .macWord) (comments : List Token)
    (source : String) :
    let file := ConcreteFile.ofTokens (body ++ [mark]) comments source
    ∃ used, StandsFor (Line.heldAll file.lines) used ∧ used.Sublist (body ++ [mark]) ∧
      (file.errors = [] -> used = meaningful (body ++ [mark])) := by
  have hrows : ∀ row ∈ rows (body ++ [mark]), ∀ token ∈ row.tokens, token.kind ≠ .macWord := by
    intro row hrow token htoken
    rcases List.mem_append.1 ((rows_sublist _ row hrow).subset htoken) with h | h
    · exact (hbody token h).2
    · rw [List.mem_singleton.1 h, hmark]
      decide
  obtain ⟨roles, unclosed, hroles, hbuilt, herrors⟩ :=
    ConcreteFile.ofTokens_built (body ++ [mark]) comments source
  rw [← hroles] at hrows
  obtain ⟨used, hused, hsub, hclean⟩ :=
    Role.keeps (hbuilt.accounted fun role hrole => hrows _ (List.mem_map_of_mem hrole))
  rw [hroles, flatMap_taken_rows hmark fun token htoken => (hbody token htoken).1] at hsub hclean
  rw [← hbuilt.heldAll] at hused
  have hmeaningful : meaningful (body ++ [mark]) = meaningful body := by
    rw [meaningful_append, meaningful_cons_of_separating (by rw [hmark]; rfl)]
    simp
  rw [hmeaningful]
  refine ⟨used, hused,
    (hsub.trans List.filter_sublist).trans (List.sublist_append_left body [mark]), fun hnil => ?_⟩
  rw [herrors] at hnil
  exact hclean (List.append_eq_nil_iff.1 hnil).1

/-- The rows `n,X: IF 1`, ` LDA 1,2` and `EIF`. -/
def labelledBlock : List Token :=
  [unplaced .identifier "n", unplaced .commaX ",X", unplaced .colon ":", unplaced .whitespace " ",
    unplaced .ifWord "IF", unplaced .whitespace " ", unplaced .decimal "1",
    unplaced .newline "\n", unplaced .whitespace " ", unplaced .identifier "LDA",
    unplaced .whitespace " ", unplaced .decimal "1", unplaced .comma ",", unplaced .decimal "2",
    unplaced .newline "\n", unplaced .endIfWord "EIF"]

/-- The index ending is held as the second fragment of the label, and only the comma between the
arguments is not held. -/
theorem ofTokens_labelledBlock :
    StandsFor
      (Line.heldAll (ConcreteFile.ofTokens (labelledBlock ++ [unplaced .eof ""]) [] "").lines)
      [unplaced .identifier "n", unplaced .commaX ",X", unplaced .colon ":", unplaced .ifWord "IF",
        unplaced .decimal "1", unplaced .identifier "LDA", unplaced .decimal "1",
        unplaced .decimal "2", unplaced .endIfWord "EIF"] := by
  have hbody : ∀ token ∈ labelledBlock, token.kind ≠ .eof ∧ token.kind ≠ .macWord := by decide
  have hmark : (unplaced .eof "").kind = .eof := rfl
  obtain ⟨used, hused, -, hclean⟩ := ofTokens_keeps hmark hbody [] ""
  rw [hclean (by decide +kernel)] at hused
  exact hused

end Concrete

end Asm6502
