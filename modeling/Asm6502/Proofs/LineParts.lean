import Asm6502.Document
import Asm6502.Proofs.RowIndependence
import Asm6502.Proofs.RowRoles

/-!
# What lines are made of

Every line of a text comes from rows of the text, and what is read from a row is made of the tokens
of the text.
-/

namespace Asm6502

namespace Concrete

/-! ## Rows -/

theorem stop_of_mem_rowsUpTo {mark : Token} {tokens : List Token} :
    ∀ row ∈ rowsUpTo mark tokens,
      row.stop.kind = .newline ∨ row.stop = mark ∧ row.tokens ≠ [] := by
  induction tokens with
  | nil => simp [rowsUpTo]
  | cons token rest ih =>
      unfold rowsUpTo
      split
      · simp
      split
      · next hnewline => exact List.forall_mem_cons.2 ⟨.inl hnewline, ih⟩
      · split
        · simp
        · next row rows hrows =>
          rw [hrows] at ih
          obtain ⟨hrow, hothers⟩ := List.forall_mem_cons.1 ih
          exact List.forall_mem_cons.2 ⟨hrow.imp_right fun h => ⟨h.1, by simp⟩, hothers⟩

theorem Row.tokens_sublist_taken (row : Row) : row.tokens.Sublist row.taken := by
  unfold Row.taken
  split
  · exact List.sublist_append_left _ _
  · exact .refl _

theorem flatMap_taken_isPrefix (tokens : List Token) :
    (rows tokens).flatMap Row.taken <+: tokens := by
  rw [rows, flatMap_taken_rowsUpTo (kind_endMark tokens)]
  exact List.takeWhile_prefix _

/-- What a row takes stands side by side in the text. -/
theorem taken_isInfix {tokens : List Token} {row : Row} (h : row ∈ rows tokens) :
    row.taken <:+: tokens := by
  have hall : row.taken <:+: (rows tokens).flatMap Row.taken := by
    rw [List.flatMap_def]
    exact List.infix_of_mem_flatten (List.mem_map_of_mem h)
  exact hall.trans (flatMap_taken_isPrefix tokens).isInfix

theorem rows_sublist (tokens : List Token) : ∀ row ∈ rows tokens, row.tokens.Sublist tokens :=
  fun row h => row.tokens_sublist_taken.trans (taken_isInfix h).sublist

theorem Row.madeOf_of_mem_rows {tokens : List Token} {row : Row} (h : row ∈ rows tokens) :
    (∀ label ∈ row.read.1, label.MadeOf tokens) ∧ row.read.2.1.MadeOf tokens := by
  obtain ⟨hlabel, hcontent⟩ := row.read_spec
  have hsub := rows_sublist tokens row h
  exact ⟨fun label hl => (hlabel label hl).mono hsub, (hcontent.mono hsub).madeOf⟩

end Concrete

theorem ConcreteFile.ofTokens_from (tokens comments : List Token) (source : String) :
    ∀ line ∈ (ConcreteFile.ofTokens tokens comments source).lines,
      line.From (fun role => role.row ∈ Concrete.rows tokens) comments := by
  obtain ⟨roles, unclosed, hrows, hbuilt, -⟩ := ofTokens_built tokens comments source
  exact hbuilt.from fun role hrole => hrows ▸ List.mem_map_of_mem hrole

/-! ## Lines of documents -/

theorem Line.walkAll_eq_flatMap (lines : List Line) : walkAll lines = lines.flatMap walk := by
  induction lines with
  | nil => simp [walkAll]
  | cons line lines ih => simp [walkAll, ih]

namespace Concrete

theorem lowerAll_eq_map (uri : Uri) (lines : List Line) :
    lowerAll uri lines = lines.map (Line.lower uri) := by
  induction lines with
  | nil => rfl
  | cons line lines ih => simp [lowerAll, ih]

theorem mem_walkAll_lowerAll {uri : Uri} {lines : List Line} {inner : Asm6502.Line} :
    inner ∈ Asm6502.Line.walkAll (lowerAll uri lines) ↔
      ∃ line ∈ lines, inner ∈ Asm6502.Line.walk (line.lower uri) := by
  rw [Asm6502.Line.walkAll_eq_flatMap, lowerAll_eq_map, List.flatMap_map, List.mem_flatMap]

theorem Line.margin_lower (uri : Uri) (line : Line) :
    (line.lower uri).margin = line.margin.lower uri := by
  cases line <;> simp [Line.lower, Asm6502.Line.margin, Line.margin]

end Concrete

end Asm6502
