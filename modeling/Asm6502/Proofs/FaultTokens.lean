import Asm6502.Proofs.LineParts
import Asm6502.Proofs.RowFaults

/-!
# Tokens of faults

Every fault of the grammar is about a token of the text: a token of the row on which it was found,
the line break or end of text behind that row, or the keyword of a block that lacks its terminator.
-/

namespace Asm6502

namespace Concrete

/-! ## Faults of a text -/

theorem endMark_mem {tokens : List Token} (h : ∃ token ∈ tokens, token.kind = .eof) :
    endMark tokens ∈ tokens := by
  obtain ⟨last, hlast, hkind⟩ := h
  unfold endMark
  split
  next token hfind => exact List.mem_of_find?_eq_some hfind
  next hfind => simpa [hkind] using List.find?_eq_none.1 hfind last hlast

/-- A row of a text that ends in a mark of its end stops at a token of the text. -/
theorem stop_mem_of_mem_rows {tokens : List Token} (h : ∃ token ∈ tokens, token.kind = .eof) :
    ∀ row ∈ rows tokens, row.stop ∈ tokens := by
  intro row hrow
  rcases stop_of_mem_rowsUpTo row hrow with hstop | ⟨hstop, -⟩
  · refine (taken_isInfix hrow).subset ?_
    simp [Row.taken, hstop]
  · exact hstop ▸ endMark_mem h

theorem Role.foundAmong (role : Role) :
    ∀ fault ∈ role.faults, fault.FoundAmong (role.row.stop :: role.row.tokens) := by
  cases role with
  | read row => exact row.foundAmong_read
  | ends ending => exact ending.row.foundAmong_rest ending.head
  | passed row => simp [Role.faults]

/-- The blocks that the end of the text closes are reported at their keywords, the innermost
first. -/
theorem Built.unclosed_spec {comments : List Token} {source : List (List Char)} {roles : List Role}
    {lines : List Line} {bodies : List (Nat × Nat)} {unclosed : List ParseError}
    (h : Built comments source roles lines bodies unclosed) :
    (∀ fault ∈ unclosed, fault.isUnterminated = true) ∧
      (unclosed.reverse.map ParseError.token).Sublist
        (roles.flatMap fun role => role.row.taken) := by
  have hkeyword {row : Row} {content : Content} {keyword : Token}
      (hread : row.read.2.1 = content) (hmem : content.MadeOf row.tokens -> keyword ∈ row.tokens) :
      [keyword].Sublist row.taken :=
    (List.singleton_sublist.2 (hmem (hread ▸ row.read_spec.2.madeOf))).trans
      row.tokens_sublist_taken
  -- A block that is not closed adds its own fault behind those of the blocks inside it.
  have hblock {roles : List Role} {row : Row} {keyword : Token} {ended : Terminator}
      (last : Option EndRow) (inner : List Role) (faults : List ParseError)
      (hrow : [keyword].Sublist row.taken)
      (hinner : (∀ fault ∈ faults, fault.isUnterminated = true) ∧
        (faults.reverse.map ParseError.token).Sublist (inner.flatMap fun role => role.row.taken)) :
      (∀ fault ∈ faults ++ lacking (.unterminatedBlock ended keyword) last,
          fault.isUnterminated = true) ∧
        ((faults ++ lacking (.unterminatedBlock ended keyword) last).reverse.map
          ParseError.token).Sublist
            ((roles ++ (.read row :: inner ++ closing last)).flatMap
              fun role => role.row.taken) := by
    refine ⟨List.forall_mem_append.2 ⟨hinner.1, ?_⟩, ?_⟩
    · cases last <;> simp [lacking, ParseError.isUnterminated]
    · have hown : ((lacking (.unterminatedBlock ended keyword) last).reverse.map
          ParseError.token).Sublist row.taken := by
        cases last with
        | none => exact hrow
        | some ending => exact List.nil_sublist _
      simp only [List.reverse_append, List.map_append, List.flatMap_append, List.flatMap_cons,
        List.append_assoc]
      exact ((hown.append hinner.2).trans (by simp [Role.row])).trans
        (List.sublist_append_right _ _)
  induction h with
  | nil => simp
  | command => simp
  | macroBlock passed last _ hread =>
      exact hblock last (passed.map .passed) [] (hkeyword hread fun hmade => hmade.1) (by simp)
  | conditional divider last _ hread _ _ _ hwhole hdivided _ _ _ _ _ ihthen ihelse =>
      refine hblock last (_ ++ closing divider ++ _) _ (hkeyword hread fun hmade => hmade.1)
        ⟨List.forall_mem_append.2 ⟨ihthen.1, ihelse.1⟩, ?_⟩
      cases divider with
      | none =>
          obtain ⟨rfl, rfl⟩ := hwhole rfl
          simpa [closing] using ihthen.2
      | some divider =>
          rw [hdivided (by simp), List.nil_append, List.flatMap_append]
          exact ihelse.2.trans (List.sublist_append_right _ _)
  | repetition last _ hread _ _ _ _ _ _ ih =>
      exact hblock last _ _ (hkeyword hread fun hmade => hmade.1) ih

end Concrete

theorem ConcreteFile.token_mem_of_errors {tokens : List Token}
    (heof : ∃ token ∈ tokens, token.kind = .eof) (comments : List Token) (source : String) :
    ∀ fault ∈ (ofTokens tokens comments source).errors, fault.token ∈ tokens := by
  obtain ⟨roles, unclosed, hrows, hbuilt, herrors⟩ := ofTokens_built tokens comments source
  rw [herrors]
  intro fault hfault
  rcases List.mem_append.1 hfault with hfault | hfault
  · obtain ⟨role, hrole, hfault⟩ := List.mem_flatMap.1 hfault
    have hrow : role.row ∈ Concrete.rows tokens := hrows ▸ List.mem_map_of_mem hrole
    rcases List.mem_cons.1 (role.foundAmong fault hfault).token with hstop | htoken
    · exact hstop ▸ Concrete.stop_mem_of_mem_rows heof _ hrow
    · exact (Concrete.rows_sublist tokens _ hrow).subset htoken
  · refine (Concrete.flatMap_taken_isPrefix tokens).subset ?_
    rw [← hrows, List.flatMap_map]
    exact hbuilt.unclosed_spec.2.subset (List.mem_map_of_mem (List.mem_reverse.2 hfault))

end Asm6502
