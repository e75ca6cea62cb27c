import Asm6502.Proofs.HiddenLabels

/-!
# Merged blanks

Where something that is not a token stood between two blanks, the blanks follow each other.  Merging
each run of them into one blank changes nothing in the file that is read, except for rows that start
with a run in front of a name and a colon: there the label is seen only when the run is one blank.
-/

namespace Asm6502

namespace Concrete

theorem start_mergeBlanks (tokens : List Token) :
    ((mergeBlanks tokens).map fun token => token.span.start).Sublist
      (tokens.map fun token => token.span.start) := by
  induction tokens with
  | nil => exact .slnil
  | cons token rest ih =>
      rw [mergeBlanks]
      cases hmerged : mergeBlanks rest with
      | nil => simp
      | cons next others =>
          rw [hmerged] at ih
          simp only
          split
          · exact ((List.sublist_cons_self _ _).trans ih).cons_cons _
          · exact ih.cons_cons _

/-! ## A label that merging uncovers -/

theorem Row.merged_of_hidesLabel {row : Row} {name colon : Token} {tail : List Token}
    (h : hidesLabel row.tokens = true) (hskip : skipBlanks row.tokens = name :: colon :: tail)
    (hname : name.kind = .identifier) (hcolon : colon.kind = .colon) :
    (∃ blank : Token, blank.kind = .whitespace ∧
        row.merged.tokens = blank :: name :: colon :: mergeBlanks tail) ∧
      ∀ fault ∈ row.merged.read.2.2, fault.token ∈ row.stop :: mergeBlanks tail := by
  obtain ⟨first, second, rest, -, -, -, hrow, hfirst, -⟩ := exists_of_hidesLabel h
  obtain ⟨blank, hblank, -, hmerged⟩ := mergeBlanks_blank hfirst (second :: rest)
  have htokens : row.merged.tokens = blank :: name :: colon :: mergeBlanks tail := by
    rw [hrow, skipBlanks_blank hfirst] at hskip
    rw [Row.merged, hrow, hmerged, hskip, mergeBlanks_solid (by simp [hname]),
      mergeBlanks_solid (by simp [hcolon])]
  refine ⟨⟨blank, hblank, htokens⟩, ?_⟩
  have hlabel : readLabel? row.merged.tokens =
      (some ⟨name, [], some colon⟩, mergeBlanks tail) := by
    have hfragments : readLabelFragments (colon :: mergeBlanks tail) =
        ([], colon :: mergeBlanks tail) := by
      refine readLabelFragments_none (by simp [hcolon]) ?_
      intro comma word rest hcons
      rw [← (List.cons.inj hcons).1]
      simp [hcolon]
    rw [htokens, readLabel?_blank hblank, labelInFront?, if_pos ⟨hname, hcolon⟩]
    simp only [readLabel, hname, if_true, hfragments, hcolon]
  rw [Row.read, hlabel]
  intro fault hfault
  exact (foundAmong_readBehindLabel List.mem_cons_self true (List.subset_cons_self _ _)
    fault hfault).token

/-! ## Files of merged tokens -/

section Ordered

variable {tokens : List Token} (h : tokens.Pairwise fun a b => a.span.start < b.span.start)

include h

theorem ordered_mergeBlanks :
    (mergeBlanks tokens).Pairwise fun a b => a.span.start < b.span.start :=
  List.pairwise_map.1 ((List.pairwise_map.2 h).sublist (start_mergeBlanks tokens))

theorem stateLike_mergeBlanks {before after : List Row} (hrows : rows tokens = before ++ after)
    {comments : List Token} {source : List (List Char)}
    (hsees : (State.fresh comments).SeesLabels source before) :
    blankLayout.StateLike (before.foldl (State.step source) (State.fresh comments))
      ((before.map Row.merged).foldl (State.step source) (State.fresh comments)) := by
  have hfollow {tokens : List Token} (h : tokens.Pairwise fun a b => a.span.start < b.span.start) :
      RowsFollow (rows tokens) :=
    rowsFollow_of_ordered (h.imp Position.le_of_lt)
  have hfollow' := hfollow (ordered_mergeBlanks h)
  rw [rows_mergeBlanks, hrows] at hfollow'
  have hfollow := hfollow h
  rw [hrows] at hfollow
  have hfresh : blankLayout.StateLike
      (([] : List Row).foldl (State.step source) (State.fresh comments))
      ((([] : List Row).map Row.merged).foldl (State.step source) (State.fresh comments)) := by
    simpa using Layout.StateLike.fresh (w := blankLayout) comments
  exact State.stateLike_foldl hfresh hfollow hfollow' hsees

/-- The colon of a hidden label stands neither behind itself nor on a later row. -/
theorem colon_not_mem {before after : List Row} {row : Row} {blank name colon : Token}
    {tail : List Token} (hrows : rows (mergeBlanks tokens) = before ++ row :: after)
    (hrow : row.tokens = blank :: name :: colon :: tail) (hcolon : colon.kind = .colon) :
    colon ∉ row.stop :: tail ∧ ∀ other ∈ after, colon ∉ other.stop :: other.tokens := by
  have hstop : ∀ other ∈ rows (mergeBlanks tokens), colon ≠ other.stop := by
    rintro other hother rfl
    rcases stop_of_mem_rowsUpTo other hother with hstop | ⟨hstop, -⟩
    · rw [hcolon] at hstop
      cases hstop
    · have hmark := kind_endMark (mergeBlanks tokens)
      rw [← hstop, hcolon] at hmark
      cases hmark
  have hnodup : ((rows (mergeBlanks tokens)).flatMap Row.taken).Nodup := by
    refine ((ordered_mergeBlanks h).imp ?_).sublist (flatMap_taken_isPrefix _).sublist
    rintro a b hlt rfl
    exact hlt (Std.le_refl _)
  have htaken (other : Row) : other.tokens ⊆ other.taken := other.tokens_sublist_taken.subset
  rw [hrows, List.flatMap_append, List.flatMap_cons] at hnodup
  obtain ⟨htakenNodup, -, hlater⟩ := List.nodup_append.1 (List.nodup_append.1 hnodup).2.1
  have hmem : colon ∈ row.taken := htaken row (by simp [hrow])
  refine ⟨List.not_mem_cons_of_ne_of_not_mem (hstop row (by simp [hrows])) ?_,
    fun other hother => ?_⟩
  · have htokens : row.tokens.Nodup := htakenNodup.sublist row.tokens_sublist_taken
    rw [hrow] at htokens
    exact (List.nodup_cons.1 (List.nodup_cons.1 (List.nodup_cons.1 htokens).2).2).1
  · refine List.not_mem_cons_of_ne_of_not_mem (hstop other (by simp [hrows, hother]))
      fun htoken => ?_
    exact hlater colon hmem colon (List.mem_flatMap.2 ⟨other, hother, htaken other htoken⟩) rfl

end Ordered

theorem token_of_error_exact {fault : ParseError} {expected : Expected} {token : Token}
    (hsolid : token.kind ≠ .whitespace)
    (h : View.exact.error fault = View.exact.error (.unexpectedToken expected token)) :
    fault = .unexpectedToken expected token := by
  cases fault with
  | unexpectedToken other found =>
      simp only [View.error, ParseError.unexpectedToken.injEq] at h
      have hkind : found.kind = token.kind := by
        rw [← View.exact.kind_found, h.2, View.exact.kind_found]
      have hfound := h.2
      rw [View.found, View.found, if_neg hsolid, if_neg (hkind ▸ hsolid)] at hfound
      rw [h.1, show found = token from hfound]
  | unterminatedBlock | unknownExtension | nestingTooDeep => cases h

end Concrete

namespace ConcreteFile

/-- A hidden label is seen once its blanks are merged, and the fault about its colon is gone. -/
theorem seesLabels_of_mergeBlanks {tokens comments : List Token} {source : String}
    (hordered : tokens.Pairwise fun a b => a.span.start < b.span.start)
    (h : (ofTokens (Concrete.mergeBlanks tokens) comments source).errors.map
        Concrete.View.exact.error =
      (ofTokens tokens comments source).errors.map Concrete.View.exact.error) :
    (Concrete.State.fresh comments).SeesLabels (Concrete.sourceRows source.toList)
      (Concrete.rows tokens) := by
  by_contra hhidden
  rw [ofTokens_eq, ofTokens_eq] at h
  generalize Concrete.sourceRows source.toList = source at h hhidden
  obtain ⟨before, row, after, hrows, hbefore, hopen, hhides⟩ :=
    Concrete.State.exists_of_not_seesLabels hhidden
  obtain ⟨name, colon, tail, hskip, hname, hcolon, hstep⟩ :=
    Concrete.State.errors_of_hidden source hopen hhides
  obtain ⟨⟨blank, hblank, htokens⟩, hbehind⟩ := row.merged_of_hidesLabel hhides hskip hname hcolon
  have hstate := Concrete.stateLike_mergeBlanks hordered hrows hbefore
  have hopen' := hstate.openMacro?
  rw [hopen] at hopen'
  have hrows' : Concrete.rows (Concrete.mergeBlanks tokens) =
      before.map Concrete.Row.merged ++ row.merged :: after.map Concrete.Row.merged := by
    rw [Concrete.rows_mergeBlanks, hrows, List.map_append, List.map_cons]
  obtain ⟨hcolonRow, hcolonLater⟩ := Concrete.colon_not_mem hordered hrows' htokens hcolon
  have herrors := Concrete.BlankLayout.error_of_errorLike hstate.errors
  rw [hrows, hrows', List.foldl_append, List.foldl_append, List.foldl_cons, List.foldl_cons] at h
  obtain ⟨roles, hbuilt⟩ := Concrete.State.exists_built_step comments source before row
  obtain ⟨roles', hbuilt'⟩ := Concrete.State.exists_built_step comments source
    (before.map Concrete.Row.merged) row.merged
  generalize before.foldl (Concrete.State.step source) _ = state at h hstep herrors hbuilt
  generalize (before.map Concrete.Row.merged).foldl _ _ = state' at h hopen' herrors hbuilt'
  have hstep' : (state'.step source row.merged).errors = state'.errors ++ row.merged.read.2.2 := by
    have hskip' : Concrete.skipBlanks row.merged.tokens =
        name :: colon :: Concrete.mergeBlanks tail := by
      rw [htokens, Concrete.skipBlanks_blank hblank]
      simp [Concrete.skipBlanks, hname]
    rw [Concrete.State.step_of_name source hopen' hskip' hname, Concrete.State.errors_readRow]
  obtain ⟨faults, hfaults, -⟩ := hbuilt.errors_finish after
  obtain ⟨faults', hfaults', hlater⟩ := hbuilt'.errors_finish (after.map Concrete.Row.merged)
  -- Behind the faults of the rows before, the merged tokens have the fault about the colon too.
  rw [hfaults, hfaults', hstep, hstep'] at h
  simp only [List.map_append, List.append_assoc, herrors, List.append_cancel_left_eq,
    List.map_cons, List.singleton_append] at h
  have hmem : Concrete.View.exact.error (.unexpectedToken .expression colon) ∈
      (row.merged.read.2.2 ++ faults').map Concrete.View.exact.error := by
    rw [List.map_append, h]
    exact List.mem_cons_self
  obtain ⟨fault, hfault, hsame⟩ := List.mem_map.1 hmem
  obtain rfl := Concrete.token_of_error_exact (by simp [hcolon]) hsame
  rcases List.mem_append.1 hfault with hfault | hfault
  · exact hcolonRow (hbehind _ hfault)
  · rcases hlater _ hfault with hopened | ⟨other, hother, hcolonOther⟩
    · cases hopened
    · exact hcolonLater other hother hcolonOther

/-- Merging the runs of blanks keeps the lines, the macro bodies and the faults of a text, where of
a blank that a fault is about only the start counts, exactly if no row that is read hides its label
behind several blanks. -/
theorem ofTokens_mergeBlanks_iff {tokens : List Token}
    (hordered : tokens.Pairwise fun a b => a.span.start < b.span.start)
    (comments : List Token) (source : String) :
    ((ofTokens (Concrete.mergeBlanks tokens) comments source).lines =
          (ofTokens tokens comments source).lines ∧
        (ofTokens (Concrete.mergeBlanks tokens) comments source).rawRows =
          (ofTokens tokens comments source).rawRows ∧
        (ofTokens (Concrete.mergeBlanks tokens) comments source).errors.map
            Concrete.View.exact.error =
          (ofTokens tokens comments source).errors.map Concrete.View.exact.error) ↔
      (Concrete.State.fresh comments).SeesLabels (Concrete.sourceRows source.toList)
        (Concrete.rows tokens) := by
  refine ⟨fun hsame => ?_, fun hsees => ?_⟩
  · exact seesLabels_of_mergeBlanks hordered hsame.2.2
  · have hstate := Concrete.stateLike_mergeBlanks hordered (List.append_nil _).symm hsees
    have hsource : Concrete.blankLayout.SourceLike (Concrete.sourceRows source.toList)
        (Concrete.sourceRows source.toList) := ⟨rfl, fun _ _ => rfl⟩
    have hclosed := hstate.closeAll hsource hstate.frames
    rw [ofTokens_eq, ofTokens_eq, Concrete.rows_mergeBlanks]
    exact ⟨Concrete.BlankLayout.eq_of_linesLike hclosed.lines, hclosed.rawRows,
      Concrete.BlankLayout.error_of_errorLike hclosed.errors⟩

/-- Comments between blanks, around an operator and in front of an argument. -/
def commentedBlanks : String := "  LDA /**/ [1 /**/ + 2] ; done\n"

/-- The lines are the same with one blank for two. -/
theorem lines_mergeBlanks_commentedBlanks :
    let stream := tokenize commentedBlanks
    (stream.tokens.Pairwise fun a b => a.span.start < b.span.start) ∧
      Concrete.mergeBlanks stream.tokens ≠ stream.tokens ∧
      (ofTokens (Concrete.mergeBlanks stream.tokens) stream.comments commentedBlanks).lines =
        (ofTokens stream.tokens stream.comments commentedBlanks).lines := by
  have hordered : (tokenize commentedBlanks).tokens.Pairwise
      fun a b => a.span.start < b.span.start := by decide +kernel
  have hclean : (ofSource commentedBlanks).errors = [] := by decide +kernel
  have hsees := seesLabels_of_clean hclean
  exact ⟨hordered, by decide +kernel, ((ofTokens_mergeBlanks_iff hordered _ _).2 hsees).1⟩

/-- A label behind a comment that itself stands behind blanks. -/
def commentedLabel : String := "  /**/ name:\n"

/-- The colon is a fault, and none once the two blanks are one. -/
theorem errors_commentedLabel :
    let stream := tokenize commentedLabel
    (ofTokens stream.tokens stream.comments commentedLabel).errors =
        [.unexpectedToken .expression ⟨.colon, ":", ⟨⟨0, 11⟩, ⟨0, 12⟩⟩⟩] ∧
      (ofTokens (Concrete.mergeBlanks stream.tokens) stream.comments commentedLabel).errors =
        [] := by
  decide +kernel

end ConcreteFile

end Asm6502
