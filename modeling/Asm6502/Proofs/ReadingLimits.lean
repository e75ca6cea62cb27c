import Asm6502.Proofs.ExprHeights

/-!
# Rows under another limit

The readers take the limit on levels as an argument.  A row that is read without faults under some
limit is read in the same way under any other one that leaves enough levels for its expressions.
Under a limit that leaves too few, the row is reported as nested too deep, and with it the file in
which it is read.
-/

namespace Asm6502

namespace Concrete

/-! ## Two limits -/

/-- All expressions of a row can be read with some levels. -/
def Content.Fits (levels : Nat) : Content -> Prop
  | .command read => ∀ c ∈ read, ∀ argument ∈ c.arguments, argument.levels ≤ levels
  | .conditional _ value => ∀ e ∈ value, e.levels ≤ levels
  | .repetition _ value => ∀ e ∈ value, e.levels ≤ levels
  | .macroBlock .. => True

theorem Content.Fits.addressLevels_le {levels : Nat} {content : Content} (h : content.Fits levels)
    {e : Expr} (he : .value e ∈ content.parts) : e.addressLevels ≤ levels := by
  cases content with
  | command command =>
      obtain ⟨c, hc, he⟩ := List.mem_flatMap.1 he
      obtain ⟨argument, hargument, hvalue⟩ := List.mem_map.1 he
      cases hvalue
      exact Nat.le_trans argument.addressLevels_value_le
        (h c (Option.mem_toList.1 hc) argument hargument)
  | conditional keyword value | repetition keyword value =>
      exact Nat.le_trans e.addressLevels_le_levels (h e (mem_valueParts.1 he))
  | macroBlock => cases he

/-- What a row holds and its faults, under a wide and under a narrow limit: what is read under the
wide one is read under the narrow one if it fits, and otherwise is nested too deep. -/
def Narrows (levels : Nat) (wide narrow : Content × List ParseError) : Prop :=
  (wide.2 = [] -> wide.1.Fits levels -> narrow = wide) ∧
    (¬ wide.1.Fits levels -> ∃ token, .nestingTooDeep token ∈ narrow.2)

theorem Narrows.refl {levels : Nat} {read : Content × List ParseError}
    (h : read.1.Fits levels) : Narrows levels read read :=
  ⟨fun _ _ => rfl, fun hdeep => absurd h hdeep⟩

theorem readArguments_narrows (stop : Token) (afterName isFirst : Bool) (tokens : List Token)
    (levels wide : Nat) :
    let read := readArguments stop afterName isFirst tokens wide
    (read.2 = none -> (∀ argument ∈ read.1, argument.levels ≤ levels) ->
      readArguments stop afterName isFirst tokens levels = read) ∧
    (∀ argument ∈ read.1, levels < argument.levels ->
      ∃ token, (readArguments stop afterName isFirst tokens levels).2 =
        some (.nestingTooDeep token)) := by
  fun_induction readArguments stop afterName isFirst tokens wide with
  | case1 isFirst tokens hend =>
      refine ⟨fun _ _ => ?_, by simp⟩
      rw [readArguments, if_pos hend]
  | case2 => simp
  | case3 => simp
  | case4 isFirst tokens hend start hseparator argument rest hargument arguments error heq ih =>
      rw [heq] at ih
      obtain ⟨henough, hdeep⟩ := readArgument_needs hargument levels
      by_cases hlevels : argument.levels ≤ levels
      · have hread : readArguments stop afterName isFirst tokens levels =
            (argument :: (readArguments stop afterName false rest levels).1,
              (readArguments stop afterName false rest levels).2) := by
          rw [readArguments, if_neg hend]
          split
          · next herror => simp [hseparator] at herror
          · next start' hstart =>
            cases hseparator.symm.trans hstart
            split
            · next herror => simp [henough hlevels] at herror
            · next argument' rest' hread =>
              cases (henough hlevels).symm.trans hread
              rfl
        rw [hread]
        refine ⟨?_, ?_⟩
        · intro hnone hfits
          rw [ih.1 hnone fun other hother => hfits other (List.mem_cons_of_mem _ hother)]
        · intro other hother hmore
          rcases List.mem_cons.1 hother with rfl | hother
          · omega
          · exact ih.2 other hother hmore
      · obtain ⟨token, htoken⟩ := hdeep (by omega)
        have hread : readArguments stop afterName isFirst tokens levels =
            ([], some (.nestingTooDeep token)) := by
          rw [readArguments, if_neg hend]
          split
          · next herror => simp [hseparator] at herror
          · next start' hstart =>
            cases hseparator.symm.trans hstart
            split
            · next herror =>
              cases htoken.symm.trans herror
              rfl
            · next hread => simp [htoken] at hread
        refine ⟨fun _ hfits => absurd (hfits argument List.mem_cons_self) hlevels, ?_⟩
        intro _ _ _
        rw [hread]
        exact ⟨token, rfl⟩

theorem readCommandTail_narrows (stop : Token) (name : Option Token) (tokens : List Token)
    (levels wide : Nat) :
    Narrows levels
      (.command (some (readCommandTail stop name tokens wide).1),
        (readCommandTail stop name tokens wide).2)
      (.command (some (readCommandTail stop name tokens levels).1),
        (readCommandTail stop name tokens levels).2) := by
  have hcommand (ext : Option Token) (rest : List Token) :
      let command (read : List Argument × Option ParseError) : Content × List ParseError :=
        (.command (some ⟨name, ext, read.1, commandSpan stop name ext read.1⟩),
          extensionErrors ext ++ read.2.toList)
      Narrows levels (command (readArguments stop name.isSome true rest wide))
        (command (readArguments stop name.isSome true rest levels)) := by
    obtain ⟨hsame, hdeep⟩ := readArguments_narrows stop name.isSome true rest levels wide
    refine ⟨?_, ?_⟩
    · intro hfaults hfits
      have hnone := Option.toList_eq_nil_iff.1 (List.append_eq_nil_iff.1 hfaults).2
      rw [hsame hnone fun argument hargument => hfits _ rfl argument hargument]
    · intro hfits
      by_cases hall : ∃ argument ∈ (readArguments stop name.isSome true rest wide).1,
          levels < argument.levels
      · obtain ⟨argument, hargument, hmore⟩ := hall
        obtain ⟨token, htoken⟩ := hdeep argument hargument hmore
        refine ⟨token, List.mem_append_right _ ?_⟩
        rw [htoken]
        exact List.mem_singleton_self _
      · refine absurd ?_ hfits
        rintro c ⟨⟩ argument hargument
        exact Nat.le_of_not_lt fun hmore => hall ⟨argument, hargument, hmore⟩
  cases name with
  | none => exact hcommand none tokens
  | some name => exact hcommand (readExtension? name tokens).1 (readExtension? name tokens).2

theorem readHeadExpr_narrows (stop : Token) (expected : Expected) (tokens : List Token)
    (levels wide : Nat) {make : Option Expr -> Content}
    (hmake : ∀ value, (make value).Fits levels ↔ ∀ e ∈ value, e.levels ≤ levels) :
    Narrows levels
      (make (readHeadExpr stop expected tokens wide).1,
        (readHeadExpr stop expected tokens wide).2)
      (make (readHeadExpr stop expected tokens levels).1,
        (readHeadExpr stop expected tokens levels).2) := by
  have hnone : (make none).Fits levels := (hmake none).2 (by simp)
  unfold readHeadExpr
  cases skipBlanks tokens with
  | nil => exact .refl hnone
  | cons first rest =>
      cases hwide : readExpr stop false (first :: rest) wide with
      | error =>
          simp only [hwide]
          exact ⟨fun hfaults => (by cases hfaults), fun hdeep => absurd hnone hdeep⟩
      | ok read =>
          obtain ⟨e, behind⟩ := read
          obtain ⟨henough, hdeep⟩ := readExpr_needs hwide levels
          have hfits : (make (some e)).Fits levels ↔ e.levels ≤ levels := by simp [hmake]
          simp only [hwide]
          refine ⟨fun _ hlevels => ?_, fun hlevels => ?_⟩
          · simp only [henough (hfits.1 hlevels)]
          · obtain ⟨token, htoken⟩ := hdeep (Nat.lt_of_not_le fun hle => hlevels (hfits.2 hle))
            exact ⟨token, by simp [htoken]⟩

theorem readContent_narrows (stop first : Token) (tokens : List Token) (levels wide : Nat) :
    Narrows levels (readContent stop first tokens wide) (readContent stop first tokens levels) := by
  unfold readContent
  split
  case h_1 | h_2 | h_3 =>
    exact readHeadExpr_narrows stop .condition tokens levels wide fun _ => .rfl
  case h_4 => exact readHeadExpr_narrows stop .repeatCount tokens levels wide fun _ => .rfl
  case h_5 => exact .refl trivial
  case h_6 | h_7 => exact readCommandTail_narrows stop (some first) tokens levels wide
  case h_8 =>
    split
    · exact readCommandTail_narrows stop none (first :: tokens) levels wide
    · exact .refl (by simp [Content.Fits])

theorem readBehindLabel_narrows (stop : Token) (hasLabel : Bool) (tokens : List Token)
    (levels wide : Nat) :
    Narrows levels (readBehindLabel stop hasLabel tokens wide)
      (readBehindLabel stop hasLabel tokens levels) := by
  have hnone (faults : List ParseError) :
      Narrows levels (.command none, faults) (.command none, faults) :=
    .refl (by simp [Content.Fits])
  unfold readBehindLabel
  split
  · exact hnone _
  · split
    · split
      · exact hnone _
      · exact readContent_narrows stop _ _ levels wide
    · split
      · exact hnone _
      · exact readContent_narrows stop _ _ levels wide

/-- A row is read in the same way under any limit that its expressions fit, and is nested too deep
under any other. -/
theorem Row.read_narrows (row : Row) (levels wide : Nat) :
    ((row.read wide).2.2 = [] -> (row.read wide).2.1.Fits levels ->
      row.read levels = row.read wide) ∧
    (¬ (row.read wide).2.1.Fits levels ->
      ∃ token, .nestingTooDeep token ∈ (row.read levels).2.2) := by
  obtain ⟨hsame, hdeep⟩ := readBehindLabel_narrows row.stop (readLabel? row.tokens).1.isSome
    (readLabel? row.tokens).2 levels wide
  refine ⟨fun hfaults hfits => ?_, hdeep⟩
  simp only [Row.read, hsame hfaults hfits]

/-! ## Rows that are read -/

/-- A row of a text that is read: it does not stand in the body of a macro, and it ends neither a
block nor the first part of one. -/
def Row.IsRead (tokens comments : List Token) (source : String) (row : Row) : Prop :=
  ∃ before after, rows tokens = before ++ row :: after ∧
    ∀ frame ∈ (before.foldl (State.step (sourceRows source.toList)) (.fresh comments)).frames.head?,
      frame.block.turn row = .read

theorem State.errors_step (source : List (List Char)) (state : State) (row : Row) :
    state.errors <+: (state.step source row).errors := by
  cases hframes : state.frames with
  | nil =>
      rw [step_of_no_frames source hframes, errors_readRow]
      exact List.prefix_append _ _
  | cons frame frames =>
      rw [step_of_frames source hframes]
      cases frame.block.turn row with
      | read =>
          rw [take, errors_readRow]
          exact List.prefix_append _ _
      | close =>
          rw [take, errors_close]
          exact List.prefix_append _ _
      | divide => exact List.prefix_append _ _
      | pass => exact List.prefix_rfl

theorem State.errors_closeAll (source : List (List Char)) (frames : List Frame) (state : State) :
    state.errors <+: (closeAll source frames state).errors := by
  induction frames generalizing state with
  | nil => exact List.prefix_rfl
  | cons frame frames ih =>
      refine List.IsPrefix.trans ?_ (ih _)
      rw [errors_close]
      exact List.prefix_append _ _

theorem Row.IsRead.faults_subset {tokens comments : List Token} {source : String} {row : Row}
    (h : row.IsRead tokens comments source) :
    row.read.2.2 ⊆ (ConcreteFile.ofTokens tokens comments source).errors := by
  obtain ⟨before, after, hrows, hturn⟩ := h
  have hlater (rows : List Row) (state : State) :
      state.errors <+: (rows.foldl (State.step (sourceRows source.toList)) state).errors := by
    induction rows generalizing state with
    | nil => exact List.prefix_rfl
    | cons row rows ih => exact (state.errors_step _ row).trans (ih _)
  rw [ConcreteFile.ofTokens_eq, hrows, List.foldl_append, List.foldl_cons]
  generalize before.foldl (State.step (sourceRows source.toList)) (.fresh comments) = state at hturn
  have hread : state.step (sourceRows source.toList) row = state.readRow row := by
    cases hframes : state.frames with
    | nil => exact State.step_of_no_frames _ hframes row
    | cons frame frames =>
        rw [State.step_of_frames _ hframes, hturn frame (by rw [hframes]; rfl)]
        rfl
  have hrow : row.read.2.2 ⊆ (state.step (sourceRows source.toList) row).errors := by
    rw [hread, State.errors_readRow]
    exact List.subset_append_right _ _
  refine List.Subset.trans hrow ((hlater after _).trans ?_).subset
  exact State.errors_closeAll _ _ _

end Concrete

end Asm6502
