import Asm6502.Proofs.LineBreaks
import Asm6502.Proofs.RowOrder

/-!
# The order of faults

The faults of a text come in the order in which they are found.  Those that are found while the text
is cut into lexemes, and those that are found on its rows, are found from the start to the end.  A
block without a terminator is found at the end of the text, and then the innermost one first, but
is reported where it starts.
-/

namespace Asm6502

/-- A fault that starts no later than another one. -/
def ParseError.NotBehind (a b : ParseError) : Prop := a.span.start ≤ b.span.start

namespace Concrete

/-! ## Faults of a row -/

variable {tokens : List Token}

theorem pairwise_of_length_le_one {α : Type} {r : α -> α -> Prop} {faults : List α}
    (h : faults.length ≤ 1) : faults.Pairwise r := by
  match faults, h with
  | [], _ => exact .nil
  | [fault], _ => exact List.pairwise_singleton r fault

theorem length_le_one_of_pairwise {α : Type} {r : α -> α -> Prop} {faults : List α}
    (hr : faults.Pairwise r)
    (hnot : faults.Pairwise fun a b => ¬ r a b) : faults.length ≤ 1 := by
  match faults, hr, hnot with
  | [], _, _ => simp
  | [_], _, _ => simp
  | a :: b :: _, hr, hnot =>
      exact absurd ((List.pairwise_cons.1 hr).1 b (by simp))
        ((List.pairwise_cons.1 hnot).1 b (by simp))

theorem length_restErrors_le (stop : Token) (tokens : List Token) :
    (restErrors stop tokens).length ≤ 1 := by
  unfold restErrors
  split <;> simp

theorem length_readHeadExpr_errors_le (stop : Token) (expected : Expected) (tokens : List Token) :
    (readHeadExpr stop expected tokens).2.length ≤ 1 := by
  unfold readHeadExpr
  split
  · simp
  · split
    · simp
    · exact length_restErrors_le _ _

theorem length_readMacroName_errors_le (stop : Token) (tokens : List Token) :
    (readMacroName stop tokens).2.length ≤ 1 := by
  unfold readMacroName
  split
  · simp
  · exact length_restErrors_le _ _

/-- Only a command can have two faults: one of its extension, and one of an argument behind it. -/
theorem readCommandTail_notBehind (stop : Token) (name : Option Token)
    (h : InOrder (tokens ++ [stop])) :
    (readCommandTail stop name tokens).2.Pairwise ParseError.NotBehind := by
  have hfound (ext : Option Token) (rest : List Token)
      (hsub : (ext.toList ++ (rest ++ [stop])).Sublist (tokens ++ [stop])) :
      (extensionErrors ext ++
        (readArguments stop name.isSome true rest).2.toList).Pairwise ParseError.NotBehind := by
    have horder := h.sublist hsub
    refine List.pairwise_append.2 ⟨pairwise_of_length_le_one ?_, pairwise_of_length_le_one ?_, ?_⟩
    · unfold extensionErrors
      split
      · split <;> simp
      · simp
    · cases (readArguments stop name.isSome true rest).2 <;> simp
    · intro a ha b hb
      have htoken : a.token ∈ ext.toList :=
        (foundAmong_extensionErrors (fun token ht => Option.mem_toList.2 ht) a ha).token
      have hargument : b.token ∈ rest ++ [stop] :=
        (foundAmong_readArguments (by simp) name.isSome true
          (List.subset_append_left rest [stop]) b (Option.mem_toList.1 hb)).token
      have hproper := horder.proper a.token (List.mem_append_left _ htoken)
      have hbefore := (List.pairwise_append.1 horder.ordered).2.2 a.token htoken b.token hargument
      exact Position.le_trans hproper hbefore
  cases name with
  | none => exact hfound none tokens (.refl _)
  | some name =>
      refine hfound _ _ ?_
      rw [← List.append_assoc]
      exact (readExtension?_sublist name tokens).append (.refl [stop])

theorem readContent_notBehind (stop : Token) {first : Token}
    (h : InOrder (first :: tokens ++ [stop])) :
    (readContent stop first tokens).2.Pairwise ParseError.NotBehind := by
  unfold readContent
  split
  case h_1 | h_2 | h_3 | h_4 =>
    exact pairwise_of_length_le_one (length_readHeadExpr_errors_le _ _ _)
  case h_5 => exact pairwise_of_length_le_one (length_readMacroName_errors_le _ _)
  case h_6 | h_7 =>
    exact readCommandTail_notBehind stop (some first) (h.sublist (List.sublist_cons_self _ _))
  case h_8 =>
    split
    · exact readCommandTail_notBehind stop none h
    · exact List.pairwise_singleton _ _

theorem readBehindLabel_notBehind (stop : Token) (hasLabel : Bool)
    (h : InOrder (tokens ++ [stop])) :
    (readBehindLabel stop hasLabel tokens).2.Pairwise ParseError.NotBehind := by
  unfold readBehindLabel
  split
  · exact .nil
  · next first rest =>
    split
    · split
      · exact .nil
      · next second after hskip =>
        have hsub : (second :: after).Sublist (first :: rest) := by
          rw [← hskip]
          exact ((skipBlanks_suffix rest).trans (List.suffix_cons first rest)).sublist
        exact readContent_notBehind stop (h.sublist (hsub.append (.refl [stop])))
    · split
      · exact List.pairwise_singleton _ _
      · exact readContent_notBehind stop h

theorem Row.read_notBehind {row : Row} (h : InOrder (row.tokens ++ [row.stop])) :
    row.read.2.2.Pairwise ParseError.NotBehind := by
  have hrest := (readLabel?_spec row.tokens).2.sublist
  exact readBehindLabel_notBehind row.stop _ (h.sublist (hrest.append (.refl [row.stop])))

/-! ## Faults of rows one behind the other -/

section Row

variable {comments : List Token} {first next : Nat}

theorem Role.faults_notBehind (role : Role) (h : role.row.OnRows comments first next) :
    role.faults.Pairwise ParseError.NotBehind := by
  cases role with
  | read row => exact Row.read_notBehind h.arranged.order
  | ends ending => exact pairwise_of_length_le_one (length_restErrors_le _ _)
  | passed row => exact .nil

theorem RowsOn.faults_notBehind {roles : List Role}
    (h : RowsOn comments first next (roles.map Role.row)) :
    (roles.flatMap Role.faults).Pairwise ParseError.NotBehind ∧
      ∀ fault ∈ roles.flatMap Role.faults, first ≤ fault.span.start.line := by
  induction roles generalizing first with
  | nil => simp
  | cons role roles ih =>
      cases h with
      | cons hrow hrest =>
          obtain ⟨hordered, hlines⟩ := ih hrest
          have hon (fault : ParseError) (hfault : fault ∈ role.faults) :=
            hrow.line_of_mem (by simpa [or_comm] using (role.foundAmong fault hfault).token)
          refine ⟨List.pairwise_append.2 ⟨role.faults_notBehind hrow, hordered, ?_⟩,
            List.forall_mem_append.2 ⟨fun fault hfault => (hon fault hfault).1, ?_⟩⟩
          · intro a ha b hb
            exact Position.le_iff.2 (.inl (Nat.lt_of_lt_of_le (hon a ha).2 (hlines b hb)))
          · intro fault hfault
            exact Nat.le_trans (Nat.le_of_lt hrow.lt) (hlines fault hfault)

end Row

end Concrete

/-! ## Faults of a document -/

/-- Whether a row of a text lies in the body of a macro. -/
def ConcreteFile.isRaw (file : ConcreteFile) (row : Nat) : Bool :=
  file.rawRows.any fun range => range.1 ≤ row && row < range.2

theorem tokenize_errors_ordered (text : String) :
    (tokenize text).errors.Pairwise fun a b => a.span.start < b.span.start := by
  have htiles := Lexeme.scan_tiles none .origin text.toList
  refine List.pairwise_filterMap.2 ((htiles.pairwise rfl List.drop_zero).imp_of_mem ?_)
  intro a b ha _ hab error herror next hnext
  obtain ⟨i, hstands⟩ := htiles.exists_standsAt a ha
  rw [Lexeme.span_of_error? herror, Lexeme.span_of_error? hnext]
  exact Position.lt_of_lt_of_le hstands.start_lt_stop hab

/-- The faults of the grammar: first those of rows, in order, and then the blocks without a
terminator, from the last one that was opened to the first. -/
theorem ConcreteFile.ofSource_errors (text : String) :
    ∃ found unclosed, (ofSource text).errors = found ++ unclosed ∧
      (∀ fault ∈ found, fault.isUnterminated = false) ∧
      (∀ fault ∈ unclosed, fault.isUnterminated = true) ∧
      found.Pairwise ParseError.NotBehind ∧
      unclosed.Pairwise fun inner outer => outer.span.start < inner.span.start := by
  obtain ⟨roles, unclosed, hrows, hbuilt, herrors⟩ :=
    ofTokens_built (tokenize text).tokens (tokenize text).comments text
  obtain ⟨hunclosed, hkeywords⟩ := hbuilt.unclosed_spec
  obtain ⟨next, hon⟩ := Concrete.tokenize_rowsOn text
  rw [← hrows] at hon
  refine ⟨_, unclosed, herrors, ?_, hunclosed, hon.faults_notBehind.1, ?_⟩
  · intro fault hfault
    obtain ⟨role, -, hfault⟩ := List.mem_flatMap.1 hfault
    exact (role.foundAmong fault hfault).found
  · -- The keywords stand in the text in the order in which the blocks were opened.
    have htaken := Concrete.flatMap_taken_isPrefix (tokenize text).tokens
    rw [← hrows, List.flatMap_map] at htaken
    have hordered := (tokenize_ordered text).sublist (hkeywords.trans htaken.sublist)
    rw [List.pairwise_map, List.pairwise_reverse] at hordered
    exact hordered.imp fun h => h.2

/-- The faults of a document are those of its text outside of macro bodies and then those of the
grammar.  The former come in order.  Of the latter, those of rows come first and in order; the
blocks without a terminator follow, the last one that was opened first.  So all faults of the
grammar come in order if and only if at most one block has no terminator and no fault of a row
starts behind its keyword. -/
theorem Document.ofText_errors_ordered_iff (text : String) (uri : Uri) :
    let file := ConcreteFile.ofSource text
    let lexed := (tokenize text).errors.filter fun error => !file.isRaw error.span.start.line
    let found := file.errors.filter fun fault => !fault.isUnterminated
    let unclosed := file.errors.filter ParseError.isUnterminated
    (ofText text uri).errors = lexed.map .lex ++ (found ++ unclosed).map .parse ∧
      lexed.Pairwise (fun a b => a.span.start < b.span.start) ∧
      found.Pairwise ParseError.NotBehind ∧
      unclosed.Pairwise (fun inner outer => outer.span.start < inner.span.start) ∧
      ((found ++ unclosed).Pairwise ParseError.NotBehind ↔
        unclosed.length ≤ 1 ∧ ∀ a ∈ found, ∀ b ∈ unclosed, a.NotBehind b) := by
  intro file lexed found unclosed
  obtain ⟨rows, blocks, herrors, hrows, hblocks, hordered, hnested⟩ :=
    ConcreteFile.ofSource_errors text
  have hfound : found = rows := by
    have hkept : rows.filter (fun fault => !fault.isUnterminated) = rows :=
      List.filter_eq_self.2 fun fault hfault => by simp [hrows fault hfault]
    have hdropped : blocks.filter (fun fault => !fault.isUnterminated) = [] :=
      List.filter_eq_nil_iff.2 fun fault hfault => by simp [hblocks fault hfault]
    show (ConcreteFile.ofSource text).errors.filter _ = rows
    rw [herrors, List.filter_append, hkept, hdropped, List.append_nil]
  have hunclosed : unclosed = blocks := by
    have hkept : blocks.filter ParseError.isUnterminated = blocks :=
      List.filter_eq_self.2 hblocks
    have hdropped : rows.filter ParseError.isUnterminated = [] :=
      List.filter_eq_nil_iff.2 fun fault hfault => by simp [hrows fault hfault]
    show (ConcreteFile.ofSource text).errors.filter _ = blocks
    rw [herrors, List.filter_append, hkept, hdropped, List.nil_append]
  rw [hfound, hunclosed]
  refine ⟨?_, (tokenize_errors_ordered text).filter _, hordered, hnested, ?_⟩
  · rw [← herrors]
    rfl
  · rw [List.pairwise_append]
    constructor
    · rintro ⟨-, hinOrder, hbefore⟩
      refine ⟨Concrete.length_le_one_of_pairwise hinOrder (hnested.imp ?_), hbefore⟩
      exact fun hlt => hlt
    · rintro ⟨hlength, hbefore⟩
      exact ⟨hordered, Concrete.pairwise_of_length_le_one hlength, hbefore⟩

/-- A block without a terminator, with a fault on the row behind its keyword. -/
def unclosedBlock : String := " IF 1\n )\n"

/-- The fault of the second row comes before that of the first. -/
theorem Document.errors_unclosedBlock :
    (ofText unclosedBlock default).errors =
        [.parse (.unexpectedToken .command ⟨.parenRight, ")", ⟨⟨1, 1⟩, ⟨1, 2⟩⟩⟩),
          .parse (.unterminatedBlock .endIf ⟨.ifWord, "IF", ⟨⟨0, 1⟩, ⟨0, 3⟩⟩⟩)] ∧
      ¬ (ofText unclosedBlock default).errors.Pairwise fun a b => a.span.start ≤ b.span.start := by
  have herrors : (ofText unclosedBlock default).errors =
      [.parse (.unexpectedToken .command ⟨.parenRight, ")", ⟨⟨1, 1⟩, ⟨1, 2⟩⟩⟩),
        .parse (.unterminatedBlock .endIf ⟨.ifWord, "IF", ⟨⟨0, 1⟩, ⟨0, 3⟩⟩⟩)] := by
    decide +kernel
  refine ⟨herrors, ?_⟩
  rw [herrors]
  decide

end Asm6502
