import Asm6502.Proofs.UndefinedLabels

/-!
# The order of findings

Findings are ordered by where they stand, how bad they are and what they say, and no two different
findings share a place in that order.  So what is reported depends only on which findings were made,
not on their order or on how often each was made.
-/

namespace Asm6502

/-! ## Places in order -/

instance : Std.TransOrd Position :=
  inferInstanceAs
    (Std.TransCmp (compareLex (compareOn Position.line) (compareOn Position.column)))

instance : Std.LawfulEqOrd Position where
  eq_of_compare {a b} h := by
    obtain ⟨hline, hcolumn⟩ := Ordering.then_eq_eq.1 h
    cases a
    cases b
    rw [Position.mk.injEq]
    exact ⟨Std.LawfulEqOrd.eq_of_compare hline, Std.LawfulEqOrd.eq_of_compare hcolumn⟩

instance : Std.TransOrd Span :=
  inferInstanceAs (Std.TransCmp (compareLex (compareOn Span.start) (compareOn Span.stop)))

instance : Std.LawfulEqOrd Span where
  eq_of_compare {a b} h := by
    obtain ⟨hstart, hstop⟩ := Ordering.then_eq_eq.1 h
    cases a
    cases b
    rw [Span.mk.injEq]
    exact ⟨Std.LawfulEqOrd.eq_of_compare hstart, Std.LawfulEqOrd.eq_of_compare hstop⟩

instance : Std.TransOrd Location :=
  inferInstanceAs (Std.TransCmp
    (compareLex (compareOn fun l : Location => l.uri.text) (compareOn Location.span)))

instance : Std.LawfulEqOrd Location where
  eq_of_compare {a b} h := by
    obtain ⟨huri, hspan⟩ := Ordering.then_eq_eq.1 h
    obtain ⟨⟨uri⟩, span⟩ := a
    obtain ⟨⟨uri'⟩, span'⟩ := b
    rw [Location.mk.injEq, Uri.mk.injEq]
    exact ⟨Std.LawfulEqOrd.eq_of_compare huri, Std.LawfulEqOrd.eq_of_compare hspan⟩

/-! ## Messages in order -/

namespace Severity

theorem rank_injective {a b : Severity} (h : a.rank = b.rank) : a = b := by
  cases a <;> cases b <;> first | rfl | cases h

end Severity

namespace Message

/-- The message of a kind with a subject. -/
def ofParts : Nat -> String -> Message
  | 0, s => unknownOpcode s
  | 1, s => wrongAddressingMode s
  | 2, s => impliedModeOnly s
  | 3, s => impliedModeUnavailable s
  | 4, s => immediateModeUnavailable s
  | 5, _ => tooManyArguments
  | 6, _ => missingCommandName
  | 7, s => invalidNumber s
  | 8, s => labelNotDefined s
  | 9, s => labelAsVariableAndConstant s
  | 10, s => tooManyDefinitions s
  | 11, s => circularInclude s
  | 12, s => fileNotResolvable s
  | 13, s => folderNotResolvable s
  | 14, _ => emptyStringArgument
  | 15, _ => stringLiteralExpected
  | 16, s => internalError s
  | 17, _ => noArgumentForRelocationDirective
  | 18, _ => relocationRegionOpenedTwice
  | 19, s => commandOutsideRelocationRegion s
  | 20, s => unexpectedCharacter (s.toList.headD ' ')
  | 21, _ => unterminatedString
  | 22, _ => missingCharacter
  | 23, _ => unterminatedComment
  | _, s => syntaxError s

theorem ofParts_rank_subject (m : Message) : ofParts m.rank m.subject = m := by
  cases m with
  | unexpectedCharacter character => simp [rank, subject, ofParts]
  | _ => rfl

instance : Std.TransOrd Message :=
  inferInstanceAs (Std.TransCmp (compareLex (compareOn rank) (compareOn subject)))

instance : Std.LawfulEqOrd Message where
  eq_of_compare {a b} h := by
    obtain ⟨hrank, hsubject⟩ := Ordering.then_eq_eq.1 h
    rw [← ofParts_rank_subject a, ← ofParts_rank_subject b,
      Std.LawfulEqOrd.eq_of_compare hrank, Std.LawfulEqOrd.eq_of_compare hsubject]

end Message

/-! ## Findings in order -/

namespace Diagnostic

instance : Std.TransOrd Diagnostic :=
  inferInstanceAs (Std.TransCmp (compareLex (compareOn location)
    (compareLex (compareOn fun d : Diagnostic => d.severity.rank) (compareOn message))))

instance : Std.LawfulEqOrd Diagnostic where
  eq_of_compare {a b} h := by
    obtain ⟨hlocation, hrest⟩ := Ordering.then_eq_eq.1 h
    obtain ⟨hseverity, hmessage⟩ := Ordering.then_eq_eq.1 hrest
    cases a
    cases b
    rw [Diagnostic.mk.injEq]
    exact ⟨Std.LawfulEqOrd.eq_of_compare hlocation,
      Severity.rank_injective (Std.LawfulEqOrd.eq_of_compare hseverity),
      Std.LawfulEqOrd.eq_of_compare hmessage⟩

theorem le_trans {a b c : Diagnostic} (hab : a.le b = true) (hbc : b.le c = true) :
    a.le c = true :=
  Std.TransOrd.isLE_trans hab hbc

theorem le_total (a b : Diagnostic) : (a.le b || b.le a) = true := by
  unfold le
  rw [Std.OrientedOrd.eq_swap (a := b) (b := a)]
  cases compare a b <;> rfl

theorem le_antisymm {a b : Diagnostic} (hab : a.le b = true) (hba : b.le a = true) : a = b :=
  Std.LawfulEqOrd.eq_of_compare (Std.OrientedCmp.isLE_antisymm hab hba)

/-- One finding comes before another one. -/
def Before (a b : Diagnostic) : Prop := a.le b = true ∧ a ≠ b

theorem pairwise_dropRepeats {findings : List Diagnostic}
    (h : findings.Pairwise fun a b => a.le b = true) : (dropRepeats findings).Pairwise Before := by
  fun_induction dropRepeats findings with
  | case1 b rest ih => exact ih (List.pairwise_cons.1 h).2
  | case2 a b rest hne ih =>
      obtain ⟨hfirst, hrest⟩ := List.pairwise_cons.1 h
      refine List.pairwise_cons.2 ⟨fun other hother => ?_, ih hrest⟩
      have hmem : other ∈ b :: rest := mem_dropRepeats.1 hother
      refine ⟨hfirst other hmem, ?_⟩
      -- Were the first finding met again, the second one would stand between the two.
      rintro rfl
      rcases List.mem_cons.1 hmem with heq | hmem
      · exact hne heq
      · have hback := (List.pairwise_cons.1 hrest).1 a hmem
        exact hne (le_antisymm (hfirst b List.mem_cons_self) hback)
  | case3 findings hshort =>
      cases findings with
      | nil => exact .nil
      | cons a rest =>
          cases rest with
          | nil => exact List.pairwise_singleton Before a
          | cons b rest => exact absurd rfl (hshort a b rest)

theorem assemble_pairwise_before (findings : List Diagnostic) :
    (assemble findings).Pairwise Before := by
  unfold assemble
  apply pairwise_dropRepeats
  apply List.pairwise_mergeSort
  · intro a b c
    exact le_trans
  · exact le_total

/-- What is reported depends only on which findings were made. -/
theorem assemble_congr {findings findings' : List Diagnostic}
    (h : ∀ finding, finding ∈ findings ↔ finding ∈ findings') :
    assemble findings = assemble findings' := by
  have hsorted := assemble_pairwise_before findings
  have hsorted' := assemble_pairwise_before findings'
  have hnodup {l : List Diagnostic} (hl : l.Pairwise Before) : l.Nodup := hl.imp fun h => h.2
  refine List.Perm.eq_of_pairwise ?_ hsorted hsorted' ?_
  · intro a b _ _ hab hba
    exact le_antisymm hab.1 hba.1
  · refine (List.perm_ext_iff_of_nodup (hnodup hsorted) (hnodup hsorted')).2 fun finding => ?_
    rw [mem_assemble, mem_assemble, h]

end Diagnostic

namespace Program

/-! ## Programs that differ in their visits only -/

section

variable {program other : Program} (hsymbols : other.symbols = program.symbols)

include hsymbols

theorem value?_congr (e : Expr) : other.value? e = program.value? e := by
  have hconstant (id : Identifier) : other.constant? id = program.constant? id := by
    unfold constant?
    rw [hsymbols]
  have hvalue (levels : Nat) (e : Expr) : other.valueOn? levels e = program.valueOn? levels e := by
    induction levels generalizing e with
    | zero => rfl
    | succ levels ih => simp only [valueOn?, hconstant, ih]
  exact hvalue constantLevels e

theorem commandFinding?_congr (command : Command) :
    other.commandFinding? command = program.commandFinding? command := by
  have hfits (mnemonic : Mnemonic) (extension : Option Extension) (argument : Argument) :
      other.fits mnemonic extension argument = program.fits mnemonic extension argument := by
    unfold fits addressWidth
    simp only [value?_congr hsymbols]
  have hinstruction (mnemonic : Mnemonic) (name : Identifier) :
      other.instructionFinding? mnemonic name command =
        program.instructionFinding? mnemonic name command := by
    unfold instructionFinding?
    simp only [hfits]
  unfold commandFinding?
  simp only [hinstruction, hsymbols]

end

/-- Programs with the same documents and symbols are reported alike if the same faults were met on
the way through their files, however often each. -/
theorem findings_congr {program other : Program} (hconfig : other.config = program.config)
    (hsymbols : other.symbols = program.symbols)
    (hdocuments : other.sources.documents = program.sources.documents)
    (herrors : ∀ finding, finding ∈ other.sources.errors ↔ finding ∈ program.sources.errors) :
    other.findings = program.findings := by
  have hdocument (document : Document) :
      other.documentFindings document = program.documentFindings document := by
    have hcommand : other.commandFinding? = program.commandFinding? :=
      funext (commandFinding?_congr hsymbols)
    unfold documentFindings
    rw [hcommand]
  have hwhole : other.wholeFindings = program.wholeFindings := by
    unfold wholeFindings labelFindings relocationFindings documents
    rw [hconfig, hsymbols, hdocuments]
  apply Diagnostic.assemble_congr
  intro finding
  unfold documents
  simp only [List.mem_append, List.mem_flatMap, herrors, hdocuments, hdocument, hwhole]

end Program

end Asm6502
