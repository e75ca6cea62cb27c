import Asm6502.Proofs.FindingOrder

/-!
# Findings as a sorted set

What is reported is the one list that is strictly increasing and has the findings that were made.
It says the same as the set of the findings, so nothing else about how they were made matters.
-/

namespace Asm6502

theorem Position.compare_eq_lt {p q : Position} : compare p q = .lt ↔ p < q := by
  have hcompare : compare p q = (compare p.line q.line).then (compare p.column q.column) := rfl
  rw [hcompare, Ordering.then_eq_lt, Nat.compare_eq_lt, Nat.compare_eq_eq, Nat.compare_eq_lt,
    Position.lt_iff]

theorem Span.compare_eq_lt {a b : Span} :
    compare a b = .lt ↔ a.start < b.start ∨ a.start = b.start ∧ a.stop < b.stop := by
  have hcompare : compare a b = (compare a.start b.start).then (compare a.stop b.stop) := rfl
  rw [hcompare, Ordering.then_eq_lt, Position.compare_eq_lt, Std.compare_eq_iff_eq,
    Position.compare_eq_lt]

namespace Diagnostic

/-- The order of reports: by the text of the document, by where a finding starts and ends, the worse
first, by the kind of the message, and by what the message is about. -/
def Precedes (a b : Diagnostic) : Prop :=
  a.location.uri.text < b.location.uri.text ∨ a.location.uri.text = b.location.uri.text ∧
  (a.location.span.start < b.location.span.start ∨
    a.location.span.start = b.location.span.start ∧
  (a.location.span.stop < b.location.span.stop ∨ a.location.span.stop = b.location.span.stop ∧
  (a.severity.rank < b.severity.rank ∨ a.severity.rank = b.severity.rank ∧
  (a.message.rank < b.message.rank ∨ a.message.rank = b.message.rank ∧
    a.message.subject < b.message.subject))))

theorem compare_eq_lt {a b : Diagnostic} : compare a b = .lt ↔ a.Precedes b := by
  have hcompare : compare a b =
      ((compare a.location.uri.text b.location.uri.text).then
        (compare a.location.span b.location.span)).then
      ((compare a.severity.rank b.severity.rank).then
        ((compare a.message.rank b.message.rank).then
          (compare a.message.subject b.message.subject))) := rfl
  have htext {s t : String} : compare s t = .lt ↔ s < t := compareOfLessAndEq_eq_lt
  have hspan {s t : Span} : s = t ↔ s.start = t.start ∧ s.stop = t.stop := by
    cases s
    cases t
    exact Span.mk.injEq .. ▸ Iff.rfl
  simp only [hcompare, Ordering.then_eq_lt, Ordering.then_eq_eq, htext, Span.compare_eq_lt,
    Nat.compare_eq_lt, Std.compare_eq_iff_eq, hspan, Precedes]
  grind

theorem before_iff_precedes {a b : Diagnostic} : Before a b ↔ a.Precedes b := by
  have hsame : a = b ↔ compare a b = .eq := Std.compare_eq_iff_eq.symm
  rw [← compare_eq_lt, Before, le, Ne, hsame]
  cases compare a b <;> decide

/-- Only one strictly increasing list has the given members. -/
theorem eq_assemble_iff {sorted findings : List Diagnostic} :
    sorted = assemble findings ↔
      sorted.Pairwise Precedes ∧ ∀ finding, finding ∈ sorted ↔ finding ∈ findings := by
  have hbefore : Before = Precedes := by
    funext a b
    exact propext before_iff_precedes
  constructor
  · rintro rfl
    exact ⟨hbefore ▸ assemble_pairwise_before findings, fun finding => mem_assemble⟩
  · rintro ⟨hsorted, hmem⟩
    rw [← hbefore] at hsorted
    -- A list that is sorted already stays as it is.
    have hself : assemble sorted = sorted := by
      refine List.Perm.eq_of_pairwise ?_ (assemble_pairwise_before sorted) hsorted ?_
      · intro a b _ _ hab hba
        exact le_antisymm hab.1 hba.1
      · have hnodup {l : List Diagnostic} (hl : l.Pairwise Before) : l.Nodup := hl.imp fun h => h.2
        refine (List.perm_ext_iff_of_nodup (hnodup (assemble_pairwise_before sorted))
          (hnodup hsorted)).2 fun finding => mem_assemble
    rw [← hself]
    exact assemble_congr hmem

theorem assemble_eq_assemble_iff {findings others : List Diagnostic} :
    assemble findings = assemble others ↔ ∀ finding, finding ∈ findings ↔ finding ∈ others := by
  refine ⟨fun h finding => ?_, assemble_congr⟩
  rw [← mem_assemble, h, mem_assemble]

end Diagnostic

namespace Program

/-- What the checks find: faults met on the way through the files, faults of the texts, and what is
wrong with commands, labels, relocation regions and numbers. -/
inductive Finds (program : Program) : Diagnostic -> Prop where
  | file {finding : Diagnostic} (h : finding ∈ program.sources.errors) : program.Finds finding
  | text {document : Document} (hdocument : document ∈ program.documents) {finding : Diagnostic}
      (h : finding ∈ document.findings) : program.Finds finding
  | command {document : Document} (hdocument : document ∈ program.documents) {command : Command}
      (hcommand : command ∈ document.commands) {finding : Diagnostic}
      (h : program.commandFinding? command = some finding) : program.Finds finding
  | label {finding : Diagnostic} (h : finding ∈ program.labelFindings) : program.Finds finding
  | relocation {finding : Diagnostic} (h : finding ∈ program.relocationFindings) :
      program.Finds finding
  | number {document : Document} (hdocument : document ∈ program.documents) {finding : Diagnostic}
      (h : finding ∈ document.numberFindings) : program.Finds finding

theorem mem_findings_iff {program : Program} {finding : Diagnostic} :
    finding ∈ program.findings ↔ program.Finds finding := by
  simp only [findings, Diagnostic.mem_assemble, wholeFindings, documentFindings, List.mem_append,
    List.mem_flatMap, List.mem_filterMap]
  constructor
  · rintro ((h | ⟨document, hdocument, h | ⟨command, hcommand, h⟩⟩) |
      (h | h) | ⟨document, hdocument, h⟩)
    · exact .file h
    · exact .text hdocument h
    · exact .command hdocument hcommand h
    · exact .label h
    · exact .relocation h
    · exact .number hdocument h
  · intro h
    cases h with
    | file h => exact .inl (.inl h)
    | text hdocument h => exact .inl (.inr ⟨_, hdocument, .inl h⟩)
    | command hdocument hcommand h => exact .inl (.inr ⟨_, hdocument, .inr ⟨_, hcommand, h⟩⟩)
    | label h => exact .inr (.inl (.inl h))
    | relocation h => exact .inr (.inl (.inr h))
    | number hdocument h => exact .inr (.inr ⟨_, hdocument, h⟩)

end Program

/-- Findings are reported as a sorted set.  Whatever findings are put together, the outcome is
strictly increasing and has the same members, putting it together again changes nothing, and two
outcomes are the same if and only if their findings have the same members.  What is reported about a
program is what comes of any list of what its checks find, and it tells two programs apart if and
only if their checks find different things. -/
theorem Diagnostic.assemble_sortedSet :
    (∀ findings, (assemble findings).Pairwise Precedes ∧
      (∀ finding, finding ∈ assemble findings ↔ finding ∈ findings) ∧
      assemble (assemble findings) = assemble findings) ∧
    (∀ findings others, assemble findings = assemble others ↔
      ∀ finding, finding ∈ findings ↔ finding ∈ others) ∧
    (∀ (program : Program) (found : List Diagnostic), program.findings = assemble found ↔
      ∀ finding, program.Finds finding ↔ finding ∈ found) ∧
    ∀ program other : Program, program.findings = other.findings ↔
      ∀ finding, program.Finds finding ↔ other.Finds finding := by
  have hsorted (findings : List Diagnostic) := eq_assemble_iff.1 (Eq.refl (assemble findings))
  have hself (findings : List Diagnostic) : assemble (assemble findings) = assemble findings :=
    (eq_assemble_iff.2 ⟨(hsorted findings).1, fun finding => Iff.rfl⟩).symm
  have hfound (program : Program) (found : List Diagnostic) : program.findings = assemble found ↔
      ∀ finding, program.Finds finding ↔ finding ∈ found := by
    simp only [← Program.mem_findings_iff]
    rw [← assemble_eq_assemble_iff, Program.findings, hself]
  refine ⟨fun findings => ⟨(hsorted findings).1, (hsorted findings).2, hself findings⟩,
    fun findings others => assemble_eq_assemble_iff, hfound, fun program other => ?_⟩
  have hother : assemble other.findings = other.findings := hself _
  simp only [← other.mem_findings_iff]
  rw [← hfound, hother]

end Asm6502
