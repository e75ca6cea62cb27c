import Asm6502.Check
import Asm6502.Proofs.WalkTrace

/-!
# Topics of findings

Everything that is reported has a topic, and every check keeps to one.  So a finding tells which
check made it, whatever else is wrong with the program.
-/

namespace Asm6502

/-- What a finding is about. -/
inductive Topic where
  /-- The text of a document by itself. -/
  | text
  /-- The files and folders that commands name. -/
  | files
  | command
  | number
  | label
  | relocation
deriving DecidableEq

def Message.topic : Message -> Topic
  | .unexpectedCharacter _ | .unterminatedString | .missingCharacter | .unterminatedComment
  | .syntaxError _ => .text
  | .circularInclude _ | .fileNotResolvable _ | .folderNotResolvable _ | .emptyStringArgument
  | .stringLiteralExpected => .files
  | .unknownOpcode _ | .wrongAddressingMode _ | .impliedModeOnly _ | .impliedModeUnavailable _
  | .immediateModeUnavailable _ | .tooManyArguments | .missingCommandName | .internalError _ =>
      .command
  | .invalidNumber _ => .number
  | .labelNotDefined _ | .labelAsVariableAndConstant _ | .tooManyDefinitions _ => .label
  | .noArgumentForRelocationDirective | .relocationRegionOpenedTwice
  | .commandOutsideRelocationRegion _ => .relocation

def Diagnostic.AllOn (topic : Topic) (findings : List Diagnostic) : Prop :=
  ∀ finding ∈ findings, finding.message.topic = topic

variable {message : Message} {command : Command}

namespace Diagnostic.AllOn

variable {topic : Topic}

theorem nil : AllOn topic [] :=
  List.forall_mem_nil _

theorem singleton (location : Location) (h : message.topic = topic) :
    AllOn topic [.of message location] := by
  intro finding hfinding
  rw [List.mem_singleton.1 hfinding]
  exact h

theorem append {a b : List Diagnostic} (ha : AllOn topic a) (hb : AllOn topic b) :
    AllOn topic (a ++ b) :=
  List.forall_mem_append.2 ⟨ha, hb⟩

theorem flatMap {α : Type} {l : List α} {f : α -> List Diagnostic}
    (h : ∀ a ∈ l, AllOn topic (f a)) : AllOn topic (l.flatMap f) := by
  intro finding hfinding
  obtain ⟨a, ha, hmem⟩ := List.mem_flatMap.1 hfinding
  exact h a ha finding hmem

theorem each (h : message.topic = topic) (locations : List Location) :
    AllOn topic (Diagnostic.each message locations) := by
  intro finding hfinding
  obtain ⟨location, -, rfl⟩ := List.mem_map.1 hfinding
  exact h

end Diagnostic.AllOn

open Diagnostic (AllOn)

/-! ## Findings put together -/

namespace Diagnostic

variable {findings : List Diagnostic}

theorem dropRepeats_sublist (findings : List Diagnostic) :
    (dropRepeats findings).Sublist findings := by
  fun_induction dropRepeats findings with
  | case1 a rest ih => exact ih.cons a
  | case2 a b rest hne ih => exact ih.cons_cons a
  | case3 => exact .refl _

theorem mem_dropRepeats {finding : Diagnostic} :
    finding ∈ dropRepeats findings ↔ finding ∈ findings := by
  refine ⟨fun h => (dropRepeats_sublist findings).subset h, ?_⟩
  fun_induction dropRepeats findings with
  | case1 a rest ih =>
      intro h
      rcases List.mem_cons.1 h with rfl | h
      · exact ih List.mem_cons_self
      · exact ih h
  | case2 a b rest hne ih =>
      intro h
      rcases List.mem_cons.1 h with rfl | h
      · exact List.mem_cons_self
      · exact List.mem_cons_of_mem a (ih h)
  | case3 => exact id

theorem mem_assemble {finding : Diagnostic} : finding ∈ assemble findings ↔ finding ∈ findings := by
  unfold assemble
  rw [mem_dropRepeats, List.mem_mergeSort]

end Diagnostic

/-! ## Files -/

namespace Walk

/-- A walk that found fault with nothing but files so far. -/
def OnlyFiles (w : Walk) : Prop := AllOn .files w.errors

variable {path : List Uri}

namespace OnlyFiles

variable {w : Walk} {files : FileSource}

theorem report (h : w.OnlyFiles) (location : Location)
    (hmessage : message.topic = .files) : (w.report message location).OnlyFiles :=
  h.append (.singleton location hmessage)

theorem addDocument (h : w.OnlyFiles) (document : Document) :
    (w.addDocument document).OnlyFiles := h

theorem addFolder (h : w.OnlyFiles) (document : Uri) (name : String) (location : Location) :
    (w.addFolder files document name location).OnlyFiles := by
  unfold Walk.addFolder
  cases document.joinFolder? name with
  | none => exact h.report location rfl
  | some folder =>
      by_cases hfolder : files.hasFolder folder
      · simp only [hfolder, if_true]
        exact h
      · simp only [hfolder, Bool.false_eq_true, if_false]
        exact h.report location rfl

theorem remember (h : w.OnlyFiles) (document : Document) : (w.remember document).OnlyFiles := by
  unfold Walk.remember
  split <;> exact h

theorem enterFile {enter : Option (Document -> Walk -> Walk)}
    (henter : ∀ f ∈ enter, ∀ included (w : Walk), w.OnlyFiles -> (f included w).OnlyFiles)
    (h : w.OnlyFiles) (name : String) (location : Location) (target : Uri) :
    (w.enterFile files path enter name location target).OnlyFiles := by
  unfold Walk.enterFile
  split
  · exact h.report location rfl
  · cases enter with
    | none => exact h
    | some f =>
        cases w.content? files target with
        | none => exact h.report location rfl
        | some included => exact henter f rfl included _ (h.remember included)

end OnlyFiles

theorem topic_of_pathArgument {finding : Diagnostic}
    (h : pathArgument command = .error finding) : finding.message.topic = .files := by
  unfold pathArgument at h
  split at h
  · cases h
    rfl
  · split at h
    · cases h
      rfl
    · cases h

theorem topic_of_faulty {line : Line} {finding : Diagnostic}
    (h : line.fileRequest = .faulty finding) : finding.message.topic = .files := by
  have hrequest {command : Command} {request : String -> Location -> FileRequest}
      (hne : ∀ name location, request name location ≠ .faulty finding)
      (h : command.requestWith request = .faulty finding) : finding.message.topic = .files := by
    unfold Command.requestWith at h
    cases hpath : pathArgument command with
    | error other =>
        rw [hpath] at h
        cases h
        exact topic_of_pathArgument hpath
    | ok path =>
        rw [hpath] at h
        exact absurd h (hne _ _)
  unfold Line.fileRequest at h
  split at h
  · cases h
  · split at h
    · exact hrequest (by simp) h
    · exact hrequest (by simp) h
    · exact hrequest (by simp) h
    · cases h

variable {files : FileSource}

theorem OnlyFiles.visit {enter : Option (Document -> Walk -> Walk)}
    (henter : ∀ f ∈ enter, ∀ included (w : Walk), w.OnlyFiles -> (f included w).OnlyFiles)
    {w : Walk} (h : w.OnlyFiles) (document : Uri) (line : Line) :
    (visit files path enter document w line).OnlyFiles := by
  have hnote : (w.note path line).OnlyFiles := h
  have hlook (name : String) : (w.lookFor files path document line name).OnlyFiles := h
  rw [visit_eq]
  cases hr : line.fileRequest with
  | nothing => exact hnote
  | faulty finding =>
      refine hnote.append ?_
      intro other hother
      rw [List.mem_singleton.1 hother]
      exact topic_of_faulty hr
  | folder name location => exact hnote.addFolder document name location
  | binary name location =>
      dsimp only
      cases w.target? files document name with
      | none => exact (hlook name).report location rfl
      | some target => exact hlook name
  | document name location =>
      dsimp only
      cases w.target? files document name with
      | none => exact (hlook name).report location rfl
      | some target => exact .enterFile henter (hlook name) name location target

theorem OnlyFiles.overLines {levels : Nat}
    (henter : ∀ f ∈ opener files path levels, ∀ included (w : Walk),
      w.OnlyFiles -> (f included w).OnlyFiles)
    {w : Walk} (h : w.OnlyFiles) (document : Uri) (lines : List Line) :
    (overLines files levels path document w lines).OnlyFiles := by
  induction lines generalizing w with
  | nil => exact h
  | cons line lines ih => exact ih (.visit henter h document line)

theorem OnlyFiles.through (levels : Nat) (path : List Uri) (document : Document) {w : Walk}
    (h : w.OnlyFiles) : (through files levels path document w).OnlyFiles := by
  induction levels generalizing path document w with
  | zero =>
      rw [through_eq]
      refine .overLines ?_ (h.addDocument document) _ _
      intro f hf
      cases hf
  | succ levels ih =>
      rw [through_eq]
      refine .overLines ?_ (h.addDocument document) _ _
      intro f hf included w hw
      cases hf
      exact ih _ included hw

end Walk

theorem Document.walk_errors_allOn (document : Document) (files : FileSource)
    (cache : DocumentCache) : AllOn .files (document.walk files cache).errors :=
  Walk.OnlyFiles.through _ _ document .nil

/-! ## Checks -/

theorem Document.findings_allOn (document : Document) : AllOn .text document.findings := by
  intro finding h
  obtain ⟨error, -, rfl⟩ := List.mem_map.1 h
  cases error with
  | lex error => cases error <;> rfl
  | parse error => rfl

theorem Document.numberFindings_allOn (document : Document) :
    AllOn .number document.numberFindings := by
  refine .flatMap fun line _ => ?_
  intro finding h
  obtain ⟨e, -, h⟩ := List.mem_filterMap.1 h
  split at h
  · cases h
    rfl
  · cases h

theorem Relocation.findings_allOn (isOpen : Bool) (r : Relocation) :
    AllOn .relocation (r.findings isOpen) := by
  unfold findings
  cases r.kind with
  | opening =>
      refine .append ?_ ?_
      · split
        · exact .nil
        · exact .singleton _ rfl
      · split
        · exact .singleton _ rfl
        · exact .nil
  | closing =>
      dsimp only
      split
      · exact .nil
      · exact .singleton _ rfl

theorem Relocation.findingsAll_allOn (isOpen : Bool) (relocations : List Relocation) :
    AllOn .relocation (findingsAll isOpen relocations) := by
  induction relocations generalizing isOpen with
  | nil => exact .nil
  | cons r rest ih => exact (r.findings_allOn isOpen).append (ih _)

theorem LabelSymbol.findings_allOn (label : LabelSymbol) (config : Config) (name : String) :
    AllOn .label (label.findings config name) := by
  unfold findings
  split
  · exact .nil
  · split
    · split
      · exact .nil
      · exact .each rfl _
    · refine .append ?_ ?_
      · split
        · exact .each rfl _
        · exact .nil
      · split
        · exact .nil
        · exact .each rfl _

namespace Program

variable {program : Program} {finding : Diagnostic}

theorem labelFindings_allOn (program : Program) : AllOn .label program.labelFindings :=
  .flatMap fun entry _ => entry.2.findings_allOn program.config entry.1

theorem topic_of_instructionFinding? {mnemonic : Mnemonic} {name : Identifier}
    (h : program.instructionFinding? mnemonic name command = some finding) :
    finding.message.topic = .command := by
  have hmisfit (mode : ArgumentMode) : (misfit mnemonic name.name mode).topic = .command := by
    unfold misfit
    split
    · rfl
    · split <;> rfl
  unfold instructionFinding? at h
  split at h
  · cases h
    rfl
  · split at h
    · split at h <;> cases h
      rfl
    · split at h <;> cases h
      exact hmisfit _
    · cases h
      rfl

theorem topic_of_commandFinding?
    (h : program.commandFinding? command = some finding) : finding.message.topic = .command := by
  unfold commandFinding? at h
  split at h
  · cases h
    rfl
  · split at h
    · cases h
    · split at h
      · exact topic_of_instructionFinding? h
      · split at h <;> cases h
        rfl

/-- What the check on a topic finds. -/
def findingsOn (program : Program) : Topic -> List Diagnostic
  | .text => program.documents.flatMap Document.findings
  | .files => program.sources.errors
  | .command =>
      program.documents.flatMap fun document =>
        document.commands.filterMap program.commandFinding?
  | .number => program.documents.flatMap Document.numberFindings
  | .label => program.labelFindings
  | .relocation => program.relocationFindings

theorem findingsOn_allOn (herrors : AllOn .files program.sources.errors) (topic : Topic) :
    AllOn topic (program.findingsOn topic) := by
  cases topic with
  | text => exact .flatMap fun document _ => document.findings_allOn
  | files => exact herrors
  | command =>
      refine .flatMap fun document _ finding hmem => ?_
      obtain ⟨command, -, hcommand⟩ := List.mem_filterMap.1 hmem
      exact topic_of_commandFinding? hcommand
  | number => exact .flatMap fun document _ => document.numberFindings_allOn
  | label => exact program.labelFindings_allOn
  | relocation => exact Relocation.findingsAll_allOn _ _

theorem mem_findings_iff_exists :
    finding ∈ program.findings ↔ ∃ topic, finding ∈ program.findingsOn topic := by
  simp only [findings, wholeFindings, documentFindings, Diagnostic.mem_assemble, List.mem_append,
    List.mem_flatMap]
  constructor
  · rintro ((h | ⟨document, hdocument, h | h⟩) | (h | h) | ⟨document, hdocument, h⟩)
    · exact ⟨.files, h⟩
    · exact ⟨.text, List.mem_flatMap.2 ⟨document, hdocument, h⟩⟩
    · exact ⟨.command, List.mem_flatMap.2 ⟨document, hdocument, h⟩⟩
    · exact ⟨.label, h⟩
    · exact ⟨.relocation, h⟩
    · exact ⟨.number, List.mem_flatMap.2 ⟨document, hdocument, h⟩⟩
  · rintro ⟨topic, h⟩
    cases topic with
    | text =>
        obtain ⟨document, hdocument, h⟩ := List.mem_flatMap.1 h
        exact .inl (.inr ⟨document, hdocument, .inl h⟩)
    | files => exact .inl (.inl h)
    | command =>
        obtain ⟨document, hdocument, h⟩ := List.mem_flatMap.1 h
        exact .inl (.inr ⟨document, hdocument, .inr h⟩)
    | number => exact .inr (.inr (List.mem_flatMap.1 h))
    | label => exact .inr (.inl (.inl h))
    | relocation => exact .inr (.inl (.inr h))

/-- What is said on a topic comes from the check on it. -/
theorem mem_findings_of_topic (herrors : AllOn .files program.sources.errors) {topic : Topic}
    (htopic : finding.message.topic = topic) :
    finding ∈ program.findings ↔ finding ∈ program.findingsOn topic := by
  rw [mem_findings_iff_exists]
  refine ⟨?_, fun h => ⟨topic, h⟩⟩
  rintro ⟨other, h⟩
  rwa [← htopic, findingsOn_allOn herrors other finding h]

end Program

end Asm6502
