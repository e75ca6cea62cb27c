import Asm6502.Proofs.FindingPlaces
import Asm6502.Proofs.NumberTokens

/-!
# Malformed numbers

A number whose digits do not belong to its base stays one token and is reported when the program is
checked.  Every operand of a text without faults becomes a part of a line, whatever stands around
it, and so it is checked; the ordinals of macro arguments and the names of macros are not.
-/

namespace Asm6502

open Concrete

/-! ## Findings -/

namespace Concrete

theorem Expr.number_mem_parts_lower (uri : Uri) {e : Expr} {inBrackets : Bool}
    (hcanonical : e.Canonical inBrackets) (hsigned : ∀ token ∈ e.tokens, token.Signed)
    {text : String} {value : Option Int64} {location : Location} :
    Asm6502.Expr.number text value location ∈ (e.lower uri).parts ↔
      ∃ token ∈ e.operands, token.kind.isNumber = true ∧ text = token.literal ∧
        value = numberValue? token.literal ∧ location = ⟨uri, token.span⟩ := by
  induction e generalizing inBrackets with
  | atom token =>
      simp only [lower, operands, List.mem_singleton, exists_eq_left]
      unfold ofAtom
      cases hkind : token.kind.isNumber with
      | true => simp [Asm6502.Expr.parts]
      | false =>
          simp only [Bool.false_eq_true, if_false, false_and, iff_false]
          split
          · simp [Asm6502.Expr.parts]
          · split <;> simp [Asm6502.Expr.parts]
  | label fragments =>
      have hlower : ∃ e : Asm6502.Expr, (Expr.label fragments).lower uri = e ∧ e.parts = [e] ∧
          ∀ text value location, e ≠ .number text value location := by
        rcases fragments with _ | ⟨first, _ | ⟨second, others⟩⟩
        all_goals exact ⟨_, rfl, rfl, by simp [lower]⟩
      obtain ⟨e, he, hparts, hne⟩ := hlower
      rw [he, hparts]
      simp [operands, (hne _ _ _).symm]
  | macroArgument opening number closing => simp [lower, operands, Asm6502.Expr.parts]
  | unary operator operand ih =>
      obtain ⟨hoperator, hothers⟩ := List.forall_mem_cons.1 hsigned
      obtain ⟨op, hop⟩ := Option.isSome_iff_exists.1 (hoperator.unary hcanonical.1)
      rw [lower, hop]
      simp only [Asm6502.Expr.parts, List.mem_cons, reduceCtorEq, false_or]
      exact ih hcanonical.2.2 hothers
  | binary left operator right ihleft ihright =>
      obtain ⟨hleft, hrest⟩ := List.forall_mem_append.1 hsigned
      obtain ⟨hoperator, hright⟩ := List.forall_mem_cons.1 hrest
      obtain ⟨op, hop⟩ := Option.isSome_iff_exists.1 (hoperator.binary hcanonical.2.1)
      rw [lower, hop]
      simp only [Asm6502.Expr.parts, List.mem_cons, reduceCtorEq, false_or, List.mem_append,
        operands, or_and_right, exists_or]
      exact or_congr (ihleft hcanonical.1 hleft) (ihright hcanonical.2.2.2 hright)
  | round opening inner closing ih | square opening inner closing ih =>
      obtain ⟨-, hrest⟩ := List.forall_mem_cons.1 hsigned
      simp only [lower, Asm6502.Expr.parts, List.mem_cons, reduceCtorEq, false_or]
      exact ih hcanonical (List.forall_mem_append.1 hrest).1

mutual

theorem Line.walk_lower (uri : Uri) :
    ∀ line : Line, Asm6502.Line.walk (line.lower uri) = line.nested.map (Line.lower uri)
  | .command margin content => by simp [Line.lower, Asm6502.Line.walk, Line.nested]
  | .macroBlock margin block => by simp [Line.lower, Asm6502.Line.walk, Line.nested]
  | .conditional margin keyword condition thenLines elseKeyword elseLines ending span => by
      simp [Line.lower, Asm6502.Line.walk, Line.nested, Line.walkAll_lower uri thenLines,
        Line.walkAll_lower uri elseLines]
  | .repetition margin keyword count body ending span => by
      simp [Line.lower, Asm6502.Line.walk, Line.nested, Line.walkAll_lower uri body]

theorem Line.walkAll_lower (uri : Uri) :
    ∀ lines : List Line,
      Asm6502.Line.walkAll (lowerAll uri lines) = (Line.nestedAll lines).map (Line.lower uri)
  | [] => rfl
  | line :: lines => by
      rw [lowerAll, Asm6502.Line.walkAll, Line.nestedAll, List.map_append, Line.walk_lower uri line,
        Line.walkAll_lower uri lines]

end

theorem Line.expressions_lower (uri : Uri) (line : Line) :
    (line.lower uri).expressions = line.content.values.map (Expr.lower uri) := by
  cases line with
  | command margin content =>
      cases content <;>
        simp [Line.lower, Asm6502.Line.expressions, Line.content, Content.values, Command.lower,
          Argument.lower]
  | macroBlock => simp [Line.lower, Asm6502.Line.expressions, Line.content, Content.values]
  | conditional margin keyword condition | repetition margin keyword condition =>
      cases condition <;>
        simp [Line.lower, Asm6502.Line.expressions, Line.content, Content.values]

end Concrete

theorem Document.mem_numberFindings {text : String} (h : (ConcreteFile.ofSource text).errors = [])
    (uri : Uri) {finding : Diagnostic} :
    finding ∈ (ofText text uri).numberFindings ↔
      ∃ token ∈ (ConcreteFile.ofSource text).operands, token.kind.isNumber = true ∧
        numberValue? token.literal = none ∧
        finding = .of (.invalidNumber token.literal) ⟨uri, token.span⟩ := by
  have hlines : (ofText text uri).allLines =
      (Line.nestedAll (ConcreteFile.ofSource text).lines).map (Line.lower uri) :=
    Line.walkAll_lower uri _
  have hparts {line : Concrete.Line}
      (hline : line ∈ Line.nestedAll (ConcreteFile.ofSource text).lines) {e : Concrete.Expr}
      (he : e ∈ line.content.values) {literal : String} {location : Location} :
      .number literal none location ∈ (e.lower uri).parts ↔
        ∃ token ∈ e.operands, token.kind.isNumber = true ∧ literal = token.literal ∧
          none = numberValue? token.literal ∧ location = ⟨uri, token.span⟩ := by
    obtain ⟨row, hrow, hread, -⟩ :=
      (ConcreteFile.ofSource_rows h).2 line.content (List.mem_map_of_mem hline)
    rw [← hread] at he
    have hpart := Content.mem_values.1 he
    obtain ⟨inBrackets, hcanonical⟩ :=
      (Row.readAs_of_mem_parts (List.mem_append_right _ hpart)).canonical
    refine Expr.number_mem_parts_lower uri hcanonical fun token htoken => ?_
    have hmem := (row.read_spec.2.madeOf.value hpart).tokens_subset htoken
    exact tokenize_signed text token ((rows_sublist _ row hrow).subset hmem)
  simp only [numberFindings, List.mem_flatMap, List.mem_filterMap, hlines, List.mem_map]
  constructor
  · rintro ⟨_, ⟨line, hline, rfl⟩, part, ⟨_, hvalue, hpart⟩, hfinding⟩
    rw [Line.expressions_lower] at hvalue
    obtain ⟨e, he, rfl⟩ := List.mem_map.1 hvalue
    split at hfinding
    · cases hfinding
      obtain ⟨token, htoken, hkind, rfl, hnone, rfl⟩ := (hparts hline he).1 hpart
      refine ⟨token, ?_, hkind, hnone.symm, rfl⟩
      exact List.mem_flatMap.2 ⟨_, List.mem_map_of_mem hline, List.mem_flatMap.2 ⟨e, he, htoken⟩⟩
    · cases hfinding
  · rintro ⟨token, htoken, hkind, hnone, rfl⟩
    obtain ⟨_, hcontent, htoken⟩ := List.mem_flatMap.1 htoken
    obtain ⟨line, hline, rfl⟩ := List.mem_map.1 hcontent
    obtain ⟨e, he, htoken⟩ := List.mem_flatMap.1 htoken
    refine ⟨_, ⟨line, hline, rfl⟩, .number token.literal none ⟨uri, token.span⟩, ⟨e.lower uri, ?_,
      (hparts hline he).2 ⟨token, htoken, hkind, rfl, hnone.symm, rfl⟩⟩, rfl⟩
    rw [Line.expressions_lower]
    exact List.mem_map_of_mem he

namespace Program

variable (config : Config) (files : FileSource) {cache : DocumentCache}

/-- What is said about the numbers of the document with which a program starts. -/
theorem mem_findings_of_number_iff (hcache : cache.OfTexts) (text : String) (uri : Uri)
    {finding : Diagnostic} (htopic : finding.message.topic = .number)
    (huri : finding.location.uri = uri) :
    finding ∈ (resolve (.ofText text uri) config files cache).1.findings ↔
      finding ∈ (Document.ofText text uri).numberFindings := by
  have horderly := (Document.ofText text uri).walk_orderly files cache
  have herrors := (Document.ofText text uri).walk_errors_allOn files cache
  have hfirst : Document.ofText text uri ∈
      (resolve (.ofText text uri) config files cache).1.documents :=
    List.mem_of_head? horderly.first
  rw [mem_findings_of_topic herrors htopic, findingsOn, List.mem_flatMap]
  refine ⟨?_, fun h => ⟨_, hfirst, h⟩⟩
  rintro ⟨d, hd, hfinding⟩
  -- A finding carries the name of its document, and the documents have different names.
  obtain ⟨source, hsource⟩ :=
    ((Document.ofText text uri).walk_enters files cache d hd).exists_text hcache
  have hname : finding.location.uri = d.uri :=
    (Document.places_numberFindings finding hfinding source hsource).uri_eq
  have hsame : d ∈ [Document.ofText text uri] := by
    rw [← Document.filter_uri_eq horderly.distinct hfirst]
    exact List.mem_filter.2 ⟨hd, decide_eq_true (hname.symm.trans huri)⟩
  rwa [List.mem_singleton.1 hsame] at hfinding

end Program

variable {text : String}

/-- Whether a number stands where a value is read: not in the body of a macro, not as the name of a
macro and not as the ordinal of a macro argument. -/
def ConcreteFile.readsValue (file : ConcreteFile) (token : Token) : Bool :=
  !file.isRaw token.span.start.line && decide (token ∉ file.macroNames) &&
    decide (token ∉ file.ordinals)

theorem ConcreteFile.mem_operands_iff_readsValue (h : (ofSource text).errors = []) {token : Token}
    (htoken : token ∈ (tokenize text).tokens) (hkind : token.kind.isNumber = true) :
    token ∈ (ofSource text).operands ↔ (ofSource text).readsValue token = true := by
  rw [mem_operands_iff h htoken hkind]
  simp [readsValue, and_assoc]

theorem ConcreteFile.operands_subset (h : (ofSource text).errors = []) :
    (ofSource text).operands ⊆ (tokenize text).tokens := by
  intro token htoken
  obtain ⟨content, hcontent, htoken⟩ := List.mem_flatMap.1 htoken
  obtain ⟨row, hrow, rfl, -⟩ := (ofSource_rows h).2 content hcontent
  obtain ⟨hheld, -⟩ := Content.of_mem_values Expr.operands_subset htoken
  exact (rows_sublist _ row hrow).subset (row.read_spec.2.madeOf.tokens_subset hheld)

theorem Document.ofSource_errors_of_ofText {uri : Uri} (h : (ofText text uri).errors = []) :
    (ConcreteFile.ofSource text).errors = [] :=
  List.map_eq_nil_iff.1 (List.append_eq_nil_iff.1 h).2

theorem eq_ite_of_nodup {α : Type} {l : List α} (hl : l.Nodup) {x : α} {p : Prop} [Decidable p]
    (h : ∀ a, a ∈ l ↔ p ∧ a = x) : l = if p then [x] else [] := by
  split
  · next hp =>
    refine List.perm_singleton.1 ((List.perm_ext_iff_of_nodup hl (List.nodup_singleton x)).2 ?_)
    intro a
    rw [h a, List.mem_singleton, and_iff_right hp]
  · next hp => exact List.eq_nil_iff_forall_not_mem.2 fun a ha => hp ((h a).1 ha).1

/-- In a text without faults every number that stands where a value is read and has no value itself
is reported once, at its place.  No other number is reported, and nothing but a number. -/
theorem Program.invalidNumber_findings (config : Config) (files : FileSource)
    {cache : DocumentCache} (hcache : cache.OfTexts) {text : String} {uri : Uri}
    (h : (Document.ofText text uri).errors = []) :
    let file := ConcreteFile.ofSource text
    let program := (resolve (.ofText text uri) config files cache).1
    (∀ token ∈ (tokenize text).tokens, token.kind.isNumber = true ->
      program.findings.filter (fun finding =>
          finding.message.topic = .number ∧ finding.location = ⟨uri, token.span⟩) =
        if file.readsValue token ∧ numberValue? token.literal = none then
          [.of (.invalidNumber token.literal) ⟨uri, token.span⟩]
        else []) ∧
      ∀ finding ∈ program.findings, finding.message.topic = .number ->
        finding.location.uri = uri ->
          ∃ token ∈ (tokenize text).tokens, token.kind.isNumber = true ∧
            finding.location = ⟨uri, token.span⟩ := by
  intro file program
  have hclean := Document.ofSource_errors_of_ofText h
  have hmem {finding : Diagnostic} (htopic : finding.message.topic = .number)
      (huri : finding.location.uri = uri) : finding ∈ program.findings ↔
        ∃ token ∈ file.operands, token.kind.isNumber = true ∧ numberValue? token.literal = none ∧
          finding = .of (.invalidNumber token.literal) ⟨uri, token.span⟩ :=
    (mem_findings_of_number_iff config files hcache text uri htopic huri).trans
      (Document.mem_numberFindings hclean uri)
  refine ⟨fun token htoken hkind => ?_, fun finding hfinding htopic huri => ?_⟩
  · have hnodup : program.findings.Nodup :=
      (Diagnostic.assemble_pairwise_before _).imp fun hbefore => hbefore.2
    refine eq_ite_of_nodup (hnodup.filter _) fun finding => ?_
    simp only [List.mem_filter, decide_eq_true_eq]
    constructor
    · rintro ⟨hfinding, htopic, hlocation⟩
      obtain ⟨other, hother, -, hnone, rfl⟩ := (hmem htopic (by rw [hlocation])).1 hfinding
      have hspan : other.span = token.span := congrArg Location.span hlocation
      cases token_eq_of_span_eq (ConcreteFile.operands_subset hclean hother) htoken hspan
      exact ⟨⟨(ConcreteFile.mem_operands_iff_readsValue hclean htoken hkind).1 hother, hnone⟩, rfl⟩
    · rintro ⟨⟨hvalue, hnone⟩, rfl⟩
      have hoperand := (ConcreteFile.mem_operands_iff_readsValue hclean htoken hkind).2 hvalue
      exact ⟨(hmem rfl rfl).2 ⟨token, hoperand, hkind, hnone, rfl⟩, rfl, rfl⟩
  · obtain ⟨token, htoken, hkind, -, rfl⟩ := (hmem htopic huri).1 hfinding
    exact ⟨token, ConcreteFile.operands_subset hclean htoken, hkind, rfl⟩

/-- Malformed numbers in a condition and in brackets, and in the name, the body and an argument of a
macro. -/
def malformedNumbers : String := " IF 08\n MAC 1a\n LDA 2b\n ENDM\n LDA [$fg+\x7b3c\x7d]\n EIF\n"

/-- The number in brackets is reported, and the ordinal beside it is not. -/
theorem Program.invalidNumber_findings_malformedNumbers :
    DocumentCache.OfTexts .empty ∧ (Document.ofText malformedNumbers default).errors = [] ∧
      let program :=
        (resolve (.ofText malformedNumbers default) ⟨[]⟩ MemoryFiles.empty.source .empty).1
      program.findings.filter (fun finding =>
          finding.message.topic = .number ∧ finding.location = ⟨default, ⟨⟨4, 6⟩, ⟨4, 9⟩⟩⟩) =
        [.of (.invalidNumber "$fg") ⟨default, ⟨⟨4, 6⟩, ⟨4, 9⟩⟩⟩] ∧
      program.findings.filter (fun finding =>
          finding.message.topic = .number ∧ finding.location = ⟨default, ⟨⟨4, 11⟩, ⟨4, 13⟩⟩⟩) =
        [] := by
  have hclean : (Document.ofText malformedNumbers default).errors = [] := by decide +kernel
  obtain ⟨hreported, -⟩ := invalidNumber_findings ⟨[]⟩ MemoryFiles.empty.source
    DocumentCache.ofTexts_empty hclean
  have hbrackets := hreported ⟨.hex, "$fg", ⟨⟨4, 6⟩, ⟨4, 9⟩⟩⟩ (by decide +kernel) rfl
  have hordinal := hreported ⟨.decimal, "3c", ⟨⟨4, 11⟩, ⟨4, 13⟩⟩⟩ (by decide +kernel) rfl
  rw [if_pos (by decide +kernel)] at hbrackets
  rw [if_neg (by decide +kernel)] at hordinal
  exact ⟨DocumentCache.ofTexts_empty, hclean, hbrackets, hordinal⟩

/-- A macro argument whose ordinal has a letter among its digits. -/
def malformedOrdinal : String := "  LDA \x7b1a\x7d\n"

/-- Nothing is reported, although the ordinal is no number, and not in a macro at all. -/
theorem Program.findings_malformedOrdinal :
    (Document.ofText malformedOrdinal default).errors = [] ∧
      (⟨.decimal, "1a", ⟨⟨0, 7⟩, ⟨0, 9⟩⟩⟩ : Token) ∈ (tokenize malformedOrdinal).tokens ∧
      numberValue? "1a" = none ∧ (ConcreteFile.ofSource malformedOrdinal).rawRows = [] ∧
      (ConcreteFile.ofSource malformedOrdinal).macroNames = [] ∧
      (resolve (.ofText malformedOrdinal default) ⟨[]⟩ MemoryFiles.empty.source .empty).1.findings =
        [] := by
  decide +kernel

end Asm6502
