import Asm6502.Proofs.FindingTopics
import Asm6502.Proofs.LabelMentions
import Asm6502.Proofs.VisitedLines

/-!
# Undefined labels

A label is reported as undefined exactly where some document of the program uses its name, provided
that no document of the program carries it as a plain label.  The order of definition and use, the
nesting of blocks and the number of times a file is included make no difference: all lines of all
documents count, and each place is reported once.
-/

namespace Asm6502

/-! ## Findings about undefined labels -/

def Message.undefinedLabel? : Message -> Option String
  | .labelNotDefined name => some name
  | _ => none

theorem Message.undefinedLabel?_of_topic {message : Message} (h : message.topic ≠ .label) :
    message.undefinedLabel? = none := by
  cases message with
  | labelNotDefined name => exact absurd rfl h
  | _ => rfl

namespace Diagnostic

variable {findings : List Diagnostic}

def isUndefinedAt (location : Location) (finding : Diagnostic) : Bool :=
  finding.location = location && finding.message.undefinedLabel?.isSome

theorem isUndefinedAt_of (name : String) (location : Location) :
    (Diagnostic.of (.labelNotDefined name) location).isUndefinedAt location = true := by
  simp [isUndefinedAt, Diagnostic.of, Message.undefinedLabel?]

/-- Two findings that are not about undefined labels at the same place. -/
def Apart (a b : Diagnostic) : Prop :=
  ∀ location, ¬ (a.isUndefinedAt location = true ∧ b.isUndefinedAt location = true)

theorem Apart.symm {a b : Diagnostic} (h : Apart a b) : Apart b a :=
  fun location hboth => h location hboth.symm

theorem apart_of_none {a b : Diagnostic}
    (h : a.message.undefinedLabel? = none ∨ b.message.undefinedLabel? = none) : Apart a b := by
  intro location hboth
  simp only [isUndefinedAt, Bool.and_eq_true] at hboth
  rcases h with h | h <;> simp [h] at hboth

theorem pairwise_of_none (h : ∀ finding ∈ findings, finding.message.undefinedLabel? = none) :
    findings.Pairwise Apart := by
  have hall : findings.Pairwise fun _ _ => True := List.pairwise_of_forall fun _ _ => trivial
  refine hall.imp_of_mem ?_
  intro a b ha _ _
  exact apart_of_none (.inl (h a ha))

theorem assemble_pairwise (h : findings.Pairwise Apart) : (assemble findings).Pairwise Apart := by
  have hsorted : (findings.mergeSort le).Pairwise Apart :=
    ((List.mergeSort_perm findings le).pairwise_iff Apart.symm).2 h
  exact hsorted.sublist (dropRepeats_sublist _)

/-- Where findings are apart, a place is reported at most once. -/
theorem length_filter_le_one (h : findings.Pairwise Apart) (location : Location) :
    (findings.filter (isUndefinedAt location)).length ≤ 1 := by
  have hfiltered := h.sublist (List.filter_sublist (p := isUndefinedAt location))
  have hall : ∀ finding ∈ findings.filter (isUndefinedAt location),
      finding.isUndefinedAt location = true := fun finding hmem => (List.mem_filter.1 hmem).2
  cases hlist : findings.filter (isUndefinedAt location) with
  | nil => exact Nat.zero_le 1
  | cons first rest =>
      rw [hlist] at hfiltered hall
      cases rest with
      | nil => exact Nat.le_refl 1
      | cons second rest =>
          have hapart := (List.pairwise_cons.1 hfiltered).1 second List.mem_cons_self
          have hfirst := hall first List.mem_cons_self
          have hsecond := hall second (List.mem_cons_of_mem first List.mem_cons_self)
          exact absurd ⟨hfirst, hsecond⟩ (hapart location)

end Diagnostic

/-! ## Checks that are not about labels -/

namespace Program

variable {program : Program} {finding : Diagnostic}

theorem findings_spec (herrors : Diagnostic.AllOn .files program.sources.errors) :
    ∃ before after,
      program.findings = Diagnostic.assemble (before ++ program.labelFindings ++ after) ∧
      (∀ finding ∈ before, finding.message.undefinedLabel? = none) ∧
      ∀ finding ∈ after, finding.message.undefinedLabel? = none := by
  have hquiet (topic : Topic) (hne : topic ≠ .label) :
      ∀ finding ∈ program.findingsOn topic, finding.message.undefinedLabel? = none := by
    intro finding hmem
    refine Message.undefinedLabel?_of_topic ?_
    rwa [findingsOn_allOn herrors topic finding hmem]
  refine ⟨program.sources.errors ++ program.documents.flatMap program.documentFindings,
    program.relocationFindings ++ program.documents.flatMap Document.numberFindings, ?_,
    List.forall_mem_append.2 ⟨hquiet .files (by decide), ?_⟩,
    List.forall_mem_append.2 ⟨hquiet .relocation (by decide), hquiet .number (by decide)⟩⟩
  · simp [findings, wholeFindings]
  · intro finding h
    obtain ⟨document, hdocument, h⟩ := List.mem_flatMap.1 h
    rcases List.mem_append.1 h with h | h
    · exact hquiet .text (by decide) finding (List.mem_flatMap.2 ⟨document, hdocument, h⟩)
    · exact hquiet .command (by decide) finding (List.mem_flatMap.2 ⟨document, hdocument, h⟩)

theorem findings_pairwise (herrors : Diagnostic.AllOn .files program.sources.errors)
    (h : program.labelFindings.Pairwise Diagnostic.Apart) :
    program.findings.Pairwise Diagnostic.Apart := by
  obtain ⟨before, after, hfindings, hbefore, hafter⟩ := findings_spec herrors
  rw [hfindings]
  have hquiet := Diagnostic.pairwise_of_none hafter
  refine Diagnostic.assemble_pairwise (List.pairwise_append.2 ⟨?_, hquiet, ?_⟩)
  · refine List.pairwise_append.2 ⟨Diagnostic.pairwise_of_none hbefore, h, ?_⟩
    intro a ha b _
    exact Diagnostic.apart_of_none (.inl (hbefore a ha))
  · intro a _ b hb
    exact Diagnostic.apart_of_none (.inr (hafter b hb))

end Program

/-! ## Checks on labels -/

variable {label : LabelSymbol} {name : String}

theorem Diagnostic.undefinedLabel?_each {message : Message} (h : message.undefinedLabel? = none)
    (locations : List Location) :
    ∀ finding ∈ each message locations, finding.message.undefinedLabel? = none := by
  intro finding hmem
  obtain ⟨location, -, rfl⟩ := List.mem_map.1 hmem
  exact h

theorem LabelSymbol.findings_spec (label : LabelSymbol) (config : Config) (name : String) :
    (label.isDynamic = false ∧ label.definitions = [] ∧
        label.findings config name = Diagnostic.each (.labelNotDefined name) label.usages) ∨
      ∀ finding ∈ label.findings config name, finding.message.undefinedLabel? = none := by
  unfold findings
  split
  · exact .inr (List.forall_mem_nil _)
  · next hdynamic =>
    split
    · next hempty =>
      split
      · exact .inr (List.forall_mem_nil _)
      · exact .inl ⟨by simpa using hdynamic, by simpa using hempty, rfl⟩
    · refine .inr (List.forall_mem_append.2 ⟨?_, ?_⟩)
      · split
        · exact Diagnostic.undefinedLabel?_each rfl _
        · exact List.forall_mem_nil _
      · split
        · exact List.forall_mem_nil _
        · exact Diagnostic.undefinedLabel?_each rfl _

theorem LabelSymbol.isUndefinedAt_of_mem_findings {config : Config} {finding : Diagnostic}
    {location : Location} (hmem : finding ∈ label.findings config name)
    (h : finding.isUndefinedAt location = true) :
    label.isDynamic = false ∧ label.definitions = [] ∧ location ∈ label.usages ∧
      finding = .of (.labelNotDefined name) location := by
  obtain ⟨hlocation, hsome⟩ := Bool.and_eq_true_iff.1 h
  rcases label.findings_spec config name with ⟨hdynamic, hdefinitions, heach⟩ | hnone
  · rw [heach] at hmem
    obtain ⟨place, hplace, rfl⟩ := List.mem_map.1 hmem
    cases of_decide_eq_true hlocation
    exact ⟨hdynamic, hdefinitions, hplace, rfl⟩
  · rw [hnone finding hmem] at hsome
    cases hsome

theorem LabelSymbol.mem_findings {config : Config} {location : Location}
    (hlocal : config.isLocal name = false) (hdynamic : label.isDynamic = false)
    (hdefinitions : label.definitions = []) (husage : location ∈ label.usages) :
    Diagnostic.of (.labelNotDefined name) location ∈ label.findings config name := by
  unfold findings
  simp only [hdynamic, hdefinitions, hlocal, Bool.false_eq_true, if_false, List.isEmpty_nil,
    if_true]
  exact List.mem_map_of_mem husage

theorem LabelSymbol.findings_pairwise (h : label.usages.Nodup) (config : Config) (name : String) :
    (label.findings config name).Pairwise Diagnostic.Apart := by
  rcases label.findings_spec config name with ⟨-, -, heach⟩ | hnone
  · rw [heach]
    refine List.pairwise_map.2 (h.imp ?_)
    intro a b hne location hboth
    have ha : a = location := of_decide_eq_true (Bool.and_eq_true_iff.1 hboth.1).1
    have hb : b = location := of_decide_eq_true (Bool.and_eq_true_iff.1 hboth.2).1
    exact hne (ha.trans hb.symm)
  · exact Diagnostic.pairwise_of_none hnone

theorem Program.eq_of_mem_labelFindings {program : Program} {finding : Diagnostic}
    (hmem : finding ∈ program.labelFindings) (h : finding.message = .labelNotDefined name) :
    finding = .of (.labelNotDefined name) finding.location := by
  have hundefined : finding.isUndefinedAt finding.location = true := by
    simp [Diagnostic.isUndefinedAt, h, Message.undefinedLabel?]
  obtain ⟨⟨key, label⟩, -, hfinding⟩ := List.mem_flatMap.1 hmem
  obtain ⟨-, -, -, heq⟩ := LabelSymbol.isUndefinedAt_of_mem_findings hfinding hundefined
  have hname : key = name := by
    rw [heq] at h
    exact Message.labelNotDefined.inj h
  rw [hname] at heq
  exact heq

namespace Symbols.Gathered

variable {s : Symbols} {mentions : List Mention} {config : Config}

/-- A label is reported where it is used, unless it is defined or made of fragments somewhere. -/
theorem labelNotDefined_iff (hs : s.Gathered mentions) (hconfig : config.localMarks = [])
    (name : String) (location : Location) :
    Diagnostic.of (.labelNotDefined name) location ∈ s.labelFindings config ↔
      (∃ m ∈ mentions, m.IsUse name location) ∧ (¬ ∃ m ∈ mentions, m.IsDefinition name) ∧
        ¬ ∃ m ∈ mentions, m.IsDynamic name := by
  have hholds := hs.holds name
  rw [← hholds.usages, ← hholds.definitions, ← hholds.isDynamic, Decidable.not_not,
    Bool.not_eq_true]
  constructor
  · intro h
    obtain ⟨⟨key, label⟩, hlabel, hmem⟩ := List.mem_flatMap.1 h
    obtain ⟨hdynamic, hdefinitions, husage, heq⟩ :=
      LabelSymbol.isUndefinedAt_of_mem_findings hmem (Diagnostic.isUndefinedAt_of name location)
    have hname : name = key := Message.labelNotDefined.inj (congrArg Diagnostic.message heq)
    subst hname
    rw [hs.mem_labels hlabel] at hdynamic hdefinitions husage
    exact ⟨husage, hdefinitions, hdynamic⟩
  · rintro ⟨husage, hdefinitions, hdynamic⟩
    refine List.mem_flatMap.2 ⟨_, hs.entry_mem_labels husage, ?_⟩
    exact LabelSymbol.mem_findings (Config.isLocal_eq_false hconfig name) hdynamic hdefinitions
      husage

theorem labelFindings_pairwise (hs : s.Gathered mentions)
    (hunique : ∀ a b location, (∃ m ∈ mentions, m.IsUse a location) ->
      (∃ m ∈ mentions, m.IsUse b location) -> (¬ ∃ m ∈ mentions, m.IsDynamic a) ->
      (¬ ∃ m ∈ mentions, m.IsDynamic b) -> a = b) :
    (s.labelFindings config).Pairwise Diagnostic.Apart := by
  -- The entry of a name that is reported at a place shows its use and that it is not dynamic.
  have hreported {key : String} {label : LabelSymbol} {finding : Diagnostic} {location : Location}
      (hlabel : (key, label) ∈ s.labels) (hmem : finding ∈ label.findings config key)
      (h : finding.isUndefinedAt location = true) :
      (∃ m ∈ mentions, m.IsUse key location) ∧ ¬ ∃ m ∈ mentions, m.IsDynamic key := by
    obtain ⟨hdynamic, -, husage, -⟩ := LabelSymbol.isUndefinedAt_of_mem_findings hmem h
    rw [hs.mem_labels hlabel] at hdynamic husage
    have hholds := hs.holds key
    rw [← hholds.usages, ← hholds.isDynamic, hdynamic]
    exact ⟨husage, Bool.false_ne_true⟩
  refine List.pairwise_flatMap.2 ⟨?_, ?_⟩
  · rintro ⟨key, label⟩ hlabel
    rw [hs.mem_labels hlabel]
    exact LabelSymbol.findings_pairwise (hs.holds key).nodup config key
  · have hkeys : s.labels.Pairwise fun a b => a.1 ≠ b.1 := by
      rw [hs.labels]
      exact List.pairwise_map.1 hs.keys
    refine hkeys.imp_of_mem ?_
    rintro ⟨a, first⟩ ⟨b, second⟩ ha hb hne x hx y hy location hboth
    obtain ⟨huseA, hdynamicA⟩ := hreported ha hx hboth.1
    obtain ⟨huseB, hdynamicB⟩ := hreported hb hy hboth.2
    exact hne (hunique a b location huseA huseB hdynamicA hdynamicB)

end Symbols.Gathered

/-! ## Whole programs -/

def DocumentCache.OfTexts (cache : DocumentCache) : Prop :=
  ∀ uri document, cache.find? uri = some document -> ∃ text, document = .ofText text uri

theorem DocumentCache.ofTexts_empty : DocumentCache.OfTexts .empty := by
  intro uri document h
  cases h

theorem Walk.Enters.exists_text {files : FileSource} {text : String} {uri : Uri}
    {cache : DocumentCache} (hcache : cache.OfTexts) {d : Document}
    (h : Enters files (.ofText text uri) ⟨.empty, cache⟩ d) :
    ∃ source, d = .ofText source d.uri := by
  unfold Enters at h
  split at h
  · next huri => exact ⟨text, by rw [h, Document.uri_ofText]⟩
  · unfold content? at h
    rcases Option.or_eq_some_iff.1 h with h | ⟨-, h⟩
    · exact hcache _ _ h
    · obtain ⟨source, -, hsource⟩ := Option.map_eq_some_iff.1 h
      exact ⟨source, hsource.symm⟩

namespace Program

/-- A program in which a name is used at a place but is the label of no line. -/
def LeavesUndefined (name : String) (location : Location) (program : Program) : Prop :=
  (∃ document ∈ program.documents, document.UsesLabel name location) ∧
    ¬ ∃ document ∈ program.documents, document.CarriesLabel name

section Mentions

variable {documents : List Document} {mentions : List Mention}

/-- The documents of a program were read from texts, and mention what the program mentions. -/
structure Mentioned (documents : List Document) (mentions : List Mention) : Prop where
  texts : ∀ d ∈ documents, ∃ text, d = .ofText text d.uri
  unique : ∀ a ∈ documents, ∀ b ∈ documents, a.uri = b.uri -> a = b
  mem : ∀ m, m ∈ mentions ↔ ∃ d ∈ documents, ∃ line ∈ d.allLines, m ∈ line.mentions

namespace Mentioned

variable (h : Mentioned documents mentions)

include h

variable {name : String} {location : Location}

theorem comma_mem_of_isDynamic (hdynamic : ∃ m ∈ mentions, m.IsDynamic name) :
    ',' ∈ name.toList := by
  obtain ⟨m, hmem, hm⟩ := hdynamic
  obtain ⟨d, hd, line, hline, hmention⟩ := (h.mem m).1 hmem
  obtain ⟨text, htext⟩ := h.texts d hd
  rw [htext] at hline
  exact Document.comma_mem_of_isDynamic hline ⟨m, hmention, hm⟩

theorem exists_usesLabel (huse : ∃ m ∈ mentions, m.IsUse name location)
    (hdynamic : ¬ ∃ m ∈ mentions, m.IsDynamic name) :
    ∃ d ∈ documents, d.UsesLabel name location := by
  obtain ⟨m, hmem, hm⟩ := huse
  obtain ⟨d, hd, line, hline, hmention⟩ := (h.mem m).1 hmem
  cases m with
  | labelUse key dynamic place =>
      obtain ⟨rfl, rfl⟩ := hm
      cases dynamic with
      | true => exact absurd ⟨_, hmem, rfl, rfl⟩ hdynamic
      | false =>
          obtain ⟨e, hevaluates, he⟩ := Line.mem_mentions_use.1 hmention
          exact ⟨d, hd, line, hline, e, hevaluates, Expr.mem_mentions_use.1 he⟩
  | _ => cases hm

theorem isUse_of_usesLabel (huse : ∃ d ∈ documents, d.UsesLabel name location) :
    ∃ m ∈ mentions, m.IsUse name location := by
  obtain ⟨d, hd, line, hline, e, hevaluates, hnames⟩ := huse
  have hmention := Line.mem_mentions_use.2 ⟨e, hevaluates, Expr.mem_mentions_use.2 hnames⟩
  exact ⟨_, (h.mem _).2 ⟨d, hd, line, hline, hmention⟩, rfl, rfl⟩

theorem word_of_usesLabel (huse : ∃ d ∈ documents, d.UsesLabel name location) :
    ',' ∉ name.toList ∧ name ≠ "." := by
  obtain ⟨d, hd, huse⟩ := huse
  obtain ⟨text, htext⟩ := h.texts d hd
  rw [htext] at huse
  exact huse.word

/-- Two names at one place stand in one document, and are the same word of it. -/
theorem name_eq {a b : String} (ha : ∃ d ∈ documents, d.UsesLabel a location)
    (hb : ∃ d ∈ documents, d.UsesLabel b location) : a = b := by
  obtain ⟨first, hfirst, ha⟩ := ha
  obtain ⟨second, hsecond, hb⟩ := hb
  have huri {d : Document} {name : String} (hd : d ∈ documents) (h' : d.UsesLabel name location) :
      location.uri = d.uri := by
    obtain ⟨text, htext⟩ := h.texts d hd
    rw [htext] at h'
    obtain ⟨token, -, -, -, rfl⟩ := h'.exists_word
    rfl
  have heq : first = second :=
    h.unique first hfirst second hsecond ((huri hfirst ha).symm.trans (huri hsecond hb))
  subst heq
  obtain ⟨text, htext⟩ := h.texts first hfirst
  rw [htext] at ha hb
  exact ha.name_eq hb

theorem isDefinition_iff (hword : ',' ∉ name.toList ∧ name ≠ ".") :
    (∃ m ∈ mentions, m.IsDefinition name) ↔ ∃ d ∈ documents, d.CarriesLabel name := by
  have hdocument {d : Document} (hd : d ∈ documents) {line : Line} (hline : line ∈ d.allLines) :
      (∃ m ∈ line.mentions, m.IsDefinition name) ↔
        ∃ id, line.label = some (.plain id) ∧ id.name = name := by
    obtain ⟨text, htext⟩ := h.texts d hd
    rw [htext] at hline
    exact Document.isDefinition_iff hline hword.1 hword.2
  constructor
  · rintro ⟨m, hmem, hm⟩
    obtain ⟨d, hd, line, hline, hmention⟩ := (h.mem m).1 hmem
    exact ⟨d, hd, line, hline, (hdocument hd hline).1 ⟨m, hmention, hm⟩⟩
  · rintro ⟨d, hd, line, hline, hlabel⟩
    obtain ⟨m, hmention, hm⟩ := (hdocument hd hline).2 hlabel
    exact ⟨m, (h.mem m).2 ⟨d, hd, line, hline, hmention⟩, hm⟩

theorem leavesUndefined_iff :
    ((∃ m ∈ mentions, m.IsUse name location) ∧ (¬ ∃ m ∈ mentions, m.IsDefinition name) ∧
        ¬ ∃ m ∈ mentions, m.IsDynamic name) ↔
      (∃ d ∈ documents, d.UsesLabel name location) ∧ ¬ ∃ d ∈ documents, d.CarriesLabel name := by
  constructor
  · rintro ⟨huse, hdefinition, hdynamic⟩
    have huses := h.exists_usesLabel huse hdynamic
    rw [h.isDefinition_iff (h.word_of_usesLabel huses)] at hdefinition
    exact ⟨huses, hdefinition⟩
  · rintro ⟨huses, hcarries⟩
    -- A word has no comma, so no label that is made of fragments has this name.
    have hword := h.word_of_usesLabel huses
    rw [← h.isDefinition_iff hword] at hcarries
    exact ⟨h.isUse_of_usesLabel huses, hcarries, fun hd => hword.1 (h.comma_mem_of_isDynamic hd)⟩

end Mentioned

end Mentions

section Resolve

variable {config : Config} {cache : DocumentCache}

theorem resolve_mentioned (config : Config) (files : FileSource) (hcache : cache.OfTexts)
    (text : String) (uri : Uri) :
    Mentioned (resolve (.ofText text uri) config files cache).1.documents
      (((Document.ofText text uri).walk files cache).lines.flatMap Line.mentions) where
  texts d hd := ((Document.ofText text uri).walk_enters files cache d hd).exists_text hcache
  unique a ha b hb huri :=
    (Document.walk_enters _ files cache a ha).eq (Document.walk_enters _ files cache b hb) huri
  mem m := by
    rw [List.mem_flatMap]
    constructor
    · rintro ⟨line, hline, hm⟩
      obtain ⟨d, hd, hline⟩ := (Document.mem_walk_lines _ files cache).1 hline
      exact ⟨d, hd, line, hline, hm⟩
    · rintro ⟨d, hd, line, hline, hm⟩
      exact ⟨line, (Document.mem_walk_lines _ files cache).2 ⟨d, hd, hline⟩, hm⟩

theorem resolve_labelFindings (hconfig : config.localMarks = []) (files : FileSource)
    (hcache : cache.OfTexts) (text : String) (uri : Uri) (name : String) (location : Location) :
    Diagnostic.of (.labelNotDefined name) location ∈
        (resolve (.ofText text uri) config files cache).1.labelFindings ↔
      (resolve (.ofText text uri) config files cache).1.LeavesUndefined name location :=
  ((Symbols.ofLines_gathered hconfig _).labelNotDefined_iff hconfig name location).trans
    (resolve_mentioned config files hcache text uri).leavesUndefined_iff

theorem resolve_labelFindings_pairwise (hconfig : config.localMarks = []) (files : FileSource)
    (hcache : cache.OfTexts) (text : String) (uri : Uri) :
    (resolve (.ofText text uri) config files cache).1.labelFindings.Pairwise Diagnostic.Apart := by
  have hmentioned := resolve_mentioned config files hcache text uri
  refine (Symbols.ofLines_gathered hconfig _).labelFindings_pairwise ?_
  intro a b location huseA huseB hdynamicA hdynamicB
  exact hmentioned.name_eq (hmentioned.exists_usesLabel huseA hdynamicA)
    (hmentioned.exists_usesLabel huseB hdynamicB)

/-- A label is reported as undefined at exactly the places where a document of the program uses it
while no document has it at the front of a line, and once at each of them. -/
theorem labelNotDefined_iff_leavesUndefined (hconfig : config.localMarks = [])
    (files : FileSource) (hcache : cache.OfTexts) (text : String) (uri : Uri) (name : String)
    (location : Location) :
    let program := (resolve (.ofText text uri) config files cache).1
    ((∃ finding ∈ program.findings,
        finding.message = .labelNotDefined name ∧ finding.location = location) ↔
      program.LeavesUndefined name location) ∧
    (program.LeavesUndefined name location ->
      program.findings.filter (Diagnostic.isUndefinedAt location) =
        [.of (.labelNotDefined name) location]) := by
  intro program
  have herrors : Diagnostic.AllOn .files program.sources.errors :=
    (Document.ofText text uri).walk_errors_allOn files cache
  have hreported : Diagnostic.of (.labelNotDefined name) location ∈ program.findings ↔
      program.LeavesUndefined name location := by
    exact (mem_findings_of_topic herrors rfl).trans
      (resolve_labelFindings hconfig files hcache text uri name location)
  refine ⟨⟨?_, ?_⟩, ?_⟩
  · rintro ⟨finding, hmem, hmessage, rfl⟩
    have htopic : finding.message.topic = .label := by
      rw [hmessage]
      rfl
    rw [eq_of_mem_labelFindings ((mem_findings_of_topic herrors htopic).1 hmem) hmessage] at hmem
    exact hreported.1 hmem
  · intro h
    exact ⟨_, hreported.2 h, rfl, rfl⟩
  · intro h
    have hmem : Diagnostic.of (.labelNotDefined name) location ∈
        program.findings.filter (Diagnostic.isUndefinedAt location) :=
      List.mem_filter.2 ⟨hreported.2 h, Diagnostic.isUndefinedAt_of name location⟩
    have hone := Diagnostic.length_filter_le_one
      (findings_pairwise herrors (resolve_labelFindings_pairwise hconfig files hcache text uri))
      location
    obtain ⟨only, honly⟩ := List.length_eq_one_iff.1
      (Nat.le_antisymm hone (List.length_pos_of_mem hmem))
    rw [honly, List.mem_singleton] at hmem
    rw [honly, hmem]

/-- The second file defines what the first one uses before it, and is included twice. -/
theorem labelNotDefined_includedTwice :
    let files := (MemoryFiles.empty.write ⟨"file:///b"⟩ " LDA c\na").source
    let text := " JMP a\n INCLUDE \"b\"\n INCLUDE \"b\""
    let program := (resolve (.ofText text ⟨"file:///a"⟩) ⟨[]⟩ files .empty).1
    let location : Location := ⟨⟨"file:///b"⟩, ⟨⟨0, 5⟩, ⟨0, 6⟩⟩⟩
    DocumentCache.OfTexts .empty ∧ program.LeavesUndefined "c" location ∧
      program.findings.filter (Diagnostic.isUndefinedAt location) =
        [.of (.labelNotDefined "c") location] := by
  intro files text program location
  have h := labelNotDefined_iff_leavesUndefined (show (⟨[]⟩ : Config).localMarks = [] from rfl)
    files DocumentCache.ofTexts_empty text ⟨"file:///a"⟩ "c" location
  have hmem : Diagnostic.of (.labelNotDefined "c") location ∈ program.findings := by
    decide +kernel
  have hundefined := h.1.1 ⟨_, hmem, rfl, rfl⟩
  exact ⟨DocumentCache.ofTexts_empty, hundefined, h.2 hundefined⟩

end Resolve

end Program

end Asm6502
