import Asm6502.Proofs.UndefinedLabels

/-!
# Unknown commands

A command whose name is neither that of a directive nor of an instruction uses a macro.  The names
of macros are gathered on the way through the program, while commands are checked document by
document afterwards.  Both agree: a command is reported as unknown exactly where the table of macros
has a use without a definition, wherever in the program the definition may stand.
-/

namespace Asm6502

/-! ## The table of macros -/

namespace Mention

def IsMacroUse (key : String) (location : Location) : Mention -> Prop
  | .macroUse k l => k = key ∧ l = location
  | _ => False

def IsMacroDefinition (key : String) : Mention -> Prop
  | .macroDefinition k _ => k = key
  | _ => False

end Mention

/-- References to a macro of which is known what some mentions say about its name. -/
structure References.Holds (mentions : List Mention) (key : String) (r : References) : Prop where
  usages : ∀ location, location ∈ r.usages ↔ ∃ m ∈ mentions, m.IsMacroUse key location
  definitions : r.definitions ≠ [] ↔ ∃ m ∈ mentions, m.IsMacroDefinition key

namespace References.Holds

variable {mentions : List Mention} {key : String} {r : References}

/-- A mention of something else changes nothing. -/
theorem skip (h : r.Holds mentions key) {m : Mention} (huse : ∀ l, ¬ m.IsMacroUse key l)
    (hdefinition : ¬ m.IsMacroDefinition key) : r.Holds (mentions ++ [m]) key where
  usages := by
    intro l
    rw [exists_mem_concat, h.usages]
    simp [huse l]
  definitions := by
    rw [exists_mem_concat, h.definitions]
    simp [hdefinition]

theorem define (h : r.Holds mentions key) (location : Location) :
    (r.define location).Holds (mentions ++ [.macroDefinition key location]) key where
  usages := by
    intro l
    rw [exists_mem_concat]
    simp only [Mention.IsMacroUse, or_false]
    exact h.usages l
  definitions := by
    rw [exists_mem_concat]
    simp only [Mention.IsMacroDefinition, or_true, iff_true]
    exact addNew_ne_nil _ location

theorem use (h : r.Holds mentions key) (location : Location) :
    (r.use location).Holds (mentions ++ [.macroUse key location]) key where
  usages := by
    intro l
    rw [exists_mem_concat, ← h.usages]
    simp only [Mention.IsMacroUse, true_and]
    exact mem_addNew.trans (or_congr_right eq_comm)
  definitions := by
    rw [exists_mem_concat]
    simp only [Mention.IsMacroDefinition, or_false]
    exact h.definitions

end References.Holds

structure MacrosHold (mentions : List Mention) (macros : Table String References) : Prop where
  keys : macros.keys.Nodup
  holds : ∀ key, ((macros.find? key).getD .none).Holds mentions key

namespace MacrosHold

variable {mentions : List Mention} {macros : Table String References}

theorem empty : MacrosHold [] .empty where
  keys := List.nodup_nil
  holds := by
    intro key
    constructor <;> simp [Table.empty, Table.find?, Table.findIn, References.none]

theorem update (h : MacrosHold mentions macros) {name : String} {m : Mention}
    {change : References -> References}
    (hname : ∀ r : References, r.Holds mentions name -> (change r).Holds (mentions ++ [m]) name)
    (hother : ∀ key, name ≠ key -> (∀ l, ¬ m.IsMacroUse key l) ∧ ¬ m.IsMacroDefinition key) :
    MacrosHold (mentions ++ [m]) (macros.update name .none change) where
  keys := by
    rw [Table.keys_update]
    exact nodup_addNew h.keys name
  holds := by
    intro key
    by_cases hkey : name = key
    · subst hkey
      rw [Table.find?_update_self]
      exact hname _ (h.holds name)
    · rw [Table.find?_update_of_ne _ fun heq => hkey heq.symm]
      exact (h.holds key).skip (hother key hkey).1 (hother key hkey).2

theorem skip (h : MacrosHold mentions macros) {m : Mention} (huse : ∀ key l, ¬ m.IsMacroUse key l)
    (hdefinition : ∀ key, ¬ m.IsMacroDefinition key) : MacrosHold (mentions ++ [m]) macros :=
  ⟨h.keys, fun key => (h.holds key).skip (huse key) (hdefinition key)⟩

theorem mem_entries_iff (h : MacrosHold mentions macros) (location : Location) :
    (∃ key r, (key, r) ∈ macros.entries ∧ r.definitions = [] ∧ location ∈ r.usages) ↔
      ∃ key, (∃ m ∈ mentions, m.IsMacroUse key location) ∧
        ¬ ∃ m ∈ mentions, m.IsMacroDefinition key := by
  constructor
  · rintro ⟨key, r, hmem, hdefinitions, husage⟩
    have hfind : macros.find? key = some r := Symbols.findIn_of_mem h.keys hmem
    have hholds := h.holds key
    rw [hfind] at hholds
    exact ⟨key, (hholds.usages location).1 husage,
      fun hdefined => hholds.definitions.2 hdefined hdefinitions⟩
  · rintro ⟨key, huse, hdefined⟩
    have hholds := h.holds key
    have husage := (hholds.usages location).2 huse
    have hdefinitions := Decidable.not_not.1 (mt hholds.definitions.1 hdefined)
    cases hfind : macros.find? key with
    | none =>
        rw [hfind] at husage
        cases husage
    | some r =>
        rw [hfind] at husage hdefinitions
        exact ⟨key, r, Table.mem_of_findIn hfind, hdefinitions, husage⟩

end MacrosHold

namespace Symbols

variable (config : Config)

theorem macros_updateLabel (s : Symbols) (key : String) (location : Location)
    (change : LabelSymbol -> LabelSymbol) :
    (s.updateLabel config key location change).macros = s.macros := by
  unfold updateLabel
  cases s.scopeOf config key <;> rfl

theorem macros_add {s : Symbols} {mentions : List Mention} (h : MacrosHold mentions s.macros)
    (m : Mention) : MacrosHold (mentions ++ [m]) (s.add config m).macros := by
  cases m with
  | macroDefinition name location =>
      refine h.update (fun r hr => hr.define location) fun key hkey => ?_
      simp [Mention.IsMacroUse, Mention.IsMacroDefinition, hkey]
  | macroUse name location =>
      refine h.update (fun r hr => hr.use location) fun key hkey => ?_
      simp [Mention.IsMacroUse, Mention.IsMacroDefinition, hkey]
  | labelDefinition | labelUse =>
      rw [add, macros_updateLabel]
      exact h.skip (by simp [Mention.IsMacroUse]) (by simp [Mention.IsMacroDefinition])
  | relocation relocation =>
      have hsame : (s.add config (.relocation relocation)).macros = s.macros := by
        unfold add
        dsimp only
        split <;> rfl
      rw [hsame]
      exact h.skip (by simp [Mention.IsMacroUse]) (by simp [Mention.IsMacroDefinition])
  | subroutine | segment =>
      exact h.skip (by simp [Mention.IsMacroUse]) (by simp [Mention.IsMacroDefinition])

theorem macros_foldl_add {s : Symbols} {mentions : List Mention} (h : MacrosHold mentions s.macros)
    (more : List Mention) :
    MacrosHold (mentions ++ more) (more.foldl (Symbols.add config) s).macros := by
  induction more generalizing s mentions with
  | nil =>
      rw [List.append_nil]
      exact h
  | cons m more ih =>
      have hrest := ih (macros_add config h m)
      rwa [List.append_assoc, List.singleton_append] at hrest

theorem macros_ofLines (lines : List Line) :
    MacrosHold (lines.flatMap Line.mentions) (ofLines config lines).macros := by
  have hfold :
      ofLines config lines = (lines.flatMap Line.mentions).foldl (Symbols.add config) start :=
    List.foldl_flatMap.symm
  rw [hfold]
  exact macros_foldl_add config (s := start) .empty (lines.flatMap Line.mentions)

theorem definesMacro_iff {s : Symbols} {mentions : List Mention} (h : MacrosHold mentions s.macros)
    (key : String) : s.definesMacro key = true ↔ ∃ m ∈ mentions, m.IsMacroDefinition key := by
  rw [← (h.holds key).definitions]
  unfold definesMacro
  cases s.macros.find? key with
  | none => simp [References.none]
  | some r => simp [References.isDefined]

end Symbols

/-! ## Mentions of macros -/

def MacroName (name : String) : Prop :=
  Directive.ofCommandName? name = none ∧ Mnemonic.ofName? name = none

def Line.macroName? : Line -> Option Identifier
  | .macroBlock _ block => block.name
  | _ => none

/-- The macros that a document defines, those in blocks included. -/
def Document.macroNames (document : Document) : List Identifier :=
  document.allLines.filterMap Line.macroName?

namespace Mention

def isOther : Mention -> Bool
  | .macroUse .. | .macroDefinition .. => false
  | _ => true

theorem not_mem_of_isOther {m : Mention} (hm : m.isOther = false) {mentions : List Mention}
    (h : ∀ other ∈ mentions, other.isOther = true) : m ∉ mentions := by
  intro hmem
  rw [h m hmem] at hm
  cases hm

end Mention

theorem Expr.isOther_mentions (e : Expr) : ∀ m ∈ e.mentions, m.isOther = true := by
  intro m hm
  obtain ⟨part, -, hpart⟩ := List.mem_filterMap.1 hm
  split at hpart
  · split at hpart <;> cases hpart
    rfl
  · cases hpart
    rfl
  · cases hpart

namespace Command

theorem isOther_argumentMentions (command : Command) :
    ∀ m ∈ command.argumentMentions, m.isOther = true := by
  intro m hm
  obtain ⟨argument, -, hm⟩ := List.mem_flatMap.1 hm
  split at hm
  · cases hm
  · exact argument.value.isOther_mentions m hm

theorem isOther_relocationMentions (command : Command) :
    ∀ m ∈ command.relocationMentions, m.isOther = true := by
  intro m hm
  unfold relocationMentions at hm
  split at hm
  · rw [List.mem_singleton.1 hm]
    rfl
  · rw [List.mem_singleton.1 hm]
    rfl
  · cases hm

theorem isOther_segmentMentions (command : Command) :
    ∀ m ∈ command.segmentMentions, m.isOther = true := by
  intro m hm
  unfold segmentMentions at hm
  split at hm
  · rw [List.mem_singleton.1 hm]
    rfl
  · rw [List.mem_singleton.1 hm]
    rfl
  · rw [List.mem_singleton.1 hm]
    rfl
  · cases hm

theorem mem_macroMentions {command : Command} {m : Mention} :
    m ∈ command.macroMentions ↔ ∃ name, command.name = some name ∧ MacroName name.name ∧
      m = .macroUse (unifiedName name.name) name.location := by
  unfold macroMentions directive? mnemonic? MacroName
  cases command.name with
  | none => simp
  | some name =>
      cases hdirective : Directive.ofCommandName? name.name <;>
        cases hmnemonic : Mnemonic.ofName? name.name <;> simp [hdirective, hmnemonic]

theorem mem_mentions_of_not_other {command : Command} {m : Mention} (hm : m.isOther = false) :
    m ∈ command.mentions ↔ m ∈ command.macroMentions := by
  have hnot {mentions : List Mention} (h : ∀ other ∈ mentions, other.isOther = true) :
      m ∉ mentions := Mention.not_mem_of_isOther hm h
  have hdirective (d : Directive) (h : command.directive? = some d) :
      m ∉ command.macroMentions := by
    intro hmem
    obtain ⟨name, hname, hmacroName, -⟩ := mem_macroMentions.1 hmem
    simp [directive?, hname, hmacroName.1] at h
  unfold mentions
  split
  · next h => simp [hdirective _ h]
  · next h => simp [hdirective _ h]
  · next h => simp [hdirective _ h]
  · next h => simp [hdirective _ h]
  · next h => simp [hdirective _ h, hnot command.isOther_segmentMentions]
  · simp [hnot command.isOther_relocationMentions, hnot command.isOther_argumentMentions]

end Command

namespace Line

theorem isOther_label_mentions (label : Label) (kind : DefinitionKind) (value : Option Expr) :
    ∀ m ∈ label.mentions kind value, m.isOther = true := by
  intro m hm
  cases label with
  | plain id =>
      unfold Label.mentions at hm
      dsimp only at hm
      split at hm
      · cases hm
      · rw [List.mem_singleton.1 hm]
        rfl
  | dynamic label =>
      rw [List.mem_singleton.1 hm]
      rfl

theorem mem_mentions_of_not_other {line : Line} {m : Mention} (hm : m.isOther = false) :
    m ∈ line.mentions ↔ m ∈ line.contentMentions := by
  have hsubroutine {p : Prop} [Decidable p] : m ∉ if p then [Mention.subroutine] else [] := by
    refine Mention.not_mem_of_isOther hm ?_
    split <;> simp [Mention.isOther]
  have hlabel (kind : DefinitionKind) (value : Option Expr) :
      m ∉ line.label.toList.flatMap fun label => label.mentions kind value := by
    refine Mention.not_mem_of_isOther hm ?_
    intro other hother
    obtain ⟨label, -, hother⟩ := List.mem_flatMap.1 hother
    exact isOther_label_mentions label kind value other hother
  simp only [mentions, List.mem_append, hsubroutine, hlabel, false_or]

theorem mem_mentions_iff {line : Line} {m : Mention} (hm : m.isOther = false) :
    m ∈ line.mentions ↔
      (∃ command, line.command? = some command ∧ ∃ name, command.name = some name ∧
        MacroName name.name ∧ m = .macroUse (unifiedName name.name) name.location) ∨
      ∃ name, line.macroName? = some name ∧
        m = .macroDefinition (unifiedName name.name) name.location := by
  have hnot (e : Option Expr) : m ∉ e.toList.flatMap Expr.mentions := by
    refine Mention.not_mem_of_isOther hm ?_
    intro other hother
    obtain ⟨e, -, hother⟩ := List.mem_flatMap.1 hother
    exact e.isOther_mentions other hother
  rw [mem_mentions_of_not_other hm]
  cases line with
  | command margin c =>
      cases c with
      | none => simp [contentMentions, command?, macroName?]
      | some c =>
          simp [contentMentions, command?, macroName?, Command.mem_mentions_of_not_other hm,
            Command.mem_macroMentions]
  | macroBlock margin block =>
      simp [contentMentions, command?, macroName?, eq_comm]
  | conditional margin kind condition thenLines elseLines location =>
      cases kind <;> simp [contentMentions, command?, macroName?, hnot]
  | repetition margin count body location =>
      simp [contentMentions, command?, macroName?, hnot]

end Line

/-! ## Whole programs -/

namespace Program

def Calls (program : Program) (name : String) (location : Location) : Prop :=
  ∃ document ∈ program.documents, ∃ command ∈ document.commands,
    ∃ id, command.name = some id ∧ id.name = name ∧ id.location = location

def DefinesMacro (program : Program) (key : String) : Prop :=
  ∃ document ∈ program.documents, ∃ id ∈ document.macroNames, unifiedName id.name = key

theorem instructionFinding?_ne_unknown {program : Program} {mnemonic : Mnemonic} {id : Identifier}
    {command : Command} {finding : Diagnostic}
    (h : program.instructionFinding? mnemonic id command = some finding) (name : String) :
    finding.message ≠ .unknownOpcode name := by
  have hmisfit (mode : ArgumentMode) : misfit mnemonic id.name mode ≠ .unknownOpcode name := by
    unfold misfit
    split
    · simp
    · split <;> simp
  unfold instructionFinding? at h
  split at h
  · cases h
    simp [Diagnostic.of]
  · split at h
    · split at h <;> cases h
      simp [Diagnostic.of]
    · split at h <;> cases h
      exact hmisfit _
    · cases h
      simp [Diagnostic.of]

theorem commandFinding?_unknown_iff {program : Program} {command : Command} {name : String}
    {finding : Diagnostic} :
    program.commandFinding? command = some finding ∧ finding.message = .unknownOpcode name ↔
      ∃ id, command.name = some id ∧ id.name = name ∧ MacroName name ∧
        program.symbols.definesMacro (unifiedName name) = false ∧
        finding = .of (.unknownOpcode name) id.location := by
  constructor
  · rintro ⟨hfinding, hmessage⟩
    unfold commandFinding? at hfinding
    split at hfinding
    · cases hfinding
      cases hmessage
    · next id hid =>
      split at hfinding
      · cases hfinding
      · next hdirective =>
        split at hfinding
        · exact absurd hmessage (instructionFinding?_ne_unknown hfinding name)
        · next hmnemonic =>
          split at hfinding
          · cases hfinding
          · next hdefined =>
            cases hfinding
            cases hmessage
            have hnone : Directive.ofCommandName? id.name = none := by simpa using hdirective
            exact ⟨id, hid, rfl, ⟨hnone, hmnemonic⟩, by simpa using hdefined, rfl⟩
  · rintro ⟨id, hid, rfl, ⟨hdirective, hmnemonic⟩, hdefined, rfl⟩
    refine ⟨?_, rfl⟩
    simp [commandFinding?, hid, hdirective, hmnemonic, hdefined]

section Mentions

variable {program : Program} {mentions : List Mention}
  (hmentions : ∀ m, m ∈ mentions ↔
    ∃ document ∈ program.documents, ∃ line ∈ document.allLines, m ∈ line.mentions)

include hmentions

theorem isMacroUse_iff (key : String) (location : Location) :
    (∃ m ∈ mentions, m.IsMacroUse key location) ↔
      ∃ name, program.Calls name location ∧ MacroName name ∧ unifiedName name = key := by
  constructor
  · rintro ⟨m, hmem, hm⟩
    obtain ⟨document, hdocument, line, hline, hmention⟩ := (hmentions m).1 hmem
    cases m with
    | macroUse k l =>
        obtain ⟨rfl, rfl⟩ := hm
        rcases (Line.mem_mentions_iff rfl).1 hmention with
          ⟨command, hcommand, name, hname, hmacroName, heq⟩ | ⟨_, _, heq⟩
        · cases heq
          have hmem : command ∈ document.commands := List.mem_filterMap.2 ⟨line, hline, hcommand⟩
          have hcalls : program.Calls name.name name.location :=
            ⟨document, hdocument, command, hmem, name, hname, rfl, rfl⟩
          exact ⟨name.name, hcalls, hmacroName, rfl⟩
        · cases heq
    | _ => cases hm
  · rintro ⟨_, ⟨document, hdocument, command, hmem, name, hname, rfl, rfl⟩, hmacroName, rfl⟩
    obtain ⟨line, hline, hcommand⟩ := List.mem_filterMap.1 hmem
    have hmention := (Line.mem_mentions_iff rfl).2
      (.inl ⟨command, hcommand, name, hname, hmacroName, rfl⟩)
    exact ⟨_, (hmentions _).2 ⟨document, hdocument, line, hline, hmention⟩, rfl, rfl⟩

theorem isMacroDefinition_iff (key : String) :
    (∃ m ∈ mentions, m.IsMacroDefinition key) ↔ program.DefinesMacro key := by
  constructor
  · rintro ⟨m, hmem, hm⟩
    obtain ⟨document, hdocument, line, hline, hmention⟩ := (hmentions m).1 hmem
    cases m with
    | macroDefinition k l =>
        cases hm
        rcases (Line.mem_mentions_iff rfl).1 hmention with
          ⟨_, _, _, _, _, heq⟩ | ⟨name, hname, heq⟩
        · cases heq
        · cases heq
          exact ⟨document, hdocument, name, List.mem_filterMap.2 ⟨line, hline, hname⟩, rfl⟩
    | _ => cases hm
  · rintro ⟨document, hdocument, name, hmem, rfl⟩
    obtain ⟨line, hline, hname⟩ := List.mem_filterMap.1 hmem
    have hmention := (Line.mem_mentions_iff rfl).2 (.inr ⟨name, hname, rfl⟩)
    exact ⟨_, (hmentions _).2 ⟨document, hdocument, line, hline, hmention⟩, rfl⟩

variable (hmacros : MacrosHold mentions program.symbols.macros)
  (herrors : Diagnostic.AllOn .files program.sources.errors)

include hmacros herrors

theorem reportsUnknown_iff (name : String) (location : Location) :
    (∃ finding ∈ program.findings, finding.location = location ∧
        finding.message = .unknownOpcode name) ↔
      program.Calls name location ∧ MacroName name ∧ ¬ program.DefinesMacro (unifiedName name) := by
  have hdefined : program.symbols.definesMacro (unifiedName name) = false ↔
      ¬ program.DefinesMacro (unifiedName name) := by
    rw [← isMacroDefinition_iff hmentions, ← Symbols.definesMacro_iff hmacros, Bool.not_eq_true]
  constructor
  · rintro ⟨finding, hfinding, rfl, hmessage⟩
    have htopic : finding.message.topic = .command := by
      rw [hmessage]
      rfl
    obtain ⟨document, hdocument, hfound⟩ :=
      List.mem_flatMap.1 ((mem_findings_of_topic herrors htopic).1 hfinding)
    obtain ⟨command, hcommand, hfound⟩ := List.mem_filterMap.1 hfound
    obtain ⟨id, hid, rfl, hmacroName, hundefined, rfl⟩ :=
      commandFinding?_unknown_iff.1 ⟨hfound, hmessage⟩
    exact ⟨⟨document, hdocument, command, hcommand, id, hid, rfl, rfl⟩, hmacroName,
      hdefined.1 hundefined⟩
  · rintro ⟨⟨document, hdocument, command, hcommand, id, hid, rfl, rfl⟩, hmacroName, hundefined⟩
    obtain ⟨hfound, hmessage⟩ := commandFinding?_unknown_iff.2
      ⟨id, hid, rfl, hmacroName, hdefined.2 hundefined, rfl⟩
    have hfinding : _ ∈ program.findingsOn .command :=
      List.mem_flatMap.2 ⟨document, hdocument, List.mem_filterMap.2 ⟨command, hcommand, hfound⟩⟩
    exact ⟨_, mem_findings_iff_exists.2 ⟨_, hfinding⟩, rfl, hmessage⟩

/-- A place is reported exactly where the table has a use of a macro that is not defined. -/
theorem reportsUnknownAt_iff (location : Location) :
    (∃ finding ∈ program.findings, finding.location = location ∧
        ∃ name, finding.message = .unknownOpcode name) ↔
      ∃ key r, (key, r) ∈ program.symbols.macros.entries ∧ r.definitions = [] ∧
        location ∈ r.usages := by
  have hreports := reportsUnknown_iff hmentions hmacros herrors
  rw [hmacros.mem_entries_iff]
  constructor
  · rintro ⟨finding, hfinding, hlocation, name, hmessage⟩
    obtain ⟨hcalls, hmacroName, hundefined⟩ :=
      (hreports name location).1 ⟨finding, hfinding, hlocation, hmessage⟩
    refine ⟨unifiedName name, ?_, ?_⟩
    · exact (isMacroUse_iff hmentions _ _).2 ⟨name, hcalls, hmacroName, rfl⟩
    · rwa [isMacroDefinition_iff hmentions]
  · rintro ⟨key, huse, hundefined⟩
    obtain ⟨name, hcalls, hmacroName, rfl⟩ := (isMacroUse_iff hmentions key location).1 huse
    rw [isMacroDefinition_iff hmentions] at hundefined
    obtain ⟨finding, hfinding, hlocation, hmessage⟩ :=
      (hreports name location).2 ⟨hcalls, hmacroName, hundefined⟩
    exact ⟨finding, hfinding, hlocation, name, hmessage⟩

end Mentions

theorem mem_walk_mentions (document : Document) (files : FileSource) (cache : DocumentCache)
    (m : Mention) :
    m ∈ (document.walk files cache).lines.flatMap Line.mentions ↔
      ∃ d ∈ (document.walk files cache).documents, ∃ line ∈ d.allLines, m ∈ line.mentions := by
  simp only [List.mem_flatMap, document.mem_walk_lines files cache]
  constructor
  · rintro ⟨line, ⟨d, hd, hline⟩, hm⟩
    exact ⟨d, hd, line, hline, hm⟩
  · rintro ⟨d, hd, line, hline, hm⟩
    exact ⟨line, ⟨d, hd, hline⟩, hm⟩

/-- A command is reported as unknown exactly where the table of macros has a use without a
definition: it has a name that only a macro can have, and no document of the program defines that
macro. -/
theorem resolve_unknownCommand_iff (document : Document) (config : Config) (files : FileSource)
    (cache : DocumentCache) :
    let program := (Program.resolve document config files cache).1
    (∀ location,
      (∃ finding ∈ program.findings, finding.location = location ∧
          ∃ name, finding.message = .unknownOpcode name) ↔
        ∃ key r, (key, r) ∈ program.symbols.macros.entries ∧ r.definitions = [] ∧
          location ∈ r.usages) ∧
    ∀ name location,
      (∃ finding ∈ program.findings, finding.location = location ∧
          finding.message = .unknownOpcode name) ↔
        program.Calls name location ∧ MacroName name ∧
          ¬ program.DefinesMacro (unifiedName name) := by
  intro program
  have herrors : Diagnostic.AllOn .files program.sources.errors :=
    document.walk_errors_allOn files cache
  have hmacros : MacrosHold ((document.walk files cache).lines.flatMap Line.mentions)
      program.symbols.macros := Symbols.macros_ofLines config _
  have hmentions := mem_walk_mentions document files cache
  exact ⟨reportsUnknownAt_iff hmentions hmacros herrors,
    reportsUnknown_iff hmentions hmacros herrors⟩

end Program

end Asm6502
