import Asm6502.Check
import Asm6502.Proofs.LabelTable
import Asm6502.Proofs.LexemeCharacters
import Asm6502.Proofs.RowParts

/-!
# Where documents use and define labels

A line uses the names in the expressions that it evaluates, and defines the label at its front.  In
a document that was read, such a name is a word of the text, so it has no comma in it, unlike the
name of every label that is made of fragments, and no other name stands at its place.
-/

namespace Asm6502

/-! ## Labels of documents -/

/-- Commands whose arguments are the names of files, segments and subroutines. -/
def Directive.takesNames : Directive -> Bool
  | .includeFile | .incbin | .incdir | .seg | .subroutine => true
  | _ => false

/-- The expressions of a line whose labels have to be defined: arguments of commands, but for the
accumulator, plain conditions and counts. -/
inductive Line.Evaluates : Line -> Expr -> Prop where
  | argument {margin : Margin} {command : Command} {argument : Argument}
      (hargument : argument ∈ command.arguments)
      (hcommand : ∀ directive ∈ command.directive?, directive.takesNames = false)
      (haccumulator : command.takesAccumulator argument = false) :
      Evaluates (.command margin (some command)) argument.value
  | condition {margin : Margin} {condition : Expr} {thenLines elseLines : List Line}
      {location : Location} :
      Evaluates (.conditional margin .plain (some condition) thenLines elseLines location) condition
  | count {margin : Margin} {count : Expr} {body : List Line} {location : Location} :
      Evaluates (.repetition margin (some count) body location) count

/-- An expression that has a name at a place.  The program counter is no name. -/
def Expr.NamesAt (name : String) (location : Location) (e : Expr) : Prop :=
  ∃ id, Expr.identifier id ∈ e.parts ∧ id.programCounter = false ∧ id.name = name ∧
    id.location = location

/-- A document in which a label is used at a place. -/
def Document.UsesLabel (name : String) (location : Location) (document : Document) : Prop :=
  ∃ line ∈ document.allLines, ∃ e, line.Evaluates e ∧ e.NamesAt name location

/-- A document in which a plain label stands at the front of a line. -/
def Document.CarriesLabel (name : String) (document : Document) : Prop :=
  ∃ line ∈ document.allLines, ∃ id, line.label = some (.plain id) ∧ id.name = name

/-! ## Mentions of a line -/

variable {e : Expr}

variable {line : Line} {m : Mention}

theorem Line.Evaluates.mem_expressions (h : line.Evaluates e) :
    e ∈ line.expressions := by
  cases h with
  | argument hargument => exact List.mem_map_of_mem hargument
  | condition => exact List.mem_singleton_self _
  | count => exact List.mem_singleton_self _

theorem Expr.mem_mentions_use {key : String} {location : Location} :
    Mention.labelUse key false location ∈ e.mentions ↔ e.NamesAt key location := by
  unfold mentions NamesAt
  rw [List.mem_filterMap]
  constructor
  · rintro ⟨part, hpart, h⟩
    split at h
    · next id =>
      split at h
      · cases h
      · next hcounter =>
        cases h
        exact ⟨id, hpart, by simpa using hcounter, rfl, rfl⟩
    · cases h
    · cases h
  · rintro ⟨id, hpart, hcounter, rfl, rfl⟩
    exact ⟨_, hpart, by simp [hcounter]⟩

theorem Expr.exists_dynamicLabel_of_mem_mentions {key : String} {location : Location}
    (h : Mention.labelUse key true location ∈ e.mentions) :
    ∃ label, Expr.dynamicLabel label ∈ e.parts ∧ label.key = key := by
  obtain ⟨part, hpart, h⟩ := List.mem_filterMap.1 h
  split at h
  · split at h <;> cases h
  · next label =>
    cases h
    exact ⟨label, hpart, rfl⟩
  · cases h

theorem Expr.not_isDefinition_of_mem_mentions (h : m ∈ e.mentions) (key : String) :
    ¬ m.IsDefinition key := by
  obtain ⟨part, hpart, h⟩ := List.mem_filterMap.1 h
  split at h
  · split at h <;> cases h
    exact not_false
  · cases h
    exact not_false
  · cases h

/-- The mentions of labels, apart from those of macros, segments and regions. -/
def Mention.isLabel : Mention -> Bool
  | .labelDefinition .. | .labelUse .. => true
  | _ => false

namespace Command

theorem mem_argumentMentions {command : Command} :
    m ∈ command.argumentMentions ↔ ∃ argument ∈ command.arguments,
      command.takesAccumulator argument = false ∧ m ∈ argument.value.mentions := by
  unfold argumentMentions
  rw [List.mem_flatMap]
  constructor
  · rintro ⟨argument, hargument, h⟩
    split at h
    · cases h
    · next haccumulator => exact ⟨argument, hargument, by simpa using haccumulator, h⟩
  · rintro ⟨argument, hargument, haccumulator, h⟩
    refine ⟨argument, hargument, ?_⟩
    rw [if_neg (by simp [haccumulator])]
    exact h

theorem mem_mentions_label {command : Command} (hm : m.isLabel = true) :
    m ∈ command.mentions ↔ (∀ directive ∈ command.directive?, directive.takesNames = false) ∧
        m ∈ command.argumentMentions := by
  have hsegment : m ∉ command.segmentMentions := by
    unfold segmentMentions
    intro h
    split at h <;> simp at h <;> simp [h, Mention.isLabel] at hm
  have hrelocation : m ∉ command.relocationMentions := by
    unfold relocationMentions
    intro h
    dsimp only at h
    split at h <;> simp at h <;> simp [h, Mention.isLabel] at hm
  have hmacro : m ∉ command.macroMentions := by
    unfold macroMentions
    intro h
    split at h <;> simp at h
    simp [h, Mention.isLabel] at hm
  unfold mentions
  cases hdirective : command.directive? with
  | none => simp [hrelocation, hmacro]
  | some directive =>
      cases directive <;> simp [Directive.takesNames, hsegment, hrelocation, hmacro]

end Command

namespace Line

theorem mem_contentMentions_label (hm : m.isLabel = true) :
    m ∈ line.contentMentions ↔ ∃ e, line.Evaluates e ∧ m ∈ e.mentions := by
  constructor
  · intro h
    cases line with
    | command margin command =>
        obtain ⟨c, hc, hmention⟩ := List.mem_flatMap.1 h
        rw [Option.mem_toList] at hc
        subst hc
        obtain ⟨hcommand, hmention⟩ := (Command.mem_mentions_label hm).1 hmention
        obtain ⟨argument, hargument, haccumulator, he⟩ := Command.mem_argumentMentions.1 hmention
        exact ⟨_, .argument hargument hcommand haccumulator, he⟩
    | macroBlock margin block =>
        obtain ⟨name, -, rfl⟩ := List.mem_map.1 h
        cases hm
    | conditional margin kind condition thenLines elseLines location =>
        cases kind with
        | plain =>
            obtain ⟨e, he, hmention⟩ := List.mem_flatMap.1 h
            rw [Option.mem_toList] at he
            subst he
            exact ⟨e, .condition, hmention⟩
        | ifConst | ifNConst => cases h
    | repetition margin count body location =>
        obtain ⟨e, he, hmention⟩ := List.mem_flatMap.1 h
        rw [Option.mem_toList] at he
        subst he
        exact ⟨e, .count, hmention⟩
  · rintro ⟨e, hevaluates, h⟩
    cases hevaluates with
    | argument hargument hcommand haccumulator =>
        have hmention := (Command.mem_mentions_label hm).2
          ⟨hcommand, Command.mem_argumentMentions.2 ⟨_, hargument, haccumulator, h⟩⟩
        exact List.mem_flatMap.2 ⟨_, List.mem_singleton_self _, hmention⟩
    | condition => exact List.mem_flatMap.2 ⟨_, List.mem_singleton_self _, h⟩
    | count => exact List.mem_flatMap.2 ⟨_, List.mem_singleton_self _, h⟩

theorem mem_mentions (hm : m.isLabel = true) :
    m ∈ line.mentions ↔ (∃ label ∈ line.label, m ∈ label.mentions
        (.ofDirective (line.command?.bind Command.directive?))
        (line.command?.bind fun c => c.arguments.head?.map Argument.value)) ∨
      ∃ e, line.Evaluates e ∧ m ∈ e.mentions := by
  have hsubroutine : m ∉ (if line.command?.bind Command.directive? = some .subroutine then
      [Mention.subroutine] else []) := by
    intro h
    split at h
    · rw [List.mem_singleton.1 h] at hm
      cases hm
    · cases h
  unfold mentions
  simp only [List.mem_append, hsubroutine, false_or, List.mem_flatMap, Option.mem_toList,
    mem_contentMentions_label hm, Option.mem_def]

theorem mem_mentions_use {key : String} {dynamic : Bool} {location : Location} :
    Mention.labelUse key dynamic location ∈ line.mentions ↔
      ∃ e, line.Evaluates e ∧ Mention.labelUse key dynamic location ∈ e.mentions := by
  rw [mem_mentions rfl]
  constructor
  · rintro (⟨label, -, h⟩ | h)
    · unfold Label.mentions at h
      split at h
      · split at h <;> simp at h
      · simp at h
    · exact h
  · exact .inr

end Line

variable {key : String}

/-- The labels whose name a label defines.  The program counter is not defined. -/
def Label.Defines (key : String) : Label -> Prop
  | .plain id => id.programCounter = false ∧ id.name = key
  | .dynamic label => label.key = key

theorem Label.isDefinition_mentions {label : Label} (kind : DefinitionKind) (value : Option Expr) :
    (∃ m ∈ label.mentions kind value, m.IsDefinition key) ↔ label.Defines key := by
  cases label with
  | plain id => cases h : id.programCounter <;> simp [mentions, Defines, Mention.IsDefinition, h]
  | dynamic label => simp [mentions, Defines, Mention.IsDefinition]

theorem Mention.isLabel_of_isDefinition (h : m.IsDefinition key) :
    m.isLabel = true := by
  cases m with
  | labelDefinition => rfl
  | _ => cases h

theorem Line.isDefinition_mentions :
    (∃ m ∈ line.mentions, m.IsDefinition key) ↔ ∃ label ∈ line.label, label.Defines key := by
  constructor
  · rintro ⟨m, hmem, h⟩
    rcases (mem_mentions (Mention.isLabel_of_isDefinition h)).1 hmem with ⟨label, hlabel, hm⟩ | hm
    · exact ⟨label, hlabel, (Label.isDefinition_mentions _ _).1 ⟨m, hm, h⟩⟩
    · obtain ⟨e, -, hm⟩ := hm
      exact absurd h (Expr.not_isDefinition_of_mem_mentions hm key)
  · rintro ⟨label, hlabel, h⟩
    obtain ⟨m, hm, h⟩ := (Label.isDefinition_mentions _ _).2 h
    exact ⟨m, (mem_mentions (Mention.isLabel_of_isDefinition h)).2 (.inl ⟨label, hlabel, hm⟩), h⟩

/-- A name made of fragments comes from a dynamic label, in an expression or at the front. -/
theorem Line.exists_of_isDynamic (h : ∃ m ∈ line.mentions, m.IsDynamic key) :
    (∃ e ∈ line.expressions, ∃ label, Expr.dynamicLabel label ∈ e.parts ∧ label.key = key) ∨
      ∃ label, line.label = some (.dynamic label) ∧ label.key = key := by
  obtain ⟨m, hmem, h⟩ := h
  cases m with
  | labelUse k dynamic location =>
      obtain ⟨rfl, rfl⟩ := h
      obtain ⟨e, hevaluates, hm⟩ := mem_mentions_use.1 hmem
      exact .inl ⟨e, hevaluates.mem_expressions, Expr.exists_dynamicLabel_of_mem_mentions hm⟩
  | labelDefinition k dynamic kind value location =>
      obtain ⟨rfl, rfl⟩ := h
      rcases (mem_mentions rfl).1 hmem with ⟨label, hlabel, hm⟩ | ⟨e, -, hm⟩
      · cases label with
        | plain id => cases hcounter : id.programCounter <;> simp [Label.mentions, hcounter] at hm
        | dynamic label =>
            cases List.mem_singleton.1 hm
            exact .inr ⟨label, hlabel, rfl⟩
      · exact absurd rfl (Expr.not_isDefinition_of_mem_mentions hm k)
  | _ => cases h

/-! ## Names in documents that were read -/

theorem DynamicLabel.comma_mem_key {label : DynamicLabel} (h : 2 ≤ label.fragments.length) :
    ',' ∈ label.key.toList := by
  unfold key
  rw [String.toList_intercalate]
  cases hfragments : label.fragments with
  | nil => simp [hfragments] at h
  | cons first rest =>
      cases rest with
      | nil => simp [hfragments] at h
      | cons second rest => simp [List.intercalate]

namespace Concrete

/-- A part of a value that was read from some tokens: its names are words or the program counter,
and the names of its dynamic labels have a comma in them. -/
def PartFrom (uri : Uri) (tokens : List Token) : Asm6502.Expr -> Prop
  | .identifier id => id.programCounter = true ∨
      ∃ token ∈ tokens, token.kind.isWord = true ∧ id = toIdentifier uri token
  | .dynamicLabel label => ',' ∈ label.key.toList
  | _ => True

variable {uri : Uri}

theorem PartFrom.mono {part : Asm6502.Expr} {tokens more : List Token}
    (h : PartFrom uri tokens part) (hsub : tokens.Sublist more) : PartFrom uri more part := by
  cases part with
  | identifier id =>
      rcases h with h | ⟨token, htoken, h⟩
      · exact .inl h
      · exact .inr ⟨token, hsub.subset htoken, h⟩
  | dynamicLabel label => exact h
  | _ => trivial

theorem ofAtom_parts {token : Token} (h : isAtom token.kind = true) :
    ∀ part ∈ (ofAtom uri token).parts, PartFrom uri [token] part := by
  unfold ofAtom
  dsimp only
  split
  · simp [Asm6502.Expr.parts, PartFrom]
  · split
    · simp [Asm6502.Expr.parts, PartFrom]
    · split
      · simp [Asm6502.Expr.parts, PartFrom]
      · next hnumber hstring hchar =>
        intro part hpart
        rw [Asm6502.Expr.parts, List.mem_singleton] at hpart
        · subst hpart
          refine .inl ?_
          unfold toIdentifier
          dsimp only
          revert h hnumber hstring hchar
          cases token.kind <;> simp [isAtom, Token.Kind.isNumber]
        all_goals simp

/-- Every part of a value was read from the tokens of its expression. -/
theorem Expr.Spells.parts_lower {e : Expr} {tokens : List Token} (h : e.Spells tokens) :
    ∀ part ∈ (e.lower uri).parts, PartFrom uri tokens part := by
  induction h with
  | atom h => exact ofAtom_parts h
  | @label first others tokens hfirst hjoined =>
      intro part hpart
      cases others with
      | nil =>
          rw [Expr.lower, Asm6502.Expr.parts, List.mem_singleton] at hpart
          · subst hpart
            exact .inr ⟨first, List.mem_cons_self, hfirst, rfl⟩
          all_goals simp
      | cons second others =>
          rw [Expr.lower, Asm6502.Expr.parts, List.mem_singleton] at hpart
          · subst hpart
            exact DynamicLabel.comma_mem_key (by simp [toDynamicLabel])
          all_goals simp
  | macroArgument => simp [Expr.lower, Asm6502.Expr.parts, PartFrom]
  | @unary operator operand tokens _ ih =>
      have hsub : tokens.Sublist (operator :: tokens) := List.sublist_cons_self operator tokens
      intro part hpart
      rw [Expr.lower] at hpart
      split at hpart
      · rw [Asm6502.Expr.parts, List.mem_cons] at hpart
        rcases hpart with rfl | hpart
        · trivial
        · exact (ih part hpart).mono hsub
      · exact (ih part hpart).mono hsub
  | @binary left right operator front back _ _ ihleft ihright =>
      have hfront : front.Sublist (front ++ operator :: back) := List.sublist_append_left front _
      have hback : back.Sublist (front ++ operator :: back) :=
        (List.sublist_cons_self operator back).trans (List.sublist_append_right front _)
      intro part hpart
      rw [Expr.lower] at hpart
      split at hpart
      · rw [Asm6502.Expr.parts, List.mem_cons, List.mem_append] at hpart
        rcases hpart with rfl | hpart | hpart
        · trivial
        · exact (ihleft part hpart).mono hfront
        · exact (ihright part hpart).mono hback
      · exact (ihleft part hpart).mono hfront
  | @round opening closing inner tokens _ _ _ ih | @square opening closing inner tokens _ _ _ ih =>
      have hsub : tokens.Sublist (opening :: tokens ++ [closing]) :=
        (List.sublist_append_left tokens [closing]).cons opening
      intro part hpart
      rw [Expr.lower, Asm6502.Expr.parts, List.mem_cons] at hpart
      rcases hpart with rfl | hpart
      · trivial
      · exact (ih part hpart).mono hsub

end Concrete

/-- Fragments at the front of a line make a name with a comma in it. -/
theorem Line.Shows.comma_mem_key {uri : Uri} {parts : List Concrete.Part}
    (h : line.Shows uri parts) {label : DynamicLabel}
    (hlabel : line.label = some (.dynamic label)) : ',' ∈ label.key.toList := by
  obtain ⟨c, -, hc⟩ := h.label _ hlabel
  unfold Concrete.toLabel at hc
  split at hc
  · cases hc
  · next hothers =>
    cases hc
    refine DynamicLabel.comma_mem_key ?_
    cases hc : c.others with
    | nil => exact absurd hc hothers
    | cons second others => simp [Concrete.toDynamicLabel, Concrete.Label.fragments, hc]

namespace Document

variable {text : String} {uri : Uri} {name : String} {location : Location}

theorem partFrom_of_mem_parts (hline : line ∈ (ofText text uri).allLines)
    {e part : Expr} (he : e ∈ line.expressions) (hpart : part ∈ e.parts) :
    Concrete.PartFrom uri (tokenize text).tokens part := by
  obtain ⟨c, ⟨taken, hsub, hspells⟩, rfl⟩ := exists_madeOf_of_mem_expressions hline he
  exact (hspells.parts_lower part hpart).mono hsub

theorem UsesLabel.exists_word (h : (ofText text uri).UsesLabel name location) :
    ∃ token ∈ (tokenize text).tokens, token.kind.isWord = true ∧ token.literal = name ∧
      location = ⟨uri, token.span⟩ := by
  obtain ⟨line, hline, e, hevaluates, id, hpart, hcounter, rfl, rfl⟩ := h
  rcases partFrom_of_mem_parts hline hevaluates.mem_expressions hpart with
    hword | ⟨token, htoken, hkind, rfl⟩
  · rw [hcounter] at hword
    cases hword
  · exact ⟨token, htoken, hkind, rfl, rfl⟩

theorem UsesLabel.name_eq {a b : String} (ha : (ofText text uri).UsesLabel a location)
    (hb : (ofText text uri).UsesLabel b location) : a = b := by
  obtain ⟨first, hfirst, -, rfl, rfl⟩ := ha.exists_word
  obtain ⟨second, hsecond, -, rfl, hlocation⟩ := hb.exists_word
  have hspan : first.span = second.span := congrArg Location.span hlocation
  rw [token_eq_of_span_eq hfirst hsecond hspan]

theorem UsesLabel.word (h : (ofText text uri).UsesLabel name location) :
    ',' ∉ name.toList ∧ name ≠ "." := by
  obtain ⟨token, htoken, hkind, rfl, -⟩ := h.exists_word
  exact ((tokenize_regular text).1 token htoken).word hkind

/-- The name of a label that is made of fragments has a comma in it. -/
theorem comma_mem_of_isDynamic (hline : line ∈ (ofText text uri).allLines)
    {key : String} (h : ∃ m ∈ line.mentions, m.IsDynamic key) : ',' ∈ key.toList := by
  rcases Line.exists_of_isDynamic h with ⟨e, he, label, hpart, rfl⟩ | ⟨label, hlabel, rfl⟩
  · exact partFrom_of_mem_parts hline he hpart
  · exact (shows_of_mem_walkAll text uri hline).comma_mem_key hlabel

theorem isDefinition_iff (hline : line ∈ (ofText text uri).allLines)
    (hcomma : ',' ∉ name.toList) (hdot : name ≠ ".") :
    (∃ m ∈ line.mentions, m.IsDefinition name) ↔
      ∃ id, line.label = some (.plain id) ∧ id.name = name := by
  have hread := shows_of_mem_walkAll text uri hline
  rw [Line.isDefinition_mentions]
  constructor
  · rintro ⟨label, hlabel, hdefines⟩
    cases label with
    | plain id => exact ⟨id, hlabel, hdefines.2⟩
    | dynamic label =>
        have hkey := hread.comma_mem_key hlabel
        rw [show label.key = name from hdefines] at hkey
        exact absurd hkey hcomma
  · rintro ⟨id, hlabel, rfl⟩
    refine ⟨.plain id, hlabel, ?_, rfl⟩
    obtain ⟨c, hpart, hc⟩ := hread.label _ hlabel
    obtain ⟨hmade, -⟩ := Concrete.ofTokens_parts_standIn _ _ text _ hpart
    unfold Concrete.toLabel at hc
    split at hc
    · cases hc
      obtain ⟨taken, hsub, -⟩ := hmade.others
      have hfirst : c.first ∈ (tokenize text).tokens := hsub.subset List.mem_cons_self
      rcases hmade.first_kind with hkind | hkind
      · simp [Concrete.toIdentifier, hkind]
      · exact absurd (((tokenize_regular text).1 c.first hfirst).dot hkind) hdot
    · cases hc

end Document

end Asm6502
