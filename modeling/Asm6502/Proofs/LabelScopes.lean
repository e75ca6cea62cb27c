import Asm6502.Proofs.Expansion
import Asm6502.Proofs.LabelMentions

/-!
# Scopes of labels

Every subroutine has a table of local labels of its own, and the lines in front of the first one
have another.  A local name belongs to the table of the last subroutine that was started, counting
the one on the line of the name, and any other name belongs to the program.
-/

namespace Asm6502

/-! ## Occurrences of labels -/

/-- Whether a label is defined or used at a place. -/
inductive LabelRole where
  | definition
  | usage
deriving DecidableEq

/-- A label that is named at a place. -/
structure Occurrence where
  role : LabelRole
  key : String
  location : Location
deriving DecidableEq

def LabelSymbol.places (label : LabelSymbol) : LabelRole -> List Location
  | .definition => label.definitions
  | .usage => label.usages

namespace Mention

def occurrence? : Mention -> Option Occurrence
  | .labelDefinition key _ _ _ location => some ⟨.definition, key, location⟩
  | .labelUse key _ location => some ⟨.usage, key, location⟩
  | _ => none

def change : Mention -> LabelSymbol -> LabelSymbol
  | .labelDefinition _ dynamic kind value location =>
      fun label => label.define dynamic kind value location
  | .labelUse _ dynamic location => fun label => label.use dynamic location
  | _ => id

theorem mem_places_change {m : Mention} {o : Occurrence} (h : m.occurrence? = some o)
    (label : LabelSymbol) (role : LabelRole) (location : Location) :
    location ∈ (m.change label).places role ↔
      location ∈ label.places role ∨ (o.role = role ∧ o.location = location) := by
  cases m with
  | labelDefinition key dynamic kind value place =>
      cases h
      cases role <;>
        simp [change, LabelSymbol.define, References.define, LabelSymbol.places, mem_addNew,
          eq_comm]
  | labelUse key dynamic place =>
      cases h
      cases role <;>
        simp [change, LabelSymbol.use, References.use, LabelSymbol.places, mem_addNew, eq_comm]
  | _ => cases h

end Mention

/-- An expression uses a label at a place, by a name or by fragments of one.  The program counter is
no label. -/
inductive Expr.UsesAt (e : Expr) : String -> Location -> Prop where
  | name {id : Identifier} (hpart : .identifier id ∈ e.parts) (hlabel : id.programCounter = false) :
      UsesAt e id.name id.location
  | fragments {label : DynamicLabel} (hpart : .dynamicLabel label ∈ e.parts) :
      UsesAt e label.key label.location

/-- The labels that a line names, without the lines inside it: it defines the one at its front and
uses those of the expressions that it evaluates. -/
inductive Line.Names (line : Line) : Occurrence -> Prop where
  | definition {label : Label} {key : String} (hlabel : line.label = some label)
      (hkey : label.Defines key) : Names line ⟨.definition, key, label.location⟩
  | usage {e : Expr} {key : String} {location : Location} (he : line.Evaluates e)
      (huse : e.UsesAt key location) : Names line ⟨.usage, key, location⟩

def Line.occurrences (line : Line) : List Occurrence :=
  line.mentions.filterMap Mention.occurrence?

theorem Mention.isLabel_of_occurrence? {m : Mention} {o : Occurrence} (h : m.occurrence? = some o) :
    m.isLabel = true := by
  cases m with
  | labelDefinition | labelUse => rfl
  | _ => cases h

theorem Expr.exists_mentions_occurrence {e : Expr} {o : Occurrence} :
    (∃ m ∈ e.mentions, m.occurrence? = some o) ↔ o.role = .usage ∧ e.UsesAt o.key o.location := by
  constructor
  · rintro ⟨m, hm, ho⟩
    obtain ⟨part, hpart, h⟩ := List.mem_filterMap.1 hm
    split at h
    · next id =>
      split at h
      · cases h
      · next hlabel =>
        cases h
        cases ho
        exact ⟨rfl, .name hpart (by simpa using hlabel)⟩
    · cases h
      cases ho
      exact ⟨rfl, .fragments hpart⟩
    · cases h
  · obtain ⟨role, key, location⟩ := o
    rintro ⟨rfl, ⟨hpart, hlabel⟩ | hpart⟩
    · exact ⟨_, List.mem_filterMap.2 ⟨_, hpart, if_neg (by simp [hlabel])⟩, rfl⟩
    · exact ⟨_, List.mem_filterMap.2 ⟨_, hpart, rfl⟩, rfl⟩

theorem Label.exists_mentions_occurrence {label : Label} {o : Occurrence} (kind : DefinitionKind)
    (value : Option Expr) :
    (∃ m ∈ label.mentions kind value, m.occurrence? = some o) ↔
      o.role = .definition ∧ label.Defines o.key ∧ o.location = label.location := by
  obtain ⟨role, key, location⟩ := o
  cases label with
  | plain id =>
      cases hcounter : id.programCounter <;>
        simp [mentions, Defines, Label.location, Mention.occurrence?, hcounter, eq_comm]
  | dynamic label => simp [mentions, Defines, Label.location, Mention.occurrence?, eq_comm]

/-- Every label that a line names is among its mentions, and no other is. -/
theorem Line.mem_occurrences {line : Line} {o : Occurrence} :
    o ∈ line.occurrences ↔ line.Names o := by
  have hmentions : o ∈ line.occurrences ↔
      (∃ label ∈ line.label, ∃ m ∈ label.mentions
        (.ofDirective (line.command?.bind Command.directive?))
        (line.command?.bind fun c => c.arguments.head?.map Argument.value),
        m.occurrence? = some o) ∨
      ∃ e, line.Evaluates e ∧ ∃ m ∈ e.mentions, m.occurrence? = some o := by
    unfold occurrences
    rw [List.mem_filterMap]
    constructor
    · rintro ⟨m, hm, ho⟩
      rcases (mem_mentions (Mention.isLabel_of_occurrence? ho)).1 hm with
        ⟨label, hlabel, hm⟩ | ⟨e, he, hm⟩
      · exact .inl ⟨label, hlabel, m, hm, ho⟩
      · exact .inr ⟨e, he, m, hm, ho⟩
    · rintro (⟨label, hlabel, m, hm, ho⟩ | ⟨e, he, m, hm, ho⟩)
      · have hlabels := Mention.isLabel_of_occurrence? ho
        exact ⟨m, (mem_mentions hlabels).2 (.inl ⟨label, hlabel, hm⟩), ho⟩
      · have hlabels := Mention.isLabel_of_occurrence? ho
        exact ⟨m, (mem_mentions hlabels).2 (.inr ⟨e, he, hm⟩), ho⟩
  simp only [hmentions, Expr.exists_mentions_occurrence, Label.exists_mentions_occurrence]
  obtain ⟨role, key, location⟩ := o
  constructor
  · rintro (⟨label, hlabel, rfl, hkey, rfl⟩ | ⟨e, he, rfl, huse⟩)
    · exact .definition hlabel hkey
    · exact .usage he huse
  · rintro (⟨hlabel, hkey⟩ | ⟨he, huse⟩)
    · exact .inl ⟨_, hlabel, rfl, hkey, rfl⟩
    · exact .inr ⟨_, he, rfl, huse⟩

def Line.startsSubroutine (line : Line) : Bool :=
  line.command?.bind Command.directive? = some .subroutine

def subroutines (lines : List Line) : Nat := lines.countP Line.startsSubroutine

/-- The scope of a name where so many subroutines were started. -/
def Config.scopeBehind (config : Config) (count : Nat) (key : String) : Scope :=
  if config.isLocal key then .subroutine count else .program

/-- The line is one of some lines, and so many subroutines are started from the first line up to it,
itself included. -/
def MetBehind (lines : List Line) (count : Nat) (line : Line) : Prop :=
  ∃ i, lines[i]? = some line ∧ count = subroutines (lines.take (i + 1))

theorem metBehind_concat {lines : List Line} {last line : Line} {count : Nat} :
    MetBehind (lines ++ [last]) count line ↔
      MetBehind lines count line ∨ (line = last ∧ count = subroutines (lines ++ [last])) := by
  constructor
  · rintro ⟨i, hline, hcount⟩
    by_cases hi : i < lines.length
    · rw [List.getElem?_append_left hi] at hline
      rw [List.take_append_of_le_length (by omega)] at hcount
      exact .inl ⟨i, hline, hcount⟩
    · have hlt : i < (lines ++ [last]).length := (List.getElem?_eq_some_iff.1 hline).1
      have hi' : i = lines.length := by
        rw [List.length_append, List.length_singleton] at hlt
        omega
      subst hi'
      rw [List.getElem?_concat_length, Option.some.injEq] at hline
      rw [List.take_of_length_le (by simp)] at hcount
      exact .inr ⟨hline.symm, hcount⟩
  · rintro (⟨i, hline, hcount⟩ | ⟨rfl, hcount⟩)
    · have hi : i < lines.length := (List.getElem?_eq_some_iff.1 hline).1
      refine ⟨i, ?_, ?_⟩
      · rw [List.getElem?_append_left hi, hline]
      · rw [List.take_append_of_le_length (by omega), hcount]
    · refine ⟨lines.length, List.getElem?_concat_length, ?_⟩
      rw [List.take_of_length_le (by simp), hcount]

namespace Symbols

variable {config : Config}

/-! ## What a mention does to the labels -/

variable {m : Mention} {o : Occurrence} {s : Symbols}

/-- The label with the given scope and name lists a place. -/
def Lists (s : Symbols) (role : LabelRole) (ref : LabelRef) (location : Location) : Prop :=
  ∃ label, s.label? ref = some label ∧ location ∈ label.places role

theorem add_of_occurrence (h : m.occurrence? = some o) (s : Symbols) :
    s.add config m = s.updateLabel config o.key o.location m.change := by
  cases m with
  | labelDefinition | labelUse =>
      cases h
      rfl
  | _ => cases h

/-- A mention of something else than a label or a subroutine leaves all labels alone. -/
theorem add_of_no_occurrence (config : Config) (h : m.occurrence? = none) (hm : m ≠ .subroutine)
    (s : Symbols) : (s.add config m).globals = s.globals ∧ (s.add config m).locals = s.locals := by
  cases m with
  | subroutine => exact absurd rfl hm
  | labelDefinition | labelUse => cases h
  | relocation relocation =>
      unfold add
      dsimp only
      split <;> exact ⟨rfl, rfl⟩
  | macroDefinition | macroUse | segment => exact ⟨rfl, rfl⟩

theorem labelRefs_add_of_no_occurrence (h : m.occurrence? = none) (s : Symbols) :
    (s.add config m).labelRefs = s.labelRefs := by
  cases m with
  | labelDefinition | labelUse => cases h
  | relocation relocation =>
      unfold add
      dsimp only
      split <;> rfl
  | subroutine | macroDefinition | macroUse | segment => rfl

theorem length_locals_updateLabel (s : Symbols) (key : String) (location : Location)
    (change : LabelSymbol -> LabelSymbol) :
    (s.updateLabel config key location change).locals.length = s.locals.length := by
  unfold updateLabel scopeOf
  cases config.isLocal key <;> simp

theorem labelRefs_updateLabel (s : Symbols) (key : String) (location : Location)
    (change : LabelSymbol -> LabelSymbol) :
    (s.updateLabel config key location change).labelRefs =
      s.labelRefs.insert location ⟨s.scopeOf config key, key⟩ := by
  unfold updateLabel scopeOf
  cases config.isLocal key <;> rfl

theorem labelRefs_add_of_occurrence (h : m.occurrence? = some o) (s : Symbols) :
    (s.add config m).labelRefs =
      s.labelRefs.insert o.location ⟨s.scopeOf config o.key, o.key⟩ := by
  rw [add_of_occurrence h, labelRefs_updateLabel]

theorem updateLabel_others (s : Symbols) (key : String) (location : Location)
    (change : LabelSymbol -> LabelSymbol) :
    (s.updateLabel config key location change).macros = s.macros ∧
      (s.updateLabel config key location change).segments = s.segments ∧
      (s.updateLabel config key location change).relocations = s.relocations := by
  unfold updateLabel
  cases s.scopeOf config key <;> exact ⟨rfl, rfl, rfl⟩

theorem label?_updateLabel (hs : s.locals ≠ []) (key : String) (location : Location)
    (change : LabelSymbol -> LabelSymbol) (ref : LabelRef) :
    (s.updateLabel config key location change).label? ref =
      if ref = ⟨s.scopeOf config key, key⟩ then some (change ((s.label? ref).getD .unknown))
      else s.label? ref := by
  obtain ⟨scope, other⟩ := ref
  unfold updateLabel scopeOf
  cases hlocal : config.isLocal key with
  | false =>
      cases scope with
      | subroutine index => simp [label?]
      | program =>
          by_cases hkey : other = key
          · subst hkey
            simp [label?, Table.find?_update_self]
          · simp [label?, hkey, Table.find?_update_of_ne _ hkey]
  | true =>
      cases scope with
      | program => simp [label?]
      | subroutine index =>
          have hlen : 0 < s.locals.length := List.length_pos_iff.2 hs
          by_cases hindex : s.locals.length - 1 = index
          · have hlt : index < s.locals.length := by omega
            have hget : s.locals[index]? = some s.locals[index] := List.getElem?_eq_getElem hlt
            by_cases hkey : other = key
            · subst hkey
              simp [label?, hindex, hget, Table.find?_update_self]
            · simp [label?, hindex, hget, hkey, Table.find?_update_of_ne _ hkey]
          · have hindex' : ¬ index = s.locals.length - 1 := fun h => hindex h.symm
            simp [label?, hindex, hindex']

theorem label?_subroutine (s : Symbols) (ref : LabelRef) :
    (s.add config .subroutine).label? ref = s.label? ref := by
  obtain ⟨scope, key⟩ := ref
  cases scope with
  | program => rfl
  | subroutine index =>
      show ((s.locals ++ [Table.empty])[index]?.bind fun table => table.find? key) =
        s.locals[index]?.bind fun table => table.find? key
      by_cases hindex : index < s.locals.length
      · rw [List.getElem?_append_left hindex]
      · have hnone : s.locals[index]? = none := List.getElem?_eq_none (by omega)
        rw [List.getElem?_append_right (by omega), hnone]
        cases index - s.locals.length <;> rfl

theorem length_locals_add (hm : m ≠ .subroutine) (s : Symbols) :
    (s.add config m).locals.length = s.locals.length := by
  cases ho : m.occurrence? with
  | none => rw [(add_of_no_occurrence config ho hm s).2]
  | some o => rw [add_of_occurrence ho, length_locals_updateLabel]

theorem locals_add_ne_nil (config : Config) (hs : s.locals ≠ []) (m : Mention) :
    (s.add config m).locals ≠ [] := by
  by_cases hm : m = .subroutine
  · subst hm
    exact List.append_ne_nil_of_left_ne_nil hs _
  · rw [← List.length_pos_iff, length_locals_add hm]
    exact List.length_pos_iff.2 hs

theorem length_locals_foldl_add {mentions : List Mention} (hno : .subroutine ∉ mentions)
    (s : Symbols) : (mentions.foldl (add config) s).locals.length = s.locals.length := by
  induction mentions generalizing s with
  | nil => rfl
  | cons m mentions ih =>
      have hm : m ≠ .subroutine := fun h => hno (h ▸ List.mem_cons_self)
      rw [List.foldl_cons, ih (fun h => hno (List.mem_cons_of_mem m h)), length_locals_add hm]

theorem scopeOf_add (hm : m ≠ .subroutine) (s : Symbols) (key : String) :
    (s.add config m).scopeOf config key = s.scopeOf config key := by
  unfold scopeOf
  rw [length_locals_add hm]

theorem label?_add_of_no_occurrence (h : m.occurrence? = none) (s : Symbols) (ref : LabelRef) :
    (s.add config m).label? ref = s.label? ref := by
  by_cases hm : m = .subroutine
  · subst hm
    exact label?_subroutine s ref
  · obtain ⟨hglobals, hlocals⟩ := add_of_no_occurrence config h hm s
    unfold label?
    rw [hglobals, hlocals]

theorem label?_add_of_occurrence (h : m.occurrence? = some o) (hs : s.locals ≠ [])
    (ref : LabelRef) :
    (s.add config m).label? ref =
      if ref = ⟨s.scopeOf config o.key, o.key⟩ then some (m.change ((s.label? ref).getD .unknown))
      else s.label? ref := by
  rw [add_of_occurrence h, label?_updateLabel hs]

theorem foldl_addLine (config : Config) (s : Symbols) (lines : List Line) :
    lines.foldl (addLine config) s = (lines.flatMap Line.mentions).foldl (add config) s :=
  List.foldl_flatMap.symm

/-- What holds before the first line and is kept by every mention holds after any lines. -/
theorem ofLines_induction {P : Symbols -> Prop} (hstart : P start)
    (hadd : ∀ s m, s.locals ≠ [] -> P s -> P (s.add config m)) (lines : List Line) :
    P (ofLines config lines) := by
  have hfold (mentions : List Mention) (s : Symbols) (hs : s.locals ≠ []) (h : P s) :
      P (mentions.foldl (add config) s) := by
    induction mentions generalizing s with
    | nil => exact h
    | cons m mentions ih => exact ih _ (locals_add_ne_nil config hs m) (hadd s m hs h)
  rw [ofLines, foldl_addLine]
  exact hfold _ start (by simp [start]) hstart

theorem ofLines_labelRefs_nodup (config : Config) (lines : List Line) :
    (ofLines config lines).labelRefs.keys.Nodup := by
  apply ofLines_induction (P := fun s => s.labelRefs.keys.Nodup)
  · exact List.nodup_nil
  · intro s m _ h
    cases ho : m.occurrence? with
    | none => rwa [labelRefs_add_of_no_occurrence ho]
    | some o =>
        rw [labelRefs_add_of_occurrence ho, Table.insert, Table.keys_update]
        exact nodup_addNew h o.location

/-! ## Which label lists a place -/

theorem not_mem_places_unknown (role : LabelRole) (location : Location) :
    location ∉ LabelSymbol.unknown.places role := by
  cases role <;> simp [LabelSymbol.places, LabelSymbol.unknown, References.none]

theorem lists_iff {role : LabelRole} {ref : LabelRef} {location : Location} :
    s.Lists role ref location ↔ location ∈ ((s.label? ref).getD .unknown).places role := by
  unfold Lists
  cases s.label? ref with
  | none => simp [not_mem_places_unknown]
  | some label => simp

theorem lists_add (hs : s.locals ≠ []) (role : LabelRole) (ref : LabelRef) (location : Location) :
    (s.add config m).Lists role ref location ↔
      s.Lists role ref location ∨
        (ref.scope = s.scopeOf config ref.key ∧
          m.occurrence? = some ⟨role, ref.key, location⟩) := by
  obtain ⟨scope, key⟩ := ref
  rw [lists_iff, lists_iff]
  cases ho : m.occurrence? with
  | none => simp [label?_add_of_no_occurrence ho]
  | some o =>
      obtain ⟨role', key', location'⟩ := o
      rw [label?_add_of_occurrence ho hs]
      by_cases href : (⟨scope, key⟩ : LabelRef) = ⟨s.scopeOf config key', key'⟩
      · obtain ⟨rfl, rfl⟩ := LabelRef.mk.inj href
        simp [Mention.mem_places_change ho]
      · have hother : ¬ (scope = s.scopeOf config key ∧ key' = key) := by
          rintro ⟨hscope, rfl⟩
          exact href (by rw [hscope])
        rw [if_neg href]
        simp only [Option.some.injEq, Occurrence.mk.injEq]
        constructor
        · exact .inl
        · rintro (h | ⟨hscope, -, hkey, -⟩)
          · exact h
          · exact absurd ⟨hscope, hkey⟩ hother

theorem lists_foldl_add (hs : s.locals ≠ []) {mentions : List Mention}
    (hno : .subroutine ∉ mentions) (role : LabelRole) (ref : LabelRef) (location : Location) :
    (mentions.foldl (add config) s).Lists role ref location ↔
      s.Lists role ref location ∨
        (ref.scope = s.scopeOf config ref.key ∧
          ⟨role, ref.key, location⟩ ∈ mentions.filterMap Mention.occurrence?) := by
  induction mentions generalizing s with
  | nil => simp
  | cons m mentions ih =>
      have hm : m ≠ .subroutine := fun h => hno (h ▸ List.mem_cons_self)
      have hrest := ih (locals_add_ne_nil config hs m)
        (fun h => hno (List.mem_cons_of_mem m h))
      rw [List.foldl_cons, hrest, lists_add hs, scopeOf_add hm, or_assoc, ← and_or_left]
      apply or_congr_right
      apply and_congr_right
      intro _
      cases ho : m.occurrence? with
      | none => simp [List.filterMap_cons_none ho]
      | some o => simp [List.filterMap_cons_some ho, eq_comm]

end Symbols

/-! ## Lines -/

variable {m : Mention}

theorem Expr.isLabel_of_mem_mentions {e : Expr} (h : m ∈ e.mentions) : m.isLabel = true := by
  obtain ⟨part, -, hpart⟩ := List.mem_filterMap.1 h
  split at hpart
  · split at hpart <;> cases hpart
    rfl
  · cases hpart
    rfl
  · cases hpart

theorem Label.isLabel_of_mem_mentions {label : Label} {kind : DefinitionKind} {value : Option Expr}
    (h : m ∈ label.mentions kind value) : m.isLabel = true := by
  unfold mentions at h
  split at h
  · split at h
    · cases h
    · rw [List.mem_singleton.1 h]
      rfl
  · rw [List.mem_singleton.1 h]
    rfl

theorem Command.isLabel_of_mem_argumentMentions {command : Command}
    (h : m ∈ command.argumentMentions) : m.isLabel = true := by
  obtain ⟨argument, -, -, hargument⟩ := mem_argumentMentions.1 h
  exact Expr.isLabel_of_mem_mentions hargument

theorem Command.subroutine_not_mem_mentions (command : Command) :
    .subroutine ∉ command.mentions := by
  have harguments : .subroutine ∉ command.argumentMentions := by
    intro h
    cases isLabel_of_mem_argumentMentions h
  have hrelocation : .subroutine ∉ command.relocationMentions := by
    unfold relocationMentions
    dsimp only
    split <;> simp
  have hmacro : .subroutine ∉ command.macroMentions := by
    unfold macroMentions
    split <;> simp
  have hsegment : .subroutine ∉ command.segmentMentions := by
    unfold segmentMentions
    split <;> simp
  unfold mentions
  split
  · simp
  · simp
  · simp
  · simp
  · exact hsegment
  · simp [hrelocation, hmacro, harguments]

namespace Line

theorem subroutine_not_mem_contentMentions (line : Line) :
    .subroutine ∉ line.contentMentions := by
  have hall {e : Option Expr} : .subroutine ∉ e.toList.flatMap Expr.mentions := by
    intro h
    obtain ⟨e, -, he⟩ := List.mem_flatMap.1 h
    cases Expr.isLabel_of_mem_mentions he
  unfold contentMentions
  split
  · intro h
    obtain ⟨command, -, hcommand⟩ := List.mem_flatMap.1 h
    exact command.subroutine_not_mem_mentions hcommand
  · simp
  · exact hall
  · simp
  · exact hall

theorem exists_mentions_eq (line : Line) :
    ∃ names, line.mentions = (if line.startsSubroutine then [.subroutine] else []) ++ names ∧
      .subroutine ∉ names := by
  refine ⟨line.label.toList.flatMap (fun label =>
    label.mentions (.ofDirective (line.command?.bind Command.directive?))
      (line.command?.bind fun c => c.arguments.head?.map Argument.value)) ++
    line.contentMentions, ?_, ?_⟩
  · unfold mentions startsSubroutine
    simp only [decide_eq_true_eq, List.append_assoc]
  · rw [List.mem_append]
    rintro (h | h)
    · obtain ⟨label, -, hlabel⟩ := List.mem_flatMap.1 h
      cases Label.isLabel_of_mem_mentions hlabel
    · exact line.subroutine_not_mem_contentMentions h

end Line

namespace Symbols

variable {config : Config}

/-- What is known after some lines: a table of local labels for each subroutine, and every label
lists the places where a line names it behind as many subroutines as its scope says. -/
structure Scoped (config : Config) (lines : List Line) (s : Symbols) : Prop where
  length : s.locals.length = subroutines lines + 1
  lists : ∀ role ref location, s.Lists role ref location ↔
    ∃ count line, MetBehind lines count line ∧ ⟨role, ref.key, location⟩ ∈ line.occurrences ∧
      ref.scope = config.scopeBehind count ref.key

variable {lines : List Line} {s : Symbols}

theorem Scoped.locals_ne_nil (h : Scoped config lines s) : s.locals ≠ [] := by
  rw [← List.length_pos_iff, h.length]
  omega

theorem Scoped.scopeOf_eq (h : Scoped config lines s) (key : String) :
    s.scopeOf config key = config.scopeBehind (subroutines lines) key := by
  unfold scopeOf Config.scopeBehind
  rw [h.length, Nat.add_sub_cancel]

theorem start_scoped : Scoped config [] start where
  length := rfl
  lists := by
    intro role ref location
    constructor
    · rintro ⟨label, hlabel, -⟩
      obtain ⟨scope, key⟩ := ref
      rcases scope with _ | index
      · cases hlabel
      · cases index <;> cases hlabel
    · rintro ⟨count, line, ⟨i, hline, -⟩, -⟩
      cases hline

theorem Scoped.addLine (h : Scoped config lines s) (line : Line) :
    Scoped config (lines ++ [line]) (s.addLine config line) := by
  obtain ⟨names, hmentions, hno⟩ := line.exists_mentions_eq
  have hcount : subroutines (lines ++ [line]) =
      subroutines lines + if line.startsSubroutine then 1 else 0 := by
    simp [subroutines, List.countP_append, List.countP_singleton]
  -- The table of a subroutine that the line starts is there before the line names anything.
  obtain ⟨entered, hadd, hlength, hlabels⟩ : ∃ entered,
      s.addLine config line = names.foldl (add config) entered ∧
      entered.locals.length = subroutines (lines ++ [line]) + 1 ∧
      ∀ ref, entered.label? ref = s.label? ref := by
    unfold Symbols.addLine
    rw [hmentions, hcount]
    by_cases hstarts : line.startsSubroutine
    · refine ⟨s.add config .subroutine, by simp [hstarts], ?_, label?_subroutine s⟩
      simp [add, h.length, hstarts]
    · refine ⟨s, by simp [hstarts], ?_, fun _ => rfl⟩
      simp [h.length, hstarts]
  have hentered : entered.locals ≠ [] := by
    rw [← List.length_pos_iff, hlength]
    omega
  have hscope (key : String) :
      entered.scopeOf config key = config.scopeBehind (subroutines (lines ++ [line])) key := by
    unfold scopeOf Config.scopeBehind
    rw [hlength, Nat.add_sub_cancel]
  have hoccurrences : line.occurrences = names.filterMap Mention.occurrence? := by
    unfold Line.occurrences
    rw [hmentions, List.filterMap_append]
    by_cases hstarts : line.startsSubroutine <;> simp [hstarts, Mention.occurrence?]
  constructor
  · rw [hadd, length_locals_foldl_add hno, hlength]
  · intro role ref location
    have hsame : entered.Lists role ref location ↔ s.Lists role ref location := by
      unfold Lists
      rw [hlabels]
    rw [hadd, lists_foldl_add hentered hno, hsame, h.lists, hscope, ← hoccurrences]
    simp only [metBehind_concat, or_and_right, exists_or]
    apply or_congr_right
    constructor
    · rintro ⟨href, hoccurs⟩
      exact ⟨_, line, ⟨rfl, rfl⟩, hoccurs, href⟩
    · rintro ⟨_, _, ⟨rfl, rfl⟩, hoccurs, href⟩
      exact ⟨href, hoccurs⟩

theorem Scoped.foldl (h : Scoped config lines s) (more : List Line) :
    Scoped config (lines ++ more) (more.foldl (Symbols.addLine config) s) := by
  induction more generalizing lines s with
  | nil =>
      rw [List.append_nil]
      exact h
  | cons line more ih =>
      have hrest := ih (h.addLine line)
      rwa [List.append_assoc, List.singleton_append] at hrest

theorem ofLines_scoped (config : Config) (lines : List Line) :
    Scoped config lines (ofLines config lines) :=
  start_scoped.foldl lines

/-! ## Names and tables -/

/-- The tables of subroutines hold local names, and the table of the program all other ones. -/
def NamesInPlace (config : Config) (s : Symbols) : Prop :=
  ∀ ref label, s.label? ref = some label -> (config.isLocal ref.key = true ↔ ref.scope ≠ .program)

theorem NamesInPlace.add (h : NamesInPlace config s) (hs : s.locals ≠ []) (m : Mention) :
    NamesInPlace config (s.add config m) := by
  intro ref label hlabel
  cases ho : m.occurrence? with
  | none =>
      rw [label?_add_of_no_occurrence ho] at hlabel
      exact h ref label hlabel
  | some o =>
      rw [label?_add_of_occurrence ho hs] at hlabel
      by_cases href : ref = ⟨s.scopeOf config o.key, o.key⟩
      · subst href
        unfold scopeOf
        cases config.isLocal o.key <;> simp
      · rw [if_neg href] at hlabel
        exact h ref label hlabel

theorem ofLines_namesInPlace (config : Config) (lines : List Line) :
    NamesInPlace config (ofLines config lines) := by
  refine ofLines_induction ?_ (fun s m hs h => h.add hs m) lines
  rintro ⟨scope, key⟩ label hlabel
  rcases scope with _ | _ | index <;> cases hlabel

theorem exists_find?_of_mem {table : LabelTable} {entry : String × LabelSymbol}
    (h : entry ∈ table.entries) : ∃ label, table.find? entry.1 = some label := by
  obtain ⟨entries⟩ := table
  show ∃ label, Table.findIn entry.1 entries = some label
  induction entries with
  | nil => cases h
  | cons first rest ih =>
      by_cases hfirst : first.1 = entry.1
      · exact ⟨first.2, by simp [Table.findIn, hfirst]⟩
      · have hrest : entry ∈ rest := by
          rcases List.mem_cons.1 h with rfl | h
          · exact absurd rfl hfirst
          · exact h
        obtain ⟨label, hlabel⟩ := ih hrest
        exact ⟨label, by simp [Table.findIn, hfirst, hlabel]⟩

theorem NamesInPlace.globals (h : NamesInPlace config s) :
    ∀ entry ∈ s.globals.entries, config.isLocal entry.1 = false := by
  intro entry hentry
  obtain ⟨label, hlabel⟩ := exists_find?_of_mem hentry
  have hname := h ⟨.program, entry.1⟩ label hlabel
  simpa using hname

theorem NamesInPlace.locals (h : NamesInPlace config s) :
    ∀ table ∈ s.locals, ∀ entry ∈ table.entries, config.isLocal entry.1 = true := by
  intro table htable entry hentry
  obtain ⟨index, hindex⟩ := List.getElem?_of_mem htable
  obtain ⟨label, hlabel⟩ := exists_find?_of_mem hentry
  have hfound : s.label? ⟨.subroutine index, entry.1⟩ = some label := by
    simp [label?, hindex, hlabel]
  have hname := h _ label hfound
  simpa using hname

end Symbols

theorem Config.scopeBehind_inj {config : Config} {key : String} (h : config.isLocal key = true)
    (a b : Nat) : config.scopeBehind a key = config.scopeBehind b key ↔ a = b := by
  simp [scopeBehind, h]

/-- At every point of a program there is one more table of local labels than subroutines were
started up to there.  A label lists exactly the places where a line of the program names it and it
is the label in scope, so that two places with one local name belong together when the same number
of subroutines was started in front of both. -/
theorem Program.resolve_scopes (document : Document) (config : Config) (files : FileSource)
    (cache : DocumentCache) :
    let lines := document.expansion files cache
    let symbols := (resolve document config files cache).1.symbols
    (∀ i, (Symbols.ofLines config (lines.take i)).locals.length =
      subroutines (lines.take i) + 1) ∧
    (∀ role scope key location, symbols.Lists role ⟨scope, key⟩ location ↔
      ∃ count line, MetBehind lines count line ∧ line.Names ⟨role, key, location⟩ ∧
        scope = config.scopeBehind count key) ∧
    (∀ i j key, config.isLocal key = true ->
      ((Symbols.ofLines config (lines.take i)).scopeOf config key =
          (Symbols.ofLines config (lines.take j)).scopeOf config key ↔
        subroutines (lines.take i) = subroutines (lines.take j))) ∧
    (∀ entry ∈ symbols.globals.entries, config.isLocal entry.1 = false) ∧
    (∀ table ∈ symbols.locals, ∀ entry ∈ table.entries, config.isLocal entry.1 = true) := by
  intro lines symbols
  have hscoped (met : List Line) := Symbols.ofLines_scoped config met
  have hsymbols : symbols = .ofLines config lines := resolve_symbols document config files cache
  have hnames : symbols.NamesInPlace config := hsymbols ▸ Symbols.ofLines_namesInPlace config lines
  refine ⟨fun i => (hscoped _).length, ?_, ?_, hnames.globals, hnames.locals⟩
  · intro role scope key location
    rw [hsymbols, (hscoped lines).lists role ⟨scope, key⟩ location]
    simp only [Line.mem_occurrences]
  · intro i j key hlocal
    rw [(hscoped _).scopeOf_eq, (hscoped _).scopeOf_eq, Config.scopeBehind_inj hlocal]

end Asm6502
