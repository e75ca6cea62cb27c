import Asm6502.Symbol

/-!
# What the table of labels holds

Without local marks every label is a label of the program.  Then the entry of a name holds exactly
what the mentions of that name say, whatever their order: the places where the label is used, each
once, whether it is defined, and whether it is made of fragments somewhere.
-/

namespace Asm6502

namespace Mention

def IsUse (key : String) (location : Location) : Mention -> Prop
  | .labelUse k _ l => k = key ∧ l = location
  | _ => False

def IsDefinition (key : String) : Mention -> Prop
  | .labelDefinition k _ _ _ _ => k = key
  | _ => False

def IsDynamic (key : String) : Mention -> Prop
  | .labelDefinition k dynamic _ _ _ => k = key ∧ dynamic = true
  | .labelUse k dynamic _ => k = key ∧ dynamic = true
  | _ => False

end Mention

/-- A label of which is known what some mentions say about its name. -/
structure LabelSymbol.Holds (mentions : List Mention) (key : String) (label : LabelSymbol) :
    Prop where
  usages : ∀ location, location ∈ label.usages ↔ ∃ m ∈ mentions, m.IsUse key location
  nodup : label.usages.Nodup
  definitions : label.definitions ≠ [] ↔ ∃ m ∈ mentions, m.IsDefinition key
  isDynamic : label.isDynamic = true ↔ ∃ m ∈ mentions, m.IsDynamic key

theorem Config.isLocal_eq_false {config : Config} (h : config.localMarks = []) (name : String) :
    config.isLocal name = false := by
  simp [isLocal, h]

namespace Symbols

/-- What is known about a label of the program, also where it is not mentioned. -/
def entry (s : Symbols) (key : String) : LabelSymbol := (s.globals.find? key).getD .unknown

variable {config : Config}

/-! ## One mention -/

theorem updateLabel_eq (h : config.localMarks = []) (s : Symbols) (key : String)
    (location : Location) (change : LabelSymbol -> LabelSymbol) :
    s.updateLabel config key location change =
      { s with
        globals := s.globals.update key .unknown change
        labelRefs := s.labelRefs.insert location ⟨.program, key⟩ } := by
  simp [updateLabel, scopeOf, Config.isLocal_eq_false h]

theorem entry_updateLabel (h : config.localMarks = []) (s : Symbols) (key other : String)
    (location : Location) (change : LabelSymbol -> LabelSymbol) :
    (s.updateLabel config key location change).entry other =
      if key = other then change (s.entry other) else s.entry other := by
  rw [updateLabel_eq h]
  unfold entry
  by_cases hkey : key = other
  · subst hkey
    rw [if_pos rfl, Table.find?_update_self]
    rfl
  · rw [if_neg hkey, Table.find?_update_of_ne _ fun heq => hkey heq.symm]

end Symbols

theorem exists_mem_concat {α : Type} {p : α -> Prop} {l : List α} {a : α} :
    (∃ x ∈ l ++ [a], p x) ↔ (∃ x ∈ l, p x) ∨ p a := by
  simp [or_and_right, exists_or]

theorem addNew_ne_nil {α : Type} [DecidableEq α] (l : List α) (a : α) : addNew l a ≠ [] := by
  have hmem : a ∈ addNew l a := mem_addNew.2 (.inr rfl)
  exact List.ne_nil_of_mem hmem

namespace LabelSymbol.Holds

variable {mentions : List Mention} {key : String} {label : LabelSymbol}

/-- A mention of something else changes nothing. -/
theorem skip (h : label.Holds mentions key) {m : Mention} (huse : ∀ l, ¬ m.IsUse key l)
    (hdefinition : ¬ m.IsDefinition key) (hdynamic : ¬ m.IsDynamic key) :
    label.Holds (mentions ++ [m]) key where
  usages := by
    intro l
    rw [exists_mem_concat, h.usages]
    simp [huse l]
  nodup := h.nodup
  definitions := by
    rw [exists_mem_concat, h.definitions]
    simp [hdefinition]
  isDynamic := by
    rw [exists_mem_concat, h.isDynamic]
    simp [hdynamic]

theorem define (h : label.Holds mentions key) (dynamic : Bool) (kind : DefinitionKind)
    (value : Option Expr) (location : Location) :
    (label.define dynamic kind value location).Holds
      (mentions ++ [.labelDefinition key dynamic kind value location]) key where
  usages := by
    intro l
    rw [exists_mem_concat]
    simp only [Mention.IsUse, or_false]
    exact h.usages l
  nodup := h.nodup
  definitions := by
    rw [exists_mem_concat]
    simp only [Mention.IsDefinition, or_true, iff_true]
    exact addNew_ne_nil _ location
  isDynamic := by
    rw [exists_mem_concat, ← h.isDynamic]
    simp [LabelSymbol.define, Mention.IsDynamic]

theorem use (h : label.Holds mentions key) (dynamic : Bool) (location : Location) :
    (label.use dynamic location).Holds (mentions ++ [.labelUse key dynamic location]) key where
  usages := by
    intro l
    rw [exists_mem_concat, ← h.usages]
    simp only [Mention.IsUse, true_and]
    exact mem_addNew.trans (or_congr_right eq_comm)
  nodup := nodup_addNew h.nodup location
  definitions := by
    rw [exists_mem_concat]
    simp only [Mention.IsDefinition, or_false]
    exact h.definitions
  isDynamic := by
    rw [exists_mem_concat, ← h.isDynamic]
    simp [LabelSymbol.use, Mention.IsDynamic]

end LabelSymbol.Holds

namespace Symbols

variable {config : Config}

variable {s : Symbols}

theorem entry_add_holds (h : config.localMarks = []) {mentions : List Mention} {key : String}
    (hentry : (s.entry key).Holds mentions key) (m : Mention) :
    ((s.add config m).entry key).Holds (mentions ++ [m]) key := by
  cases m with
  | labelDefinition k dynamic kind value location =>
      simp only [add, entry_updateLabel h]
      by_cases hkey : k = key
      · subst hkey
        rw [if_pos rfl]
        exact hentry.define dynamic kind value location
      · rw [if_neg hkey]
        exact hentry.skip (by simp [Mention.IsUse]) (by simp [Mention.IsDefinition, hkey])
          (by simp [Mention.IsDynamic, hkey])
  | labelUse k dynamic location =>
      simp only [add, entry_updateLabel h]
      by_cases hkey : k = key
      · subst hkey
        rw [if_pos rfl]
        exact hentry.use dynamic location
      · rw [if_neg hkey]
        exact hentry.skip (by simp [Mention.IsUse, hkey]) (by simp [Mention.IsDefinition])
          (by simp [Mention.IsDynamic, hkey])
  | relocation relocation =>
      have hglobals : (s.add config (.relocation relocation)).globals = s.globals := by
        unfold add
        dsimp only
        split <;> rfl
      have hsame : (s.add config (.relocation relocation)).entry key = s.entry key := by
        rw [entry, entry, hglobals]
      rw [hsame]
      exact hentry.skip (by simp [Mention.IsUse]) (by simp [Mention.IsDefinition])
        (by simp [Mention.IsDynamic])
  | subroutine | macroDefinition | macroUse | segment =>
      exact hentry.skip (by simp [Mention.IsUse]) (by simp [Mention.IsDefinition])
        (by simp [Mention.IsDynamic])

/-! ## All mentions -/

/-- What is known after some mentions: one entry for each label of the program, which holds what the
mentions say, and no local labels. -/
structure Gathered (mentions : List Mention) (s : Symbols) : Prop where
  locals : ∀ table ∈ s.locals, table.entries = []
  keys : s.globals.keys.Nodup
  holds : ∀ key, (s.entry key).Holds mentions key

theorem start_gathered : start.Gathered [] where
  locals := by
    intro table htable
    rw [List.mem_singleton.1 htable]
    rfl
  keys := List.nodup_nil
  holds := by
    intro key
    refine ⟨?_, ?_, ?_, ?_⟩ <;> simp [entry, start, Table.empty, Table.find?, Table.findIn,
      LabelSymbol.unknown, References.none]

theorem Gathered.add (h : config.localMarks = []) {mentions : List Mention}
    (hs : s.Gathered mentions) (m : Mention) : (s.add config m).Gathered (mentions ++ [m]) where
  locals := by
    intro table htable
    cases m with
    | subroutine =>
        rcases List.mem_append.1 htable with htable | htable
        · exact hs.locals table htable
        · rw [List.mem_singleton.1 htable]
          rfl
    | labelDefinition | labelUse =>
        simp only [Symbols.add, updateLabel_eq h] at htable
        exact hs.locals table htable
    | relocation relocation =>
        unfold Symbols.add at htable
        dsimp only at htable
        split at htable <;> exact hs.locals table htable
    | macroDefinition | macroUse | segment => exact hs.locals table htable
  keys := by
    cases m with
    | labelDefinition | labelUse =>
        simp only [Symbols.add, updateLabel_eq h, Table.keys_update]
        exact nodup_addNew hs.keys _
    | relocation relocation =>
        unfold Symbols.add
        dsimp only
        split <;> exact hs.keys
    | subroutine | macroDefinition | macroUse | segment => exact hs.keys
  holds := fun key => entry_add_holds h (hs.holds key) m

theorem Gathered.foldl (h : config.localMarks = []) {mentions : List Mention}
    (hs : s.Gathered mentions) (more : List Mention) :
    (more.foldl (Symbols.add config) s).Gathered (mentions ++ more) := by
  induction more generalizing s mentions with
  | nil =>
      rw [List.append_nil]
      exact hs
  | cons m more ih =>
      have hrest := ih (hs.add h m)
      rwa [List.append_assoc, List.singleton_append] at hrest

theorem ofLines_gathered (h : config.localMarks = []) (lines : List Line) :
    (ofLines config lines).Gathered (lines.flatMap Line.mentions) := by
  have hfold :
      ofLines config lines = (lines.flatMap Line.mentions).foldl (Symbols.add config) start :=
    List.foldl_flatMap.symm
  rw [hfold]
  exact start_gathered.foldl h (lines.flatMap Line.mentions)

/-! ## Entries by name -/

theorem findIn_of_mem {κ α : Type} [DecidableEq κ] {l : List (κ × α)} {key : κ} {a : α}
    (hnodup : (l.map Prod.fst).Nodup) (h : (key, a) ∈ l) : Table.findIn key l = some a := by
  induction l with
  | nil => cases h
  | cons first rest ih =>
      rw [List.map_cons, List.nodup_cons] at hnodup
      rcases List.mem_cons.1 h with rfl | h
      · simp [Table.findIn]
      · have hne : first.1 ≠ key := by
          rintro rfl
          exact hnodup.1 (List.mem_map.2 ⟨_, h, rfl⟩)
        rw [Table.findIn, if_neg hne]
        exact ih hnodup.2 h

theorem Gathered.labels {mentions : List Mention} (hs : s.Gathered mentions) :
    s.labels = s.globals.entries := by
  have hlocals : s.locals.flatMap Table.entries = [] := List.flatMap_eq_nil_iff.2 hs.locals
  rw [Symbols.labels, hlocals, List.append_nil]

theorem Gathered.mem_labels {mentions : List Mention} (hs : s.Gathered mentions) {key : String}
    {label : LabelSymbol} (h : (key, label) ∈ s.labels) : label = s.entry key := by
  rw [hs.labels] at h
  have hfind : s.globals.find? key = some label := findIn_of_mem hs.keys h
  rw [entry, hfind]
  rfl

theorem Gathered.entry_mem_labels {mentions : List Mention} (hs : s.Gathered mentions)
    {key : String} {location : Location} (h : location ∈ (s.entry key).usages) :
    (key, s.entry key) ∈ s.labels := by
  rw [hs.labels]
  cases hfind : s.globals.find? key with
  | none =>
      rw [entry, hfind] at h
      cases h
  | some label =>
      rw [entry, hfind]
      exact Table.mem_of_findIn hfind

end Symbols

end Asm6502
