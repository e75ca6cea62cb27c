import Asm6502.Proofs.LabelPlaces

/-!
# Label tables and references

The table of references says which label stands at a place, and every label lists its places.
The two are written in separate steps, and a file that is included again in another subroutine
overwrites the references of its local labels.  They agree all the same: a reference leads to a
label that lists its place, and a place that a label lists has a reference to a label of that name.
-/

namespace Asm6502

/-! ## Labels -/

/-- A label that lists its places once each, has a definition if it is marked as constant or
variable, and is constant if it has a value. -/
structure LabelSymbol.Sound (label : LabelSymbol) : Prop where
  definitions : label.definitions.Nodup
  usages : label.usages.Nodup
  marked : label.isConstant = true ∨ label.isVariable = true -> label.definitions ≠ []
  valued : label.value.isSome = true -> label.isConstant = true

variable {label : LabelSymbol}

theorem LabelSymbol.unknown_sound : LabelSymbol.unknown.Sound :=
  ⟨List.nodup_nil, List.nodup_nil, by simp [unknown], by simp [unknown]⟩

theorem LabelSymbol.Sound.define (h : label.Sound) (dynamic : Bool) (kind : DefinitionKind)
    (value : Option Expr) (location : Location) :
    (label.define dynamic kind value location).Sound where
  definitions := nodup_addNew h.definitions location
  usages := h.usages
  marked := fun _ => addNew_ne_nil _ location
  valued := by
    intro hvalue
    by_cases hkind : kind = .constant
    · simp [LabelSymbol.define, hkind]
    · have hold : label.value.isSome = true := by simpa [LabelSymbol.define, hkind] using hvalue
      simp [LabelSymbol.define, h.valued hold]

theorem LabelSymbol.Sound.use (h : label.Sound) (dynamic : Bool) (location : Location) :
    (label.use dynamic location).Sound where
  definitions := h.definitions
  usages := nodup_addNew h.usages location
  marked := h.marked
  valued := h.valued

theorem LabelSymbol.Sound.change (h : label.Sound) (m : Mention) : (m.change label).Sound := by
  cases m with
  | labelDefinition key dynamic kind value location => exact h.define dynamic kind value location
  | labelUse key dynamic location => exact h.use dynamic location
  | _ => exact h

theorem LabelSymbol.exists_role {location : Location} :
    (∃ role, location ∈ label.places role) ↔
      location ∈ label.definitions ∨ location ∈ label.usages := by
  constructor
  · rintro ⟨role, h⟩
    cases role with
    | definition => exact .inl h
    | usage => exact .inr h
  · rintro (h | h)
    · exact ⟨.definition, h⟩
    · exact ⟨.usage, h⟩

namespace Symbols

variable {config : Config}

/-! ## Tables -/

variable {s : Symbols}

/-- No table of labels has two entries for one name. -/
def NamesDistinct (s : Symbols) : Prop :=
  s.globals.keys.Nodup ∧
    ∀ (index : Nat) (table : LabelTable), s.locals[index]? = some table -> table.keys.Nodup

theorem NamesDistinct.updateLabel (h : s.NamesDistinct) (key : String) (location : Location)
    (change : LabelSymbol -> LabelSymbol) :
    (s.updateLabel config key location change).NamesDistinct := by
  have hupdate {table : LabelTable} (htable : table.keys.Nodup) :
      (table.update key .unknown change).keys.Nodup := by
    rw [Table.keys_update]
    exact nodup_addNew htable key
  unfold Symbols.updateLabel
  cases s.scopeOf config key with
  | program => exact ⟨hupdate h.1, h.2⟩
  | subroutine last =>
      refine ⟨h.1, fun index table htable => ?_⟩
      rw [List.getElem?_modify] at htable
      obtain ⟨old, hold, rfl⟩ := Option.map_eq_some_iff.1 htable
      split
      · exact hupdate (h.2 index old hold)
      · exact h.2 index old hold

theorem NamesDistinct.add (h : s.NamesDistinct) (m : Mention) : (s.add config m).NamesDistinct := by
  cases ho : m.occurrence? with
  | some o =>
      rw [add_of_occurrence ho]
      exact h.updateLabel o.key o.location m.change
  | none =>
      by_cases hm : m = .subroutine
      · subst hm
        refine ⟨h.1, fun index table htable => ?_⟩
        rcases List.mem_append.1 (List.mem_of_getElem? htable) with hmem | hmem
        · obtain ⟨i, hi⟩ := List.getElem?_of_mem hmem
          exact h.2 i table hi
        · rw [List.mem_singleton.1 hmem]
          exact List.nodup_nil
      · obtain ⟨hglobals, hlocals⟩ := add_of_no_occurrence config ho hm s
        unfold NamesDistinct
        rw [hglobals, hlocals]
        exact h

theorem ofLines_namesDistinct (config : Config) (lines : List Line) :
    (ofLines config lines).NamesDistinct := by
  refine ofLines_induction ⟨List.nodup_nil, fun index table htable => ?_⟩
    (fun s m _ h => h.add m) lines
  rw [List.mem_singleton.1 (List.mem_of_getElem? htable)]
  exact List.nodup_nil

theorem NamesDistinct.mem_labels_iff (h : s.NamesDistinct) {key : String} {label : LabelSymbol} :
    (key, label) ∈ s.labels ↔ ∃ scope, s.label? ⟨scope, key⟩ = some label := by
  unfold labels
  rw [List.mem_append, List.mem_flatMap]
  constructor
  · rintro (hmem | ⟨table, htable, hmem⟩)
    · exact ⟨.program, findIn_of_mem h.1 hmem⟩
    · obtain ⟨index, hindex⟩ := List.getElem?_of_mem htable
      have hfind : table.find? key = some label := findIn_of_mem (h.2 index table hindex) hmem
      exact ⟨.subroutine index, by simp [label?, hindex, hfind]⟩
  · rintro ⟨scope, hlabel⟩
    cases scope with
    | program => exact .inl (Table.mem_of_findIn hlabel)
    | subroutine index =>
        obtain ⟨table, htable, hfind⟩ := Option.bind_eq_some_iff.1 hlabel
        exact .inr ⟨table, List.mem_of_getElem? htable, Table.mem_of_findIn hfind⟩

/-! ## References -/

/-- The references and the labels agree on all places, and every label is sound. -/
structure Referenced (s : Symbols) : Prop where
  lists : ∀ location ref, (location, ref) ∈ s.labelRefs.entries -> ∃ role, s.Lists role ref location
  covers : ∀ role ref location, s.Lists role ref location -> location ∈ s.labelRefs.keys
  sound : ∀ ref label, s.label? ref = some label -> label.Sound

theorem start_referenced : start.Referenced where
  lists := by simp [start, Table.empty]
  covers := by
    rintro role ⟨scope, key⟩ location ⟨label, hlabel, -⟩
    rcases scope with _ | _ | index <;> cases hlabel
  sound := by
    rintro ⟨scope, key⟩ label hlabel
    rcases scope with _ | _ | index <;> cases hlabel

theorem sound_add (hs : s.locals ≠ []) (h : ∀ ref label, s.label? ref = some label -> label.Sound)
    (m : Mention) : ∀ ref label, (s.add config m).label? ref = some label -> label.Sound := by
  intro ref label hlabel
  cases ho : m.occurrence? with
  | none =>
      rw [label?_add_of_no_occurrence ho] at hlabel
      exact h ref label hlabel
  | some o =>
      rw [label?_add_of_occurrence ho hs] at hlabel
      split at hlabel
      · cases hlabel
        cases hold : s.label? ref with
        | none => exact LabelSymbol.unknown_sound.change m
        | some old => exact (h ref old hold).change m
      · exact h ref label hlabel

theorem Referenced.add (h : s.Referenced) (hs : s.locals ≠ []) (m : Mention) :
    (s.add config m).Referenced := by
  cases ho : m.occurrence? with
  | none =>
      have hlists (role : LabelRole) (ref : LabelRef) (location : Location) :
          (s.add config m).Lists role ref location ↔ s.Lists role ref location := by
        simp [lists_add hs, ho]
      refine ⟨?_, ?_, sound_add hs h.sound m⟩
      · intro location ref hmem
        rw [labelRefs_add_of_no_occurrence ho] at hmem
        obtain ⟨role, hrole⟩ := h.lists location ref hmem
        exact ⟨role, (hlists role ref location).2 hrole⟩
      · intro role ref location hrole
        rw [labelRefs_add_of_no_occurrence ho]
        exact h.covers role ref location ((hlists role ref location).1 hrole)
  | some o =>
      refine ⟨?_, ?_, sound_add hs h.sound m⟩
      · intro location ref hmem
        rw [labelRefs_add_of_occurrence ho] at hmem
        rcases Table.mem_updateIn hmem with hmem | ⟨_, hmem⟩
        · obtain ⟨role, hrole⟩ := h.lists location ref hmem
          exact ⟨role, (lists_add hs role ref location).2 (.inl hrole)⟩
        · -- The reference that was written leads to the label that lists the place since now.
          cases hmem
          exact ⟨o.role, (lists_add hs _ _ _).2 (.inr ⟨rfl, ho⟩)⟩
      · intro role ref location hrole
        rw [labelRefs_add_of_occurrence ho, Table.insert, Table.keys_update, mem_addNew]
        rcases (lists_add hs role ref location).1 hrole with hrole | ⟨-, heq⟩
        · exact .inl (h.covers role ref location hrole)
        · rw [ho, Option.some.injEq] at heq
          rw [heq]
          exact .inr rfl

theorem ofLines_referenced (config : Config) (lines : List Line) :
    (ofLines config lines).Referenced :=
  ofLines_induction start_referenced (fun _ m hs h => h.add hs m) lines

/-- Where the labels at one place have one name, a place that a label lists has a reference to a
label of that name. -/
theorem exists_ref_of_lists {lines : List Line}
    (hkeys : ∀ first ∈ lines, ∀ second ∈ lines, ∀ a ∈ first.occurrences, ∀ b ∈ second.occurrences,
      a.location = b.location -> a.key = b.key)
    {role : LabelRole} {ref : LabelRef} {location : Location}
    (h : (ofLines config lines).Lists role ref location) :
    ∃ found, (ofLines config lines).labelRefs.find? location = some found ∧
      found.key = ref.key := by
  have hreferenced := ofLines_referenced config lines
  obtain ⟨⟨place, found⟩, hmem, hplace⟩ := List.mem_map.1 (hreferenced.covers role ref location h)
  cases hplace
  obtain ⟨role', hlists⟩ := hreferenced.lists place found hmem
  obtain ⟨_, first, ⟨i, hfirst, -⟩, ha, -⟩ := ((ofLines_scoped config lines).lists _ _ _).1 hlists
  obtain ⟨_, second, ⟨j, hsecond, -⟩, hb, -⟩ := ((ofLines_scoped config lines).lists _ _ _).1 h
  refine ⟨found, findIn_of_mem (ofLines_labelRefs_nodup config lines) hmem, ?_⟩
  have hfirst_mem := List.mem_of_getElem? hfirst
  have hsecond_mem := List.mem_of_getElem? hsecond
  exact hkeys first hfirst_mem second hsecond_mem _ ha _ hb rfl

end Symbols

namespace Program

/-- The references and the labels of a program agree: a reference leads to a label of its name that
lists its place, and all places of a label have references with its name.  No label lists a place
twice, marks and values come from definitions, and there is always a table of local labels. -/
theorem resolve_label_references {cache : DocumentCache} (hcache : cache.OfTexts) (text : String)
    (uri : Uri) (config : Config) (files : FileSource) :
    let symbols := (resolve (.ofText text uri) config files cache).1.symbols
    (∀ location ref, (location, ref) ∈ symbols.labelRefs.entries ->
      ∃ label, symbols.label? ref = some label ∧ (ref.key, label) ∈ symbols.labels ∧
        (location ∈ label.definitions ∨ location ∈ label.usages)) ∧
    (∀ key label, (key, label) ∈ symbols.labels ->
      (∀ location, location ∈ label.definitions ∨ location ∈ label.usages ->
        ∃ ref, symbols.labelRefs.find? location = some ref ∧ ref.key = key) ∧
      label.definitions.Nodup ∧ label.usages.Nodup ∧
      (label.isConstant = true ∨ label.isVariable = true -> label.definitions ≠ []) ∧
      (label.value.isSome = true -> label.isConstant = true)) ∧
    symbols.locals ≠ [] := by
  intro symbols
  have hsymbols : symbols = .ofLines config ((Document.ofText text uri).expansion files cache) :=
    resolve_symbols _ config files cache
  have hreferenced := Symbols.ofLines_referenced config
    ((Document.ofText text uri).expansion files cache)
  have hnames := Symbols.ofLines_namesDistinct config
    ((Document.ofText text uri).expansion files cache)
  rw [hsymbols]
  refine ⟨?_, ?_, (Symbols.ofLines_scoped config _).locals_ne_nil⟩
  · intro location ref hmem
    obtain ⟨role, label, hlabel, hplace⟩ := hreferenced.lists location ref hmem
    exact ⟨label, hlabel, hnames.mem_labels_iff.2 ⟨ref.scope, hlabel⟩,
      LabelSymbol.exists_role.1 ⟨role, hplace⟩⟩
  · intro key label hmem
    obtain ⟨scope, hlabel⟩ := hnames.mem_labels_iff.1 hmem
    have hsound := hreferenced.sound ⟨scope, key⟩ label hlabel
    refine ⟨?_, hsound.definitions, hsound.usages, hsound.marked, hsound.valued⟩
    intro location hplace
    obtain ⟨role, hrole⟩ := LabelSymbol.exists_role.2 hplace
    refine Symbols.exists_ref_of_lists ?_ ⟨label, hlabel, hrole⟩
    intro first hfirst second hsecond a ha b hb h
    exact Document.expansion_key_eq files hcache text uri hfirst hsecond ha hb h

/-- A file with a local label is included again in a second subroutine.  The label of the first
scope lists the place, and the reference has gone over to the label of the second. -/
theorem resolve_label_references_twoScopes :
    let files := (MemoryFiles.empty.write ⟨"file:///wait.asm"⟩ ".wait: BNE .wait\n").source
    let text := " INCLUDE \"wait.asm\"\n SUBROUTINE\n INCLUDE \"wait.asm\"\n"
    let symbols := (resolve (.ofText text ⟨"file:///main.asm"⟩) ⟨["."]⟩ files .empty).1.symbols
    let location : Location := ⟨⟨"file:///wait.asm"⟩, ⟨⟨0, 0⟩, ⟨0, 5⟩⟩⟩
    let ref : LabelRef := ⟨.subroutine 1, ".wait"⟩
    DocumentCache.OfTexts .empty ∧
      ((symbols.label? ⟨.subroutine 0, ".wait"⟩).any fun label => location ∈ label.definitions) ∧
      (location, ref) ∈ symbols.labelRefs.entries ∧
      ∃ label, symbols.label? ref = some label ∧ (ref.key, label) ∈ symbols.labels ∧
        (location ∈ label.definitions ∨ location ∈ label.usages) := by
  intro files text symbols location ref
  have hrun : ((symbols.label? ⟨.subroutine 0, ".wait"⟩).any fun label =>
      location ∈ label.definitions) ∧ (location, ref) ∈ symbols.labelRefs.entries := by
    decide +kernel
  obtain ⟨hlisted, hmem⟩ := hrun
  have hreferences :=
    resolve_label_references DocumentCache.ofTexts_empty text ⟨"file:///main.asm"⟩ ⟨["."]⟩ files
  exact ⟨DocumentCache.ofTexts_empty, hlisted, hmem, hreferences.1 location ref hmem⟩

end Program

end Asm6502
