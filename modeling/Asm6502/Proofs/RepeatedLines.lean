import Asm6502.Proofs.RelocationRegions

/-!
# Lines met again

Every table of symbols keeps a place once, and what is known about a name only grows.  So lines that
are met a second time in a row add nothing, unless one of them starts a subroutine.
-/

namespace Asm6502

/-! ## Entries that only grow -/

/-- A change that only adds to an entry, and has nothing to add where it was made before. -/
structure Adding {α : Type} (within : α -> α -> Prop) (change : α -> α) : Prop where
  adds : ∀ a, within a (change a)
  again : ∀ a, change (change a) = change a
  stays : ∀ a b, within a b -> change a = a -> change b = b

namespace Table

variable {κ α : Type} [DecidableEq κ]

/-- A table in which a change of the entry of a key would change nothing. -/
def Settles (t : Table κ α) (key : κ) (change : α -> α) : Prop :=
  ∃ a, t.find? key = some a ∧ change a = a

theorem Settles.update_eq {t : Table κ α} {key : κ} {change : α -> α} (h : t.Settles key change)
    (fresh : α) : t.update key fresh change = t := by
  obtain ⟨a, hfind, hfix⟩ := h
  obtain ⟨entries⟩ := t
  have hentries (l : List (κ × α)) (hl : findIn key l = some a) :
      updateIn key fresh change l = l := by
    induction l with
    | nil => cases hl
    | cons entry rest ih =>
        obtain ⟨k, b⟩ := entry
        by_cases hk : k = key
        · have hb : b = a := by simpa [findIn, hk] using hl
          simp [updateIn, hk, hb, hfix]
        · have hrest : findIn key rest = some a := by simpa [findIn, hk] using hl
          simp [updateIn, hk, ih hrest]
  exact congrArg Table.mk (hentries entries hfind)

variable {within : α -> α -> Prop} {change change' : α -> α}

theorem settles_update (h : Adding within change) (t : Table κ α) (key : κ) (fresh : α) :
    (t.update key fresh change).Settles key change :=
  ⟨_, find?_update_self t key fresh change, h.again _⟩

theorem Settles.update {t : Table κ α} {key : κ} (h : t.Settles key change)
    (hchange : Adding within change) (hchange' : Adding within change') (other : κ) (fresh : α) :
    (t.update other fresh change').Settles key change := by
  obtain ⟨a, hfind, hfix⟩ := h
  by_cases hkey : key = other
  · subst hkey
    refine ⟨change' a, ?_, hchange.stays a _ (hchange'.adds a) hfix⟩
    rw [find?_update_self, hfind]
    rfl
  · refine ⟨a, ?_, hfix⟩
    rw [find?_update_of_ne _ hkey, hfind]

theorem findIn_eq_none {key : κ} {l : List (κ × α)} (h : key ∉ l.map Prod.fst) :
    findIn key l = none := by
  cases hfind : findIn key l with
  | none => rfl
  | some a => exact absurd (List.mem_map_of_mem (mem_of_findIn hfind)) h

/-- Tables with the same keys in the same order that find the same entries are the same. -/
theorem eq_of_find? {t u : Table κ α} (hkeys : t.keys = u.keys) (hnodup : t.keys.Nodup)
    (hfind : ∀ key, t.find? key = u.find? key) : t = u := by
  obtain ⟨entries⟩ := t
  obtain ⟨others⟩ := u
  simp only [keys, find?] at hkeys hnodup hfind
  have hentries : entries = others := by
    induction entries generalizing others with
    | nil =>
        rw [List.map_nil] at hkeys
        exact (List.map_eq_nil_iff.1 hkeys.symm).symm
    | cons entry rest ih =>
        obtain ⟨key, a⟩ := entry
        cases others with
        | nil => cases hkeys
        | cons other others =>
            obtain ⟨key', b⟩ := other
            obtain ⟨rfl, hrest⟩ := List.cons.inj hkeys
            obtain ⟨hfresh, hnodup⟩ := List.nodup_cons.1 hnodup
            have hab : a = b := by simpa [findIn] using hfind key
            have hrest' : rest = others := by
              refine ih hnodup others hrest fun k => ?_
              by_cases hk : key = k
              · -- The key of the first entry is not found behind it.
                subst hk
                rw [findIn_eq_none hfresh, findIn_eq_none (hrest ▸ hfresh)]
              · simpa [findIn, hk] using hfind k
            rw [hab, hrest']
  rw [hentries]

/-! ## Entries that are replaced -/

def insertAll (t : Table κ α) (entries : List (κ × α)) : Table κ α :=
  entries.foldl (fun t entry => t.insert entry.1 entry.2) t

theorem keys_insertAll (t : Table κ α) (entries : List (κ × α)) :
    (t.insertAll entries).keys = (entries.map Prod.fst).foldl addNew t.keys := by
  induction entries generalizing t with
  | nil => rfl
  | cons entry entries ih =>
      have hrest := ih (t.insert entry.1 entry.2)
      rw [insert, keys_update] at hrest
      exact hrest

theorem find?_insertAll_of_not_mem {entries : List (κ × α)} {key : κ}
    (h : key ∉ entries.map Prod.fst) (t : Table κ α) :
    (t.insertAll entries).find? key = t.find? key := by
  induction entries generalizing t with
  | nil => rfl
  | cons entry entries ih =>
      rw [List.map_cons, List.mem_cons, not_or] at h
      have hrest := ih h.2 (t.insert entry.1 entry.2)
      rw [insert, find?_update_of_ne _ h.1] at hrest
      exact hrest

/-- What is found under a key that is put in does not depend on the table. -/
theorem find?_insertAll_of_mem {entries : List (κ × α)} {key : κ}
    (h : key ∈ entries.map Prod.fst) (t u : Table κ α) :
    (t.insertAll entries).find? key = (u.insertAll entries).find? key := by
  induction entries generalizing t u with
  | nil => cases h
  | cons entry entries ih =>
      show ((t.insert entry.1 entry.2).insertAll entries).find? key =
        ((u.insert entry.1 entry.2).insertAll entries).find? key
      by_cases hrest : key ∈ entries.map Prod.fst
      · exact ih hrest _ _
      · have hkey : key = entry.1 := by
          rw [List.map_cons, List.mem_cons] at h
          exact h.resolve_right hrest
        rw [find?_insertAll_of_not_mem hrest, find?_insertAll_of_not_mem hrest, hkey, insert,
          insert, find?_update_self, find?_update_self]

theorem foldl_addNew_of_subset {l xs : List κ} (h : ∀ x ∈ xs, x ∈ l) : xs.foldl addNew l = l := by
  induction xs with
  | nil => rfl
  | cons x xs ih =>
      have hx : addNew l x = l := if_pos (h x List.mem_cons_self)
      rw [List.foldl_cons, hx]
      exact ih fun y hy => h y (List.mem_cons_of_mem x hy)

/-- Putting the same entries in again changes nothing. -/
theorem insertAll_again {t : Table κ α} (h : t.keys.Nodup) (entries : List (κ × α)) :
    (t.insertAll entries).insertAll entries = t.insertAll entries := by
  have hkeys : ((t.insertAll entries).insertAll entries).keys = (t.insertAll entries).keys := by
    rw [keys_insertAll, keys_insertAll]
    apply foldl_addNew_of_subset
    intro key hkey
    exact (Walk.mem_foldl_addNew _ _).2 (.inr hkey)
  have hnodup : (t.insertAll entries).keys.Nodup := by
    rw [keys_insertAll]
    generalize entries.map Prod.fst = keys
    generalize t.keys = l at h
    induction keys generalizing l with
    | nil => exact h
    | cons key keys ih => exact ih _ (nodup_addNew h key)
  refine eq_of_find? hkeys (hkeys ▸ hnodup) fun key => ?_
  by_cases hkey : key ∈ entries.map Prod.fst
  · exact find?_insertAll_of_mem hkey _ _
  · exact find?_insertAll_of_not_mem hkey _

end Table

/-! ## Places of a name -/

theorem addNew_eq_self {α : Type} [DecidableEq α] {l : List α} {a : α} :
    addNew l a = l ↔ a ∈ l := by
  constructor
  · intro h
    rw [← h]
    exact mem_addNew.2 (.inr rfl)
  · exact fun h => if_pos h

namespace References

/-- All places that are known are known later, too. -/
structure Within (r r' : References) : Prop where
  definitions : r.definitions ⊆ r'.definitions
  usages : r.usages ⊆ r'.usages

theorem define_eq_self {r : References} {location : Location} :
    r.define location = r ↔ location ∈ r.definitions := by
  obtain ⟨definitions, usages⟩ := r
  simp [define, addNew_eq_self]

theorem use_eq_self {r : References} {location : Location} :
    r.use location = r ↔ location ∈ r.usages := by
  obtain ⟨definitions, usages⟩ := r
  simp [use, addNew_eq_self]

theorem nameSegment_eq_self {r : References} {location : Location} :
    r.nameSegment location = r ↔
      r.definitions ≠ [] ∧ (location ∈ r.definitions ∨ location ∈ r.usages) := by
  unfold nameSegment
  by_cases hempty : r.definitions = []
  · simp [hempty, define_eq_self]
  · by_cases hdefined : location ∈ r.definitions
    · simp [hempty, hdefined]
    · simp [hempty, hdefined, use_eq_self]

theorem within_define (r : References) (location : Location) : r.Within (r.define location) :=
  ⟨fun _ h => mem_addNew.2 (.inl h), fun _ h => h⟩

theorem within_use (r : References) (location : Location) : r.Within (r.use location) :=
  ⟨fun _ h => h, fun _ h => mem_addNew.2 (.inl h)⟩

theorem define_adding (location : Location) : Adding Within fun r => r.define location where
  adds := fun r => r.within_define location
  again := fun _ => define_eq_self.2 (mem_addNew.2 (.inr rfl))
  stays := fun _ _ hwithin h => define_eq_self.2 (hwithin.definitions (define_eq_self.1 h))

theorem use_adding (location : Location) : Adding Within fun r => r.use location where
  adds := fun r => r.within_use location
  again := fun _ => use_eq_self.2 (mem_addNew.2 (.inr rfl))
  stays := fun _ _ hwithin h => use_eq_self.2 (hwithin.usages (use_eq_self.1 h))

theorem nameSegment_adding (location : Location) :
    Adding Within fun r => r.nameSegment location where
  adds := by
    intro r
    unfold nameSegment
    split
    · exact r.within_define location
    · split
      · exact ⟨fun _ h => h, fun _ h => h⟩
      · exact r.within_use location
  again := by
    intro r
    apply nameSegment_eq_self.2
    have hnew : location ∈ addNew r.definitions location := mem_addNew.2 (.inr rfl)
    unfold nameSegment
    by_cases hempty : r.definitions = []
    · simp only [hempty, List.isEmpty_nil, if_true]
      exact ⟨addNew_ne_nil _ location, .inl hnew⟩
    · by_cases hdefined : location ∈ r.definitions
      · simp [hempty, hdefined]
      · simp [hempty, hdefined, use, mem_addNew]
  stays := by
    intro r r' hwithin h
    obtain ⟨hne, hplace⟩ := nameSegment_eq_self.1 h
    obtain ⟨first, hfirst⟩ := List.exists_mem_of_ne_nil _ hne
    refine nameSegment_eq_self.2 ⟨List.ne_nil_of_mem (hwithin.definitions hfirst), ?_⟩
    exact hplace.imp (fun hmem => hwithin.definitions hmem) fun hmem => hwithin.usages hmem

end References

namespace LabelSymbol

/-- All that is known of a label is known later, too. -/
structure Within (label label' : LabelSymbol) : Prop where
  references : label.toReferences.Within label'.toReferences
  isConstant : label.isConstant = true -> label'.isConstant = true
  isVariable : label.isVariable = true -> label'.isVariable = true
  isDynamic : label.isDynamic = true -> label'.isDynamic = true
  value : label.value.isSome = true -> label'.value.isSome = true

theorem define_eq_self {label : LabelSymbol} {dynamic : Bool} {kind : DefinitionKind}
    {value : Option Expr} {location : Location} :
    label.define dynamic kind value location = label ↔
      location ∈ label.definitions ∧ (kind = .constant -> label.isConstant = true) ∧
        (kind = .variable -> label.isVariable = true) ∧
        (dynamic = true -> label.isDynamic = true) ∧
        (kind = .constant -> label.value.isSome = true ∨ value = none) := by
  obtain ⟨references, isConstant, isVariable, isDynamic, known⟩ := label
  have hvalue : known.or value = known ↔ known.isSome = true ∨ value = none := by
    cases known <;> simp
  by_cases hconstant : kind = .constant <;>
    simp +contextual [define, References.define_eq_self, hconstant, hvalue]

theorem use_eq_self {label : LabelSymbol} {dynamic : Bool} {location : Location} :
    label.use dynamic location = label ↔
      location ∈ label.usages ∧ (dynamic = true -> label.isDynamic = true) := by
  obtain ⟨references, isConstant, isVariable, isDynamic, known⟩ := label
  simp [use, References.use_eq_self]

theorem define_adding (dynamic : Bool) (kind : DefinitionKind) (value : Option Expr)
    (location : Location) :
    Adding Within fun label => label.define dynamic kind value location where
  adds := by
    intro label
    refine ⟨label.toReferences.within_define location, ?_, ?_, ?_, ?_⟩
    · intro h
      simp [define, h]
    · intro h
      simp [define, h]
    · intro h
      simp [define, h]
    · intro h
      obtain ⟨known, hknown⟩ := Option.isSome_iff_exists.1 h
      simp [define, hknown]
  again := by
    intro label
    refine define_eq_self.2 ⟨mem_addNew.2 (.inr rfl), ?_, ?_, ?_, ?_⟩
    · intro h
      simp [define, h]
    · intro h
      simp [define, h]
    · intro h
      simp [define, h]
    · intro h
      simp only [define, h, if_true]
      cases label.value <;> cases value <;> simp
  stays := by
    intro label label' hwithin h
    obtain ⟨hplace, hconstant, hvariable, hdynamic, hvalue⟩ := define_eq_self.1 h
    refine define_eq_self.2 ⟨hwithin.references.definitions hplace,
      fun hkind => hwithin.isConstant (hconstant hkind),
      fun hkind => hwithin.isVariable (hvariable hkind),
      fun hdyn => hwithin.isDynamic (hdynamic hdyn), fun hkind => ?_⟩
    exact (hvalue hkind).imp_left hwithin.value

theorem use_adding (dynamic : Bool) (location : Location) :
    Adding Within fun label => label.use dynamic location where
  adds := by
    intro label
    refine ⟨label.toReferences.within_use location, fun h => h, fun h => h, ?_, fun h => h⟩
    intro h
    simp [use, h]
  again := by
    intro label
    refine use_eq_self.2 ⟨mem_addNew.2 (.inr rfl), ?_⟩
    intro h
    simp [use, h]
  stays := by
    intro label label' hwithin h
    obtain ⟨hplace, hdynamic⟩ := use_eq_self.1 h
    exact use_eq_self.2 ⟨hwithin.references.usages hplace,
      fun hdyn => hwithin.isDynamic (hdynamic hdyn)⟩

end LabelSymbol

/-! ## Mentions that have nothing to add -/

namespace Mention

/-- The entry of a table that a mention changes. -/
structure Change where
  key : String
  change : References -> References

def macroChange? : Mention -> Option Change
  | .macroDefinition name location => some ⟨name, fun r => r.define location⟩
  | .macroUse name location => some ⟨name, fun r => r.use location⟩
  | _ => none

def segmentChange? : Mention -> Option Change
  | .segment name location => some ⟨name, fun r => r.nameSegment location⟩
  | _ => none

theorem change_adding {m : Mention} {o : Occurrence} (h : m.occurrence? = some o) :
    Adding LabelSymbol.Within m.change := by
  cases m with
  | labelDefinition key dynamic kind value location =>
      exact LabelSymbol.define_adding dynamic kind value location
  | labelUse key dynamic location => exact LabelSymbol.use_adding dynamic location
  | _ => cases h

theorem macroChange?_adding {m : Mention} {c : Change} (h : m.macroChange? = some c) :
    Adding References.Within c.change := by
  cases m with
  | macroDefinition name location =>
      cases h
      exact References.define_adding location
  | macroUse name location =>
      cases h
      exact References.use_adding location
  | _ => cases h

theorem segmentChange?_adding {m : Mention} {c : Change} (h : m.segmentChange? = some c) :
    Adding References.Within c.change := by
  cases m with
  | segment name location =>
      cases h
      exact References.nameSegment_adding location
  | _ => cases h

end Mention

namespace Symbols

variable {config : Config}

theorem macros_add_eq (s : Symbols) (m : Mention) :
    (s.add config m).macros =
      m.macroChange?.elim s.macros fun c => s.macros.update c.key .none c.change := by
  cases m with
  | labelDefinition | labelUse => exact (updateLabel_others s _ _ _).1
  | relocation relocation =>
      unfold add
      dsimp only
      split <;> rfl
  | subroutine | macroDefinition | macroUse | segment => rfl

theorem segments_add_eq (s : Symbols) (m : Mention) :
    (s.add config m).segments =
      m.segmentChange?.elim s.segments fun c => s.segments.update c.key .none c.change := by
  cases m with
  | labelDefinition | labelUse => exact (updateLabel_others s _ _ _).2.1
  | relocation relocation =>
      unfold add
      dsimp only
      split <;> rfl
  | subroutine | macroDefinition | macroUse | segment => rfl

/-- Symbols in which all that a mention says is known, apart from the label at its place. -/
structure Settled (config : Config) (s : Symbols) (m : Mention) : Prop where
  label : ∀ o, m.occurrence? = some o ->
    ∃ label, s.label? ⟨s.scopeOf config o.key, o.key⟩ = some label ∧ m.change label = label
  macros : ∀ c, m.macroChange? = some c -> s.macros.Settles c.key c.change
  segments : ∀ c, m.segmentChange? = some c -> s.segments.Settles c.key c.change
  relocations : ∀ r, m.relocation? = some r -> ∃ kept ∈ s.relocations, kept.location = r.location

theorem settled_add {s : Symbols} (hs : s.locals ≠ []) {m : Mention} (hm : m ≠ .subroutine) :
    Settled config (s.add config m) m where
  label := by
    intro o ho
    rw [scopeOf_add hm, label?_add_of_occurrence ho hs, if_pos rfl]
    exact ⟨_, rfl, (Mention.change_adding ho).again _⟩
  macros := by
    intro c hc
    rw [macros_add_eq, hc]
    exact Table.settles_update (Mention.macroChange?_adding hc) _ _ _
  segments := by
    intro c hc
    rw [segments_add_eq, hc]
    exact Table.settles_update (Mention.segmentChange?_adding hc) _ _ _
  relocations := by
    intro r hr
    rw [relocations_add, hr]
    show ∃ kept ∈ Relocation.keep s.relocations r, kept.location = r.location
    unfold Relocation.keep
    split
    next h =>
      obtain ⟨kept, hkept, hlocation⟩ := List.any_eq_true.1 h
      exact ⟨kept, hkept, of_decide_eq_true hlocation⟩
    next => exact ⟨r, by simp, rfl⟩

/-- What was said stays known. -/
theorem Settled.add {s : Symbols} (hs : s.locals ≠ []) {m other : Mention}
    (h : Settled config s m) (hother : other ≠ .subroutine) :
    Settled config (s.add config other) m where
  label := by
    intro o ho
    obtain ⟨label, hlabel, hfix⟩ := h.label o ho
    rw [scopeOf_add hother]
    cases ho' : other.occurrence? with
    | none => exact ⟨label, by rw [label?_add_of_no_occurrence ho', hlabel], hfix⟩
    | some o' =>
        rw [label?_add_of_occurrence ho' hs, hlabel]
        by_cases href : (⟨s.scopeOf config o.key, o.key⟩ : LabelRef) =
            ⟨s.scopeOf config o'.key, o'.key⟩
        · rw [if_pos href]
          exact ⟨_, rfl, (Mention.change_adding ho).stays _ _
            ((Mention.change_adding ho').adds label) hfix⟩
        · rw [if_neg href]
          exact ⟨label, rfl, hfix⟩
  macros := by
    intro c hc
    have hsettles := h.macros c hc
    rw [macros_add_eq]
    cases hc' : other.macroChange? with
    | none => exact hsettles
    | some c' =>
        exact hsettles.update (Mention.macroChange?_adding hc) (Mention.macroChange?_adding hc') _ _
  segments := by
    intro c hc
    have hsettles := h.segments c hc
    rw [segments_add_eq]
    cases hc' : other.segmentChange? with
    | none => exact hsettles
    | some c' =>
        exact hsettles.update (Mention.segmentChange?_adding hc)
          (Mention.segmentChange?_adding hc') _ _
  relocations := by
    intro r hr
    obtain ⟨kept, hkept, hlocation⟩ := h.relocations r hr
    refine ⟨kept, ?_, hlocation⟩
    rw [relocations_add]
    cases other.relocation? with
    | none => exact hkept
    | some r' =>
        show kept ∈ Relocation.keep s.relocations r'
        unfold Relocation.keep
        split
        · exact hkept
        · exact List.mem_append_left _ hkept

theorem Settled.foldl {mentions : List Mention} (hno : .subroutine ∉ mentions) {s : Symbols}
    (hs : s.locals ≠ []) {m : Mention} (h : Settled config s m) :
    Settled config (mentions.foldl (Symbols.add config) s) m := by
  induction mentions generalizing s with
  | nil => exact h
  | cons other mentions ih =>
      have hother : other ≠ .subroutine := fun heq => hno (heq ▸ List.mem_cons_self)
      exact ih (fun hmem => hno (List.mem_cons_of_mem other hmem))
        (locals_add_ne_nil config hs other) (h.add hs hother)

theorem settled_foldl {mentions : List Mention} (hno : .subroutine ∉ mentions) {s : Symbols}
    (hs : s.locals ≠ []) : ∀ m ∈ mentions, Settled config (mentions.foldl (add config) s) m := by
  induction mentions generalizing s with
  | nil => simp
  | cons first mentions ih =>
      have hfirst : first ≠ .subroutine := fun heq => hno (heq ▸ List.mem_cons_self)
      have hrest : .subroutine ∉ mentions := fun hmem => hno (List.mem_cons_of_mem first hmem)
      have hs' := locals_add_ne_nil config hs first
      intro m hm
      rcases List.mem_cons.1 hm with rfl | hm
      · exact (settled_add hs hfirst).foldl hrest hs'
      · exact ih hrest hs' m hm

/-! ## Nothing is added -/

/-- Symbols that differ at most in which label stands where. -/
structure SameTables (s t : Symbols) : Prop where
  globals : t.globals = s.globals
  locals : t.locals = s.locals
  macros : t.macros = s.macros
  segments : t.segments = s.segments
  relocations : t.relocations = s.relocations

theorem SameTables.trans {s t u : Symbols} (hst : SameTables s t) (htu : SameTables t u) :
    SameTables s u where
  globals := htu.globals.trans hst.globals
  locals := htu.locals.trans hst.locals
  macros := htu.macros.trans hst.macros
  segments := htu.segments.trans hst.segments
  relocations := htu.relocations.trans hst.relocations

theorem SameTables.eq {s t : Symbols} (h : SameTables s t) (hrefs : t.labelRefs = s.labelRefs) :
    t = s := by
  obtain ⟨hglobals, hlocals, hmacros, hsegments, hrelocations⟩ := h
  cases s
  cases t
  simp_all

theorem labels_updateLabel_of_fixed {s : Symbols} {key : String} {label : LabelSymbol}
    {change : LabelSymbol -> LabelSymbol}
    (hlabel : s.label? ⟨s.scopeOf config key, key⟩ = some label) (hfix : change label = label)
    (location : Location) :
    (s.updateLabel config key location change).globals = s.globals ∧
      (s.updateLabel config key location change).locals = s.locals := by
  unfold updateLabel
  unfold scopeOf at hlabel ⊢
  cases hlocal : config.isLocal key with
  | false =>
      rw [hlocal] at hlabel
      have hsettles : s.globals.Settles key change := ⟨label, hlabel, hfix⟩
      exact ⟨hsettles.update_eq _, rfl⟩
  | true =>
      rw [hlocal] at hlabel
      obtain ⟨table, htable, hfind⟩ := Option.bind_eq_some_iff.1 hlabel
      have hsettles : table.Settles key change := ⟨label, hfind, hfix⟩
      refine ⟨rfl, ?_⟩
      show s.locals.modify (s.locals.length - 1) _ = s.locals
      apply List.ext_getElem?
      intro i
      rw [List.getElem?_modify]
      by_cases hi : s.locals.length - 1 = i
      · rw [← hi, htable]
        simp [hsettles.update_eq]
      · simp [hi]

theorem Settled.sameTables {s : Symbols} {m : Mention} (h : Settled config s m)
    (hm : m ≠ .subroutine) : SameTables s (s.add config m) := by
  obtain ⟨hglobals, hlocals⟩ : (s.add config m).globals = s.globals ∧
      (s.add config m).locals = s.locals := by
    cases ho : m.occurrence? with
    | none => exact add_of_no_occurrence config ho hm s
    | some o =>
        obtain ⟨label, hlabel, hfix⟩ := h.label o ho
        rw [add_of_occurrence ho]
        exact labels_updateLabel_of_fixed hlabel hfix o.location
  refine ⟨hglobals, hlocals, ?_, ?_, ?_⟩
  · rw [macros_add_eq]
    cases hc : m.macroChange? with
    | none => rfl
    | some c => exact (h.macros c hc).update_eq _
  · rw [segments_add_eq]
    cases hc : m.segmentChange? with
    | none => rfl
    | some c => exact (h.segments c hc).update_eq _
  · rw [relocations_add]
    cases hr : m.relocation? with
    | none => rfl
    | some r =>
        obtain ⟨kept, hkept, hlocation⟩ := h.relocations r hr
        have hany : s.relocations.any fun k => k.location = r.location :=
          List.any_eq_true.2 ⟨kept, hkept, decide_eq_true hlocation⟩
        exact if_pos hany

theorem sameTables_foldl {mentions : List Mention} (hno : .subroutine ∉ mentions) {s : Symbols}
    (hs : s.locals ≠ []) (h : ∀ m ∈ mentions, Settled config s m) :
    SameTables s (mentions.foldl (add config) s) := by
  induction mentions generalizing s with
  | nil => exact ⟨rfl, rfl, rfl, rfl, rfl⟩
  | cons first mentions ih =>
      have hfirst : first ≠ .subroutine := fun heq => hno (heq ▸ List.mem_cons_self)
      have hstep := (h first List.mem_cons_self).sameTables hfirst
      refine hstep.trans (ih (fun hmem => hno (List.mem_cons_of_mem first hmem))
        (locals_add_ne_nil config hs first) fun m hm => ?_)
      exact (h m (List.mem_cons_of_mem first hm)).add hs hfirst

/-! ## Which label stands where -/

def placesOf (config : Config) (s : Symbols) (mentions : List Mention) :
    List (Location × LabelRef) :=
  (mentions.filterMap Mention.occurrence?).map fun o =>
    (o.location, ⟨s.scopeOf config o.key, o.key⟩)

theorem labelRefs_foldl_add {mentions : List Mention} (hno : .subroutine ∉ mentions)
    (s : Symbols) :
    (mentions.foldl (add config) s).labelRefs =
      s.labelRefs.insertAll (s.placesOf config mentions) := by
  induction mentions generalizing s with
  | nil => rfl
  | cons m mentions ih =>
      have hm : m ≠ .subroutine := fun heq => hno (heq ▸ List.mem_cons_self)
      have hrest := ih (fun hmem => hno (List.mem_cons_of_mem m hmem)) (s.add config m)
      have hplaces : (s.add config m).placesOf config mentions = s.placesOf config mentions := by
        unfold placesOf
        simp only [scopeOf_add hm]
      rw [List.foldl_cons, hrest, hplaces]
      unfold placesOf
      cases ho : m.occurrence? with
      | none => rw [labelRefs_add_of_no_occurrence ho, List.filterMap_cons_none ho]
      | some o =>
          rw [labelRefs_add_of_occurrence ho, List.filterMap_cons_some ho]
          rfl

theorem foldl_add_again {mentions : List Mention} (hno : .subroutine ∉ mentions) {s : Symbols}
    (hs : s.locals ≠ []) (hrefs : s.labelRefs.keys.Nodup) :
    mentions.foldl (add config) (mentions.foldl (add config) s) =
      mentions.foldl (add config) s := by
  have hlength : (mentions.foldl (add config) s).locals.length = s.locals.length :=
    length_locals_foldl_add hno s
  have hs' : (mentions.foldl (add config) s).locals ≠ [] := by
    rw [← List.length_pos_iff, hlength]
    exact List.length_pos_iff.2 hs
  have hplaces : (mentions.foldl (add config) s).placesOf config mentions =
      s.placesOf config mentions := by
    unfold placesOf scopeOf
    rw [hlength]
  refine (sameTables_foldl hno hs' (settled_foldl hno hs)).eq ?_
  rw [labelRefs_foldl_add hno, hplaces, labelRefs_foldl_add hno, Table.insertAll_again hrefs]

end Symbols

theorem Line.subroutine_not_mem_mentions {line : Line} (h : line.startsSubroutine = false) :
    .subroutine ∉ line.mentions := by
  obtain ⟨names, hmentions, hno⟩ := line.exists_mentions_eq
  rw [hmentions, h]
  exact hno

/-- Lines that are met again right behind themselves add nothing to the symbols, unless one of them
starts a subroutine. -/
theorem Symbols.ofLines_append_again (config : Config) (lines : List Line) {again : List Line}
    (h : ∀ line ∈ again, line.startsSubroutine = false) :
    ofLines config (lines ++ again ++ again) = ofLines config (lines ++ again) := by
  have hno : .subroutine ∉ again.flatMap Line.mentions := by
    intro hmem
    obtain ⟨line, hline, hmention⟩ := List.mem_flatMap.1 hmem
    exact Line.subroutine_not_mem_mentions (h line hline) hmention
  have hs := (ofLines_scoped config lines).locals_ne_nil
  unfold ofLines at hs ⊢
  rw [List.foldl_append, List.foldl_append, foldl_addLine _ _ again, foldl_addLine _ _ again]
  exact foldl_add_again hno hs (ofLines_labelRefs_nodup config lines)

end Asm6502
