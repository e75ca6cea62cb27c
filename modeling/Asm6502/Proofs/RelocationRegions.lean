import Asm6502.Proofs.UndefinedLabels
import Asm6502.Proofs.LabelScopes

/-!
# Relocation regions of a program

Regions are checked over the commands that open and close them, in the order of the program written
out, but a command that is met again because its document is included again counts only the first
time.  Nothing is reported exactly when the commands that count open and close regions in turn.
-/

namespace Asm6502

/-! ## Commands on regions -/

def Command.relocation? (command : Command) : Option Relocation :=
  match command.directive? with
  | some .rorg => some ⟨.opening, !command.arguments.isEmpty, command.location⟩
  | some .rend => some ⟨.closing, !command.arguments.isEmpty, command.location⟩
  | _ => none

def Line.relocation? (line : Line) : Option Relocation :=
  line.command?.bind Command.relocation?

/-- The commands on regions of a program written out. -/
def Document.relocations (document : Document) (files : FileSource) (cache : DocumentCache) :
    List Relocation :=
  (document.expansion files cache).filterMap Line.relocation?

namespace Relocation

/-- The commands without those at the place of an earlier one. -/
def firsts : List Relocation -> List Relocation
  | [] => []
  | r :: rest => r :: (firsts rest).filter fun later => later.location ≠ r.location

/-- Commands that open and close regions in turn, starting with an opening one, where every region
is opened with an address. -/
def WellPaired (rs : List Relocation) : Prop :=
  ∀ i (h : i < rs.length), (rs[i].kind = .opening ↔ i % 2 = 0) ∧
    (rs[i].kind = .opening -> rs[i].hasArgument = true)

instance (rs : List Relocation) : Decidable (WellPaired rs) :=
  inferInstanceAs (Decidable (∀ i (h : i < rs.length), (rs[i].kind = .opening ↔ i % 2 = 0) ∧
    (rs[i].kind = .opening -> rs[i].hasArgument = true)))

/-! ## What is reported of a row of commands -/

theorem findings_eq_nil_iff (isOpen : Bool) (r : Relocation) :
    r.findings isOpen = [] ↔
      (r.kind = .opening ↔ isOpen = false) ∧ (r.kind = .opening -> r.hasArgument = true) := by
  unfold findings
  cases r.kind <;> cases isOpen <;> cases r.hasArgument <;> simp

theorem findingsAll_eq_nil_iff (rs : List Relocation) (isOpen : Bool) (count : Nat)
    (hcount : isOpen = false ↔ count % 2 = 0) :
    findingsAll isOpen rs = [] ↔
      ∀ i (h : i < rs.length), (rs[i].kind = .opening ↔ (count + i) % 2 = 0) ∧
        (rs[i].kind = .opening -> rs[i].hasArgument = true) := by
  induction rs generalizing isOpen count with
  | nil => simp [findingsAll]
  | cons r rest ih =>
      rw [findingsAll, List.append_eq_nil_iff, findings_eq_nil_iff, hcount]
      constructor
      · rintro ⟨⟨hkind, hargument⟩, hrest⟩ i hi
        cases i with
        | zero => exact ⟨hkind, hargument⟩
        | succ i =>
            have hturn : decide (r.kind = .opening) = false ↔ (count + 1) % 2 = 0 := by
              rw [decide_eq_false_iff_not, hkind]
              omega
            have hi' := (ih _ (count + 1) hturn).1 hrest i (by simpa using hi)
            rw [Nat.add_right_comm] at hi'
            exact hi'
      · intro h
        have hfirst := h 0 (by simp)
        have hturn : decide (r.kind = .opening) = false ↔ (count + 1) % 2 = 0 := by
          have hkind : r.kind = .opening ↔ count % 2 = 0 := hfirst.1
          rw [decide_eq_false_iff_not, hkind]
          omega
        refine ⟨hfirst, (ih _ (count + 1) hturn).2 fun i hi => ?_⟩
        have hi' := h (i + 1) (by simpa using hi)
        rw [Nat.add_right_comm]
        exact hi'

/-- Nothing is reported of a row of commands exactly when they open and close regions in turn. -/
theorem findingsAll_eq_nil_iff_wellPaired (rs : List Relocation) :
    findingsAll false rs = [] ↔ WellPaired rs := by
  have h := findingsAll_eq_nil_iff rs false 0 (by simp)
  simpa [WellPaired] using h

/-! ## Which commands count -/

/-- The commands kept so far with one more, unless one at its place is kept. -/
def keep (kept : List Relocation) (r : Relocation) : List Relocation :=
  if kept.any fun k => k.location = r.location then kept else kept ++ [r]

theorem foldl_keep (rs kept : List Relocation) :
    rs.foldl keep kept =
      kept ++ (firsts rs).filter fun r => !kept.any fun k => k.location = r.location := by
  induction rs generalizing kept with
  | nil => simp [firsts]
  | cons r rest ih =>
      rw [List.foldl_cons, ih, firsts]
      by_cases hknown : kept.any fun k => k.location = r.location
      · -- A later command at the place of this one is at the place of a kept one, too.
        have hlater (later : Relocation) :
            (!(kept.any fun k => k.location = later.location) &&
                decide (later.location ≠ r.location)) =
              !kept.any fun k => k.location = later.location := by
          by_cases hplace : later.location = r.location
          · simp [hplace, hknown]
          · simp [hplace]
        have hkeep : keep kept r = kept := if_pos hknown
        rw [hkeep, List.filter_cons_of_neg (by simp [hknown]), List.filter_filter]
        simp only [hlater]
      · have hkeep : keep kept r = kept ++ [r] := if_neg hknown
        have hlater (later : Relocation) :
            (!((kept ++ [r]).any fun k => k.location = later.location)) =
              (!(kept.any fun k => k.location = later.location) &&
                decide (later.location ≠ r.location)) := by
          simp [List.any_append, eq_comm]
        rw [hkeep, List.filter_cons_of_pos (by simp [hknown]), List.filter_filter,
          List.append_assoc, List.singleton_append]
        simp only [hlater]

theorem firsts_of_distinct {rs : List Relocation}
    (h : rs.Pairwise fun a b => a.location ≠ b.location) : firsts rs = rs := by
  induction rs with
  | nil => rfl
  | cons r rest ih =>
      obtain ⟨hfirst, hrest⟩ := List.pairwise_cons.1 h
      rw [firsts, ih hrest, List.filter_eq_self.2]
      intro later hlater
      exact decide_eq_true fun heq => hfirst later hlater heq.symm

end Relocation

/-! ## Regions in the lines of a program -/

def Mention.relocation? : Mention -> Option Relocation
  | .relocation r => some r
  | _ => none

theorem Mention.filterMap_relocation?_of_isLabel {mentions : List Mention}
    (h : ∀ m ∈ mentions, m.isLabel = true) : mentions.filterMap Mention.relocation? = [] := by
  apply List.filterMap_eq_nil_iff.2
  intro m hm
  have hlabel := h m hm
  cases m with
  | relocation => cases hlabel
  | _ => rfl

theorem Command.filterMap_relocation? (command : Command) :
    command.mentions.filterMap Mention.relocation? = command.relocation?.toList := by
  have harguments : command.argumentMentions.filterMap Mention.relocation? = [] :=
    Mention.filterMap_relocation?_of_isLabel fun m hm => isLabel_of_mem_argumentMentions hm
  have hmacros : command.macroMentions.filterMap Mention.relocation? = [] := by
    unfold macroMentions
    split <;> simp [Mention.relocation?]
  have hsegment : command.segmentMentions.filterMap Mention.relocation? = [] := by
    unfold segmentMentions
    split <;> simp [Mention.relocation?]
  unfold mentions relocationMentions relocation?
  cases command.directive? with
  | none => simp [hmacros, harguments]
  | some directive =>
      cases directive <;> simp [hmacros, harguments, hsegment, Mention.relocation?]

theorem Line.filterMap_relocation? (line : Line) :
    line.mentions.filterMap Mention.relocation? = line.relocation?.toList := by
  have hall {e : Option Expr} :
      (e.toList.flatMap Expr.mentions).filterMap Mention.relocation? = [] := by
    apply Mention.filterMap_relocation?_of_isLabel
    intro m hm
    obtain ⟨e, -, he⟩ := List.mem_flatMap.1 hm
    exact Expr.isLabel_of_mem_mentions he
  have hcontent : line.contentMentions.filterMap Mention.relocation? =
      line.relocation?.toList := by
    cases line with
    | command margin command =>
        cases command with
        | none => rfl
        | some command => simpa [contentMentions, relocation?, command?] using
            command.filterMap_relocation?
    | macroBlock margin block =>
        cases hname : block.name <;>
          simp [contentMentions, hname, Mention.relocation?, relocation?, command?]
    | conditional margin kind =>
        cases kind with
        | plain => exact hall
        | ifConst | ifNConst => rfl
    | repetition => exact hall
  have hlabel {kind : DefinitionKind} {value : Option Expr} :
      (line.label.toList.flatMap fun label =>
        label.mentions kind value).filterMap Mention.relocation? = [] := by
    apply Mention.filterMap_relocation?_of_isLabel
    intro m hm
    obtain ⟨label, -, hmention⟩ := List.mem_flatMap.1 hm
    exact Label.isLabel_of_mem_mentions hmention
  unfold mentions
  dsimp only
  rw [List.filterMap_append, List.filterMap_append, hlabel, hcontent]
  split <;> simp [Mention.relocation?]

namespace Symbols

theorem relocations_add (config : Config) (s : Symbols) (m : Mention) :
    (s.add config m).relocations = m.relocation?.toList.foldl Relocation.keep s.relocations := by
  cases m with
  | labelDefinition | labelUse => exact (updateLabel_others s _ _ _).2.2
  | relocation r =>
      show _ = Relocation.keep s.relocations r
      unfold add Relocation.keep
      dsimp only
      split <;> rfl
  | subroutine | macroDefinition | macroUse | segment => rfl

theorem relocations_foldl_add (config : Config) (mentions : List Mention) (s : Symbols) :
    (mentions.foldl (add config) s).relocations =
      (mentions.filterMap Mention.relocation?).foldl Relocation.keep s.relocations := by
  induction mentions generalizing s with
  | nil => rfl
  | cons m mentions ih =>
      rw [List.foldl_cons, ih, relocations_add]
      cases hm : m.relocation? with
      | none => rw [List.filterMap_cons_none hm]; rfl
      | some r => rw [List.filterMap_cons_some hm]; rfl

theorem relocations_ofLines (config : Config) (lines : List Line) :
    (ofLines config lines).relocations =
      Relocation.firsts (lines.filterMap Line.relocation?) := by
  have hlines : (lines.flatMap Line.mentions).filterMap Mention.relocation? =
      lines.filterMap Line.relocation? := by
    induction lines with
    | nil => rfl
    | cons line lines ih =>
        rw [List.flatMap_cons, List.filterMap_append, ih, Line.filterMap_relocation?]
        cases hline : line.relocation? with
        | none => rw [List.filterMap_cons_none hline]; rfl
        | some r => rw [List.filterMap_cons_some hline]; rfl
  rw [ofLines, foldl_addLine, relocations_foldl_add, hlines, Relocation.foldl_keep]
  simp [start]

end Symbols

namespace Program

/-- Nothing is reported about the regions of a program exactly when its commands on regions, each
where it is met first, are well paired.  So nothing is reported of a program that is well paired
written out and has no such command twice. -/
theorem resolve_relocation_iff (document : Document) (config : Config) (files : FileSource)
    (cache : DocumentCache) :
    let program := (resolve document config files cache).1
    let relocations := document.relocations files cache
    ((∀ finding ∈ program.findings, finding.message.topic ≠ .relocation) ↔
      Relocation.WellPaired (Relocation.firsts relocations)) ∧
    (relocations.Pairwise (fun a b => a.location ≠ b.location) ->
      Relocation.WellPaired relocations ->
      ∀ finding ∈ program.findings, finding.message.topic ≠ .relocation) := by
  intro program relocations
  have hsymbols : program.symbols.relocations = Relocation.firsts relocations := by
    rw [resolve_symbols, Symbols.relocations_ofLines]
    rfl
  have hall : Diagnostic.AllOn .relocation program.relocationFindings :=
    Relocation.findingsAll_allOn _ _
  have herrors : Diagnostic.AllOn .files program.sources.errors :=
    document.walk_errors_allOn files cache
  have hiff : (∀ finding ∈ program.findings, finding.message.topic ≠ .relocation) ↔
      Relocation.WellPaired (Relocation.firsts relocations) := by
    rw [← Relocation.findingsAll_eq_nil_iff_wellPaired, ← hsymbols, List.eq_nil_iff_forall_not_mem]
    constructor
    · intro h finding hmem
      have htopic := hall finding hmem
      exact h finding ((mem_findings_of_topic herrors htopic).2 hmem) htopic
    · intro h finding hmem htopic
      exact h finding ((mem_findings_of_topic herrors htopic).1 hmem)
  refine ⟨hiff, fun hdistinct hpaired => ?_⟩
  rw [hiff, Relocation.firsts_of_distinct hdistinct]
  exact hpaired

/-- The second time the file is included inside an open region, and nothing is reported. -/
theorem resolve_relocation_includedTwice :
    let files := (MemoryFiles.empty.write ⟨"file:///work/defs.h"⟩ " RORG $F000\n REND\n").source
    let text := " INCLUDE \"defs.h\"\n RORG $F100\n INCLUDE \"defs.h\"\n"
    let document := Document.ofText text ⟨"file:///work/main.asm"⟩
    let program := (resolve document ⟨[]⟩ files .empty).1
    ¬ Relocation.WellPaired (document.relocations files .empty) ∧
      ∀ finding ∈ program.findings, finding.message.topic ≠ .relocation := by
  intro files text document program
  have hrun : ¬ Relocation.WellPaired (document.relocations files .empty) ∧
      Relocation.WellPaired (Relocation.firsts (document.relocations files .empty)) := by
    decide +kernel
  obtain ⟨hnot, hpaired⟩ := hrun
  exact ⟨hnot, (resolve_relocation_iff document ⟨[]⟩ files .empty).1.2 hpaired⟩

/-- A file that opens a region is included twice, and the region is closed behind each include.
Written out, the commands are well paired, but the second one that closes a region is reported. -/
theorem relocation_reported_openedTwice :
    let files := (MemoryFiles.empty.write ⟨"file:///work/open.asm"⟩ " RORG $F000\n").source
    let text := " INCLUDE \"open.asm\"\n REND\n INCLUDE \"open.asm\"\n REND\n"
    let document := Document.ofText text ⟨"file:///work/main.asm"⟩
    let program := (resolve document ⟨[]⟩ files .empty).1
    Relocation.WellPaired (document.relocations files .empty) ∧
      program.findings = [.of (.commandOutsideRelocationRegion "REND")
        ⟨⟨"file:///work/main.asm"⟩, ⟨⟨3, 1⟩, ⟨3, 5⟩⟩⟩] := by
  decide +kernel

end Program

end Asm6502
