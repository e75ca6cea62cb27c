import Asm6502.Proofs.FindingOrder
import Asm6502.Proofs.RepeatedLines

/-!
# Documents walked through again

What a line does hangs only on the files that there are and on the folders they are looked for in.
A second walk through a document sees the same as the first one, as long as the first one added no
folder, and whatever it notes has been noted by then.  So it adds the same lines and the same faults
again, and nothing else.
-/

namespace Asm6502

namespace Walk

/-! ## What later states keep -/

/-- A later state of a walk has the folders, documents and kept files of the earlier one. -/
structure Keeps (w w' : Walk) : Prop where
  folders : w.includeFolders <+: w'.includeFolders
  documents : ∀ document ∈ w.documents, document ∈ w'.documents
  cached : ∀ uri, (w.cache.find? uri).isSome = true -> (w'.cache.find? uri).isSome = true

namespace Keeps

theorem refl (w : Walk) : Keeps w w :=
  ⟨List.prefix_refl _, fun _ h => h, fun _ h => h⟩

theorem trans {w₁ w₂ w₃ : Walk} (h₁ : Keeps w₁ w₂) (h₂ : Keeps w₂ w₃) : Keeps w₁ w₃ where
  folders := h₁.folders.trans h₂.folders
  documents := fun document h => h₂.documents document (h₁.documents document h)
  cached := fun uri h => h₂.cached uri (h₁.cached uri h)

/-- Between two states with the same folders no folder is added. -/
theorem folders_eq {w₁ w₂ w₃ : Walk} (h₁ : Keeps w₁ w₂) (h₂ : Keeps w₂ w₃)
    (h : w₃.includeFolders = w₁.includeFolders) : w₂.includeFolders = w₁.includeFolders := by
  have hle := h₂.folders.length_le
  rw [h] at hle
  exact (h₁.folders.eq_of_length_le hle).symm

end Keeps

variable {levels : Nat} {path : List Uri} {w v : Walk} {line : Line} {document : Uri}

theorem prefix_foldl_addNew {α : Type} [DecidableEq α] (l xs : List α) :
    l <+: xs.foldl addNew l := by
  induction xs generalizing l with
  | nil => exact List.prefix_refl l
  | cons x xs ih =>
      have hstep : l <+: addNew l x := by
        unfold addNew
        split
        · exact List.prefix_refl l
        · exact List.prefix_append l [x]
      exact hstep.trans (ih _)

theorem on_keeps (e : Effect) (w : Walk) (path : List Uri) (line : Line) :
    Keeps w (e.on w path line) :=
  ⟨prefix_foldl_addNew _ _, fun _ h => h, fun _ h => h⟩

theorem remember_keeps (w : Walk) (document : Document) : Keeps w (w.remember document) := by
  have hsources := remember_sources w document
  refine ⟨?_, ?_, fun uri h => ?_⟩
  · simp only [hsources, List.prefix_rfl]
  · rw [hsources]
    exact fun _ h => h
  · obtain ⟨known, hknown⟩ := Option.isSome_iff_exists.1 h
    rw [find?_remember, hknown]
    rfl

theorem addDocument_keeps (w : Walk) (document : Document) : Keeps w (w.addDocument document) :=
  ⟨List.prefix_refl _, addDocument_documents w document, fun _ h => h⟩

variable {files : FileSource}

theorem visit_keeps (hinside : ∀ lower, levels = lower + 1 ->
      ∀ path document w, Keeps w (through files lower path document w)) (document : Uri) (w : Walk)
    (line : Line) : Keeps w (visit files path (opener files path levels) document w line) := by
  rw [visit_eq_effect]
  have hon := on_keeps (effect files levels path document w line) w path line
  cases (effect files levels path document w line).opened with
  | none => exact hon
  | some included =>
      cases levels with
      | zero => exact hon
      | succ lower => exact (hon.trans (remember_keeps _ included)).trans (hinside lower rfl _ _ _)

theorem overLines_keeps_of (hinside : ∀ lower, levels = lower + 1 ->
      ∀ path document w, Keeps w (through files lower path document w)) (document : Uri) (w : Walk)
    (lines : List Line) : Keeps w (overLines files levels path document w lines) := by
  induction lines generalizing w with
  | nil => exact .refl w
  | cons line lines ih => exact (visit_keeps hinside document w line).trans (ih _)

theorem through_keeps (levels : Nat) (path : List Uri) (document : Document) (w : Walk) :
    Keeps w (through files levels path document w) := by
  revert path document w
  refine levels_induction
    (P := fun levels => ∀ path document w, Keeps w (through files levels path document w)) ?_ levels
  intro levels hinside path document w
  rw [through_eq]
  exact (addDocument_keeps w document).trans (overLines_keeps_of hinside _ _ _)

theorem inside_keeps (levels : Nat) : ∀ lower, levels = lower + 1 ->
    ∀ path document w, Keeps w (through files lower path document w) :=
  fun lower _ => through_keeps lower

/-- A state that sees the files as an earlier one does, and has noted what the earlier one has. -/
structure GrowsInto (files : FileSource) (w v : Walk) : Prop extends Extends files w v, Keeps w v

theorem GrowsInto.trans {w₁ w₂ w₃ : Walk} (h₁ : GrowsInto files w₁ w₂)
    (h₂ : GrowsInto files w₂ w₃) :
    GrowsInto files w₁ w₃ :=
  ⟨h₁.toExtends.trans h₂.toExtends, h₁.toKeeps.trans h₂.toKeeps⟩

theorem visit_growsInto (levels : Nat) (path : List Uri) (document : Uri) (w : Walk) (line : Line) :
    GrowsInto files w (visit files path (opener files path levels) document w line) :=
  ⟨visit_extends opener_extends document w line, visit_keeps (inside_keeps levels) document w line⟩

theorem overLines_growsInto (levels : Nat) (path : List Uri) (document : Uri) (w : Walk)
    (lines : List Line) : GrowsInto files w (overLines files levels path document w lines) :=
  ⟨overLines_extends levels path document w lines,
    overLines_keeps_of (inside_keeps levels) document w lines⟩

theorem through_growsInto (levels : Nat) (path : List Uri) (document : Document) (w : Walk) :
    GrowsInto files w (through files levels path document w) :=
  ⟨through_extends levels path document w, through_keeps levels path document w⟩

/-! ## What a line does to a walk that knows it all -/

/-- Walks that differ at most in their lines and faults. -/
structure SameRest (v v' : Walk) : Prop where
  used : v'.usedFiles = v.usedFiles
  watched : v'.watchedFiles = v.watchedFiles
  folders : v'.includeFolders = v.includeFolders
  documents : v'.documents = v.documents
  cache : v'.cache = v.cache

theorem SameRest.trans {v₁ v₂ v₃ : Walk} (h₁ : SameRest v₁ v₂) (h₂ : SameRest v₂ v₃) :
    SameRest v₁ v₃ where
  used := h₂.used.trans h₁.used
  watched := h₂.watched.trans h₁.watched
  folders := h₂.folders.trans h₁.folders
  documents := h₂.documents.trans h₁.documents
  cache := h₂.cache.trans h₁.cache

theorem SameRest.growsInto {v' : Walk} (h : SameRest v v') (hgrows : GrowsInto files w v) :
    GrowsInto files w v' where
  used := h.used ▸ hgrows.used
  watched := h.watched ▸ hgrows.watched
  hasFile := by
    intro uri
    rw [← hgrows.hasFile uri, hasFile, hasFile, h.cache]
  content := by
    intro uri
    rw [← hgrows.content uri, content?, content?, h.cache]
  folders := h.folders ▸ hgrows.folders
  documents := h.documents ▸ hgrows.documents
  cached := h.cache ▸ hgrows.cached

/-- While one walk goes on, another one meets the same lines and faults and adds nothing else. -/
structure Replays (w w' v v' : Walk) : Prop extends SameRest v v' where
  added : ∃ visits errors, w'.visits = w.visits ++ visits ∧ v'.visits = v.visits ++ visits ∧
    w'.errors = w.errors ++ errors ∧ v'.errors = v.errors ++ errors

theorem Replays.trans {w₁ w₂ w₃ v₁ v₂ v₃ : Walk} (h₁ : Replays w₁ w₂ v₁ v₂)
    (h₂ : Replays w₂ w₃ v₂ v₃) : Replays w₁ w₃ v₁ v₃ := by
  refine ⟨h₁.toSameRest.trans h₂.toSameRest, ?_⟩
  obtain ⟨visits, errors, hw, hv, hwe, hve⟩ := h₁.added
  obtain ⟨visits', errors', hw', hv', hwe', hve'⟩ := h₂.added
  refine ⟨visits ++ visits', errors ++ errors', ?_, ?_, ?_, ?_⟩
  · rw [hw', hw, Array.append_assoc]
  · rw [hv', hv, Array.append_assoc]
  · rw [hwe', hwe, List.append_assoc]
  · rw [hve', hve, List.append_assoc]

theorem effect_congr (hfolders : v.includeFolders = w.includeFolders) (hextends : Extends files w v)
    (levels : Nat) (path : List Uri) (document : Uri) (line : Line) :
    effect files levels path document v line = effect files levels path document w line := by
  have hcandidates (name : String) : v.candidates document name = w.candidates document name := by
    unfold candidates
    rw [hfolders]
  have hfile : v.hasFile files = w.hasFile files := funext hextends.hasFile
  have hpassed (name : String) : v.passed files document name = w.passed files document name := by
    unfold passed
    rw [hcandidates, hfile]
  have htarget (name : String) : v.target? files document name = w.target? files document name := by
    unfold target?
    rw [hcandidates, hfile]
  unfold effect
  simp only [hpassed, htarget, hextends.content]

theorem on_replays {e : Effect} (h : GrowsInto files (e.on w path line) v) :
    Replays w (e.on w path line) v (e.on v path line) := by
  refine ⟨⟨?_, ?_, ?_, rfl, rfl⟩, #[⟨path, line⟩], e.faults, ?_, ?_, rfl, rfl⟩
  · apply Table.foldl_addNew_of_subset
    exact fun uri huri => h.used ((mem_foldl_addNew _ _).2 (.inr huri))
  · apply Table.foldl_addNew_of_subset
    exact fun uri huri => h.watched ((mem_foldl_addNew _ _).2 (.inr huri))
  · apply Table.foldl_addNew_of_subset
    exact fun uri huri => h.folders.subset ((mem_foldl_addNew _ _).2 (.inr huri))
  · exact Array.push_eq_append
  · exact Array.push_eq_append

theorem addDocument_replays {document : Document} (h : GrowsInto files (w.addDocument document) v) :
    Replays w (w.addDocument document) v (v.addDocument document) := by
  have hused : addNew v.usedFiles document.uri = v.usedFiles :=
    if_pos (h.used (uri_mem_addDocument w document))
  have hknown : v.documents.any fun d => d.uri = document.uri := by
    have hnoted : ∃ d ∈ (w.addDocument document).documents, d.uri = document.uri := by
      by_cases hany : w.documents.any fun d => d.uri = document.uri
      · obtain ⟨d, hd, huri⟩ := List.any_eq_true.1 hany
        exact ⟨d, addDocument_documents w document d hd, of_decide_eq_true huri⟩
      · exact ⟨document, by simp [addDocument, hany], rfl⟩
    obtain ⟨d, hd, huri⟩ := hnoted
    exact List.any_eq_true.2 ⟨d, h.documents d hd, decide_eq_true huri⟩
  refine ⟨⟨hused, rfl, rfl, if_pos hknown, rfl⟩, #[], [], ?_, ?_, ?_, ?_⟩
  · exact Array.append_empty.symm
  · exact Array.append_empty.symm
  · exact (List.append_nil _).symm
  · exact (List.append_nil _).symm

theorem of_effect_opened {included : Document}
    (h : (effect files levels path document w line).opened = some included) :
    ∃ target, w.hasFile files target = true ∧ w.content? files target = some included := by
  unfold effect at h
  split at h
  · cases h
  · cases h
  · split at h <;> cases h
  · split at h <;> cases h
  · next name location _ =>
    cases ht : w.target? files document name with
    | none =>
        simp only [ht] at h
        cases h
    | some target =>
        simp only [ht] at h
        refine ⟨target, hasFile_of_target? ht, ?_⟩
        split at h
        · cases h
        · split at h
          · cases h
          · split at h
            · cases h
            · next hc =>
              cases h
              exact hc

/-! ## Steps and runs side by side -/

/-- Walking through a document with a number of levels, side by side with a walk that has noted all
that there is to note. -/
def ThroughReplays (files : FileSource) (levels : Nat) : Prop :=
  ∀ path document w v, v.includeFolders = w.includeFolders ->
    GrowsInto files (through files levels path document w) v ->
    Replays w (through files levels path document w) v (through files levels path document v)

theorem opened_replays {lower : Nat} (hinside : ThroughReplays files lower) {e : Effect}
    {inner : List Uri} {target : Uri} {included : Document}
    (hfolders : v.includeFolders = w.includeFolders) (hfile : w.hasFile files target = true)
    (hcontent : w.content? files target = some included) (hgrows : GrowsInto files
      (through files lower inner included ((e.on w path line).remember included)) v) :
    Replays w (through files lower inner included ((e.on w path line).remember included)) v
      (through files lower inner included ((e.on v path line).remember included)) := by
  have hsources := remember_sources (e.on w path line) included
  have hkeeps := remember_keeps (e.on w path line) included
  have hremember : GrowsInto files (e.on w path line) ((e.on w path line).remember included) :=
    ⟨remember_extends hfile hcontent, hkeeps⟩
  have hafter := (through_growsInto lower inner included _).trans hgrows
  have hon : Replays w (e.on w path line) v (e.on v path line) :=
    on_replays (hremember.trans hafter)
  -- The document was kept by the first walk, so keeping it again changes nothing.
  have hknown : (v.cache.find? included.uri).isSome = true := by
    apply hafter.cached
    rw [find?_remember, if_pos rfl]
    cases (e.on w path line).cache.find? included.uri <;> rfl
  have hkept : (e.on v path line).remember included = e.on v path line := if_pos hknown
  have hentered : Replays (e.on w path line) ((e.on w path line).remember included)
      (e.on v path line) ((e.on v path line).remember included) := by
    rw [hkept]
    refine ⟨⟨rfl, rfl, rfl, rfl, rfl⟩, #[], [], ?_, Array.append_empty.symm, ?_,
      (List.append_nil _).symm⟩
    · rw [hsources, Array.append_empty]
    · rw [hsources, List.append_nil]
  have hnone : ((e.on w path line).remember included).includeFolders = w.includeFolders :=
    ((on_keeps e w path line).trans hkeeps).folders_eq hafter.toKeeps hfolders
  have hsame := hon.toSameRest.trans hentered.toSameRest
  refine (hon.trans hentered).trans (hinside _ _ _ _ ?_ (hsame.growsInto hgrows))
  rw [hsame.folders, hfolders, hnone]

theorem visit_replays (hinside : ∀ lower, levels = lower + 1 -> ThroughReplays files lower)
    (hfolders : v.includeFolders = w.includeFolders)
    (hgrows : GrowsInto files (visit files path (opener files path levels) document w line) v) :
    Replays w (visit files path (opener files path levels) document w line) v
      (visit files path (opener files path levels) document v line) := by
  have hstep := (visit_growsInto levels path document w line).trans hgrows
  have heffect := effect_congr hfolders hstep.toExtends levels path document line
  have hopened : ∀ included, (effect files levels path document w line).opened = some included ->
      ∃ target, w.hasFile files target = true ∧ w.content? files target = some included :=
    fun included => of_effect_opened
  rw [visit_eq_effect] at hgrows
  rw [visit_eq_effect, visit_eq_effect, heffect]
  generalize effect files levels path document w line = e at hgrows hopened ⊢
  cases ho : e.opened with
  | none =>
      rw [ho] at hgrows
      exact on_replays hgrows
  | some included =>
      rw [ho] at hgrows
      cases levels with
      | zero => exact on_replays hgrows
      | succ lower =>
          obtain ⟨target, hfile, hcontent⟩ := hopened included ho
          exact opened_replays (hinside lower rfl) hfolders hfile hcontent hgrows

theorem overLines_replays (hinside : ∀ lower, levels = lower + 1 -> ThroughReplays files lower)
    {lines : List Line} (hfolders : v.includeFolders = w.includeFolders)
    (hgrows : GrowsInto files (overLines files levels path document w lines) v) :
    Replays w (overLines files levels path document w lines) v
      (overLines files levels path document v lines) := by
  induction lines generalizing w v with
  | nil => exact ⟨⟨rfl, rfl, rfl, rfl, rfl⟩, #[], [], by simp [overLines]⟩
  | cons line lines ih =>
      have hfirst : GrowsInto files w _ := visit_growsInto levels path document w line
      have hrest := (overLines_growsInto levels path document _ lines).trans hgrows
      have hstep := visit_replays hinside hfolders hrest
      have hnone := hfirst.toKeeps.folders_eq hrest.toKeeps hfolders
      refine hstep.trans (ih ?_ (hstep.toSameRest.growsInto hgrows))
      rw [hstep.folders, hfolders, hnone]

theorem document_replays (hinside : ∀ lower, levels = lower + 1 -> ThroughReplays files lower) :
    ThroughReplays files levels := by
  intro path document w v hfolders hgrows
  rw [through_eq] at hgrows
  rw [through_eq, through_eq]
  have hrest := (overLines_growsInto levels path document.uri _ _).trans hgrows
  have hdocument := addDocument_replays hrest
  refine hdocument.trans (overLines_replays hinside ?_ (hdocument.toSameRest.growsInto hgrows))
  rw [hdocument.folders, hfolders]
  rfl

theorem through_replays (levels : Nat) : ThroughReplays files levels :=
  levels_induction (fun _ hinside => document_replays hinside) levels

end Walk

/-! ## Documents without commands on folders -/

def Line.addsFolder (line : Line) : Bool :=
  line.command?.bind Command.directive? = some .incdir

theorem Line.addsFolder_of_fileRequest {line : Line} {name : String} {location : Location}
    (h : line.fileRequest = .folder name location) : line.addsFolder = true := by
  have hother {command : Command} {request : String -> Location -> FileRequest}
      (hrequest : ∀ n l, request n l ≠ .folder name location) :
      command.requestWith request ≠ .folder name location := by
    unfold Command.requestWith
    cases Walk.pathArgument command with
    | error finding => simp
    | ok argument => exact hrequest _ _
  unfold fileRequest at h
  unfold addsFolder
  split at h
  · cases h
  · next command hcommand =>
    split at h
    · exact absurd h (hother (by simp))
    · exact absurd h (hother (by simp))
    · next hdirective => simp [hcommand, hdirective]
    · cases h

namespace Walk

variable {files : FileSource}

theorem effect_folder {line : Line} (h : line.addsFolder = false) (levels : Nat)
    (path : List Uri) (document : Uri) (w : Walk) :
    (effect files levels path document w line).folder = none := by
  unfold effect
  cases hr : line.fileRequest with
  | folder name location =>
      rw [Line.addsFolder_of_fileRequest hr] at h
      cases h
  | nothing | faulty => rfl
  | binary name location => cases ht : w.target? files document name <;> simp [ht]
  | document name location =>
      dsimp only
      split
      · rfl
      · split
        · rfl
        · split
          · rfl
          · split <;> rfl

/-- Walking through a document whose lines written out add no folder. -/
def KeepsFolders (files : FileSource) (levels : Nat) : Prop :=
  ∀ path document w, (∀ line ∈ expansion files levels path document w, line.addsFolder = false) ->
    (through files levels path document w).includeFolders = w.includeFolders

theorem visit_keepsFolders {levels : Nat} {path : List Uri}
    (hinside : ∀ lower, levels = lower + 1 -> KeepsFolders files lower) {document : Uri}
    {w : Walk} {line : Line} (hline : line.addsFolder = false)
    (hopened : ∀ other ∈ expansionAt files levels path document w line,
      other.addsFolder = false) :
    (visit files path (opener files path levels) document w line).includeFolders =
      w.includeFolders := by
  have hon : ((effect files levels path document w line).on w path line).includeFolders =
      w.includeFolders := by
    unfold Effect.on
    rw [effect_folder hline]
    rfl
  rw [visit_eq_effect]
  cases levels with
  | zero => cases (effect files 0 path document w line).opened <;> exact hon
  | succ lower =>
      rw [expansionAt_succ] at hopened
      cases ho : (effect files (lower + 1) path document w line).opened with
      | none => exact hon
      | some included =>
          rw [ho] at hopened
          have hthrough := hinside lower rfl _ _ _ hopened
          rw [remember_sources, hon] at hthrough
          exact hthrough

theorem overLines_keepsFolders {levels : Nat} {path : List Uri}
    (hinside : ∀ lower, levels = lower + 1 -> KeepsFolders files lower) {document : Uri}
    {w : Walk} {lines : List Line}
    (h : ∀ line ∈ expansionOver files levels path document w lines, line.addsFolder = false) :
    (overLines files levels path document w lines).includeFolders = w.includeFolders := by
  induction lines generalizing w with
  | nil => rfl
  | cons line lines ih =>
      rw [expansionOver_cons, List.cons_append] at h
      have hstep := visit_keepsFolders hinside (h line List.mem_cons_self) fun other hother =>
        h other (List.mem_cons_of_mem line (List.mem_append_left _ hother))
      have hrest := ih fun other hother =>
        h other (List.mem_cons_of_mem line (List.mem_append_right _ hother))
      exact hrest.trans hstep

theorem through_keepsFolders (levels : Nat) : KeepsFolders files levels := by
  apply levels_induction
  intro levels hinside path document w h
  rw [expansion_eq] at h
  rw [through_eq, overLines_keepsFolders hinside h]
  rfl

/-! ## The second walk -/

/-- The program whose sources a walk has met so far. -/
def program (w : Walk) (uri : Uri) (config : Config) : Program :=
  ⟨uri, config, w.toSources, .ofLines config w.lines⟩

/-- Walking through a document twice in a row gives the symbols, files, folders and documents that
walking through it once gives, provided that none of its lines written out starts a subroutine or
adds a folder.  The faults of the first walk come a second time, so nothing else is reported. -/
theorem through_again (files : FileSource) (levels : Nat) (path : List Uri) (document : Document)
    (w : Walk) (uri : Uri) (config : Config)
    (h : ∀ line ∈ expansion files levels path document w,
      line.startsSubroutine = false ∧ line.addsFolder = false) :
    let once := through files levels path document w
    let twice := through files levels path document once
    Symbols.ofLines config twice.lines = Symbols.ofLines config once.lines ∧
      twice.usedFiles = once.usedFiles ∧ twice.watchedFiles = once.watchedFiles ∧
      twice.includeFolders = once.includeFolders ∧ twice.documents = once.documents ∧
      twice.cache = once.cache ∧
      (∃ faults, once.errors = w.errors ++ faults ∧ twice.errors = once.errors ++ faults) ∧
      (twice.program uri config).findings = (once.program uri config).findings := by
  intro once twice
  have hfolders : once.includeFolders = w.includeFolders :=
    through_keepsFolders levels path document w fun line hline => (h line hline).2
  have hself : GrowsInto files once once := ⟨.refl once, .refl once⟩
  have hreplays : Replays w once once twice :=
    through_replays levels path document w once hfolders hself
  obtain ⟨visits, faults, hvisits, hvisits', hfaults, hfaults'⟩ := hreplays.added
  have hlines : once.lines = w.lines ++ visits.toList.map Visit.line := by
    simp [Sources.lines, hvisits]
  have hlines' : twice.lines = once.lines ++ visits.toList.map Visit.line := by
    simp [Sources.lines, hvisits']
  have hexpansion : visits.toList.map Visit.line = expansion files levels path document w :=
    List.append_cancel_left (hlines.symm.trans (lines_through files levels path document w))
  have hsymbols : Symbols.ofLines config twice.lines = Symbols.ofLines config once.lines := by
    rw [hlines', hlines, hexpansion]
    exact Symbols.ofLines_append_again config w.lines fun line hline => (h line hline).1
  refine ⟨hsymbols, hreplays.used, hreplays.watched, hreplays.folders, hreplays.documents,
    hreplays.cache, ⟨faults, hfaults, hfaults'⟩, ?_⟩
  refine Program.findings_congr rfl hsymbols hreplays.documents fun finding => ?_
  show finding ∈ twice.errors ↔ finding ∈ once.errors
  rw [hfaults', hfaults, List.mem_append, List.mem_append]
  constructor
  · rintro (hmem | hmem)
    · exact hmem
    · exact .inr hmem
  · exact .inl

/-- A shared file with a constant, a segment, a region, a macro and a missing file, walked through
again by a document that includes it. -/
theorem through_again_sharedFile :
    let text := "FOO = 1\n SEG CODE\n RORG $F000\n REND\n MAC W\n ENDM\n INCLUDE \"none.h\"\n"
    let files := (MemoryFiles.empty.write ⟨"file:///defs.h"⟩ text).source
    let document := Document.ofText " INCLUDE \"defs.h\"\n LDA FOO\n" ⟨"file:///a.h"⟩
    let w := through files 1 [⟨"file:///defs.h"⟩] (.ofText text ⟨"file:///defs.h"⟩) ⟨.empty, .empty⟩
    let once := through files 1 [⟨"file:///a.h"⟩] document w
    let twice := through files 1 [⟨"file:///a.h"⟩] document once
    (∀ line ∈ expansion files 1 [⟨"file:///a.h"⟩] document w,
      line.startsSubroutine = false ∧ line.addsFolder = false) ∧
      once.errors.length = 2 ∧ twice.errors.length = 3 ∧
      Symbols.ofLines ⟨[]⟩ twice.lines = Symbols.ofLines ⟨[]⟩ once.lines ∧
      (twice.program ⟨"file:///a.h"⟩ ⟨[]⟩).findings =
        (once.program ⟨"file:///a.h"⟩ ⟨[]⟩).findings := by
  intro text files document w once twice
  have hrun : (∀ line ∈ expansion files 1 [⟨"file:///a.h"⟩] document w,
      line.startsSubroutine = false ∧ line.addsFolder = false) ∧
      once.errors.length = 2 ∧ twice.errors.length = 3 := by
    decide +kernel
  obtain ⟨hlines, honce, htwice⟩ := hrun
  have h := through_again files 1 [⟨"file:///a.h"⟩] document w ⟨"file:///a.h"⟩ ⟨[]⟩ hlines
  exact ⟨hlines, honce, htwice, h.1, h.2.2.2.2.2.2.2⟩

end Walk

end Asm6502
