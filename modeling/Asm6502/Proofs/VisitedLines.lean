import Asm6502.Check
import Asm6502.Proofs.WalkTrace

/-!
# Lines that a walk meets

A walk notes a document when it opens it and then meets all of its lines, however deep it is nested
and whatever its includes lead to.  A document is read once and kept, and the first document is
never entered again, so that a name stands for one document during the whole walk.  Hence the lines
that were met are exactly the lines of the documents that were noted.
-/

namespace Asm6502

namespace Walk

/-! ## The document of a name -/

/-- The document that a walk from a first document enters under its name. -/
def Enters (files : FileSource) (root : Document) (w : Walk) (document : Document) : Prop :=
  if document.uri = root.uri then document = root
  else w.content? files document.uri = some document

variable {files : FileSource} {root : Document}

theorem Enters.eq {w : Walk} {a b : Document} (ha : Enters files root w a)
    (hb : Enters files root w b) (h : a.uri = b.uri) : a = b := by
  unfold Enters at ha hb
  rw [h] at ha
  by_cases hroot : b.uri = root.uri
  · rw [if_pos hroot] at ha hb
    rw [ha, hb]
  · rw [if_neg hroot] at ha hb
    rw [hb] at ha
    exact (Option.some.inj ha).symm

theorem Enters.later {w w' : Walk} {document : Document} (h : Enters files root w document)
    (hextends : Extends files w w') : Enters files root w' document := by
  unfold Enters at h ⊢
  rw [hextends.content]
  exact h

def Settled (files : FileSource) (root : Document) (w : Walk) : Prop :=
  ∀ document ∈ w.documents, Enters files root w document

/-! ## What is added on the way -/

/-- What a walk adds: lines of documents that it noted, and documents all of whose lines it met. -/
structure Adds (w w' : Walk) : Prop where
  lines : ∀ line ∈ w.lines, line ∈ w'.lines
  documents : ∀ document ∈ w.documents, document ∈ w'.documents
  newLines : ∀ line ∈ w'.lines, line ∈ w.lines ∨ ∃ document ∈ w'.documents, line ∈ document.allLines
  newDocuments : ∀ document ∈ w'.documents, document ∈ w.documents ∨
    ∀ line ∈ document.allLines, line ∈ w'.lines

namespace Adds

theorem refl (w : Walk) : Adds w w where
  lines := fun _ h => h
  documents := fun _ h => h
  newLines := fun _ h => .inl h
  newDocuments := fun _ h => .inl h

theorem trans {w₁ w₂ w₃ : Walk} (h₁ : Adds w₁ w₂) (h₂ : Adds w₂ w₃) : Adds w₁ w₃ where
  lines := fun line h => h₂.lines line (h₁.lines line h)
  documents := fun document h => h₂.documents document (h₁.documents document h)
  newLines := by
    intro line h
    rcases h₂.newLines line h with h | h
    · rcases h₁.newLines line h with h | ⟨document, hdocument, hline⟩
      · exact .inl h
      · exact .inr ⟨document, h₂.documents document hdocument, hline⟩
    · exact .inr h
  newDocuments := by
    intro document h
    rcases h₂.newDocuments document h with h | h
    · rcases h₁.newDocuments document h with h | h
      · exact .inl h
      · exact .inr fun line hline => h₂.lines line (h line hline)
    · exact .inr h

/-- A change of anything else adds nothing. -/
theorem of_eq {w w' : Walk} (hvisits : w'.visits = w.visits)
    (hdocuments : w'.documents = w.documents) : Adds w w' := by
  have hlines : w'.lines = w.lines := by rw [Sources.lines, Sources.lines, hvisits]
  refine ⟨?_, ?_, ?_, ?_⟩
  · rw [hlines]
    exact fun _ h => h
  · rw [hdocuments]
    exact fun _ h => h
  · rw [hlines]
    exact fun _ h => .inl h
  · rw [hdocuments]
    exact fun _ h => .inl h

end Adds

variable {w : Walk} {line : Line} {levels : Nat} {path : List Uri}

theorem lines_note (w : Walk) (path : List Uri) (line : Line) :
    (w.note path line).lines = w.lines ++ [line] := by
  simp [Sources.lines, note]

theorem note_adds {document : Document} (path : List Uri) (hdocument : document ∈ w.documents)
    (hline : line ∈ document.allLines) :
    Adds w (w.note path line) where
  lines := by
    intro other h
    rw [lines_note]
    exact List.mem_append_left _ h
  documents := fun _ h => h
  newLines := by
    intro other h
    rw [lines_note, List.mem_append, List.mem_singleton] at h
    rcases h with h | rfl
    · exact .inl h
    · exact .inr ⟨document, hdocument, hline⟩
  newDocuments := fun _ h => .inl h

theorem fault_adds (w : Walk) (finding : Diagnostic) : Adds w (w.fault finding) := .of_eq rfl rfl

theorem report_adds (w : Walk) (message : Message) (location : Location) :
    Adds w (w.report message location) := .of_eq rfl rfl

theorem use_adds (w : Walk) (uri : Uri) : Adds w (w.use uri) :=
  .of_eq rfl rfl

theorem watch_adds (w : Walk) (files : FileSource) (candidates : List Uri) :
    Adds w (w.watch files candidates) :=
  .of_eq rfl rfl

theorem addFolder_adds (w : Walk) (files : FileSource) (document : Uri) (name : String)
    (location : Location) : Adds w (w.addFolder files document name location) := by
  unfold addFolder
  cases document.joinFolder? name with
  | none => exact report_adds w _ location
  | some folder =>
      by_cases h : files.hasFolder folder
      · simp only [h, if_true]
        exact .of_eq rfl rfl
      · simp only [h, Bool.false_eq_true, if_false]
        have hreport : Adds w (w.report (.folderNotResolvable name) location) :=
          report_adds w _ location
        exact hreport.trans (.of_eq rfl rfl)

theorem remember_adds (w : Walk) (document : Document) : Adds w (w.remember document) := by
  unfold remember
  split
  · exact .refl w
  · exact .of_eq rfl rfl

/-! ## Steps and runs -/

/-- What a step or a run of a walk keeps and adds. -/
structure GoesOn (files : FileSource) (root : Document) (w w' : Walk) : Prop where
  settled : Settled files root w'
  adds : Adds w w'

theorem GoesOn.trans {w₁ w₂ w₃ : Walk} (h₁ : GoesOn files root w₁ w₂)
    (h₂ : GoesOn files root w₂ w₃) : GoesOn files root w₁ w₃ :=
  ⟨h₂.settled, h₁.adds.trans h₂.adds⟩

theorem Settled.goesOn {w' : Walk} (h : Settled files root w) (hextends : Extends files w w')
    (hdocuments : w'.documents = w.documents) (hadds : Adds w w') : GoesOn files root w w' := by
  refine ⟨fun document hdocument => ?_, hadds⟩
  rw [hdocuments] at hdocument
  exact (h document hdocument).later hextends

theorem mem_addDocument {document : Document} (hsettled : Settled files root w)
    (henters : Enters files root w document) : document ∈ (w.addDocument document).documents := by
  unfold addDocument
  by_cases h : w.documents.any fun d => d.uri = document.uri
  · simp only [h, if_true]
    obtain ⟨known, hknown, huri⟩ := List.any_eq_true.1 h
    have heq := (hsettled known hknown).eq henters (of_decide_eq_true huri)
    exact heq ▸ hknown
  · simp [h]

theorem of_mem_addDocument {document other : Document}
    (h : other ∈ (w.addDocument document).documents) : other ∈ w.documents ∨ other = document := by
  unfold addDocument at h
  by_cases hany : w.documents.any fun d => d.uri = document.uri
  · simp only [hany, if_true] at h
    exact .inl h
  · simpa [hany] using h

theorem addDocument_documents (w : Walk) (document : Document) :
    ∀ other ∈ w.documents, other ∈ (w.addDocument document).documents := by
  intro other h
  unfold addDocument
  by_cases hany : w.documents.any fun d => d.uri = document.uri
  · simpa [hany] using h
  · simp only [hany, Bool.false_eq_true, if_false]
    exact List.mem_append_left _ h

/-- What is known of walking through an included document with a number of levels. -/
def ThroughGoesOn (files : FileSource) (root : Document) (levels : Nat) : Prop :=
  ∀ path document w, root.uri ∈ path -> Settled files root w -> Enters files root w document ->
    GoesOn files root w (through files levels path document w) ∧
      ∀ line ∈ document.allLines, line ∈ (through files levels path document w).lines

/-- Entering a file that was found. -/
theorem enterFile_goesOn (hinside : ∀ lower, levels = lower + 1 -> ThroughGoesOn files root lower)
    (hroot : root.uri ∈ path) (hsettled : Settled files root w) (name : String)
    (location : Location) {target : Uri} (hfile : w.hasFile files target = true) :
    GoesOn files root w
      (w.enterFile files path (opener files path levels) name location target) := by
  have hreport (message : Message) : GoesOn files root w (w.report message location) :=
    hsettled.goesOn (report_extends files w _ _) rfl (report_adds w message location)
  unfold enterFile
  by_cases hopen : target ∈ path
  · rw [if_pos hopen]
    exact hreport _
  · rw [if_neg hopen]
    cases levels with
    | zero => exact ⟨hsettled, .refl w⟩
    | succ lower =>
        cases hc : w.content? files target with
        | none => exact hreport _
        | some included =>
            have huri : included.uri = target := uri_of_content? hc
            have hextends := remember_extends hfile hc
            have hremember : GoesOn files root w (w.remember included) :=
              hsettled.goesOn hextends
                (congrArg Sources.documents (by unfold remember; split <;> rfl))
                (remember_adds w included)
            -- The first document is open as long as the walk lasts, so it is not included.
            have hne : included.uri ≠ root.uri := by
              intro h
              rw [huri] at h
              exact hopen (h ▸ hroot)
            have henters : Enters files root (w.remember included) included := by
              unfold Enters
              rw [if_neg hne, hextends.content, huri, hc]
            have hpath : root.uri ∈ path ++ [included.uri] := List.mem_append_left _ hroot
            have hthrough := hinside lower rfl _ included _ hpath hremember.settled henters
            exact hremember.trans hthrough.1

theorem visit_goesOn (hinside : ∀ lower, levels = lower + 1 -> ThroughGoesOn files root lower)
    (hroot : root.uri ∈ path) {document : Document} (hsettled : Settled files root w)
    (hdocument : document ∈ w.documents) (hline : line ∈ document.allLines) :
    GoesOn files root w (visit files path (opener files path levels) document.uri w line) ∧
      line ∈ (visit files path (opener files path levels) document.uri w line).lines := by
  have hnote : GoesOn files root w (w.note path line) :=
    hsettled.goesOn (note_extends files w path line) rfl (note_adds path hdocument hline)
  have hnoted : line ∈ (w.note path line).lines := by
    rw [lines_note]
    simp
  -- Whatever happens after the line was noted keeps it among the lines.
  have hafter {w' : Walk} (h : GoesOn files root (w.note path line) w') :
      GoesOn files root w w' ∧ line ∈ w'.lines :=
    ⟨hnote.trans h, h.adds.lines line hnoted⟩
  have hlook (name : String) :
      GoesOn files root (w.note path line) (w.lookFor files path document.uri line name) :=
    hnote.settled.goesOn
      ⟨fun _ h => h, fun _ h => (mem_foldl_addNew _ _).2 (.inl h), fun _ => rfl, fun _ => rfl⟩ rfl
      (watch_adds _ files _)
  have hmissing (name : String) (location : Location) :
      GoesOn files root (w.note path line)
        ((w.lookFor files path document.uri line name).report (.fileNotResolvable name) location) :=
    (hlook name).trans ((hlook name).settled.goesOn (report_extends files _ _ _) rfl
      (report_adds _ _ location))
  rw [visit_eq]
  cases hr : line.fileRequest with
  | nothing => exact ⟨hnote, hnoted⟩
  | faulty finding =>
      exact hafter (hnote.settled.goesOn (fault_extends files _ finding) rfl
        (fault_adds _ finding))
  | folder name location =>
      have hsame : ((w.note path line).addFolder files document.uri name location).documents =
          (w.note path line).documents := by
        unfold addFolder
        cases document.uri.joinFolder? name with
        | none => rfl
        | some folder =>
            by_cases h : files.hasFolder folder <;> simp [h, report]
      exact hafter (hnote.settled.goesOn (addFolder_extends files _ _ name location) hsame
        (addFolder_adds _ files _ name location))
  | binary name location =>
      dsimp only
      cases w.target? files document.uri name with
      | none => exact hafter (hmissing name location)
      | some target =>
          exact hafter ((hlook name).trans ((hlook name).settled.goesOn
            (use_extends files _ target) rfl (use_adds _ target)))
  | document name location =>
      dsimp only
      cases ht : w.target? files document.uri name with
      | none => exact hafter (hmissing name location)
      | some target =>
          exact hafter ((hlook name).trans (enterFile_goesOn hinside hroot (hlook name).settled name
            location (hasFile_of_target? ht)))

theorem overLines_goesOn (hinside : ∀ lower, levels = lower + 1 -> ThroughGoesOn files root lower)
    (hroot : root.uri ∈ path) {document : Document} {lines : List Line}
    (hsettled : Settled files root w) (hdocument : document ∈ w.documents)
    (hlines : ∀ line ∈ lines, line ∈ document.allLines) :
    GoesOn files root w (overLines files levels path document.uri w lines) ∧
      ∀ line ∈ lines, line ∈ (overLines files levels path document.uri w lines).lines := by
  induction lines generalizing w with
  | nil => exact ⟨⟨hsettled, .refl w⟩, by simp⟩
  | cons line lines ih =>
      obtain ⟨hvisit, hmet⟩ := visit_goesOn hinside hroot hsettled hdocument
        (hlines line List.mem_cons_self)
      obtain ⟨hrest, hmetRest⟩ := ih hvisit.settled (hvisit.adds.documents document hdocument)
        fun other h => hlines other (List.mem_cons_of_mem line h)
      refine ⟨hvisit.trans hrest, ?_⟩
      intro other h
      rcases List.mem_cons.1 h with rfl | h
      · exact hrest.adds.lines other hmet
      · exact hmetRest other h

theorem through_goesOn_of_inside
    (hinside : ∀ lower, levels = lower + 1 -> ThroughGoesOn files root lower) :
    ThroughGoesOn files root levels := by
  intro path document w hroot hsettled henters
  have hextends := addDocument_extends files w document
  have hopened : Settled files root (w.addDocument document) := by
    intro other h
    rcases of_mem_addDocument h with h | rfl
    · exact (hsettled other h).later hextends
    · exact henters.later hextends
  have hdocument := mem_addDocument hsettled henters
  obtain ⟨hlines, hmet⟩ := overLines_goesOn hinside hroot hopened hdocument fun _ h => h
  rw [through_eq]
  refine ⟨⟨hlines.settled, ?_⟩, hmet⟩
  refine ⟨hlines.adds.lines, ?_, hlines.adds.newLines, ?_⟩
  · intro other h
    exact hlines.adds.documents other (addDocument_documents w document other h)
  · -- The document itself is complete only now that all its lines were met.
    intro other h
    rcases hlines.adds.newDocuments other h with h | h
    · rcases of_mem_addDocument h with h | rfl
      · exact .inl h
      · exact .inr hmet
    · exact .inr h

theorem through_goesOn (levels : Nat) : ThroughGoesOn files root levels := by
  induction levels with
  | zero => exact through_goesOn_of_inside fun lower h => absurd h (Nat.succ_ne_zero lower).symm
  | succ levels ih =>
      refine through_goesOn_of_inside fun lower h => ?_
      rw [← Nat.succ.inj h]
      exact ih

end Walk

/-! ## Whole walks -/

namespace Document

variable (document : Document) (files : FileSource) (cache : DocumentCache)

theorem walk_goesOn : Walk.GoesOn files document ⟨.empty, cache⟩ (document.walk files cache) := by
  have hroot : document.uri ∈ [document.uri] := List.mem_singleton_self _
  have hsettled : Walk.Settled files document ⟨.empty, cache⟩ := by
    intro other h
    cases h
  have henters : Walk.Enters files document ⟨.empty, cache⟩ document := by
    unfold Walk.Enters
    rw [if_pos rfl]
  exact (Walk.through_goesOn (includeLimit - 1) _ document _ hroot hsettled henters).1

theorem mem_walk_lines {line : Line} :
    line ∈ (document.walk files cache).lines ↔
      ∃ d ∈ (document.walk files cache).documents, line ∈ d.allLines := by
  have hadds := (document.walk_goesOn files cache).adds
  constructor
  · intro h
    rcases hadds.newLines line h with h | h
    · cases h
    · exact h
  · rintro ⟨d, hd, hline⟩
    rcases hadds.newDocuments d hd with h | h
    · cases h
    · exact h line hline

theorem walk_enters :
    ∀ d ∈ (document.walk files cache).documents,
      Walk.Enters files document ⟨.empty, cache⟩ d := by
  intro d hd
  have henters := (document.walk_goesOn files cache).settled d hd
  unfold Walk.Enters at henters ⊢
  rwa [← (Walk.through_extends _ _ document ⟨.empty, cache⟩).content]

end Document

end Asm6502
