import Asm6502.Proofs.IncludeFootprint
import Asm6502.Proofs.VisitedLines

/-!
# Programs written out

A program is written out by putting the lines of every document that an include opens behind that
include, as often as it is met.  The walk through a program meets the lines of the program written
out, in the same order.
-/

namespace Asm6502

namespace Walk

/-! ## What a line adds to a walk -/

/-- What a line adds to a walk, apart from the line itself. -/
structure Effect where
  /-- The files that were looked for in vain. -/
  watched : List Uri := []
  used : Option Uri := none
  folder : Option Uri := none
  faults : List Diagnostic := []
  /-- The document that is walked through in place of the line. -/
  opened : Option Document := none

def effect (files : FileSource) (levels : Nat) (path : List Uri) (document : Uri) (w : Walk)
    (line : Line) : Effect :=
  match line.fileRequest with
  | .nothing => {}
  | .faulty finding => { faults := [finding] }
  | .folder name location =>
      match document.joinFolder? name with
      | none => { faults := [.of (.folderNotResolvable name) location] }
      | some folder =>
          { folder := some folder
            faults :=
              if files.hasFolder folder then [] else [.of (.folderNotResolvable name) location] }
  | .binary name location =>
      let watched := w.passed files document name
      match w.target? files document name with
      | none => { watched, faults := [.of (.fileNotResolvable name) location] }
      | some target => { watched, used := some target }
  | .document name location =>
      let watched := w.passed files document name
      match w.target? files document name with
      | none => { watched, faults := [.of (.fileNotResolvable name) location] }
      | some target =>
          if target ∈ path then { watched, faults := [.of (.circularInclude name) location] }
          else if levels = 0 then { watched }
          else
            match w.content? files target with
            | none => { watched, faults := [.of (.fileNotResolvable name) location] }
            | some included => { watched, opened := some included }

/-- The walk after it met a line with an effect, before any document is opened. -/
def Effect.on (e : Effect) (w : Walk) (path : List Uri) (line : Line) : Walk :=
  { w with
    visits := w.visits.push ⟨path, line⟩
    usedFiles := e.used.toList.foldl addNew w.usedFiles
    watchedFiles := e.watched.foldl addNew w.watchedFiles
    includeFolders := e.folder.toList.foldl addNew w.includeFolders
    errors := w.errors ++ e.faults }

theorem lookFor_eq_on (w : Walk) (files : FileSource) (path : List Uri) (document : Uri)
    (line : Line) (name : String) :
    w.lookFor files path document line name =
      Effect.on { watched := w.passed files document name } w path line := by
  simp [lookFor, note, watch, Effect.on, passed]
  rfl

theorem visit_eq_effect (files : FileSource) (levels : Nat) (path : List Uri) (document : Uri)
    (w : Walk) (line : Line) :
    let e := effect files levels path document w line
    visit files path (opener files path levels) document w line =
      e.opened.elim (e.on w path line) fun included =>
        (opener files path levels).elim (e.on w path line) fun enter =>
          enter included ((e.on w path line).remember included) := by
  have hnote : w.note path line = Effect.on {} w path line := by
    simp [note, Effect.on]
  intro e
  rw [visit_eq]
  cases hr : line.fileRequest with
  | nothing =>
      simp only [e, effect, hr]
      exact hnote
  | faulty finding =>
      simp only [e, effect, hr]
      rfl
  | folder name location =>
      simp only [e, effect, hr, addFolder]
      cases document.joinFolder? name with
      | none => rfl
      | some folder =>
          by_cases hfolder : files.hasFolder folder = true
          · simp only [hfolder, if_true]
            simp [Effect.on, note]
          · simp only [hfolder]
            rfl
  | binary name location =>
      simp only [e, effect, hr]
      cases w.target? files document name with
      | none => rfl
      | some target =>
          simp only [lookFor_eq_on]
          rfl
  | document name location =>
      simp only [e, effect, hr]
      cases w.target? files document name with
      | none => rfl
      | some target =>
          by_cases hopen : target ∈ path
          · simp only [enterFile, if_pos hopen]
            rfl
          · have hcontent : (w.lookFor files path document line name).content? files target =
                w.content? files target := rfl
            simp only [enterFile, if_neg hopen, hcontent]
            cases levels with
            | zero => exact lookFor_eq_on w files path document line name
            | succ lower =>
                simp only [opener, Nat.add_one_ne_zero, if_false]
                cases w.content? files target with
                | none => rfl
                | some included =>
                    simp only [lookFor_eq_on]
                    rfl

/-! ## The lines that a line brings in -/

def expansionAt (files : FileSource) (levels : Nat) (path : List Uri) (document : Uri) (w : Walk)
    (line : Line) : List Line :=
  ((Moment.opened? ⟨levels, path, document, w, line⟩ files).elim []
    fun (included, w) => momentsInside files path levels included w).map Moment.line

def expansionOver (files : FileSource) (levels : Nat) (path : List Uri) (document : Uri) (w : Walk)
    (lines : List Line) : List Line :=
  (momentsOver files levels path (momentsInside files path levels) document w lines).map Moment.line

/-- The lines of a document written out. -/
def expansion (files : FileSource) (levels : Nat) (path : List Uri) (document : Document)
    (w : Walk) : List Line :=
  (moments files levels path document w).map Moment.line

variable {files : FileSource}

theorem expansion_eq (levels : Nat) (path : List Uri) (document : Document) (w : Walk) :
    expansion files levels path document w =
      expansionOver files levels path document.uri (w.addDocument document)
        (Line.walkAll document.file.lines) := by
  unfold expansion expansionOver
  rw [moments_eq]

theorem expansionOver_cons (levels : Nat) (path : List Uri) (document : Uri) (w : Walk)
    (line : Line) (lines : List Line) :
    expansionOver files levels path document w (line :: lines) =
      line :: expansionAt files levels path document w line ++
        expansionOver files levels path document
          (visit files path (opener files path levels) document w line) lines := by
  unfold expansionOver expansionAt
  rw [momentsOver, List.map_append, List.map_cons]

theorem expansionAt_zero (path : List Uri) (document : Uri) (w : Walk) (line : Line) :
    expansionAt files 0 path document w line = [] := by
  unfold expansionAt
  cases Moment.opened? ⟨0, path, document, w, line⟩ files <;> rfl

theorem expansionAt_succ (lower : Nat) (path : List Uri) (document : Uri) (w : Walk)
    (line : Line) :
    let e := effect files (lower + 1) path document w line
    expansionAt files (lower + 1) path document w line =
      e.opened.elim [] fun included =>
        expansion files lower (path ++ [included.uri]) included
          ((e.on w path line).remember included) := by
  intro e
  have hopened : Moment.opened? ⟨lower + 1, path, document, w, line⟩ files =
      e.opened.map fun included => (included, (e.on w path line).remember included) := by
    simp only [e, effect, Moment.opened?, Moment.found?]
    cases line.fileRequest with
    | folder name location =>
        simp only
        cases document.joinFolder? name <;> rfl
    | binary name location =>
        simp only
        cases w.target? files document name <;> rfl
    | document name location =>
        simp only
        cases w.target? files document name with
        | none => rfl
        | some target =>
            by_cases hopen : target ∈ path
            · simp [Option.filter_some, hopen]
            · cases hc : w.content? files target with
              | none => simp [Option.filter_some, hopen, hc]
              | some included =>
                  simp [Option.filter_some, hopen, hc, lookFor_eq_on]
                  rfl
    | nothing | faulty => rfl
  rw [expansionAt, hopened]
  cases e.opened <;> rfl

/-! ## The lines of a walk -/

/-- A document is walked through with one level less than the document that includes it, so what a
walk does may be taken for granted of the documents inside. -/
theorem levels_induction {P : Nat -> Prop}
    (h : ∀ levels, (∀ lower, levels = lower + 1 -> P lower) -> P levels) (levels : Nat) :
    P levels := by
  induction levels with
  | zero => exact h 0 fun lower heq => by cases heq
  | succ levels ih =>
      apply h
      intro lower heq
      cases heq
      exact ih

/-- Walking through a document with a number of levels meets its lines written out. -/
def MeetsExpansion (files : FileSource) (levels : Nat) : Prop :=
  ∀ path document w, (through files levels path document w).lines =
    w.lines ++ expansion files levels path document w

theorem lines_on (e : Effect) (w : Walk) (path : List Uri) (line : Line) :
    (e.on w path line).lines = w.lines ++ [line] :=
  lines_note w path line

theorem lines_remember (w : Walk) (document : Document) : (w.remember document).lines = w.lines :=
  congrArg Sources.lines (remember_sources w document)

theorem lines_visit {levels : Nat} {path : List Uri}
    (hinside : ∀ lower, levels = lower + 1 -> MeetsExpansion files lower)
    (document : Uri) (w : Walk) (line : Line) :
    (visit files path (opener files path levels) document w line).lines =
      w.lines ++ line :: expansionAt files levels path document w line := by
  rw [visit_eq_effect]
  cases levels with
  | zero =>
      rw [expansionAt_zero]
      cases (effect files 0 path document w line).opened <;> exact lines_on _ w path line
  | succ lower =>
      rw [expansionAt_succ]
      cases (effect files (lower + 1) path document w line).opened with
      | none => exact lines_on _ w path line
      | some included =>
          show (through files lower (path ++ [included.uri]) included _).lines = _
          rw [hinside lower rfl, lines_remember, lines_on, List.append_assoc]
          rfl

theorem lines_overLines {levels : Nat} {path : List Uri}
    (hinside : ∀ lower, levels = lower + 1 -> MeetsExpansion files lower)
    (document : Uri) (w : Walk) (lines : List Line) :
    (overLines files levels path document w lines).lines =
      w.lines ++ expansionOver files levels path document w lines := by
  induction lines generalizing w with
  | nil => exact (List.append_nil _).symm
  | cons line lines ih =>
      have hrest := ih (visit files path (opener files path levels) document w line)
      rw [lines_visit hinside] at hrest
      rw [expansionOver_cons, ← List.append_assoc]
      exact hrest

theorem lines_through (files : FileSource) (levels : Nat) : MeetsExpansion files levels := by
  apply levels_induction
  intro levels hinside path document w
  rw [through_eq, expansion_eq, lines_overLines hinside]
  rfl

end Walk

/-- A program written out from its first document. -/
def Document.expansion (document : Document) (files : FileSource) (cache : DocumentCache) :
    List Line :=
  Walk.expansion files (includeLimit - 1) [document.uri] document ⟨.empty, cache⟩

theorem Document.lines_walk (document : Document) (files : FileSource) (cache : DocumentCache) :
    (document.walk files cache).lines = document.expansion files cache :=
  Walk.lines_through files _ [document.uri] document ⟨.empty, cache⟩

theorem Program.resolve_symbols (document : Document) (config : Config) (files : FileSource)
    (cache : DocumentCache) :
    (resolve document config files cache).1.symbols =
      .ofLines config (document.expansion files cache) := by
  rw [← Document.lines_walk]
  rfl

end Asm6502
