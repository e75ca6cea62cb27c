import Asm6502.Program.Sources

/-!
# Steps and moments of a walk

What one line does to a walk depends on the file request it makes.  Every step only adds to the
files a walk hangs on, and none changes which files there are or what they hold, so the same is
true of a whole walk.  The moments of a walk are the lines it meets, each with the state in which
it meets it; an include that finds a file and leaves it out can be read off them.
-/

namespace Asm6502

inductive FileRequest where
  | nothing
  /-- A command on a file whose argument is no file name. -/
  | faulty (finding : Diagnostic)
  /-- A document to be walked through in place of the line. -/
  | document (name : String) (location : Location)
  /-- A file that is taken as it is. -/
  | binary (name : String) (location : Location)
  /-- A folder in which files are looked for from now on. -/
  | folder (name : String) (location : Location)

def Command.requestWith (command : Command) (request : String -> Location -> FileRequest) :
    FileRequest :=
  match Walk.pathArgument command with
  | .error finding => .faulty finding
  | .ok (name, location) => request name location

def Line.fileRequest (line : Line) : FileRequest :=
  match line.command? with
  | none => .nothing
  | some c =>
      match c.directive? with
      | some .includeFile => c.requestWith .document
      | some .incbin => c.requestWith .binary
      | some .incdir => c.requestWith .folder
      | _ => .nothing

namespace Walk

/-! ## What a line does -/

def content? (w : Walk) (files : FileSource) (uri : Uri) : Option Document :=
  (w.cache.find? uri).or ((files.read? uri).map fun text => .ofText text uri)

def target? (w : Walk) (files : FileSource) (document : Uri) (name : String) : Option Uri :=
  (w.candidates document name).find? (w.hasFile files)

def note (w : Walk) (path : List Uri) (line : Line) : Walk :=
  { w with visits := w.visits.push ⟨path, line⟩ }

def fault (w : Walk) (finding : Diagnostic) : Walk :=
  { w with errors := w.errors ++ [finding] }

/-- The walk with a file noted that it hangs on. -/
def use (w : Walk) (uri : Uri) : Walk :=
  { w with usedFiles := addNew w.usedFiles uri }

def lookFor (w : Walk) (files : FileSource) (path : List Uri) (document : Uri) (line : Line)
    (name : String) : Walk :=
  (w.note path line).watch files (w.candidates document name)

def remember (w : Walk) (document : Document) : Walk :=
  if (w.cache.find? document.uri).isSome then w
  else { w with cache := w.cache.insert document }

def addFolder (w : Walk) (files : FileSource) (document : Uri) (name : String)
    (location : Location) : Walk :=
  match document.joinFolder? name with
  | none => w.report (.folderNotResolvable name) location
  | some folder =>
      let w := if files.hasFolder folder then w else w.report (.folderNotResolvable name) location
      { w with includeFolders := addNew w.includeFolders folder }

/-- The walk after an include found a file: the file is entered unless it is open already or no
more documents may be opened. -/
def enterFile (w : Walk) (files : FileSource) (path : List Uri)
    (enter : Option (Document -> Walk -> Walk)) (name : String) (location : Location)
    (target : Uri) : Walk :=
  if target ∈ path then w.report (.circularInclude name) location
  else
    match enter with
    | none => w
    | some enter =>
        match w.content? files target with
        | none => w.report (.fileNotResolvable name) location
        | some included => enter included (w.remember included)

theorem uri_of_content? {w : Walk} {files : FileSource} {uri : Uri} {document : Document}
    (h : w.content? files uri = some document) : document.uri = uri := by
  unfold content? at h
  cases hc : w.cache.find? uri with
  | some known =>
      rw [hc, Option.some_or, Option.some.injEq] at h
      exact h ▸ w.cache.named uri known hc
  | none =>
      rw [hc, Option.none_or, Option.map_eq_some_iff] at h
      obtain ⟨text, -, rfl⟩ := h
      rfl

theorem read?_eq (w : Walk) (files : FileSource) (uri : Uri) :
    w.read? files uri =
      (w.content? files uri).map fun document => (document, w.remember document) := by
  unfold read? content?
  cases hc : w.cache.find? uri with
  | some known =>
      have hn := w.cache.named uri known hc
      simp [remember, hn, hc]
  | none =>
      cases files.read? uri with
      | none => rfl
      | some text => simp [remember, hc]

theorem includeDocument_eq (w : Walk) (files : FileSource) (path : List Uri)
    (enter : Option (Document -> Walk -> Walk)) (document : Uri) (command : Command) :
    w.includeDocument files path enter document command =
      w.withFile files document command fun w target name location =>
        w.enterFile files path enter name location target := by
  unfold includeDocument
  congr 1
  funext w target name location
  unfold enterFile
  rw [read?_eq]
  cases enter with
  | none => rfl
  | some enter => cases w.content? files target <;> rfl

theorem visit_eq (files : FileSource) (path : List Uri) (enter : Option (Document -> Walk -> Walk))
    (document : Uri) (w : Walk) (line : Line) :
    visit files path enter document w line =
      match line.fileRequest with
      | .nothing => w.note path line
      | .faulty finding => (w.note path line).fault finding
      | .folder name location => (w.note path line).addFolder files document name location
      | .binary name location =>
          match w.target? files document name with
          | none =>
              (w.lookFor files path document line name).report (.fileNotResolvable name) location
          | some target => (w.lookFor files path document line name).use target
      | .document name location =>
          match w.target? files document name with
          | none =>
              (w.lookFor files path document line name).report (.fileNotResolvable name) location
          | some target =>
              (w.lookFor files path document line name).enterFile files path enter name location
                target := by
  unfold Line.fileRequest Command.requestWith
  change (match line.command? with
    | none => w.note path line
    | some command =>
        match command.directive? with
        | some .includeFile => (w.note path line).includeDocument files path enter document command
        | some .incbin => (w.note path line).includeBinary files document command
        | some .incdir => (w.note path line).includeFolder files document command
        | _ => w.note path line) = _
  cases line.command? with
  | none => rfl
  | some command =>
      cases hd : command.directive? with
      | none => simp only [hd]
      | some directive =>
          cases directive
          case includeFile =>
            simp only [hd, includeDocument_eq, withFile]
            cases pathArgument command <;> rfl
          case incbin =>
            simp only [hd, includeBinary, withFile]
            cases pathArgument command <;> rfl
          case incdir =>
            simp only [hd, includeFolder]
            cases pathArgument command <;> rfl
          all_goals simp only [hd]

end Walk

/-- Files that exist exactly when they can be read. -/
def FileSource.Readable (files : FileSource) : Prop :=
  ∀ uri, files.hasFile uri = (files.read? uri).isSome

theorem MemoryFiles.source_readable (m : MemoryFiles) : m.source.Readable :=
  fun _ => rfl

theorem FileSource.Readable.hasFile_eq {files : FileSource} (hfiles : files.Readable) (w : Walk)
    (uri : Uri) : w.hasFile files uri = (w.content? files uri).isSome := by
  unfold Walk.hasFile Walk.content?
  rw [Cache.contains_eq, hfiles uri]
  cases w.cache.find? uri <;> simp

namespace Walk

/-! ## What a walk keeps -/

/-- A later state of a walk hangs on at least the same files, and sees the same files in the same
state as the earlier one. -/
structure Extends (files : FileSource) (w w' : Walk) : Prop where
  used : w.usedFiles ⊆ w'.usedFiles
  watched : w.watchedFiles ⊆ w'.watchedFiles
  hasFile : ∀ uri, w'.hasFile files uri = w.hasFile files uri
  content : ∀ uri, w'.content? files uri = w.content? files uri

namespace Extends

variable {files : FileSource}

theorem refl (w : Walk) : Extends files w w :=
  ⟨fun _ h => h, fun _ h => h, fun _ => rfl, fun _ => rfl⟩

theorem trans {w₁ w₂ w₃ : Walk} (h₁ : Extends files w₁ w₂) (h₂ : Extends files w₂ w₃) :
    Extends files w₁ w₃ where
  used := fun _ h => h₂.used (h₁.used h)
  watched := fun _ h => h₂.watched (h₁.watched h)
  hasFile := fun uri => (h₂.hasFile uri).trans (h₁.hasFile uri)
  content := fun uri => (h₂.content uri).trans (h₁.content uri)

end Extends

variable {w : Walk} {target document : Uri} {name : String} {path : List Uri}
  {enter : Option (Document -> Walk -> Walk)}

theorem mem_foldl_addNew {α : Type} [DecidableEq α] {a : α} (l xs : List α) :
    a ∈ xs.foldl addNew l ↔ a ∈ l ∨ a ∈ xs := by
  induction xs generalizing l with
  | nil => simp
  | cons x xs ih => rw [List.foldl_cons, ih, mem_addNew, List.mem_cons, or_assoc]

variable (files : FileSource)

theorem note_extends (w : Walk) (path : List Uri) (line : Line) :
    Extends files w (w.note path line) :=
  ⟨fun _ h => h, fun _ h => h, fun _ => rfl, fun _ => rfl⟩

theorem fault_extends (w : Walk) (finding : Diagnostic) : Extends files w (w.fault finding) :=
  ⟨fun _ h => h, fun _ h => h, fun _ => rfl, fun _ => rfl⟩

theorem report_extends (w : Walk) (message : Message) (location : Location) :
    Extends files w (w.report message location) :=
  fault_extends files w _

theorem use_extends (w : Walk) (uri : Uri) : Extends files w (w.use uri) :=
  ⟨fun _ h => mem_addNew.2 (.inl h), fun _ h => h, fun _ => rfl, fun _ => rfl⟩

theorem lookFor_extends (w : Walk) (path : List Uri) (document : Uri) (line : Line)
    (name : String) : Extends files w (w.lookFor files path document line name) :=
  ⟨fun _ h => h, fun _ h => (mem_foldl_addNew _ _).2 (.inl h), fun _ => rfl, fun _ => rfl⟩

theorem addFolder_extends (w : Walk) (document : Uri) (name : String) (location : Location) :
    Extends files w (w.addFolder files document name location) := by
  unfold addFolder
  cases document.joinFolder? name with
  | none => exact report_extends files w _ _
  | some folder =>
      by_cases h : files.hasFolder folder <;>
        simp only [h, if_true, Bool.false_eq_true, if_false] <;>
        exact ⟨fun _ h => h, fun _ h => h, fun _ => rfl, fun _ => rfl⟩

theorem addDocument_extends (w : Walk) (document : Document) :
    Extends files w (w.addDocument document) :=
  ⟨fun _ h => mem_addNew.2 (.inl h), fun _ h => h, fun _ => rfl, fun _ => rfl⟩

theorem uri_mem_addDocument (w : Walk) (document : Document) :
    document.uri ∈ (w.addDocument document).usedFiles :=
  mem_addNew.2 (.inr rfl)

theorem find?_remember (w : Walk) (document : Document) (uri : Uri) :
    (w.remember document).cache.find? uri =
      (w.cache.find? uri).or (if uri = document.uri then some document else none) := by
  unfold remember
  cases h : w.cache.find? document.uri with
  | some known =>
      simp only [Option.isSome_some, if_true]
      by_cases hu : uri = document.uri
      · rw [hu, h, Option.some_or]
      · rw [if_neg hu, Option.or_none]
  | none =>
      simp only [Option.isSome_none, Bool.false_eq_true, if_false]
      rw [DocumentCache.find?_insert]
      by_cases hu : uri = document.uri
      · rw [if_pos hu, if_pos hu, hu, h, Option.none_or]
      · rw [if_neg hu, if_neg hu, Option.or_none]

variable {files}

variable {included : Document} {location : Location} {levels : Nat}

/-- Keeping a document that was read changes nothing about which files there are. -/
theorem remember_extends (hfile : w.hasFile files target = true)
    (hc : w.content? files target = some included) : Extends files w (w.remember included) := by
  have huri : included.uri = target := uri_of_content? hc
  have hsources : (w.remember included).toSources = w.toSources := by
    unfold remember
    split <;> rfl
  refine ⟨fun _ h => hsources ▸ h, fun _ h => hsources ▸ h, ?_, ?_⟩
  · intro uri
    unfold hasFile
    rw [Cache.contains_eq, Cache.contains_eq, find?_remember]
    by_cases hu : uri = included.uri
    · rw [hu, huri]
      unfold hasFile at hfile
      rw [Cache.contains_eq] at hfile
      simp [hfile]
    · simp [hu]
  · intro uri
    by_cases hu : uri = included.uri
    · rw [hu, huri, hc]
      unfold content?
      rw [find?_remember, huri, if_pos rfl]
      unfold content? at hc
      cases hk : w.cache.find? target with
      | some known => simpa [hk] using hc
      | none => rfl
    · unfold content?
      rw [find?_remember, if_neg hu, Option.or_none]

theorem hasFile_of_target? (h : w.target? files document name = some target) :
    w.hasFile files target = true := by
  unfold target? at h
  exact List.find?_some h

theorem enterFile_extends (henter : ∀ f ∈ enter, ∀ included w, Extends files w (f included w))
    (w : Walk) (name : String) (location : Location) (hfile : w.hasFile files target = true) :
    Extends files w (w.enterFile files path enter name location target) := by
  unfold enterFile
  split
  next => exact report_extends files w _ _
  next =>
    cases enter with
    | none => exact .refl w
    | some f =>
        cases hc : w.content? files target with
        | none => exact report_extends files w _ _
        | some included => exact (remember_extends hfile hc).trans (henter f rfl _ _)

theorem lookFor_extends_visit (henter : ∀ f ∈ enter, ∀ included w, Extends files w (f included w))
    {line : Line} (hr : line.fileRequest = .document name location) :
    Extends files (w.lookFor files path document line name)
      (visit files path enter document w line) := by
  rw [visit_eq, hr]
  dsimp only
  cases ht : w.target? files document name with
  | none => exact report_extends files _ _ _
  | some target => exact enterFile_extends henter _ name location (hasFile_of_target? ht)

theorem visit_extends (henter : ∀ f ∈ enter, ∀ included w, Extends files w (f included w))
    (document : Uri) (w : Walk) (line : Line) :
    Extends files w (visit files path enter document w line) := by
  have hnote := note_extends files w path line
  cases hr : line.fileRequest with
  | nothing =>
      rw [visit_eq, hr]
      exact hnote
  | faulty finding =>
      rw [visit_eq, hr]
      exact hnote.trans (fault_extends files _ finding)
  | folder name location =>
      rw [visit_eq, hr]
      exact hnote.trans (addFolder_extends files _ document name location)
  | binary name location =>
      have hlook := lookFor_extends files w path document line name
      rw [visit_eq, hr]
      dsimp only
      cases w.target? files document name with
      | none => exact hlook.trans (report_extends files _ _ _)
      | some target => exact hlook.trans (use_extends files _ target)
  | document name location =>
      exact (lookFor_extends files w path document line name).trans
        (lookFor_extends_visit henter hr)

theorem visits_extend (henter : ∀ f ∈ enter, ∀ included w, Extends files w (f included w))
    (document : Uri) (lines : List Line) (w : Walk) :
    Extends files w (lines.foldl (visit files path enter document) w) := by
  induction lines generalizing w with
  | nil => exact .refl w
  | cons line lines ih => exact (visit_extends henter document w line).trans (ih _)

def opener (files : FileSource) (path : List Uri) : Nat -> Option (Document -> Walk -> Walk)
  | 0 => none
  | levels + 1 => some fun included w => through files levels (path ++ [included.uri]) included w

def overLines (files : FileSource) (levels : Nat) (path : List Uri) (document : Uri) (w : Walk)
    (lines : List Line) : Walk :=
  lines.foldl (visit files path (opener files path levels) document) w

theorem through_eq (files : FileSource) (levels : Nat) (path : List Uri) (document : Document)
    (w : Walk) :
    through files levels path document w =
      overLines files levels path document.uri (w.addDocument document)
        (Line.walkAll document.file.lines) := by
  cases levels <;> rfl

theorem through_extends (levels : Nat) (path : List Uri) (document : Document) (w : Walk) :
    Extends files w (through files levels path document w) := by
  induction levels generalizing path document w with
  | zero =>
      rw [through_eq]
      exact (addDocument_extends files w document).trans (visits_extend (by simp [opener]) _ _ _)
  | succ levels ih =>
      rw [through_eq]
      refine (addDocument_extends files w document).trans (visits_extend ?_ _ _ _)
      intro f hf included w
      cases hf
      exact ih _ included w

theorem opener_extends :
    ∀ f ∈ opener files path levels, ∀ included w, Extends files w (f included w) := by
  intro f hf included w
  cases levels with
  | zero => cases hf
  | succ levels =>
      cases hf
      exact through_extends levels _ included w

theorem overLines_extends (levels : Nat) (path : List Uri) (document : Uri) (w : Walk)
    (lines : List Line) : Extends files w (overLines files levels path document w lines) :=
  visits_extend opener_extends document lines w

theorem visit_eq_through {line : Line} (hr : line.fileRequest = .document name location)
    (ht : w.target? files document name = some target) (hopen : target ∉ path)
    (hc : w.content? files target = some included) :
    visit files path (opener files path (levels + 1)) document w line =
      through files levels (path ++ [included.uri]) included
        ((w.lookFor files path document line name).remember included) := by
  have hl : (w.lookFor files path document line name).content? files target = some included := hc
  rw [visit_eq, hr]
  simp only [ht, enterFile, if_neg hopen, opener, hl]

/-! ## The moments of a walk -/

structure Moment where
  /-- How many more documents may be opened inside the one with the line. -/
  levels : Nat
  path : List Uri
  document : Uri
  walk : Walk
  line : Line

namespace Moment

/-- The file that an include finds, unless that file is open already. -/
def found? (m : Moment) (files : FileSource) : Option Uri :=
  match m.line.fileRequest with
  | .document name _ => (m.walk.target? files m.document name).filter fun target => target ∉ m.path
  | _ => none

/-- The file that an include finds but must not open, because too many documents are open. -/
def cutOff? (m : Moment) (files : FileSource) : Option Uri :=
  if m.levels = 0 then m.found? files else none

/-- The file that an include finds but does not walk through, because too many documents are open
or because the file cannot be read. -/
def leftOut? (m : Moment) (files : FileSource) : Option Uri :=
  (m.found? files).filter fun target => m.levels = 0 || (m.walk.content? files target).isNone

def opened? (m : Moment) (files : FileSource) : Option (Document × Walk) :=
  match m.line.fileRequest with
  | .document name _ =>
      (m.found? files).bind fun target =>
        (m.walk.content? files target).map fun included =>
          (included, (m.walk.lookFor files m.path m.document m.line name).remember included)
  | _ => none

theorem found?_of_target? {files : FileSource} (levels : Nat) {path : List Uri} {document : Uri}
    {w : Walk} {line : Line} {name : String} {target : Uri}
    (hr : line.fileRequest = .document name location)
    (ht : w.target? files document name = some target) (hopen : target ∉ path) :
    found? ⟨levels, path, document, w, line⟩ files = some target := by
  simp [found?, hr, ht, hopen]

theorem hasFile_of_found? {m : Moment} {files : FileSource} {target : Uri}
    (h : m.found? files = some target) : m.walk.hasFile files target = true := by
  unfold found? at h
  split at h
  next => exact hasFile_of_target? (Option.filter_eq_some_iff.1 h).1
  next => cases h

theorem opened?_extends {m : Moment} {files : FileSource} {w : Walk}
    (h : m.opened? files = some (included, w)) : Extends files m.walk w := by
  unfold opened? at h
  split at h
  next name location hr =>
    obtain ⟨target, hfound, h⟩ := Option.bind_eq_some_iff.1 h
    obtain ⟨d, hc, hd⟩ := Option.map_eq_some_iff.1 h
    cases hd
    exact (lookFor_extends files m.walk m.path m.document m.line name).trans
      (remember_extends (hasFile_of_found? hfound) hc)
  next => cases h

end Moment

/-- The moments of a walk over lines of a document, with those inside the documents that the lines
open. -/
def momentsOver (files : FileSource) (levels : Nat) (path : List Uri)
    (inside : Document -> Walk -> List Moment) (document : Uri) : Walk -> List Line -> List Moment
  | _, [] => []
  | w, line :: lines =>
      let m : Moment := ⟨levels, path, document, w, line⟩
      m :: ((m.opened? files).elim [] fun (included, w) => inside included w) ++
        momentsOver files levels path inside document
          (visit files path (opener files path levels) document w line) lines

def moments (files : FileSource) : Nat -> List Uri -> Document -> Walk -> List Moment
  | 0, path, document, w =>
      momentsOver files 0 path (fun _ _ => []) document.uri (w.addDocument document)
        (Line.walkAll document.file.lines)
  | levels + 1, path, document, w =>
      momentsOver files (levels + 1) path
        (fun included w => moments files levels (path ++ [included.uri]) included w)
        document.uri (w.addDocument document) (Line.walkAll document.file.lines)

def momentsInside (files : FileSource) (path : List Uri) : Nat -> Document -> Walk -> List Moment
  | 0, _, _ => []
  | levels + 1, included, w => moments files levels (path ++ [included.uri]) included w

theorem moments_eq (files : FileSource) (levels : Nat) (path : List Uri) (document : Document)
    (w : Walk) :
    moments files levels path document w =
      momentsOver files levels path (momentsInside files path levels) document.uri
        (w.addDocument document) (Line.walkAll document.file.lines) := by
  cases levels <;> rfl

theorem extends_of_mem_momentsOver {path : List Uri} {document : Uri}
    {inside : Document -> Walk -> List Moment}
    (hinside : ∀ included w, ∀ m ∈ inside included w, Extends files w m.walk)
    {lines : List Line} {w : Walk} :
    ∀ m ∈ momentsOver files levels path inside document w lines, Extends files w m.walk := by
  induction lines generalizing w with
  | nil => intro m hm; cases hm
  | cons line lines ih =>
      intro m hm
      simp only [momentsOver, List.cons_append, List.mem_cons, List.mem_append] at hm
      rcases hm with rfl | hm | hm
      · exact .refl w
      · cases ho : Moment.opened? ⟨levels, path, document, w, line⟩ files with
        | none => simp [ho] at hm
        | some opened =>
            rw [ho] at hm
            exact (Moment.opened?_extends ho).trans (hinside _ _ m hm)
      · exact (visit_extends opener_extends document w line).trans (ih m hm)

theorem extends_of_mem_moments {path : List Uri} {document : Document} {w : Walk} :
    ∀ m ∈ moments files levels path document w, Extends files w m.walk := by
  induction levels generalizing path document w with
  | zero =>
      intro m hm
      exact (addDocument_extends files w document).trans
        (extends_of_mem_momentsOver (fun _ _ _ hm => by cases hm) m hm)
  | succ levels ih =>
      intro m hm
      exact (addDocument_extends files w document).trans
        (extends_of_mem_momentsOver (fun _ _ => ih) m hm)

end Walk

end Asm6502
