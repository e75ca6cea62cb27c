import Asm6502.Program
import Asm6502.Proofs.WalkTrace

/-!
# The files a program hangs on

Two walks that differ in their files only outside a set of names do the same, as long as the set
has every file that the first walk used, watched or left out.  So do the programs made of them.
-/

namespace Asm6502

namespace Walk

/-! ## Two walks side by side -/

variable {w w' : Walk} {levels : Nat} {path : List Uri} {document target : Uri} {line : Line}
  {name : String} {location : Location}

/-- Two walks that met the same so far, and see the same of every file in a set. -/
structure Alike (shared : Uri -> Prop) (files files' : FileSource) (w w' : Walk) : Prop where
  sources : w'.toSources = w.toSources
  hasFolder : ∀ uri, files'.hasFolder uri = files.hasFolder uri
  hasFile : ∀ uri, shared uri -> w'.hasFile files' uri = w.hasFile files uri
  content : ∀ uri, shared uri -> w'.content? files' uri = w.content? files uri

variable {shared : Uri -> Prop} {files files' : FileSource}

theorem Alike.extend {w₁ w₁' w₂ w₂' : Walk} (h : Alike shared files files' w₁ w₁')
    (he : Extends files w₁ w₂) (he' : Extends files' w₁' w₂')
    (hs : w₂'.toSources = w₂.toSources) : Alike shared files files' w₂ w₂' where
  sources := hs
  hasFolder := h.hasFolder
  hasFile := by
    intro uri hu
    rw [he'.hasFile, he.hasFile, h.hasFile uri hu]
  content := by
    intro uri hu
    rw [he'.content, he.content, h.content uri hu]

/-- The candidates for a name that do not exist, up to the first that does. -/
def passed (w : Walk) (files : FileSource) (document : Uri) (name : String) : List Uri :=
  (w.candidates document name).takeWhile fun uri => !w.hasFile files uri

/-- A search is decided by the candidates it passes and the one it finds. -/
theorem find?_and_takeWhile_congr {α : Type} {p q : α -> Bool} (l : List α)
    (hpassed : ∀ a ∈ l.takeWhile (fun a => !p a), q a = p a)
    (hfound : ∀ a, l.find? p = some a -> q a = p a) :
    l.find? q = l.find? p ∧ l.takeWhile (fun a => !q a) = l.takeWhile fun a => !p a := by
  induction l with
  | nil => exact ⟨rfl, rfl⟩
  | cons a l ih =>
      cases hp : p a with
      | true =>
          have hq : q a = true := by rw [hfound a (by simp [hp]), hp]
          simp [hp, hq]
      | false =>
          have hq : q a = false := by rw [hpassed a (by simp [hp]), hp]
          simp only [List.find?_cons, hp, hq, List.takeWhile_cons, Bool.not_false, if_true]
          obtain ⟨hfind, htake⟩ := ih
            (fun b hb => hpassed b (by simp [hp, hb]))
            (fun b hb => hfound b (by simp [hp, hb]))
          exact ⟨hfind, by rw [htake]⟩

theorem Alike.candidates (h : Alike shared files files' w w') (document : Uri) (name : String) :
    w'.candidates document name = w.candidates document name := by
  unfold Walk.candidates
  rw [h.sources]

theorem Alike.lookFor (h : Alike shared files files' w w') (path : List Uri) (document : Uri)
    (line : Line) (name : String)
    (hwatched : ∀ uri ∈ (w.lookFor files path document line name).watchedFiles, shared uri)
    (hfound : ∀ target, w.target? files document name = some target -> shared target) :
    w'.target? files' document name = w.target? files document name ∧
      (w'.lookFor files' path document line name).toSources =
        (w.lookFor files path document line name).toSources := by
  have hpassed : ∀ uri ∈ w.passed files document name,
      w'.hasFile files' uri = w.hasFile files uri := by
    intro uri hu
    exact h.hasFile uri (hwatched uri ((mem_foldl_addNew _ _).2 (.inr hu)))
  obtain ⟨hfind, htake⟩ := find?_and_takeWhile_congr (w.candidates document name) hpassed
    fun target ht => h.hasFile target (hfound target ht)
  constructor
  · unfold target?
    rw [h.candidates, hfind]
  · have hw : (w'.passed files' document name) = w.passed files document name := by
      unfold passed
      rw [h.candidates, htake]
    change { w'.toSources with
        visits := w'.visits.push ⟨path, line⟩
        watchedFiles := (w'.passed files' document name).foldl addNew w'.watchedFiles } =
      { w.toSources with
        visits := w.visits.push ⟨path, line⟩
        watchedFiles := (w.passed files document name).foldl addNew w.watchedFiles }
    rw [hw, h.sources]

/-! ## The files that a walk leaves out -/

def leftOutAt (files : FileSource) (levels : Nat) (path : List Uri) (document : Uri) (w : Walk)
    (line : Line) : List Uri :=
  let m : Moment := ⟨levels, path, document, w, line⟩
  (m.leftOut? files).toList ++
    ((m.opened? files).elim [] fun (included, w) =>
      (momentsInside files path levels included w).filterMap fun m => m.leftOut? files)

def leftOutOver (files : FileSource) (levels : Nat) (path : List Uri) (document : Uri) (w : Walk)
    (lines : List Line) : List Uri :=
  (momentsOver files levels path (momentsInside files path levels) document w lines).filterMap
    fun m => m.leftOut? files

def leftOut (files : FileSource) (levels : Nat) (path : List Uri) (document : Document)
    (w : Walk) : List Uri :=
  (moments files levels path document w).filterMap fun m => m.leftOut? files

theorem leftOut_eq_leftOutOver (files : FileSource) (levels : Nat) (path : List Uri)
    (document : Document) (w : Walk) :
    leftOut files levels path document w =
      leftOutOver files levels path document.uri (w.addDocument document)
        (Line.walkAll document.file.lines) := by
  unfold leftOut leftOutOver
  rw [moments_eq]

theorem leftOutOver_nil (files : FileSource) (levels : Nat) (path : List Uri) (document : Uri)
    (w : Walk) : leftOutOver files levels path document w [] = [] := by
  simp only [leftOutOver, momentsOver, List.filterMap_nil]

theorem leftOutOver_cons (files : FileSource) (levels : Nat) (path : List Uri) (document : Uri)
    (w : Walk) (line : Line) (lines : List Line) :
    leftOutOver files levels path document w (line :: lines) =
      leftOutAt files levels path document w line ++
        leftOutOver files levels path document
          (visit files path (opener files path levels) document w line) lines := by
  simp only [leftOutOver, leftOutAt, momentsOver, List.filterMap_append, List.filterMap_cons]
  cases Moment.leftOut? ⟨levels, path, document, w, line⟩ files <;>
    cases Moment.opened? ⟨levels, path, document, w, line⟩ files <;> rfl

theorem leftOutAt_of_not_found (hr : line.fileRequest = .document name location)
    (ht : ∀ target, w.target? files document name = some target -> target ∈ path) :
    leftOutAt files levels path document w line = [] := by
  have hfound : Moment.found? ⟨levels, path, document, w, line⟩ files = none := by
    cases htarget : w.target? files document name with
    | none => simp [Moment.found?, hr, htarget]
    | some target => simp [Moment.found?, hr, htarget, ht target htarget]
  simp [leftOutAt, Moment.leftOut?, Moment.opened?, hr, hfound]

theorem leftOutAt_of_target? (hr : line.fileRequest = .document name location)
    (ht : w.target? files document name = some target) (hopen : target ∉ path) :
    leftOutAt files levels path document w line =
      (if levels = 0 || (w.content? files target).isNone then [target] else []) ++
        (w.content? files target).elim [] fun included =>
          (momentsInside files path levels included
            ((w.lookFor files path document line name).remember included)).filterMap
              fun m => m.leftOut? files := by
  have hfound := Moment.found?_of_target? levels hr ht hopen
  unfold leftOutAt
  simp only [Moment.opened?, hr, hfound, Moment.leftOut?, Option.filter_some, Option.bind_some]
  cases w.content? files target <;> split <;> rfl

/-! ## One line -/

/-- A set of files has all on which a walk hangs when it comes out in a later state. -/
structure Covers (shared : Uri -> Prop) (later : Walk) (leftOut : List Uri) : Prop where
  used : ∀ uri ∈ later.usedFiles, shared uri
  watched : ∀ uri ∈ later.watchedFiles, shared uri
  leftOut : ∀ uri ∈ leftOut, shared uri

theorem Covers.earlier {later earlier : Walk} {all some : List Uri}
    (h : Covers shared later all) (he : Extends files earlier later) (hs : some ⊆ all) :
    Covers shared earlier some :=
  ⟨fun uri hu => h.used uri (he.used hu), fun uri hu => h.watched uri (he.watched hu),
    fun uri hu => h.leftOut uri (hs hu)⟩

theorem Covers.ofAppendRight {later : Walk} {front back : List Uri}
    (h : Covers shared later (front ++ back)) : Covers shared later back :=
  ⟨h.used, h.watched, fun uri hu => h.leftOut uri (List.mem_append_right front hu)⟩

theorem Covers.found
    (hc : Covers shared (visit files path (opener files path levels) document w line)
      (leftOutAt files levels path document w line)) (hpath : ∀ uri ∈ path, uri ∈ w.usedFiles)
    (hr : line.fileRequest = .document name location)
    (ht : w.target? files document name = some target) : shared target := by
  by_cases hopen : target ∈ path
  · exact hc.used target ((visit_extends opener_extends document w line).used (hpath target hopen))
  · have hfound := Moment.found?_of_target? levels hr ht hopen
    cases hcontent : w.content? files target with
    | none =>
        apply hc.leftOut
        simp [leftOutAt, Moment.leftOut?, hfound, hcontent]
    | some included =>
        cases levels with
        | zero =>
            apply hc.leftOut
            simp [leftOutAt, Moment.leftOut?, hfound]
        | succ levels =>
            apply hc.used
            have huri : included.uri = target := uri_of_content? hcontent
            rw [visit_eq_through hr ht hopen hcontent, through_eq]
            apply (overLines_extends _ _ _ _ _).used
            rw [← huri]
            exact uri_mem_addDocument _ included

def InsideAlike (shared : Uri -> Prop) (files files' : FileSource) (path : List Uri)
    (levels : Nat) : Prop :=
  ∀ n, levels = n + 1 -> ∀ included w w', Alike shared files files' w w' ->
    (∀ uri ∈ path ++ [included.uri], uri ∈ (w.addDocument included).usedFiles) ->
    Covers shared (through files n (path ++ [included.uri]) included w)
      (leftOut files n (path ++ [included.uri]) included w) ->
    (through files' n (path ++ [included.uri]) included w').toSources =
        (through files n (path ++ [included.uri]) included w).toSources ∧
      leftOut files' n (path ++ [included.uri]) included w' =
        leftOut files n (path ++ [included.uri]) included w

theorem leftOutAt_of_not_document
    (hr : ∀ name location, line.fileRequest ≠ .document name location) :
    leftOutAt files levels path document w line = [] := by
  unfold leftOutAt Moment.leftOut? Moment.opened? Moment.found?
  cases h : line.fileRequest with
  | document name location => exact absurd h (hr name location)
  | _ => simp [h]

theorem note_sources (h : w'.toSources = w.toSources) (path : List Uri) (line : Line) :
    (w'.note path line).toSources = (w.note path line).toSources :=
  congrArg (fun s : Sources => { s with visits := s.visits.push ⟨path, line⟩ }) h

theorem fault_sources (h : w'.toSources = w.toSources) (finding : Diagnostic) :
    (w'.fault finding).toSources = (w.fault finding).toSources :=
  congrArg (fun s : Sources => { s with errors := s.errors ++ [finding] }) h

theorem report_sources (h : w'.toSources = w.toSources) (message : Message) (location : Location) :
    (w'.report message location).toSources = (w.report message location).toSources :=
  fault_sources h (.of message location)

theorem use_sources (h : w'.toSources = w.toSources) (uri : Uri) :
    (w'.use uri).toSources = (w.use uri).toSources :=
  congrArg (fun s : Sources => { s with usedFiles := addNew s.usedFiles uri }) h

theorem addFolder_sources (h : w'.toSources = w.toSources)
    (hfolder : ∀ uri, files'.hasFolder uri = files.hasFolder uri) (document : Uri) (name : String)
    (location : Location) :
    (w'.addFolder files' document name location).toSources =
      (w.addFolder files document name location).toSources := by
  unfold addFolder
  cases document.joinFolder? name with
  | none => exact report_sources h _ _
  | some folder =>
      have hreport := report_sources h (.folderNotResolvable name) location
      dsimp only
      rw [hfolder]
      by_cases hf : files.hasFolder folder = true
      · rw [if_pos hf, if_pos hf]
        exact congrArg
          (fun s : Sources => { s with includeFolders := addNew s.includeFolders folder }) h
      · rw [if_neg hf, if_neg hf]
        exact congrArg
          (fun s : Sources => { s with includeFolders := addNew s.includeFolders folder }) hreport

theorem addDocument_sources (h : w'.toSources = w.toSources) (document : Document) :
    (w'.addDocument document).toSources = (w.addDocument document).toSources :=
  congrArg (fun s : Sources =>
    { s with
      usedFiles := addNew s.usedFiles document.uri
      documents :=
        if s.documents.any fun d => d.uri = document.uri then s.documents
        else s.documents ++ [document] }) h

theorem remember_sources (w : Walk) (document : Document) :
    (w.remember document).toSources = w.toSources := by
  unfold remember
  split <;> rfl

/-- An include that finds a file which is not open is met alike by two walks. -/
theorem visit_found_alike (hinside : InsideAlike shared files files' path levels)
    (h : Alike shared files files' w w') (hpath : ∀ uri ∈ path, uri ∈ w.usedFiles)
    (hc : Covers shared (visit files path (opener files path levels) document w line)
      (leftOutAt files levels path document w line))
    (hr : line.fileRequest = .document name location)
    (ht : w.target? files document name = some target)
    (ht' : w'.target? files' document name = some target) (hopen : target ∉ path)
    (hlook : (w'.lookFor files' path document line name).toSources =
      (w.lookFor files path document line name).toSources) :
    (visit files' path (opener files' path levels) document w' line).toSources =
        (visit files path (opener files path levels) document w line).toSources ∧
      leftOutAt files' levels path document w' line =
        leftOutAt files levels path document w line := by
  have hcontent : w'.content? files' target = w.content? files target :=
    h.content target (hc.found hpath hr ht)
  rw [leftOutAt_of_target? hr ht hopen] at hc
  rw [leftOutAt_of_target? hr ht hopen, leftOutAt_of_target? hr ht' hopen, hcontent]
  cases levels with
  | zero =>
      constructor
      · rw [visit_eq, visit_eq, hr]
        simp only [ht, ht', enterFile, if_neg hopen, opener]
        exact hlook
      · simp only [momentsInside, List.filterMap_nil]
  | succ levels =>
      cases hk : w.content? files target with
      | none =>
          have hl : (w.lookFor files path document line name).content? files target = none := hk
          have hl' : (w'.lookFor files' path document line name).content? files' target = none :=
            hcontent.trans hk
          refine ⟨?_, by simp only [Option.elim_none]⟩
          rw [visit_eq, visit_eq, hr]
          simp only [ht, ht', enterFile, if_neg hopen, opener, hl, hl']
          exact report_sources hlook _ _
      | some included =>
          -- Both walks go through the same document, which is alike one level lower.
          have hk' : w'.content? files' target = some included := hcontent.trans hk
          have he := (lookFor_extends files w path document line name).trans
            (remember_extends (hasFile_of_target? ht) hk)
          have he' := (lookFor_extends files' w' path document line name).trans
            (remember_extends (hasFile_of_target? ht') hk')
          have halike := h.extend he he' (by rw [remember_sources, remember_sources, hlook])
          have hpath' : ∀ uri ∈ path ++ [included.uri], uri ∈
              (((w.lookFor files path document line name).remember included).addDocument
                included).usedFiles := by
            intro uri hu
            rcases List.mem_append.1 hu with hu | hu
            · exact mem_addNew.2 (.inl (he.used (hpath uri hu)))
            · rw [List.mem_singleton.1 hu]
              exact uri_mem_addDocument _ included
          rw [visit_eq_through hr ht hopen hk, hk] at hc
          rw [visit_eq_through hr ht hopen hk, visit_eq_through hr ht' hopen hk']
          obtain ⟨hsources, hleft⟩ :=
            hinside levels rfl included _ _ halike hpath' hc.ofAppendRight
          refine ⟨hsources, ?_⟩
          simp only [Option.elim_some]
          exact congrArg (_ ++ ·) hleft

/-- An include is met alike by two walks. -/
theorem visit_document_alike (hinside : InsideAlike shared files files' path levels)
    (h : Alike shared files files' w w') (hpath : ∀ uri ∈ path, uri ∈ w.usedFiles)
    (hc : Covers shared (visit files path (opener files path levels) document w line)
      (leftOutAt files levels path document w line))
    (hr : line.fileRequest = .document name location) :
    (visit files' path (opener files' path levels) document w' line).toSources =
        (visit files path (opener files path levels) document w line).toSources ∧
      leftOutAt files' levels path document w' line =
        leftOutAt files levels path document w line := by
  have hwatched : ∀ uri ∈ (w.lookFor files path document line name).watchedFiles, shared uri :=
    fun uri hu => hc.watched uri ((lookFor_extends_visit opener_extends hr).watched hu)
  obtain ⟨ht', hlook⟩ := h.lookFor path document line name hwatched
    fun target ht => hc.found hpath hr ht
  cases ht : w.target? files document name with
  | none =>
      rw [ht] at ht'
      refine ⟨?_, ?_⟩
      · rw [visit_eq, visit_eq, hr]
        simp only [ht, ht']
        exact report_sources hlook _ _
      · rw [leftOutAt_of_not_found hr (by simp [ht']), leftOutAt_of_not_found hr (by simp [ht])]
  | some target =>
      rw [ht] at ht'
      by_cases hopen : target ∈ path
      · refine ⟨?_, ?_⟩
        · rw [visit_eq, visit_eq, hr]
          simp only [ht, ht', enterFile, if_pos hopen]
          exact report_sources hlook _ _
        · rw [leftOutAt_of_not_found hr (by simp [ht', hopen]),
            leftOutAt_of_not_found hr (by simp [ht, hopen])]
      · exact visit_found_alike hinside h hpath hc hr ht ht' hopen hlook

theorem visit_alike (hinside : InsideAlike shared files files' path levels)
    (h : Alike shared files files' w w') (hpath : ∀ uri ∈ path, uri ∈ w.usedFiles)
    (hc : Covers shared (visit files path (opener files path levels) document w line)
      (leftOutAt files levels path document w line)) :
    (visit files' path (opener files' path levels) document w' line).toSources =
        (visit files path (opener files path levels) document w line).toSources ∧
      leftOutAt files' levels path document w' line =
        leftOutAt files levels path document w line := by
  by_cases hd : ∃ name location, line.fileRequest = .document name location
  · obtain ⟨name, location, hr⟩ := hd
    exact visit_document_alike hinside h hpath hc hr
  · have hn : ∀ name location, line.fileRequest ≠ .document name location :=
      fun name location hr => hd ⟨name, location, hr⟩
    refine ⟨?_, by rw [leftOutAt_of_not_document hn, leftOutAt_of_not_document hn]⟩
    have hnote := note_sources h.sources path line
    have hvisit := hc
    rw [visit_eq] at hvisit
    rw [visit_eq, visit_eq]
    cases hr : line.fileRequest with
    | nothing => exact hnote
    | faulty finding => exact fault_sources hnote finding
    | folder name location => exact addFolder_sources hnote h.hasFolder document name location
    | document name location => exact absurd hr (hn name location)
    | binary name location =>
        rw [hr] at hvisit
        dsimp only at hvisit ⊢
        cases ht : w.target? files document name with
        | none =>
            rw [ht] at hvisit
            obtain ⟨ht', hlook⟩ := h.lookFor path document line name hvisit.watched
              (by simp [ht])
            rw [ht', ht]
            exact report_sources hlook _ _
        | some target =>
            rw [ht] at hvisit
            have hshared : shared target := hvisit.used target (mem_addNew.2 (.inr rfl))
            obtain ⟨ht', hlook⟩ := h.lookFor path document line name hvisit.watched
              (by simp [ht, hshared])
            rw [ht', ht]
            exact use_sources hlook target

/-! ## Whole walks -/

theorem overLines_alike {lines : List Line} (hinside : InsideAlike shared files files' path levels)
    (h : Alike shared files files' w w') (hpath : ∀ uri ∈ path, uri ∈ w.usedFiles)
    (hc : Covers shared (overLines files levels path document w lines)
      (leftOutOver files levels path document w lines)) :
    (overLines files' levels path document w' lines).toSources =
        (overLines files levels path document w lines).toSources ∧
      leftOutOver files' levels path document w' lines =
        leftOutOver files levels path document w lines := by
  induction lines generalizing w w' with
  | nil => exact ⟨h.sources, by rw [leftOutOver_nil, leftOutOver_nil]⟩
  | cons line lines ih =>
      have he : Extends files w (visit files path (opener files path levels) document w line) :=
        visit_extends opener_extends document w line
      have he' : Extends files' w'
          (visit files' path (opener files' path levels) document w' line) :=
        visit_extends opener_extends document w' line
      rw [leftOutOver_cons] at hc
      rw [leftOutOver_cons, leftOutOver_cons]
      obtain ⟨hsources, hleft⟩ := visit_alike hinside h hpath
        (hc.earlier (overLines_extends levels path document _ lines) (List.subset_append_left _ _))
      obtain ⟨hsources', hleft'⟩ := ih (h.extend he he' hsources)
        (fun uri hu => he.used (hpath uri hu))
        hc.ofAppendRight
      exact ⟨hsources', by rw [hleft, hleft']⟩

theorem document_alike {document : Document} (hinside : InsideAlike shared files files' path levels)
    (h : Alike shared files files' w w')
    (hpath : ∀ uri ∈ path, uri ∈ (w.addDocument document).usedFiles)
    (hc : Covers shared (through files levels path document w)
      (leftOut files levels path document w)) :
    (through files' levels path document w').toSources =
        (through files levels path document w).toSources ∧
      leftOut files' levels path document w' = leftOut files levels path document w := by
  have hadd := h.extend (addDocument_extends files w document)
    (addDocument_extends files' w' document) (addDocument_sources h.sources document)
  rw [through_eq, leftOut_eq_leftOutOver] at hc
  rw [through_eq, through_eq, leftOut_eq_leftOutOver, leftOut_eq_leftOutOver]
  exact overLines_alike hinside hadd hpath hc

theorem through_alike {document : Document} (h : Alike shared files files' w w')
    (hpath : ∀ uri ∈ path, uri ∈ (w.addDocument document).usedFiles)
    (hc : Covers shared (through files levels path document w)
      (leftOut files levels path document w)) :
    (through files' levels path document w').toSources =
        (through files levels path document w).toSources ∧
      leftOut files' levels path document w' = leftOut files levels path document w := by
  -- Induction on the levels that are left: the walks inside included documents are one level lower.
  induction levels generalizing path document w w' with
  | zero =>
      refine document_alike ?_ h hpath hc
      intro n hn
      cases hn
  | succ levels ih =>
      refine document_alike ?_ h hpath hc
      intro n hn included w w' h hpath hc
      cases hn
      exact ih h hpath hc

theorem hasFile_of_mem_leftOut {document : Document} {uri : Uri}
    (hu : uri ∈ leftOut files levels path document w) : w.hasFile files uri = true := by
  obtain ⟨m, hm, hleft⟩ := List.mem_filterMap.1 hu
  have hfound : m.found? files = some uri := (Option.filter_eq_some_iff.1 hleft).1
  rw [← (extends_of_mem_moments m hm).hasFile]
  exact Moment.hasFile_of_found? hfound

end Walk

/-! ## Programs -/

/-- The files that an include of a program finds and does not walk through, because too many
documents are open or because the file cannot be read. -/
def Document.leftOut (document : Document) (files : FileSource) (cache : DocumentCache) :
    List Uri :=
  Walk.leftOut files (includeLimit - 1) [document.uri] document ⟨.empty, cache⟩

namespace Program

theorem dependsOn_iff {program : Program} {uri : Uri} :
    program.dependsOn uri = true ↔
      uri ∈ program.sources.usedFiles ∨ uri ∈ program.sources.watchedFiles := by
  simp [dependsOn]

theorem resolve_eq (document : Document) (config : Config) (files : FileSource)
    (cache : DocumentCache) :
    (resolve document config files cache).1 =
      ⟨document.uri, config, (document.walk files cache).toSources,
        .ofLines config (document.walk files cache).lines⟩ :=
  rfl

theorem walk_alike {shared : Uri -> Prop} {document : Document} {files files' : FileSource}
    {cache cache' : DocumentCache}
    (h : Walk.Alike shared files files' ⟨.empty, cache⟩ ⟨.empty, cache'⟩)
    (hc : Walk.Covers shared (document.walk files cache) (document.leftOut files cache)) :
    (document.walk files' cache').toSources = (document.walk files cache).toSources ∧
      document.leftOut files' cache' = document.leftOut files cache := by
  unfold Document.walk Document.leftOut at *
  refine Walk.through_alike h ?_ hc
  intro uri hu
  rw [List.mem_singleton.1 hu]
  exact Walk.uri_mem_addDocument _ document

theorem resolve_congr {shared : Uri -> Prop} {document : Document} (config : Config)
    {files files' : FileSource} {cache cache' : DocumentCache}
    (h : Walk.Alike shared files files' ⟨.empty, cache⟩ ⟨.empty, cache'⟩)
    (hnoted : ∀ uri, (resolve document config files cache).1.dependsOn uri = true -> shared uri)
    (hleft : ∀ uri ∈ document.leftOut files cache, shared uri) :
    (resolve document config files' cache').1 = (resolve document config files cache).1 ∧
      document.leftOut files' cache' = document.leftOut files cache := by
  rw [resolve_eq] at hnoted
  obtain ⟨hsources, hleftOut⟩ := walk_alike h
    ⟨fun uri hu => hnoted uri (dependsOn_iff.2 (.inl hu)),
      fun uri hu => hnoted uri (dependsOn_iff.2 (.inr hu)), hleft⟩
  refine ⟨?_, hleftOut⟩
  rw [resolve_eq, resolve_eq, hsources]

end Program

end Asm6502
