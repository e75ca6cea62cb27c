import Asm6502.Proofs.IncludeFootprint
import Asm6502.Workspace

/-!
# Workspaces serve no stale analysis

A workspace keeps documents and analyses across calls.  Whatever the calls were, its documents show
the texts that are open and otherwise the files, and each analysis it kept is the one that a fresh
workspace with the same open texts makes.
-/

namespace Asm6502

variable {uri : Uri}

namespace Cache

variable {α : Type}

/-- Every result of a cache satisfies a condition. -/
def Holds (c : Cache α) (p : Uri -> α -> Prop) : Prop :=
  ∀ entry ∈ c.entries.entries, p entry.1 entry.2.2

variable {c : Cache α} {p : Uri -> α -> Prop}

theorem holds_empty (p : Uri -> α -> Prop) : (empty : Cache α).Holds p := by
  intro entry h
  cases h

theorem holds_clear (c : Cache α) (p : Uri -> α -> Prop) : c.clear.Holds p := by
  intro entry h
  cases h

theorem Holds.filter (h : c.Holds p) (keep : Uri -> α -> Bool) :
    (c.filter keep).Holds fun uri a => p uri a ∧ keep uri a = true := by
  intro entry hentry
  obtain ⟨hmem, hkeep⟩ := List.mem_filter.1 hentry
  exact ⟨h entry hmem, hkeep⟩

theorem Holds.insert (h : c.Holds p) {a : α} (ha : p uri a) :
    (c.insert uri a).Holds p := by
  intro entry hentry
  rcases Table.mem_updateIn hentry with hentry | ⟨_, rfl⟩
  · exact h entry hentry
  · exact ha

theorem Holds.of_find? (h : c.Holds p) {a : α} (hfind : c.find? uri = some a) :
    p uri a := by
  obtain ⟨entry, hentry, rfl⟩ := Option.map_eq_some_iff.1 hfind
  exact h _ (Table.mem_of_findIn hentry)

end Cache

/-! ## Includes that are cut off -/

/-- The files whose include is passed over because too many documents are open. -/
def Document.cutOff (document : Document) (files : FileSource) (cache : DocumentCache) : List Uri :=
  (Walk.moments files (includeLimit - 1) [document.uri] document ⟨.empty, cache⟩).filterMap
    fun m => m.cutOff? files

/-- Where every file that exists can be read, an include leaves a file out only if it is cut off. -/
theorem Document.leftOut_eq_nil {document : Document} {files : FileSource} {cache : DocumentCache}
    (hfiles : files.Readable) (hcut : document.cutOff files cache = []) :
    document.leftOut files cache = [] := by
  unfold Document.cutOff at hcut
  unfold Document.leftOut Walk.leftOut
  rw [List.filterMap_eq_nil_iff] at hcut ⊢
  intro m hm
  cases hleft : m.leftOut? files with
  | none => rfl
  | some uri =>
      obtain ⟨hfound, hwhy⟩ := Option.filter_eq_some_iff.1 hleft
      have hcontent : (m.walk.content? files uri).isSome = true := by
        rw [← hfiles.hasFile_eq, Walk.Moment.hasFile_of_found? hfound]
      have hlevels : m.levels = 0 := by
        cases hc : m.walk.content? files uri with
        | none => simp [hc] at hcontent
        | some document => simpa [hc] using hwhy
      have := hcut m hm
      rw [Walk.Moment.cutOff?, if_pos hlevels, hfound] at this
      cases this

/-! ## Calls -/

inductive Call where
  /-- Opens a document or updates its text. -/
  | put (uri : Uri) (text : String)
  | close (uri : Uri)
  | clear
  | invalidate (uri : Uri)
  | document (uri : Uri)
  | analyze (uri : Uri)
  | findings (uri : Uri)

namespace Call

def run (w : Workspace) : Call -> Workspace
  | put uri text => (w.put uri text).2
  | close uri => w.close uri
  | clear => w.clear
  | invalidate uri => w.invalidate uri
  | document uri => (w.document? uri).2
  | analyze uri => (w.analyze? uri).2
  | findings uri => (w.findings uri).2

def openTexts (before : Table Uri String) : Call -> Table Uri String
  | put uri text => before.insert uri text
  | close uri => before.erase uri
  | clear => .empty
  | _ => before

end Call

def openTexts (calls : List Call) : Table Uri String :=
  calls.foldl Call.openTexts .empty

namespace Workspace

def after (w : Workspace) (calls : List Call) : Workspace :=
  calls.foldl Call.run w

/-- A fresh workspace in which only the given texts were opened. -/
def ofTexts (config : Config) (files : FileSource) (texts : Table Uri String) : Workspace :=
  texts.entries.foldr (fun entry w => (w.put entry.1 entry.2).2) (start config files)

/-- The files whose include is cut off while a document is analyzed. -/
def cutOff (w : Workspace) (uri : Uri) : List Uri :=
  match w.analyses.find? uri with
  | some _ => []
  | none =>
      match w.document? uri with
      | (none, _) => []
      | (some document, w) => document.cutOff w.files w.documents

end Workspace

def Call.cutOff (w : Workspace) : Call -> List Uri
  | analyze uri => w.cutOff uri
  | findings uri => w.cutOff uri
  | _ => []

def Workspace.NeverCutsOff (w : Workspace) : List Call -> Prop
  | [] => True
  | call :: calls => call.cutOff w = [] ∧ (call.run w).NeverCutsOff calls

instance decidableNeverCutsOff : (w : Workspace) -> (calls : List Call) ->
    Decidable (w.NeverCutsOff calls)
  | _, [] => .isTrue trivial
  | w, call :: calls =>
      have := decidableNeverCutsOff (call.run w) calls
      inferInstanceAs (Decidable (_ ∧ _))

/-! ## What a workspace shows -/

/-- The document that stands under a name when some texts are open. -/
def shown? (files : FileSource) (texts : Uri -> Option String) (uri : Uri) : Option Document :=
  ((texts uri).or (files.read? uri)).map fun text => .ofText text uri

namespace DocumentCache

/-- Known documents that show the open texts and, for all other names, the files. -/
def Reflects (documents : DocumentCache) (files : FileSource) (texts : Uri -> Option String) :
    Prop :=
  ∀ uri, Walk.content? ⟨.empty, documents⟩ files uri = shown? files texts uri

variable {files : FileSource} {texts texts' : Uri -> Option String} {documents : DocumentCache}

theorem reflects_of_find? (hfind : ∀ uri, documents.find? uri = none)
    (htexts : ∀ uri, texts uri = none) : documents.Reflects files texts := by
  intro uri
  simp [Walk.content?, shown?, hfind uri, htexts uri]

theorem Reflects.insert {text : String} (h : documents.Reflects files texts)
    (htext : texts' uri = some text) (hsame : ∀ other, other ≠ uri -> texts' other = texts other) :
    (documents.insert (.ofText text uri)).Reflects files texts' := by
  intro other
  rw [Walk.content?, DocumentCache.find?_insert]
  split
  next ho => simp [show other = uri from ho, shown?, htext]
  next ho =>
    rw [shown?, hsame other ho]
    exact h other

theorem Reflects.erase (h : documents.Reflects files texts)
    (htext : texts' uri = none) (hsame : ∀ other, other ≠ uri -> texts' other = texts other) :
    (documents.erase uri).Reflects files texts' := by
  intro other
  rw [Walk.content?, DocumentCache.find?_erase]
  split
  next ho => simp [ho, shown?, htext]
  next ho =>
    rw [shown?, hsame other ho]
    exact h other

/-- Reading a file changes nothing in what is shown. -/
theorem Reflects.read {text : String} (h : documents.Reflects files texts)
    (hknown : documents.find? uri = none) (hread : files.read? uri = some text) :
    (documents.insert (.ofText text uri)).Reflects files texts := by
  intro other
  rw [← h other, Walk.content?, DocumentCache.find?_insert]
  split
  next ho => simp [ho, Walk.content?, hknown, hread]
  next => rfl

/-- Neither does a walk, which keeps what it reads. -/
theorem Reflects.walk (h : documents.Reflects files texts) (document : Document) :
    (document.walk files documents).cache.Reflects files texts := by
  intro uri
  rw [← h uri]
  exact (Walk.through_extends _ _ document ⟨.empty, documents⟩).content uri

theorem Reflects.alike {shared : Uri -> Prop} {documents' : DocumentCache}
    (hfiles : files.Readable) (h : documents.Reflects files texts)
    (h' : documents'.Reflects files texts')
    (hsame : ∀ uri, shared uri -> texts' uri = texts uri) :
    Walk.Alike shared files files ⟨.empty, documents⟩ ⟨.empty, documents'⟩ := by
  have hcontent : ∀ uri, shared uri ->
      Walk.content? ⟨.empty, documents'⟩ files uri =
        Walk.content? ⟨.empty, documents⟩ files uri := by
    intro uri hu
    rw [h uri, h' uri, shown?, shown?, hsame uri hu]
  refine ⟨rfl, fun _ => rfl, ?_, hcontent⟩
  intro uri hu
  rw [hfiles.hasFile_eq, hfiles.hasFile_eq, hcontent uri hu]

/-- Known documents that show the same give the same program. -/
theorem Reflects.resolve_eq {documents' : DocumentCache} (hfiles : files.Readable)
    (h : documents.Reflects files texts) (h' : documents'.Reflects files texts)
    (document : Document) (config : Config) :
    (Program.resolve document config files documents').1 =
        (Program.resolve document config files documents).1 ∧
      document.leftOut files documents' = document.leftOut files documents :=
  Program.resolve_congr config (h.alike hfiles h' fun _ (_ : True) => rfl)
    (fun _ _ => trivial) (fun _ _ => trivial)

end DocumentCache

/-! ## Fresh analyses -/

def Analysis.of (program : Program) : Analysis := ⟨program, program.findings⟩

/-- The analysis of a document while some texts are open, whatever other documents are known. -/
def Analysis.IsFresh (config : Config) (files : FileSource) (texts : Uri -> Option String)
    (uri : Uri) (analysis : Analysis) : Prop :=
  ∃ document, shown? files texts uri = some document ∧
    ∀ documents : DocumentCache, documents.Reflects files texts ->
      analysis = .of (Program.resolve document config files documents).1 ∧
        document.leftOut files documents = []

namespace Analysis

variable {config : Config} {files : FileSource} {texts texts' : Uri -> Option String}
  {documents : DocumentCache} {uri : Uri}

theorem isFresh_of {document : Document} (hfiles : files.Readable)
    (h : documents.Reflects files texts) (hshown : shown? files texts uri = some document)
    (hleft : document.leftOut files documents = []) :
    IsFresh config files texts uri (.of (Program.resolve document config files documents).1) := by
  refine ⟨document, hshown, ?_⟩
  intro documents' h'
  obtain ⟨hprogram, hleftOut⟩ := h.resolve_eq hfiles h' document config
  rw [hprogram, hleftOut]
  exact ⟨rfl, hleft⟩

/-- A change of one text keeps every analysis fresh that neither starts with the changed document
nor depends on it. -/
theorem IsFresh.change {changed : Uri} {analysis : Analysis} (hfiles : files.Readable)
    (h : IsFresh config files texts uri analysis) (hdocuments : documents.Reflects files texts)
    (hsame : ∀ other, other ≠ changed -> texts' other = texts other) (hroot : uri ≠ changed)
    (hdepends : analysis.program.dependsOn changed = false) :
    IsFresh config files texts' uri analysis := by
  obtain ⟨document, hshown, hall⟩ := h
  obtain ⟨hanalysis, hleft⟩ := hall documents hdocuments
  refine ⟨document, ?_, ?_⟩
  · rw [← hshown, shown?, shown?, hsame uri hroot]
  · intro documents' h'
    have hnoted : ∀ other,
        (Program.resolve document config files documents).1.dependsOn other = true ->
          other ≠ changed := by
      rintro other hother rfl
      rw [hanalysis] at hdepends
      exact Bool.false_ne_true (hdepends.symm.trans hother)
    obtain ⟨hprogram, hleftOut⟩ := Program.resolve_congr config
      (hdocuments.alike hfiles h' hsame) hnoted (by simp [hleft])
    rw [hprogram, hleftOut]
    exact ⟨hanalysis, hleft⟩

end Analysis

/-! ## Coherence -/

namespace Workspace

/-- A workspace that shows the open texts and has only fresh analyses. -/
structure Coherent (config : Config) (files : FileSource) (texts : Uri -> Option String)
    (w : Workspace) : Prop where
  hasConfig : w.config = config
  hasFiles : w.files = files
  documents : w.documents.Reflects files texts
  analyses : w.analyses.Holds (Analysis.IsFresh config files texts)

variable {config : Config} {files : FileSource} {texts texts' : Uri -> Option String}
  {w : Workspace}

theorem start_coherent (htexts : ∀ uri, texts uri = none) :
    (start config files).Coherent config files texts where
  hasConfig := rfl
  hasFiles := rfl
  documents := DocumentCache.reflects_of_find? (fun _ => rfl) htexts
  analyses := Cache.holds_empty _

/-- Asking for the findings of a document leaves the workspace as analyzing it does. -/
theorem findings_snd (w : Workspace) (uri : Uri) : (w.findings uri).2 = (w.analyze? uri).2 := by
  unfold findings
  rcases w.analyze? uri with ⟨analysis | analysis, w'⟩ <;> rfl

namespace Coherent

/-- Dropping the analyses that depend on a document makes up for a change of its text. -/
theorem change {changed : Uri} {documents : DocumentCache} (hfiles : files.Readable)
    (h : w.Coherent config files texts)
    (hsame : ∀ other, other ≠ changed -> texts' other = texts other)
    (hdocuments : documents.Reflects files texts') :
    ({ w with documents := documents }.invalidate changed).Coherent config files texts' where
  hasConfig := h.hasConfig
  hasFiles := h.hasFiles
  documents := hdocuments
  analyses := by
    intro entry hentry
    obtain ⟨hfresh, hkeep⟩ := h.analyses.filter _ entry hentry
    rw [Bool.and_eq_true, decide_eq_true_eq, Bool.not_eq_true'] at hkeep
    exact hfresh.change hfiles h.documents hsame hkeep.1 hkeep.2

theorem put {text : String} (hfiles : files.Readable)
    (h : w.Coherent config files texts) (htext : texts' uri = some text)
    (hsame : ∀ other, other ≠ uri -> texts' other = texts other) :
    (w.put uri text).2.Coherent config files texts' :=
  h.change hfiles hsame (h.documents.insert htext hsame)

theorem close (hfiles : files.Readable) (h : w.Coherent config files texts)
    (htext : texts' uri = none) (hsame : ∀ other, other ≠ uri -> texts' other = texts other) :
    (w.close uri).Coherent config files texts' :=
  h.change hfiles hsame (h.documents.erase htext hsame)

theorem invalidate (h : w.Coherent config files texts) (uri : Uri) :
    (w.invalidate uri).Coherent config files texts where
  hasConfig := h.hasConfig
  hasFiles := h.hasFiles
  documents := h.documents
  analyses := fun entry hentry => (h.analyses.filter _ entry hentry).1

theorem clear (h : w.Coherent config files texts) (htexts : ∀ uri, texts' uri = none) :
    w.clear.Coherent config files texts' where
  hasConfig := h.hasConfig
  hasFiles := h.hasFiles
  documents := DocumentCache.reflects_of_find? (fun _ => rfl) htexts
  analyses := Cache.holds_clear _ _

theorem document? (h : w.Coherent config files texts) (uri : Uri) :
    (w.document? uri).1 = shown? files texts uri ∧
      (w.document? uri).2.Coherent config files texts ∧
      (w.document? uri).2.analyses = w.analyses := by
  have hshown := h.documents uri
  unfold Walk.content? at hshown
  unfold Workspace.document?
  cases hknown : w.documents.find? uri with
  | some document =>
      rw [hknown] at hshown
      exact ⟨hshown, h, rfl⟩
  | none =>
      rw [hknown, ← h.hasFiles] at hshown
      cases hread : w.files.read? uri with
      | none =>
          rw [hread, h.hasFiles] at hshown
          exact ⟨hshown, h, rfl⟩
      | some text =>
          rw [hread, h.hasFiles] at hshown
          rw [h.hasFiles] at hread
          exact ⟨hshown, ⟨h.hasConfig, h.hasFiles, h.documents.read hknown hread, h.analyses⟩, rfl⟩

theorem analyze?_fst (hfiles : files.Readable) (h : w.Coherent config files texts) (uri : Uri) :
    (w.analyze? uri).1 = (shown? files texts uri).map fun document =>
      .of (Program.resolve document config files w.documents).1 := by
  unfold Workspace.analyze?
  cases hkept : w.analyses.find? uri with
  | some analysis =>
      obtain ⟨document, hshown, hall⟩ := h.analyses.of_find? hkept
      rw [hshown, (hall w.documents h.documents).1]
      rfl
  | none =>
      obtain ⟨hdocument, hcoherent, -⟩ := h.document? uri
      rcases hresult : w.document? uri with ⟨document | document, w'⟩
      · rw [hresult] at hdocument
        rw [← hdocument]
        rfl
      · rw [hresult] at hdocument hcoherent
        rw [← hdocument, Option.map_some,
          (hcoherent.documents.resolve_eq hfiles h.documents document config).1,
          ← hcoherent.hasConfig, ← hcoherent.hasFiles]
        rfl

/-- Analyzing a document leaves a fresh analysis behind unless an include is cut off. -/
theorem analyze?_snd (hfiles : files.Readable) (h : w.Coherent config files texts)
    (hcut : w.cutOff uri = []) : (w.analyze? uri).2.Coherent config files texts := by
  unfold Workspace.cutOff at hcut
  unfold Workspace.analyze?
  cases hkept : w.analyses.find? uri with
  | some analysis => exact h
  | none =>
      rw [hkept] at hcut
      obtain ⟨hdocument, hcoherent, -⟩ := h.document? uri
      rcases hresult : w.document? uri with ⟨document | document, w'⟩
      · rw [hresult] at hcoherent
        exact hcoherent
      · rw [hresult] at hdocument hcoherent hcut
        obtain ⟨hconfig, hfs, hdocuments, hanalyses⟩ := hcoherent
        dsimp only at hcut ⊢
        rw [hfs] at hcut
        rw [hconfig, hfs]
        refine ⟨rfl, rfl, hdocuments.walk document, hanalyses.insert ?_⟩
        exact Analysis.isFresh_of hfiles hdocuments hdocument.symm
          (Document.leftOut_eq_nil hfiles hcut)

/-- Two coherent workspaces in which the same texts are open answer alike. -/
theorem analyze?_eq {w' : Workspace} (hfiles : files.Readable)
    (h : w.Coherent config files texts) (h' : w'.Coherent config files texts) (uri : Uri) :
    (w.analyze? uri).1 = (w'.analyze? uri).1 := by
  rw [h.analyze?_fst hfiles, h'.analyze?_fst hfiles]
  congr 1
  funext document
  rw [(h.documents.resolve_eq hfiles h'.documents document config).1]

end Coherent

end Workspace

/-! ## Runs -/

section

variable {config : Config} {files : FileSource}

theorem Call.run_coherent {texts : Table Uri String} {w : Workspace} (hfiles : files.Readable)
    (h : w.Coherent config files texts.find?) (call : Call) (hcut : call.cutOff w = []) :
    (call.run w).Coherent config files (call.openTexts texts).find? := by
  cases call with
  | put uri text =>
      exact h.put hfiles (Table.find?_update_self texts uri text _)
        fun _ ho => Table.find?_update_of_ne texts ho _ _
  | close uri =>
      exact h.close hfiles (Table.find?_erase_self texts uri)
        fun _ ho => Table.find?_erase_of_ne texts ho
  | clear => exact h.clear fun _ => rfl
  | invalidate uri => exact h.invalidate uri
  | document uri => exact (h.document? uri).2.1
  | analyze uri => exact h.analyze?_snd hfiles hcut
  | findings uri =>
      rw [Call.run, Workspace.findings_snd]
      exact h.analyze?_snd hfiles hcut

namespace Workspace

theorem after_coherent {texts : Table Uri String} {w : Workspace} (hfiles : files.Readable)
    (h : w.Coherent config files texts.find?) {calls : List Call} (hcut : w.NeverCutsOff calls) :
    (w.after calls).Coherent config files (calls.foldl Call.openTexts texts).find? := by
  induction calls generalizing w texts with
  | nil => exact h
  | cons call calls ih => exact ih (call.run_coherent hfiles h hcut.1) hcut.2

theorem ofTexts_coherent (hfiles : files.Readable) (texts : Table Uri String) :
    (ofTexts config files texts).Coherent config files texts.find? := by
  obtain ⟨entries⟩ := texts
  induction entries with
  | nil => exact start_coherent fun _ => rfl
  | cons entry rest ih =>
      refine Coherent.put hfiles ih ?_ ?_
      · simp [Table.find?, Table.findIn]
      · intro other ho
        simp [Table.find?, Table.findIn, ho.symm]

/-- No stale analysis is ever served: behind any calls in which no include is cut off, an analysis
comes out as in a fresh workspace with the same open texts. -/
theorem analyze?_after_eq (hfiles : files.Readable) (calls : List Call) (uri : Uri)
    (hcut : (start config files).NeverCutsOff calls) :
    (((start config files).after calls).analyze? uri).1 =
      ((ofTexts config files (openTexts calls)).analyze? uri).1 := by
  have hstart : (start config files).Coherent config files (Table.empty : Table Uri String).find? :=
    start_coherent fun _ => rfl
  exact (after_coherent hfiles hstart hcut).analyze?_eq hfiles (ofTexts_coherent hfiles _) uri

/-- Calls that edit and close a file which an open document includes, with analyses in between. -/
def editing : List Call :=
  [.put ⟨"file:///work/main.asm"⟩ "  INCLUDE \"b.h\"\n", .analyze ⟨"file:///work/main.asm"⟩,
    .put ⟨"file:///work/b.h"⟩ "  INCLUDE \"c.h\"\n", .findings ⟨"file:///work/main.asm"⟩,
    .put ⟨"file:///work/c.h"⟩ "two = 2\n", .analyze ⟨"file:///work/main.asm"⟩,
    .close ⟨"file:///work/b.h"⟩]

def edited : MemoryFiles :=
  MemoryFiles.empty.write ⟨"file:///work/b.h"⟩ "one = 1\n"

theorem analyze?_after_editing :
    edited.source.Readable ∧
      (start ⟨[]⟩ edited.source).NeverCutsOff editing ∧
      (((start ⟨[]⟩ edited.source).after editing).analyze? ⟨"file:///work/main.asm"⟩).1 =
        ((ofTexts ⟨[]⟩ edited.source (openTexts editing)).analyze?
          ⟨"file:///work/main.asm"⟩).1 := by
  have hcut : (start ⟨[]⟩ edited.source).NeverCutsOff editing := by
    decide +kernel
  exact ⟨edited.source_readable, hcut, analyze?_after_eq edited.source_readable editing _ hcut⟩

end Workspace

end

end Asm6502
