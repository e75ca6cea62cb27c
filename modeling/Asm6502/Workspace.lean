import Asm6502.Check

/-!
# Workspaces

Open documents and the analyses made of them.  A change of a document drops each analysis that
depends on it, so an analysis that is still there is up to date as far as the workspace was told.
-/

namespace Asm6502

/-- The program that starts with a document, and everything that is wrong with it. -/
structure Analysis where
  program : Program
  findings : List Diagnostic
deriving Repr

structure Workspace where
  config : Config
  files : FileSource
  documents : DocumentCache
  analyses : Cache Analysis

namespace Workspace

def start (config : Config) (files : FileSource) : Workspace := ⟨config, files, .empty, .empty⟩

def invalidate (w : Workspace) (uri : Uri) : Workspace :=
  { w with
    analyses := w.analyses.filter fun root analysis =>
      root ≠ uri && !analysis.program.dependsOn uri }

def put (w : Workspace) (uri : Uri) (text : String) : Document × Workspace :=
  let document := Document.ofText text uri
  (document, { w with documents := w.documents.insert document }.invalidate uri)

def close (w : Workspace) (uri : Uri) : Workspace :=
  { w with documents := w.documents.erase uri }.invalidate uri

def clear (w : Workspace) : Workspace :=
  { w with documents := w.documents.clear, analyses := w.analyses.clear }

def document? (w : Workspace) (uri : Uri) : Option Document × Workspace :=
  match w.documents.find? uri with
  | some document => (some document, w)
  | none =>
      match w.files.read? uri with
      | none => (none, w)
      | some text =>
          let document := Document.ofText text uri
          (some document, { w with documents := w.documents.insert document })

/-- The analysis of the program that starts with a document, made anew unless it is still there.
There is none for a document that cannot be read. -/
def analyze? (w : Workspace) (uri : Uri) : Option Analysis × Workspace :=
  match w.analyses.find? uri with
  | some analysis => (some analysis, w)
  | none =>
      match w.document? uri with
      | (none, w) => (none, w)
      | (some document, w) =>
          let (program, documents) := Program.resolve document w.config w.files w.documents
          let analysis : Analysis := ⟨program, program.findings⟩
          (some analysis,
            { w with documents := documents, analyses := w.analyses.insert uri analysis })

/-- Everything that is wrong in a document itself, as part of the program that starts with it. -/
def findings (w : Workspace) (uri : Uri) : List Diagnostic × Workspace :=
  match w.analyze? uri with
  | (none, w) => ([], w)
  | (some analysis, w) => (analysis.findings.filter fun d => d.location.uri = uri, w)

end Workspace

end Asm6502
