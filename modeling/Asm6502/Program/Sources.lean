import Asm6502.Diagnostic
import Asm6502.Document.Cache
import Asm6502.FileSource
import Asm6502.Line.Command

/-!
# Sources of a program

A program is its first document with every included document in place of the command that includes
it.  The sources of a program are the lines met on the way through these documents, the documents
themselves, and the files that decide which documents they are.
-/

namespace Asm6502

/-- The number of documents that may be open inside each other.  An include inside the last of them
is passed over. -/
def includeLimit : Nat := 64

/-- A line met on the way through a program. -/
structure Visit where
  /-- The documents that are open at the line, the outermost first. -/
  path : List Uri
  line : Line
deriving Repr

structure Sources where
  /-- The lines of the program in its order; a line of a document that is included twice comes
  twice. -/
  visits : Array Visit
  /-- The files that the program reads. -/
  usedFiles : List Uri
  /-- The files that were looked for and did not exist. -/
  watchedFiles : List Uri
  /-- The folders in which included files are looked for. -/
  includeFolders : List Uri
  /-- The documents in the order in which they were first met. -/
  documents : List Document
  /-- What is wrong with the commands on other files. -/
  errors : List Diagnostic
deriving Repr

namespace Sources

def empty : Sources := ⟨#[], [], [], [], [], []⟩

instance : Inhabited Sources := ⟨empty⟩

def lines (s : Sources) : List Line := s.visits.toList.map Visit.line

end Sources

/-- The state of a walk through a program: what was met so far, and all documents that were read. -/
structure Walk extends Sources where
  cache : DocumentCache

namespace Walk

def report (w : Walk) (message : Message) (location : Location) : Walk :=
  { w with errors := w.errors ++ [.of message location] }

def pathArgument (command : Command) : Except Diagnostic (String × Location) :=
  match command.stringArgument? with
  | none =>
      let location := (command.arguments.head?.map Argument.location).getD command.location
      .error (.of .stringLiteralExpected location)
  | some (name, location) =>
      if name.isEmpty then .error (.of .emptyStringArgument location) else .ok (name, location)

/-- Whether a file can be included: a document that was read before counts as existing. -/
def hasFile (w : Walk) (files : FileSource) (uri : Uri) : Bool :=
  w.cache.contains uri || files.hasFile uri

/-- The files that a name may stand for: next to the document, then in each include folder. -/
def candidates (w : Walk) (document : Uri) (name : String) : List Uri :=
  (document :: w.includeFolders).filterMap fun folder => folder.join? name

/-- Notes the candidates in front of the first one that exists: were one of them made, the name
would stand for it. -/
def watch (w : Walk) (files : FileSource) (candidates : List Uri) : Walk :=
  { w with
    watchedFiles :=
      (candidates.takeWhile fun uri => !w.hasFile files uri).foldl addNew w.watchedFiles }

def withFile (w : Walk) (files : FileSource) (document : Uri) (command : Command)
    (goOn : Walk -> Uri -> String -> Location -> Walk) : Walk :=
  match pathArgument command with
  | .error finding => { w with errors := w.errors ++ [finding] }
  | .ok (name, location) =>
      let candidates := w.candidates document name
      match candidates.find? (w.hasFile files) with
      | none => (w.watch files candidates).report (.fileNotResolvable name) location
      | some target => goOn (w.watch files candidates) target name location

def includeBinary (w : Walk) (files : FileSource) (document : Uri) (command : Command) : Walk :=
  w.withFile files document command fun w target _ _ =>
    { w with usedFiles := addNew w.usedFiles target }

/-- Registers a folder for included files, whether or not it exists. -/
def includeFolder (w : Walk) (files : FileSource) (document : Uri) (command : Command) : Walk :=
  match pathArgument command with
  | .error finding => { w with errors := w.errors ++ [finding] }
  | .ok (name, location) =>
      match document.joinFolder? name with
      | none => w.report (.folderNotResolvable name) location
      | some folder =>
          let w :=
            if files.hasFolder folder then w else w.report (.folderNotResolvable name) location
          { w with includeFolders := addNew w.includeFolders folder }

def read? (w : Walk) (files : FileSource) (uri : Uri) : Option (Document × Walk) :=
  match w.cache.find? uri with
  | some document => some (document, w)
  | none =>
      (files.read? uri).map fun text =>
        let document := Document.ofText text uri
        (document, { w with cache := w.cache.insert document })

/-- Takes in an included document.  A document that is open already is not entered again, and
nothing is done when no more documents may be opened. -/
def includeDocument (w : Walk) (files : FileSource) (path : List Uri)
    (enter : Option (Document -> Walk -> Walk)) (document : Uri) (command : Command) : Walk :=
  w.withFile files document command fun w target name location =>
    if target ∈ path then w.report (.circularInclude name) location
    else
      match enter with
      | none => w
      | some enter =>
          match w.read? files target with
          | none => w.report (.fileNotResolvable name) location
          | some (included, w) => enter included w

def visit (files : FileSource) (path : List Uri) (enter : Option (Document -> Walk -> Walk))
    (document : Uri) (w : Walk) (line : Line) : Walk :=
  let w := { w with visits := w.visits.push ⟨path, line⟩ }
  match line.command? with
  | none => w
  | some command =>
      match command.directive? with
      | some .includeFile => w.includeDocument files path enter document command
      | some .incbin => w.includeBinary files document command
      | some .incdir => w.includeFolder files document command
      | _ => w

def addDocument (w : Walk) (document : Document) : Walk :=
  { w with
    usedFiles := addNew w.usedFiles document.uri
    documents :=
      if w.documents.any fun d => d.uri = document.uri then w.documents
      else w.documents ++ [document] }

def visitAll (files : FileSource) (path : List Uri) (enter : Option (Document -> Walk -> Walk))
    (document : Document) (w : Walk) : Walk :=
  (Line.walkAll document.file.lines).foldl (visit files path enter document.uri)
    (w.addDocument document)

def through (files : FileSource) : Nat -> List Uri -> Document -> Walk -> Walk
  | 0, path, document, w => visitAll files path none document w
  | levels + 1, path, document, w =>
      let enter (included : Document) (w : Walk) : Walk :=
        through files levels (path ++ [included.uri]) included w
      visitAll files path (some enter) document w

end Walk

def Document.walk (document : Document) (files : FileSource) (cache : DocumentCache) : Walk :=
  Walk.through files (includeLimit - 1) [document.uri] document ⟨.empty, cache⟩

end Asm6502
