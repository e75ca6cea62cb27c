import Asm6502.Cli.Arguments
import Asm6502.Cli.Disk
import Asm6502.Workspace

/-!
# Reports

What the program prints for a request, and how it ends.
-/

namespace Asm6502.Cli

inductive Failure where
  | missing (path : String) (cause : PathError)
  | notAddressable (path : String)
  | unreadable (path : String)
  /-- The files were read, and there are errors in them. -/
  | errorsFound (count : Nat)
deriving DecidableEq, Repr, Inhabited

namespace Failure

def text : Failure -> String
  | missing path cause =>
      "Error: Unable to find " ++ path ++ "\n\nCaused by:\n    " ++ cause.message ++ "\n"
  | notAddressable path => "Error: Unable to address " ++ path ++ "\n"
  | unreadable path => "Error: Unable to read " ++ path ++ "\n"
  | errorsFound count => "Error: " ++ toString count ++ " error(s) found\n"

end Failure

structure Report where
  /-- The lines that are printed, also in front of a failure. -/
  output : List String
  failure : Option Failure
  /-- The paths on whose answers the report depends. -/
  asked : List String
deriving DecidableEq, Repr, Inhabited

namespace Report

def failed (failure : Failure) (asked : List String) : Report := ⟨[], some failure, asked⟩

def code (report : Report) : UInt32 := if report.failure.isSome then 1 else 0

def after (output asked : List String) (report : Report) : Report :=
  ⟨output ++ report.output, report.failure, asked ++ report.asked⟩

end Report

def pathText (uri : Uri) : String := uri.filePath?.getD uri.text

def findingText (d : Diagnostic) : String :=
  pathText d.location.uri ++ ":" ++ d.location.span.start.text ++ ": " ++ d.severity.name ++ ": " ++
    d.message.text

/-- The paths on whose answers an analysis depends. -/
def askedPaths (program : Program) : List String :=
  (program.sources.usedFiles ++ program.sources.watchedFiles ++
    program.sources.includeFolders).filterMap Uri.filePath?

def analyzePath (disk : Disk) (w : Workspace) (path : String) :
    Except Failure Analysis × List String × Workspace :=
  match disk.locate path with
  | .error cause => (.error (.missing path cause), [path], w)
  | .ok (absolute, _) =>
      match Uri.ofFilePath? absolute with
      | none => (.error (.notAddressable absolute), [path], w)
      | some uri =>
          match w.analyze? uri with
          | (none, w) => (.error (.unreadable path), [path, pathText uri], w)
          | (some analysis, w) => (.ok analysis, path :: askedPaths analysis.program, w)

/-- Reports what is wrong with files, given the number of errors in the files before them.  The
first file that cannot be read ends the report. -/
def checkFiles (disk : Disk) (w : Workspace) (errors : Nat) : List String -> Report
  | [] => ⟨[], if errors = 0 then none else some (.errorsFound errors), []⟩
  | path :: rest =>
      match analyzePath disk w path with
      | (.error failure, asked, _) => .failed failure asked
      | (.ok analysis, asked, w) =>
          (checkFiles disk w (errors + analysis.findings.countP Diagnostic.isError) rest).after
            (analysis.findings.map findingText) asked

/-! ## Listing symbols -/

/-- A text with blanks behind it up to a number of characters. -/
def padded (width : Nat) (text : String) : String :=
  text ++ String.ofList (List.replicate (width - text.length) ' ')

def symbolHead (kind : String) : String := padded 8 kind ++ " "

def usesText (r : References) : String := "(" ++ toString r.usages.length ++ " uses)"

def labelKind (label : LabelSymbol) : String :=
  if label.isConstant then "constant" else if label.isVariable then "variable" else "label"

def definitionText (label : LabelSymbol) : String :=
  match label.definitions.head? with
  | some location => location.uri.fileName ++ ":" ++ location.span.start.text
  | none => "undefined"

def symbolLines (symbols : Symbols) : List String :=
  symbols.labels.map (fun (name, label) =>
    symbolHead (labelKind label) ++ padded 24 name ++ " " ++ definitionText label ++ " " ++
      usesText label.toReferences) ++
  (symbols.macros.entries.filter fun entry => entry.2.isDefined).map (fun (name, r) =>
    symbolHead "macro" ++ padded 24 name ++ " " ++ usesText r) ++
  symbols.segments.entries.map fun (name, _) => symbolHead "segment" ++ name

/-! ## Requests -/

def Request.report (disk : Disk) : Request -> Report
  | .check localMarks files => checkFiles disk (.start (.ofMarks localMarks) disk.source) 0 files
  | .symbols localMarks file =>
      match analyzePath disk (.start (.ofMarks localMarks) disk.source) file with
      | (.error failure, asked, _) => .failed failure asked
      | (.ok analysis, asked, _) => ⟨symbolLines analysis.program.symbols, none, asked⟩

end Asm6502.Cli
