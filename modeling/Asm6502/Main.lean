import Asm6502.Cli.Report

/-!
# The command line

Reads the command line, asks the disk for the files that the report depends on, and prints the
report.
-/

namespace Asm6502.Cli

def usage : String :=
  "Usage: asm6502 [--trace] [-v|--verbose]... COMMAND\n\n" ++
  "Commands:\n" ++
  "  check [--local-prefix PREFIX]... FILE...    Report what is wrong with source files\n" ++
  "  symbols [--local-prefix PREFIX]... FILE     List labels, macros and segments of a program\n"

def version : String := "asm6502 0.1.0\n"

def pathError : IO.Error -> PathError
  | .noFileOrDirectory .. => .notFound
  | .inappropriateType .. => .notFolder
  | .invalidArgument .. => .nameTooLong
  | .permissionDenied .. => .other "Permission denied (os error 13)"
  | error => .other (toString error)

def locateExisting (path : String) : IO (String × DiskEntry) := do
  let place <- IO.FS.realPath path
  let data <- place.metadata
  match data.type with
  | .dir => return (place.toString, .folder)
  | _ =>
      let bytes <- IO.FS.readBinFile place
      return (place.toString, .file (String.fromUTF8? bytes))

/-- Where a path leads on the disk of this computer.  If it leads nowhere, an attempt to open it
tells why. -/
def locate (path : String) : IO (Except PathError (String × DiskEntry)) := do
  if path.isEmpty || path.toList.contains '\x00' then
    return .error .notFound
  try
    return .ok (<- locateExisting path)
  catch _ =>
    try
      let _ <- IO.FS.Handle.mk path .read
      return .error .notFound
    catch error => return .error (pathError error)

/-- The report on a request.  The disk is asked for more until the report depends on nothing that
it was not asked for. -/
partial def gather (request : Request)
    (answers : Table String (Except PathError (String × DiskEntry))) : IO Report := do
  let report := request.report (.ofAnswers answers)
  let missing := report.asked.filter fun path => !answers.contains path
  if missing.isEmpty then
    return report
  gather request (<- missing.foldlM (fun answers path => do
    return answers.insert path (<- locate path)) answers)

def run (words : List String) : IO UInt32 := do
  match Invocation.read words with
  | .error .help =>
      IO.print usage
      return 0
  | .error .version =>
      IO.print version
      return 0
  | .error (.refused reason) =>
      IO.eprintln ("error: " ++ reason.message)
      IO.eprintln ""
      IO.eprint usage
      return 2
  | .ok invocation =>
      let report <- gather invocation.request .empty
      for line in report.output do
        IO.println line
      if let some failure := report.failure then
        IO.eprint failure.text
      return report.code

end Asm6502.Cli

def main (words : List String) : IO UInt32 := Asm6502.Cli.run words
