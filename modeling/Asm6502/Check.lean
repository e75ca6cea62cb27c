import Asm6502.Check.Command
import Asm6502.Check.Label
import Asm6502.Check.Relocation

/-!
# Checks

Everything that is wrong with a program.  Each document is checked command by command, then the
names of the whole program.
-/

namespace Asm6502

namespace Document

def allLines (document : Document) : List Line := Line.walkAll document.file.lines

def commands (document : Document) : List Command := document.allLines.filterMap Line.command?

def numberFindings (document : Document) : List Diagnostic :=
  document.allLines.flatMap fun line =>
    (line.expressions.flatMap Expr.parts).filterMap fun
      | .number text none location => some (.of (.invalidNumber text) location)
      | _ => none

end Document

namespace Program

def labelFindings (program : Program) : List Diagnostic :=
  program.symbols.labelFindings program.config

def relocationFindings (program : Program) : List Diagnostic :=
  Relocation.findingsAll false program.symbols.relocations

def wholeFindings (program : Program) : List Diagnostic :=
  program.labelFindings ++ program.relocationFindings ++
    program.documents.flatMap Document.numberFindings

def documentFindings (program : Program) (document : Document) : List Diagnostic :=
  document.findings ++ document.commands.filterMap program.commandFinding?

/-- Everything that is wrong with the program, in order and each once. -/
def findings (program : Program) : List Diagnostic :=
  Diagnostic.assemble
    (program.sources.errors ++ program.documents.flatMap program.documentFindings ++
      program.wholeFindings)

end Program

end Asm6502
