import Asm6502.Program.Sources
import Asm6502.Symbol

/-!
# Programs

A program across all its documents: what it is made of, and what its lines say about names.
-/

namespace Asm6502

/-- A program that starts with a document. -/
structure Program where
  uri : Uri
  config : Config
  sources : Sources
  symbols : Symbols
deriving Repr

namespace Program

/-- The program that starts with a document, and all documents known after reading it.  Included
documents come from the cache, else from the files. -/
def resolve (document : Document) (config : Config) (files : FileSource)
    (cache : DocumentCache) : Program × DocumentCache :=
  let walk := document.walk files cache
  ( { uri := document.uri
      config := config
      sources := walk.toSources
      symbols := .ofLines config walk.lines },
    walk.cache )

def documents (program : Program) : List Document := program.sources.documents

/-- Whether a file or its absence has a part in what the program is. -/
def dependsOn (program : Program) (uri : Uri) : Bool :=
  program.sources.usedFiles.contains uri || program.sources.watchedFiles.contains uri

end Program

end Asm6502
