/-!
# Settings

Labels that start with a local prefix belong to the enclosing subroutine.
-/

namespace Asm6502

/-- Settings that change how a program is resolved. -/
structure Config where
  /-- The beginnings of local label names.  Without any, every label is global. -/
  localMarks : List String
deriving DecidableEq, Repr, Inhabited

namespace Config

/-- Settings with the given local marks; an empty mark counts for nothing. -/
def ofMarks (marks : List String) : Config :=
  ⟨marks.filter fun mark => !mark.isEmpty⟩

def isLocal (config : Config) (name : String) : Bool :=
  config.localMarks.any fun mark => mark.toList.isPrefixOf name.toList

end Config

inductive LogLevel where
  | off
  | warn
  | info
  | debug
  | trace
deriving DecidableEq, Repr, Inhabited

namespace LogLevel

def ofCount : Nat -> LogLevel
  | 0 => off
  | 1 => warn
  | 2 => info
  | 3 => debug
  | _ => trace

def name : LogLevel -> String
  | off => "off"
  | warn => "warn"
  | info => "info"
  | debug => "debug"
  | trace => "trace"

end LogLevel

end Asm6502
