import Asm6502.Diagnostic
import Asm6502.Symbol

/-!
# Checks on relocation regions

A region is opened with an address and closed before the next one is opened.
-/

namespace Asm6502.Relocation

def findings (isOpen : Bool) (r : Relocation) : List Diagnostic :=
  match r.kind with
  | .opening =>
      (if r.hasArgument then [] else [.of .noArgumentForRelocationDirective r.location]) ++
        (if isOpen then [.of .relocationRegionOpenedTwice r.location] else [])
  | .closing =>
      if isOpen then [] else [.of (.commandOutsideRelocationRegion "REND") r.location]

/-- What is wrong with a row of commands, given whether a region is open in front of it. -/
def findingsAll (isOpen : Bool) : List Relocation -> List Diagnostic
  | [] => []
  | r :: rest => r.findings isOpen ++ findingsAll (r.kind = .opening) rest

end Asm6502.Relocation
