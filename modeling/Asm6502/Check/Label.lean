import Asm6502.Diagnostic
import Asm6502.Symbol

/-!
# Checks on labels

A label that is used is defined, and once only unless it is a variable.
-/

namespace Asm6502

def Diagnostic.each (message : Message) (locations : List Location) : List Diagnostic :=
  locations.map (Diagnostic.of message)

/-- What is wrong with a label.  A local label may be defined by a macro, so it need not have a
definition; of labels made of fragments nothing is known. -/
def LabelSymbol.findings (label : LabelSymbol) (config : Config) (name : String) :
    List Diagnostic :=
  if label.isDynamic then []
  else if label.definitions.isEmpty then
    if config.isLocal name then [] else Diagnostic.each (.labelNotDefined name) label.usages
  else
    (if label.isConstant && label.isVariable then
      Diagnostic.each (.labelAsVariableAndConstant name) label.definitions else []) ++
    (if label.isVariable then []
      else Diagnostic.each (.tooManyDefinitions name) (label.definitions.drop 1))

def Symbols.labelFindings (symbols : Symbols) (config : Config) : List Diagnostic :=
  symbols.labels.flatMap fun (name, label) => label.findings config name

end Asm6502
