import Asm6502.Command.Directive
import Asm6502.Cpu.Mnemonic
import Asm6502.Line

/-!
# What commands say

The name of a command is that of a directive, of an instruction or of a macro.
-/

namespace Asm6502

def Expr.isAccumulator : Expr -> Bool
  | .identifier id => !id.programCounter && upcase id.name == "A"
  | _ => false

namespace Command

def directive? (command : Command) : Option Directive :=
  command.name.bind fun name => Directive.ofCommandName? name.name

def mnemonic? (command : Command) : Option Mnemonic :=
  command.name.bind fun name => Mnemonic.ofName? name.name

def stringArgument? (command : Command) : Option (String × Location) :=
  match command.arguments with
  | [⟨.address, .string value location, _⟩] => some (value, location)
  | _ => none

/-- Whether an argument of a command is the accumulator rather than a label of that name. -/
def takesAccumulator (command : Command) (argument : Argument) : Bool :=
  argument.mode = .address && argument.value.isAccumulator &&
    command.mnemonic?.any fun mnemonic => mnemonic.hasMode .accumulator

end Command

namespace Line

def command? : Line -> Option Command
  | .command _ c => c
  | _ => none

end Line

end Asm6502
