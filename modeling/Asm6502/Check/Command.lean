import Asm6502.Program.Value

/-!
# Checks on commands

A command is an instruction in one of its addressing modes, a directive, or a macro of the program.
-/

namespace Asm6502.Program

/-- Whether an argument has one of the addressing modes of an instruction.  A branch goes to any
plain address. -/
def fits (program : Program) (mnemonic : Mnemonic) (extension : Option Extension)
    (argument : Argument) : Bool :=
  let hasAddress (index : Index) : Bool :=
    mnemonic.hasMode (.ofAddress index (program.addressWidth extension argument.value))
  match argument.mode with
  | .indirect => mnemonic.hasMode .indirect
  | .indirectX => mnemonic.hasMode .indirectIndexedX
  | .indirectY => mnemonic.hasMode .indirectIndexedY
  | .immediate => mnemonic.hasMode .immediate
  | .address =>
      mnemonic.isBranch || (argument.value.isAccumulator && mnemonic.hasMode .accumulator) ||
        hasAddress .none
  | .addressX => hasAddress .x
  | .addressY => hasAddress .y

def misfit (mnemonic : Mnemonic) (name : String) (mode : ArgumentMode) : Message :=
  if mode = .immediate then .immediateModeUnavailable name
  else if mnemonic.onlyImplied then .impliedModeOnly name
  else .wrongAddressingMode name

def instructionFinding? (program : Program) (mnemonic : Mnemonic) (name : Identifier)
    (command : Command) : Option Diagnostic :=
  if mnemonic.encodings.isEmpty then
    some (.of (.internalError ("no addressing modes for " ++ mnemonic.name)) name.location)
  else
    match command.arguments with
    | [] =>
        if mnemonic.hasMode .implied || mnemonic.hasMode .accumulator then none
        else some (.of (.impliedModeUnavailable name.name) name.location)
    | [argument] =>
        if program.fits mnemonic command.extension argument then none
        else some (.of (misfit mnemonic name.name argument.mode) argument.location)
    | _ :: second :: rest =>
        let last := (rest.getLast?).getD second
        some (.of .tooManyArguments (second.location.union last.location))

/-- What is wrong with a command.  The arguments of directives and macros are not looked at. -/
def commandFinding? (program : Program) (command : Command) : Option Diagnostic :=
  match command.name with
  | none => some (.of .missingCommandName command.location)
  | some name =>
      if (Directive.ofCommandName? name.name).isSome then none
      else
        match Mnemonic.ofName? name.name with
        | some mnemonic => program.instructionFinding? mnemonic name command
        | none =>
            if program.symbols.definesMacro (unifiedName name.name) then none
            else some (.of (.unknownOpcode name.name) name.location)

end Asm6502.Program
