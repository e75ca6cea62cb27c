import Asm6502.Line.Command

/-!
# Mentions

What a line says about the names in it: which labels, macros and segments it defines or uses, in
the order in which it does so.  Including files is not among them.
-/

namespace Asm6502

inductive DefinitionKind where
  /-- It is the address of its line. -/
  | address
  | constant
  | variable
deriving DecidableEq, Repr, Inhabited

def DefinitionKind.ofDirective : Option Directive -> DefinitionKind
  | some directive =>
      if directive.definesConstant then constant
      else if directive.definesVariable then .variable
      else address
  | none => address

inductive RelocationKind where
  | opening
  | closing
deriving DecidableEq, Repr, Inhabited

/-- A command that opens or closes a relocation region. -/
structure Relocation where
  kind : RelocationKind
  hasArgument : Bool
  location : Location
deriving DecidableEq, Repr, Inhabited

/-- One thing that a line says about a name. -/
inductive Mention where
  /-- The line starts a subroutine, which has local labels of its own. -/
  | subroutine
  | labelDefinition (key : String) (dynamic : Bool) (kind : DefinitionKind) (value : Option Expr)
      (location : Location)
  | labelUse (key : String) (dynamic : Bool) (location : Location)
  | macroDefinition (name : String) (location : Location)
  | macroUse (name : String) (location : Location)
  | segment (name : String) (location : Location)
  | relocation (relocation : Relocation)
deriving DecidableEq, Repr

/-- The labels that an expression uses.  The program counter is not a label. -/
def Expr.mentions (e : Expr) : List Mention :=
  e.parts.filterMap fun
    | .identifier id =>
        if id.programCounter then none else some (.labelUse id.name false id.location)
    | .dynamicLabel label => some (.labelUse label.key true label.location)
    | _ => none

/-- The definition of a label on the line of a directive.  The program counter is not a label. -/
def Label.mentions (label : Label) (kind : DefinitionKind) (value : Option Expr) : List Mention :=
  match label with
  | plain id =>
      if id.programCounter then [] else [.labelDefinition id.name false kind value id.location]
  | dynamic label => [.labelDefinition label.key true kind value label.location]

namespace Command

def segmentMentions (command : Command) : List Mention :=
  match command.arguments.head?.map Argument.value with
  | some (.identifier id) => [.segment id.name id.location]
  | some (.dynamicLabel label) => [.segment label.key label.location]
  | some (.string value location) => [.segment value location]
  | _ => []

def relocationMentions (command : Command) : List Mention :=
  let mention (kind : RelocationKind) : List Mention :=
    [.relocation ⟨kind, !command.arguments.isEmpty, command.location⟩]
  match command.directive? with
  | some .rorg => mention .opening
  | some .rend => mention .closing
  | _ => []

/-- A name that is neither that of a directive nor of an instruction is the use of a macro. -/
def macroMentions (command : Command) : List Mention :=
  match command.name, command.directive?, command.mnemonic? with
  | some name, none, none => [.macroUse (unifiedName name.name) name.location]
  | _, _, _ => []

def argumentMentions (command : Command) : List Mention :=
  command.arguments.flatMap fun argument =>
    if command.takesAccumulator argument then [] else argument.value.mentions

/-- What a command says about names.  The arguments of commands on files, segments and subroutines
hold no labels. -/
def mentions (command : Command) : List Mention :=
  match command.directive? with
  | some .includeFile | some .incbin | some .incdir | some .subroutine => []
  | some .seg => command.segmentMentions
  | _ => command.relocationMentions ++ command.macroMentions ++ command.argumentMentions

end Command

namespace Line

/-- What the content of a line says about names.  Only a plain condition uses its labels; the other
kinds ask whether the labels are defined. -/
def contentMentions : Line -> List Mention
  | .command _ c => c.toList.flatMap Command.mentions
  | .macroBlock _ block =>
      block.name.toList.map fun name => .macroDefinition (unifiedName name.name) name.location
  | .conditional _ .plain condition _ _ _ => condition.toList.flatMap Expr.mentions
  | .conditional _ _ _ _ _ _ => []
  | .repetition _ count _ _ => count.toList.flatMap Expr.mentions

/-- What a line says about names, without the lines inside it.  A label in front of a subroutine
belongs to that subroutine. -/
def mentions (line : Line) : List Mention :=
  let command := line.command?
  let directive := command.bind Command.directive?
  let value := command.bind fun c => c.arguments.head?.map Argument.value
  (if directive = some .subroutine then [.subroutine] else []) ++
    line.label.toList.flatMap (fun label => label.mentions (.ofDirective directive) value) ++
    line.contentMentions

end Line

end Asm6502
