import Asm6502.Config
import Asm6502.Symbol.Mention
import Asm6502.Table

/-!
# Symbols

Everything known about the labels, macros and segments of a program, gathered from what its lines
mention.  A line that is visited twice counts once.
-/

namespace Asm6502

/-- The places where a name is defined and used, each once and in program order. -/
structure References where
  definitions : List Location
  usages : List Location
deriving DecidableEq, Repr, Inhabited

namespace References

def none : References := ⟨[], []⟩

def define (r : References) (location : Location) : References :=
  { r with definitions := addNew r.definitions location }

def use (r : References) (location : Location) : References :=
  { r with usages := addNew r.usages location }

def isDefined (r : References) : Bool := !r.definitions.isEmpty

/-- Notes a place where a segment is named: the first one defines it. -/
def nameSegment (r : References) (location : Location) : References :=
  if r.definitions.isEmpty then r.define location
  else if location ∈ r.definitions then r
  else r.use location

end References

structure LabelSymbol extends References where
  /-- Some definition gives it a constant value. -/
  isConstant : Bool
  /-- Some definition gives it a value that may change. -/
  isVariable : Bool
  /-- Some mention of it is made of several fragments. -/
  isDynamic : Bool
  /-- The value that its first constant definition gives it. -/
  value : Option Expr
deriving DecidableEq, Repr, Inhabited

namespace LabelSymbol

def unknown : LabelSymbol := ⟨.none, false, false, false, none⟩

def define (label : LabelSymbol) (dynamic : Bool) (kind : DefinitionKind) (value : Option Expr)
    (location : Location) : LabelSymbol :=
  { toReferences := label.toReferences.define location
    isConstant := label.isConstant || kind = .constant
    isVariable := label.isVariable || kind = .variable
    isDynamic := label.isDynamic || dynamic
    value := if kind = .constant then label.value <|> value else label.value }

def use (label : LabelSymbol) (dynamic : Bool) (location : Location) : LabelSymbol :=
  { label with
    toReferences := label.toReferences.use location
    isDynamic := label.isDynamic || dynamic }

end LabelSymbol

/-- Where a label is known: in the whole program, or in the subroutine with the given number. -/
inductive Scope where
  | program
  | subroutine (index : Nat)
deriving DecidableEq, Repr, Inhabited

/-- The label that a definition or use is about. -/
structure LabelRef where
  scope : Scope
  key : String
deriving DecidableEq, Repr, Inhabited

abbrev LabelTable := Table String LabelSymbol

/-- Everything known about the names of a program. -/
structure Symbols where
  globals : LabelTable
  /-- The local labels of each subroutine, after those in front of the first subroutine. -/
  locals : List LabelTable
  macros : Table String References
  segments : Table String References
  /-- The commands that open or close relocation regions, in program order. -/
  relocations : List Relocation
  /-- Which label each definition and use is about. -/
  labelRefs : Table Location LabelRef
deriving DecidableEq, Repr, Inhabited

namespace Symbols

def start : Symbols := ⟨.empty, [.empty], .empty, .empty, [], .empty⟩

/-- The scope to which a label mentioned next belongs. -/
def scopeOf (s : Symbols) (config : Config) (key : String) : Scope :=
  if config.isLocal key then .subroutine (s.locals.length - 1) else .program

/-- Changes what is known about a label that is mentioned at a place. -/
def updateLabel (s : Symbols) (config : Config) (key : String) (location : Location)
    (change : LabelSymbol -> LabelSymbol) : Symbols :=
  let scope := s.scopeOf config key
  let s := { s with labelRefs := s.labelRefs.insert location ⟨scope, key⟩ }
  match scope with
  | .program => { s with globals := s.globals.update key .unknown change }
  | .subroutine index =>
      { s with locals := s.locals.modify index fun table => table.update key .unknown change }

def add (config : Config) (s : Symbols) : Mention -> Symbols
  | .subroutine => { s with locals := s.locals ++ [.empty] }
  | .labelDefinition key dynamic kind value location =>
      s.updateLabel config key location fun label => label.define dynamic kind value location
  | .labelUse key dynamic location =>
      s.updateLabel config key location fun label => label.use dynamic location
  | .macroDefinition name location =>
      { s with macros := s.macros.update name .none fun r => r.define location }
  | .macroUse name location =>
      { s with macros := s.macros.update name .none fun r => r.use location }
  | .segment name location =>
      { s with segments := s.segments.update name .none fun r => r.nameSegment location }
  | .relocation relocation =>
      if s.relocations.any fun r => r.location = relocation.location then s
      else { s with relocations := s.relocations ++ [relocation] }

def addLine (config : Config) (s : Symbols) (line : Line) : Symbols :=
  line.mentions.foldl (add config) s

def ofLines (config : Config) (lines : List Line) : Symbols :=
  lines.foldl (addLine config) start

/-- All labels with their names: the global ones, then those of each subroutine. -/
def labels (s : Symbols) : List (String × LabelSymbol) :=
  s.globals.entries ++ s.locals.flatMap Table.entries

def label? (s : Symbols) (ref : LabelRef) : Option LabelSymbol :=
  match ref.scope with
  | .program => s.globals.find? ref.key
  | .subroutine index => s.locals[index]?.bind fun table => table.find? ref.key

def labelAt? (s : Symbols) (location : Location) : Option LabelSymbol :=
  (s.labelRefs.find? location).bind s.label?

def definesMacro (s : Symbols) (name : String) : Bool :=
  (s.macros.find? name).any References.isDefined

end Symbols

end Asm6502
