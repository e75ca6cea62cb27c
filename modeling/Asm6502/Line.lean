import Asm6502.Command.Extension
import Asm6502.Expr

/-!
# Lines

Source lines with the punctuation gone: labels, commands with their arguments, and blocks with the
lines inside them.
-/

namespace Asm6502

/-- The label at the front of a line. -/
inductive Label where
  | plain (identifier : Identifier)
  | dynamic (label : DynamicLabel)
deriving DecidableEq, Repr, Inhabited

namespace Label

def key : Label -> String
  | plain identifier => identifier.name
  | dynamic label => label.key

def location : Label -> Location
  | plain identifier => identifier.location
  | dynamic label => label.location

end Label

/-- The shape of an argument, which its punctuation alone decides. -/
inductive ArgumentMode where
  /-- A plain value. -/
  | address
  /-- A value behind `#`. -/
  | immediate
  /-- A value in parentheses. -/
  | indirect
  /-- A value in parentheses with `,X` inside them. -/
  | indirectX
  /-- A value in parentheses with `,Y` behind them. -/
  | indirectY
  /-- A value with `,X`. -/
  | addressX
  /-- A value with `,Y`. -/
  | addressY
deriving DecidableEq, Repr, Inhabited

structure Argument where
  mode : ArgumentMode
  value : Expr
  location : Location
deriving DecidableEq, Repr, Inhabited

/-- An instruction, a directive or the use of a macro. -/
structure Command where
  name : Option Identifier
  extension : Option Extension
  arguments : List Argument
  location : Location
deriving DecidableEq, Repr, Inhabited

structure MacroBlock where
  name : Option Identifier
  body : String
  location : Location
deriving DecidableEq, Repr, Inhabited

/-- What decides between the two parts of a conditional. -/
inductive ConditionKind where
  /-- The value of the condition. -/
  | plain
  /-- Whether the condition can be evaluated. -/
  | ifConst
  /-- Whether the condition cannot be evaluated. -/
  | ifNConst
deriving DecidableEq, Repr, Inhabited

/-- A comment without its marks and the white space around it. -/
structure Comment where
  text : String
  location : Location
deriving DecidableEq, Repr, Inhabited

/-- What a line has whatever stands on it. -/
structure Margin where
  label : Option Label
  comment : Option Comment
  location : Location
deriving DecidableEq, Repr, Inhabited

inductive Line where
  | command (margin : Margin) (command : Option Command)
  | macroBlock (margin : Margin) (block : MacroBlock)
  | conditional (margin : Margin) (kind : ConditionKind) (condition : Option Expr)
      (thenLines elseLines : List Line) (location : Location)
  | repetition (margin : Margin) (count : Option Expr) (body : List Line) (location : Location)
deriving Repr

instance : Inhabited Line := ⟨.command default none⟩

namespace Line

def margin : Line -> Margin
  | command margin _ => margin
  | macroBlock margin _ => margin
  | conditional margin _ _ _ _ _ => margin
  | repetition margin _ _ _ => margin

def label (line : Line) : Option Label := line.margin.label

def location (line : Line) : Location := line.margin.location

def expressions : Line -> List Expr
  | .command _ (some c) => c.arguments.map Argument.value
  | .conditional _ _ condition _ _ _ => condition.toList
  | .repetition _ count _ _ => count.toList
  | _ => []

mutual

def walk : Line -> List Line
  | command margin c => [command margin c]
  | macroBlock margin block => [macroBlock margin block]
  | conditional margin kind condition thenLines elseLines location =>
      conditional margin kind condition thenLines elseLines location ::
        (walkAll thenLines ++ walkAll elseLines)
  | repetition margin count body location =>
      repetition margin count body location :: walkAll body

def walkAll : List Line -> List Line
  | [] => []
  | line :: lines => walk line ++ walkAll lines

end

end Line

structure File where
  lines : List Line
  location : Location
deriving Repr

instance : Inhabited File := ⟨⟨[], default⟩⟩

end Asm6502
