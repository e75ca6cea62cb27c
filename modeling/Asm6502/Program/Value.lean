import Asm6502.Arithmetic
import Asm6502.Program

/-!
# Values

What an expression is worth, as far as its literals and constant labels tell.  Constant labels may
be defined through each other only so many levels deep, which also ends circular definitions.
-/

namespace Asm6502

/-- The number of levels on which constant labels are looked up, the expression itself included. -/
def constantLevels : Nat := 33

def Expr.valueWith? (names : Identifier -> Option Int64) : Expr -> Option Int64
  | .number _ value _ => value
  | .char value _ => some (Int64.ofNat value.toNat)
  | .identifier id => names id
  | .brackets _ inner _ => inner.valueWith? names
  | .unary op operand _ => do
      let v <- operand.valueWith? names
      op.apply? v
  | .binary op left right _ => do
      let a <- left.valueWith? names
      let b <- right.valueWith? names
      op.apply? a b
  | .dynamicLabel _ | .string _ _ | .macroArgument _ _ => none

namespace Program

def constant? (program : Program) (id : Identifier) : Option Expr :=
  if id.programCounter then none
  else
    (program.symbols.labelAt? id.location).bind fun label =>
      if label.isConstant && !label.isVariable then label.value else none

def valueOn? (program : Program) : Nat -> Expr -> Option Int64
  | 0, _ => none
  | levels + 1, e =>
      e.valueWith? fun id => (program.constant? id).bind fun value => program.valueOn? levels value

/-- The value of an expression.  There is none for labels that are not constant, the program
counter, strings, and operations without a result. -/
def value? (program : Program) (e : Expr) : Option Int64 := program.valueOn? constantLevels e

/-- How wide an address is encoded: as the extension of the command says, else by its value.  An
unknown address is a wide one. -/
def addressWidth (program : Program) (extension : Option Extension) (e : Expr) : AddressWidth :=
  match extension.bind Extension.width? with
  | some width => width
  | none => ((program.value? e).map AddressWidth.ofValue).getD .absolute

end Program

end Asm6502
