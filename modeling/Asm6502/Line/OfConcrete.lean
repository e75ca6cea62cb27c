import Asm6502.Concrete.File
import Asm6502.Line
import Asm6502.Text.Blank
import Asm6502.Token.Number

/-!
# Lines from concrete lines

Every concrete line has a line: its tokens become names, values, operators and texts, and each part
keeps its span as a location in the document.
-/

namespace Asm6502

namespace Concrete

def toIdentifier (uri : Uri) (token : Token) : Identifier :=
  { name := token.literal
    programCounter :=
      match token.kind with
      | .dot | .doubleDot | .tripleDot | .star => true
      | _ => false
    location := ⟨uri, token.span⟩ }

def toDynamicLabel (uri : Uri) (fragments : List Token) : DynamicLabel :=
  { fragments := fragments.map (toIdentifier uri)
    location := ⟨uri, (Span.cover? (fragments.map Token.span)).getD .origin⟩ }

/-- One fragment is a plain label, several make a dynamic one. -/
def toLabel (uri : Uri) (label : Label) : Asm6502.Label :=
  match label.others with
  | [] => .plain (toIdentifier uri label.first)
  | _ => .dynamic (toDynamicLabel uri label.fragments)

def unquote (literal : String) : String :=
  let inner :=
    match literal.toList with
    | '"' :: rest => rest
    | text => text
  String.ofList (if inner.getLast? = some '"' then inner.dropLast else inner)

def ofAtom (uri : Uri) (token : Token) : Asm6502.Expr :=
  let location : Location := ⟨uri, token.span⟩
  if token.kind.isNumber then .number token.literal (numberValue? token.literal) location
  else if token.kind = .stringLiteral then .string (unquote token.literal) location
  else if token.kind = .charLiteral then
    .char ((quotedChar? token.literal).getD (Char.ofNat 0)) location
  else .identifier (toIdentifier uri token)

/-- The value that an expression writes.  An operator whose sign is unknown is passed over. -/
def Expr.lower (uri : Uri) : Expr -> Asm6502.Expr
  | .atom token => ofAtom uri token
  | .label [token] => .identifier (toIdentifier uri token)
  | .label fragments => .dynamicLabel (toDynamicLabel uri fragments)
  | .macroArgument opening number closing =>
      .macroArgument (ordinalValue number.literal) ⟨uri, opening.span.union closing.span⟩
  | .unary operator operand =>
      match UnaryOp.ofSign? operator.literal with
      | some op => .unary op (operand.lower uri) ⟨uri, (unary operator operand).span⟩
      | none => operand.lower uri
  | .binary left operator right =>
      match BinaryOp.ofSign? operator.literal with
      | some op =>
          .binary op (left.lower uri) (right.lower uri) ⟨uri, (binary left operator right).span⟩
      | none => left.lower uri
  | .round opening inner closing =>
      .brackets .round (inner.lower uri) ⟨uri, opening.span.union closing.span⟩
  | .square opening inner closing =>
      .brackets .square (inner.lower uri) ⟨uri, opening.span.union closing.span⟩

def Argument.mode : Argument -> ArgumentMode
  | .immediate .. => .immediate
  | .address _ none => .address
  | .address _ (some ending) =>
      match ending.kind with
      | .commaX => .addressX
      | .commaY => .addressY
      | _ => .address
  | .indirect _ _ closing =>
      match closing.kind with
      | .commaXParen => .indirectX
      | .parenCommaY => .indirectY
      | _ => .indirect

def Argument.lower (uri : Uri) (argument : Argument) : Asm6502.Argument :=
  ⟨argument.mode, argument.value.lower uri, ⟨uri, argument.span⟩⟩

def Command.lower (uri : Uri) (command : Command) : Asm6502.Command :=
  { name := command.name.map (toIdentifier uri)
    extension := command.extension.bind fun ext => Extension.ofSuffix? ext.literal
    arguments := command.arguments.map (Argument.lower uri)
    location := ⟨uri, command.span⟩ }

def MacroBlock.lower (uri : Uri) (block : MacroBlock) : Asm6502.MacroBlock :=
  ⟨block.name.map (toIdentifier uri), block.body, ⟨uri, block.span⟩⟩

def conditionKind (keyword : Token) : ConditionKind :=
  match keyword.kind with
  | .ifConstWord => .ifConst
  | .ifNConstWord => .ifNConst
  | _ => .plain

def dropMark (mark text : List Char) : List Char :=
  if mark.isPrefixOf text then text.drop mark.length else text

/-- A comment without its marks.  One that runs to the end of its row stands where its text does;
a block comment stands where its marks do. -/
def toComment (uri : Uri) (token : Token) : Comment :=
  match token.literal.toList with
  | ';' :: rest =>
      let text := trim rest
      let line := token.span.start.line
      let column := token.span.start.column + 1 + (rest.takeWhile isBlank).length
      ⟨String.ofList text, ⟨uri, ⟨⟨line, column⟩, ⟨line, column + text.length⟩⟩⟩⟩
  | literal =>
      let inner := dropMark ['/', '*'] literal
      let inner := (dropMark ['/', '*'] inner.reverse).reverse
      ⟨String.ofList (trim inner), ⟨uri, token.span⟩⟩

def Margin.lower (uri : Uri) (margin : Margin) : Asm6502.Margin :=
  { label := margin.label.map (toLabel uri)
    comment := margin.comment.map (toComment uri)
    location := ⟨uri, margin.span⟩ }

mutual

def Line.lower (uri : Uri) : Line -> Asm6502.Line
  | .command margin command => .command (margin.lower uri) (command.map (Command.lower uri))
  | .macroBlock margin block => .macroBlock (margin.lower uri) (block.lower uri)
  | .conditional margin keyword condition thenLines _ elseLines _ span =>
      .conditional (margin.lower uri) (conditionKind keyword) (condition.map (Expr.lower uri))
        (lowerAll uri thenLines) (lowerAll uri elseLines) ⟨uri, span⟩
  | .repetition margin _ count body _ span =>
      .repetition (margin.lower uri) (count.map (Expr.lower uri)) (lowerAll uri body) ⟨uri, span⟩

def lowerAll (uri : Uri) : List Line -> List Asm6502.Line
  | [] => []
  | line :: lines => line.lower uri :: lowerAll uri lines

end

end Concrete

def ConcreteFile.lower (uri : Uri) (file : ConcreteFile) : File :=
  ⟨Concrete.lowerAll uri file.lines, ⟨uri, file.span⟩⟩

end Asm6502
