import Asm6502.Text.Alphanumeric
import Asm6502.Text.Blank
import Asm6502.Text.Word
import Asm6502.Token

/-!
# Lexemes of a text

A source text is cut into lexemes from left to right.  A lexeme is a token, a comment, or a single
character that belongs to neither.  Every lexeme takes at least one character, so cutting ends,
and the lexemes together are the text.  Comments and faults are kept apart from the tokens.
-/

namespace Asm6502

/-- A fault of a text found while it is cut into lexemes. -/
inductive LexError where
  | unexpectedCharacter (character : Char) (span : Span)
  | unterminatedString (span : Span)
  | missingCharacter (span : Span)
  | unterminatedComment (span : Span)
deriving DecidableEq, Repr, Inhabited

namespace LexError

def span : LexError -> Span
  | unexpectedCharacter _ span => span
  | unterminatedString span => span
  | missingCharacter span => span
  | unterminatedComment span => span

def message : LexError -> String
  | unexpectedCharacter character _ => "Unexpected character '" ++ character.toString ++ "'"
  | unterminatedString _ => "Unterminated string"
  | missingCharacter _ => "Missing character after quote"
  | unterminatedComment _ => "Unterminated block comment"

def text (error : LexError) : String :=
  error.message ++ " at " ++ error.span.text

end LexError

namespace Lexeme

/-- What is cut off the front of a text. -/
inductive Shape where
  | token (kind : Token.Kind)
  | unclosedString
  | comment
  | unclosedComment
  | missingCharacter
  | unexpectedCharacter
deriving DecidableEq, Repr

def run (condition : Char -> Bool) (text : List Char) : Nat :=
  (text.takeWhile condition).length

/-- The number of characters up to and including the first end mark of a block comment. -/
def throughCommentEnd? : List Char -> Option Nat
  | [] => none
  | '*' :: '/' :: _ => some 2
  | _ :: rest => (throughCommentEnd? rest).map (· + 1)

def wordAt (text : List Char) (index : Nat) : Bool :=
  text[index]?.any isWordChar

def wordKind (word : List Char) : Token.Kind :=
  (Token.Kind.ofKeyword? (unifiedName (String.ofList word))).getD .identifier

def word (first : Char) (rest : List Char) : Shape × Nat :=
  let length := run isWordChar rest
  (.token (wordKind (first :: rest.take length)), length)

/-- A string runs to its closing quote, or to the end of its row when there is none. -/
def string (rest : List Char) : Shape × Nat :=
  let length := run (fun c => c != '"' && !isLineBreak c) rest
  if rest[length]? == some '"' then (.token .stringLiteral, length + 1)
  else (.unclosedString, length)

/-- A block comment runs to its end mark, or to the end of the text when there is none. -/
def blockComment (rest : List Char) : Shape × Nat :=
  match throughCommentEnd? (rest.drop 1) with
  | some length => (.comment, length + 1)
  | none => (.unclosedComment, rest.length)

/-- An apostrophe takes the character behind it unless the row ends there. -/
def quotedChar (rest : List Char) : Shape × Nat :=
  match rest with
  | c :: _ => if isLineBreak c then (.missingCharacter, 0) else (.token .charLiteral, 1)
  | [] => (.missingCharacter, 0)

/-- A comma takes an index register behind it unless the letter starts a longer word. -/
def comma (rest : List Char) : Shape × Nat :=
  if wordAt rest 1 then (.token .comma, 0)
  else
    match rest.head?.map Char.toUpper with
    | some 'X' => if rest[1]? == some ')' then (.token .commaXParen, 2) else (.token .commaX, 1)
    | some 'Y' => (.token .commaY, 1)
    | _ => (.token .comma, 0)

/-- A closing parenthesis takes an index by Y behind it unless the letter starts a longer word. -/
def parenRight (rest : List Char) : Shape × Nat :=
  if rest.head? == some ',' && rest[1]?.any (·.toUpper == 'Y') && !wordAt rest 2 then
    (.token .parenCommaY, 2)
  else (.token .parenRight, 0)

def dots (rest : List Char) : Shape × Nat :=
  match rest with
  | '.' :: '.' :: _ => (.token .tripleDot, 2)
  | '.' :: _ => (.token .doubleDot, 1)
  | _ => (.token .dot, 0)

def sign (first : Char) (rest : List Char) : Shape × Nat :=
  match first, rest with
  | '&', '&' :: _ => (.token .doubleAmpersand, 1)
  | '&', _ => (.token .ampersand, 0)
  | '|', '|' :: _ => (.token .doublePipe, 1)
  | '|', _ => (.token .pipe, 0)
  | '!', '=' :: _ => (.token .notEquals, 1)
  | '!', _ => (.token .bang, 0)
  | '=', '=' :: _ => (.token .doubleEquals, 1)
  | '=', _ => (.token .equals, 0)
  | '<', '<' :: _ => (.token .shiftLeft, 1)
  | '<', '=' :: _ => (.token .lessEqual, 1)
  | '<', _ => (.token .less, 0)
  | '>', '>' :: _ => (.token .shiftRight, 1)
  | '>', '=' :: _ => (.token .greaterEqual, 1)
  | '>', _ => (.token .greater, 0)
  | '#', _ => (.token .hash, 0)
  | ':', _ => (.token .colon, 0)
  | '(', _ => (.token .parenLeft, 0)
  | '[', _ => (.token .bracketLeft, 0)
  | ']', _ => (.token .bracketRight, 0)
  | '\x7b', _ => (.token .braceLeft, 0)
  | '\x7d', _ => (.token .braceRight, 0)
  | '*', _ => (.token .star, 0)
  | '+', _ => (.token .plus, 0)
  | '-', _ => (.token .minus, 0)
  | '/', _ => (.token .slash, 0)
  | '%', _ => (.token .percent, 0)
  | '~', _ => (.token .tilde, 0)
  | '^', _ => (.token .caret, 0)
  | '?', _ => (.token .question, 0)
  | _, _ => (.unexpectedCharacter, 0)

/--
The shape of the lexeme at the front of a text, and how many characters it takes behind its first.

Only the kind of the token before it matters from what came earlier: behind an operand a `%` is an
operator, elsewhere it starts a binary number.
-/
def cut (previous : Option Token.Kind) (first : Char) (rest : List Char) : Shape × Nat :=
  if first == '\n' then (.token .newline, 0)
  else if first == '\r' then (.token .newline, if rest.head? == some '\n' then 1 else 0)
  else if isBlank first then (.token .whitespace, run isInlineBlank rest)
  else if first == ';' then (.comment, run (fun c => !isLineBreak c) rest)
  else if first == '/' && rest.head? == some '*' then blockComment rest
  else if first == '"' then string rest
  else if first == '\'' then quotedChar rest
  else if first == '%' && rest.head?.any Char.isDigit && !previous.any Token.Kind.endsOperand then
    (.token .binary, run isWordChar rest)
  else if first == '$' && wordAt rest 0 then (.token .hex, run isWordChar rest)
  else if first.isDigit then
    if first == '0' && rest.head?.any (fun c => c.isDigit && c != '0') then
      (.token .octal, run isWordChar rest)
    else (.token .decimal, run isWordChar rest)
  else if first == '.' then
    if wordAt rest 0 then word first rest else dots rest
  else if isWordChar first then word first rest
  else if first == ',' then comma rest
  else if first == ')' then parenRight rest
  else sign first rest

end Lexeme

/-- A piece of a text: what it is, its characters, and where they stand. -/
structure Lexeme where
  shape : Lexeme.Shape
  taken : List Char
  start : Position
deriving DecidableEq, Repr

namespace Lexeme

def stop (lexeme : Lexeme) : Position :=
  lexeme.start.advance lexeme.taken

/-- The span of a lexeme.  A line break ends on its own row, behind its characters. -/
def span (lexeme : Lexeme) : Span :=
  match lexeme.shape with
  | .token .newline =>
      ⟨lexeme.start, ⟨lexeme.start.line, lexeme.start.column + lexeme.taken.length⟩⟩
  | _ => ⟨lexeme.start, lexeme.stop⟩

def asToken (lexeme : Lexeme) (kind : Token.Kind) : Token :=
  ⟨kind, String.ofList lexeme.taken, lexeme.span⟩

def token? (lexeme : Lexeme) : Option Token :=
  match lexeme.shape with
  | .token kind => some (lexeme.asToken kind)
  | .unclosedString => some (lexeme.asToken .stringLiteral)
  | _ => none

def comment? (lexeme : Lexeme) : Option Token :=
  match lexeme.shape with
  | .comment | .unclosedComment => some (lexeme.asToken .comment)
  | _ => none

def error? (lexeme : Lexeme) : Option LexError :=
  match lexeme.shape with
  | .unclosedString => some (.unterminatedString lexeme.span)
  | .unclosedComment => some (.unterminatedComment lexeme.span)
  | .missingCharacter => some (.missingCharacter lexeme.span)
  | .unexpectedCharacter =>
      some (.unexpectedCharacter (lexeme.taken.headD ' ') lexeme.span)
  | _ => none

/-- The lexemes of a text that starts at a position, behind a token of the given kind. -/
def scan (previous : Option Token.Kind) (start : Position) : List Char -> List Lexeme
  | [] => []
  | first :: rest =>
      let (shape, length) := cut previous first rest
      let lexeme : Lexeme := ⟨shape, first :: rest.take length, start⟩
      lexeme ::
        scan ((lexeme.token?.map Token.kind).or previous) lexeme.stop (rest.drop length)
termination_by text => text.length
decreasing_by
  simp only [List.length_drop, List.length_cons]
  omega

end Lexeme

/-- A text cut into tokens, which end in the mark of the end of the text, with its comments and
faults on the side. -/
structure TokenStream where
  tokens : List Token
  comments : List Token
  errors : List LexError
deriving DecidableEq, Repr, Inhabited

def tokenize (source : String) : TokenStream :=
  let text := source.toList
  let lexemes := Lexeme.scan none .origin text
  { tokens := lexemes.filterMap Lexeme.token? ++
      [Token.endOfText (Position.origin.advance text)]
    comments := lexemes.filterMap Lexeme.comment?
    errors := lexemes.filterMap Lexeme.error? }

end Asm6502
