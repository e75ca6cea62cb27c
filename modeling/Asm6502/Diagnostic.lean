import Asm6502.Document

/-!
# Diagnostics

Everything that is reported about a program, with its wording and its order.
-/

namespace Asm6502

/-- How bad a finding is, the worst first. -/
inductive Severity where
  | error
  | warning
  | information
  | hint
deriving DecidableEq, Repr, Inhabited

namespace Severity

def rank : Severity -> Nat
  | error => 0
  | warning => 1
  | information => 2
  | hint => 3

def name : Severity -> String
  | error => "error"
  | warning => "warning"
  | information => "information"
  | hint => "hint"

end Severity

/-- What is wrong at some place of a program. -/
inductive Message where
  | unknownOpcode (name : String)
  | wrongAddressingMode (name : String)
  | impliedModeOnly (name : String)
  | impliedModeUnavailable (name : String)
  | immediateModeUnavailable (name : String)
  | tooManyArguments
  | missingCommandName
  | invalidNumber (text : String)
  | labelNotDefined (name : String)
  | labelAsVariableAndConstant (name : String)
  | tooManyDefinitions (name : String)
  | circularInclude (file : String)
  | fileNotResolvable (file : String)
  | folderNotResolvable (folder : String)
  | emptyStringArgument
  | stringLiteralExpected
  | internalError (details : String)
  | noArgumentForRelocationDirective
  | relocationRegionOpenedTwice
  | commandOutsideRelocationRegion (name : String)
  | unexpectedCharacter (character : Char)
  | unterminatedString
  | missingCharacter
  | unterminatedComment
  | syntaxError (text : String)
deriving DecidableEq, Repr, Inhabited

namespace Message

/-- The place of a kind of message among all kinds. -/
def rank : Message -> Nat
  | unknownOpcode _ => 0
  | wrongAddressingMode _ => 1
  | impliedModeOnly _ => 2
  | impliedModeUnavailable _ => 3
  | immediateModeUnavailable _ => 4
  | tooManyArguments => 5
  | missingCommandName => 6
  | invalidNumber _ => 7
  | labelNotDefined _ => 8
  | labelAsVariableAndConstant _ => 9
  | tooManyDefinitions _ => 10
  | circularInclude _ => 11
  | fileNotResolvable _ => 12
  | folderNotResolvable _ => 13
  | emptyStringArgument => 14
  | stringLiteralExpected => 15
  | internalError _ => 16
  | noArgumentForRelocationDirective => 17
  | relocationRegionOpenedTwice => 18
  | commandOutsideRelocationRegion _ => 19
  | unexpectedCharacter _ => 20
  | unterminatedString => 21
  | missingCharacter => 22
  | unterminatedComment => 23
  | syntaxError _ => 24

/-- The part of a message that differs between messages of one kind. -/
def subject : Message -> String
  | unknownOpcode name => name
  | wrongAddressingMode name => name
  | impliedModeOnly name => name
  | impliedModeUnavailable name => name
  | immediateModeUnavailable name => name
  | invalidNumber text => text
  | labelNotDefined name => name
  | labelAsVariableAndConstant name => name
  | tooManyDefinitions name => name
  | circularInclude file => file
  | fileNotResolvable file => file
  | folderNotResolvable folder => folder
  | internalError details => details
  | commandOutsideRelocationRegion name => name
  | unexpectedCharacter character => character.toString
  | syntaxError text => text
  | _ => ""

/-- Messages are ordered by their kind, then by their subject. -/
instance : Ord Message where
  compare a b := (compare a.rank b.rank).then (compare a.subject b.subject)

def text : Message -> String
  | unknownOpcode name => "Unknown opcode '" ++ name ++ "'"
  | wrongAddressingMode name => "Wrong addressing mode for '" ++ name ++ "'"
  | impliedModeOnly name => "'" ++ name ++ "' only supports implied addressing"
  | impliedModeUnavailable name => "'" ++ name ++ "' requires an argument"
  | immediateModeUnavailable name => "'" ++ name ++ "' does not support immediate addressing"
  | tooManyArguments => "Too many arguments"
  | missingCommandName => "Missing command name"
  | invalidNumber text => "Invalid number '" ++ text ++ "'"
  | labelNotDefined name => "Label '" ++ name ++ "' is not defined"
  | labelAsVariableAndConstant name =>
      "Label '" ++ name ++ "' is defined both as a variable and as a constant"
  | tooManyDefinitions name => "Label '" ++ name ++ "' is defined more than once"
  | circularInclude file => "Circular include of '" ++ file ++ "'"
  | fileNotResolvable file => "File '" ++ file ++ "' can not be resolved"
  | folderNotResolvable folder => "Folder '" ++ folder ++ "' can not be resolved"
  | emptyStringArgument => "Empty string argument"
  | stringLiteralExpected => "String literal expected"
  | internalError details => "Internal error: " ++ details
  | noArgumentForRelocationDirective => "Relocation directive requires an argument"
  | relocationRegionOpenedTwice => "Relocation region is already open"
  | commandOutsideRelocationRegion name => "'" ++ name ++ "' outside of a relocation region"
  | unexpectedCharacter character => "Unexpected character '" ++ character.toString ++ "'"
  | unterminatedString => "Unterminated string"
  | missingCharacter => "Missing character after quote"
  | unterminatedComment => "Unterminated block comment"
  | syntaxError text => text

/-- A folder that is not there may still turn up; everything else is an error. -/
def severity : Message -> Severity
  | folderNotResolvable _ => .warning
  | _ => .error

def ofSourceError : SourceError -> Message
  | .lex (.unexpectedCharacter character _) => unexpectedCharacter character
  | .lex (.unterminatedString _) => unterminatedString
  | .lex (.missingCharacter _) => missingCharacter
  | .lex (.unterminatedComment _) => unterminatedComment
  | .parse error => syntaxError error.message

end Message

/-- A finding at some place of a program. -/
structure Diagnostic where
  location : Location
  severity : Severity
  message : Message
deriving DecidableEq, Repr, Inhabited

namespace Diagnostic

def of (message : Message) (location : Location) : Diagnostic :=
  ⟨location, message.severity, message⟩

def isError (d : Diagnostic) : Bool := d.severity = .error

/-- Findings are ordered by their place, then the worse first, then by their message. -/
instance : Ord Diagnostic where
  compare a b :=
    (compare a.location b.location).then
      ((compare a.severity.rank b.severity.rank).then (compare a.message b.message))

/-- Whether a finding does not come after another one. -/
def le (a b : Diagnostic) : Bool := (compare a b).isLE

def text (d : Diagnostic) : String :=
  d.location.text ++ ": " ++ d.severity.name ++ ": " ++ d.message.text

def dropRepeats : List Diagnostic -> List Diagnostic
  | a :: b :: rest => if a = b then dropRepeats (b :: rest) else a :: dropRepeats (b :: rest)
  | l => l

/-- Findings in order, each once.  A finding can be made twice, for instance in a file that is
included from two places. -/
def assemble (findings : List Diagnostic) : List Diagnostic :=
  dropRepeats (findings.mergeSort le)

end Diagnostic

def Document.findings (document : Document) : List Diagnostic :=
  document.errors.map fun error => .of (.ofSourceError error) ⟨document.uri, error.span⟩

end Asm6502
