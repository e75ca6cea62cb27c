/-!
# Command lines

What a user asks for on the command line: general options, then a command with its own options and
files.  Options and files may be mixed; behind `--` every word is a file.
-/

namespace Asm6502.Cli

inductive Request where
  /-- To report what is wrong with some files. -/
  | check (localMarks files : List String)
  /-- To list the symbols of the program that starts with a file. -/
  | symbols (localMarks : List String) (file : String)
deriving DecidableEq, Repr, Inhabited

/-- A command line that was understood. -/
structure Invocation where
  /-- Whether to record how the program runs. -/
  trace : Bool
  /-- How often more log output was asked for. -/
  verbosity : Nat
  request : Request
deriving DecidableEq, Repr, Inhabited

inductive Refusal where
  | missingCommand
  | unknownCommand (name : String)
  | unknownOption (word : String)
  | repeatedOption (name : String)
  | missingValue (name : String)
  | missingFile
  | emptyFile
  | tooManyFiles (file : String)
deriving DecidableEq, Repr, Inhabited

namespace Refusal

def message : Refusal -> String
  | missingCommand => "a command is required"
  | unknownCommand name => "unrecognized command '" ++ name ++ "'"
  | unknownOption word => "unexpected argument '" ++ word ++ "'"
  | repeatedOption name => "the option '" ++ name ++ "' cannot be used multiple times"
  | missingValue name => "a value is required for '" ++ name ++ "'"
  | missingFile => "a file is required"
  | emptyFile => "the name of a file is not empty"
  | tooManyFiles file => "unexpected argument '" ++ file ++ "'"

end Refusal

/-- Why no request comes out of a command line. -/
inductive Stop where
  | refused (reason : Refusal)
  /-- The user asks how to use the program. -/
  | help
  /-- The user asks which program this is. -/
  | version
deriving DecidableEq, Repr, Inhabited

/-- What a word of a command line looks like. -/
inductive Word where
  /-- The word `--`. -/
  | escape
  /-- An option with a long name and the value behind its `=`. -/
  | long (name : String) (value : Option String)
  /-- Options of one letter each. -/
  | short (letters : List Char)
  | plain (text : String)
deriving DecidableEq, Repr, Inhabited

namespace Word

/-- An option with a long name, whose value stands behind the first `=`. -/
def ofLong (text : List Char) : Word :=
  let name := String.ofList (text.takeWhile fun c => c != '=')
  match text.dropWhile fun c => c != '=' with
  | [] => long name none
  | _ :: value => long name (some (String.ofList value))

/-- The look of a word.  A single `-` is a plain word. -/
def ofText (text : String) : Word :=
  match text.toList with
  | ['-', '-'] => escape
  | '-' :: '-' :: rest => ofLong rest
  | '-' :: letter :: rest => short (letter :: rest)
  | _ => plain text

end Word

/-! ## Words behind a command -/

structure Operands where
  localMarks : List String
  files : List String
  /-- The last word was an option that takes its value from the next one. -/
  awaitsMark : Bool
  /-- The word `--` was read. -/
  onlyFiles : Bool
deriving DecidableEq, Repr, Inhabited

namespace Operands

def start : Operands := ⟨[], [], false, false⟩

/-- The option whose value is the beginning of local label names. -/
def markOption : String := "local-prefix"

def refuse (reason : Refusal) : Except Stop Operands := .error (.refused reason)

def addMark (o : Operands) (mark : String) : Operands :=
  { o with localMarks := o.localMarks ++ [mark], awaitsMark := false }

def addFile (o : Operands) (limit : Option Nat) (file : String) : Except Stop Operands :=
  if limit.any fun limit => limit ≤ o.files.length then refuse (.tooManyFiles file)
  else if file.isEmpty then refuse .emptyFile
  else .ok { o with files := o.files ++ [file] }

def addWord (o : Operands) (limit : Option Nat) (word : String) : Except Stop Operands :=
  match Word.ofText word with
  | .escape => .ok { o with onlyFiles := true }
  | .long name value =>
      if name = markOption then
        match value with
        | some mark => .ok (o.addMark mark)
        | none => .ok { o with awaitsMark := true }
      else if name = "help" && value.isNone then .error .help
      else if name = "version" && value.isNone then .error .version
      else refuse (.unknownOption word)
  | .short ('h' :: _) => .error .help
  | .short ('V' :: _) => .error .version
  | .short _ => refuse (.unknownOption word)
  | .plain file => o.addFile limit file

def next (limit : Option Nat) (o : Operands) (word : String) : Except Stop Operands :=
  if o.onlyFiles then o.addFile limit word
  else if o.awaitsMark then
    match Word.ofText word with
    | .plain mark => .ok (o.addMark mark)
    | _ => refuse (.missingValue markOption)
  else o.addWord limit word

def read (limit : Option Nat) (words : List String) : Except Stop Operands := do
  let o <- words.foldlM (next limit) start
  if o.awaitsMark then refuse (.missingValue markOption)
  else if o.files.isEmpty then refuse .missingFile
  else return o

end Operands

/-! ## Words in front of a command -/

def Request.read (name : String) (words : List String) : Except Stop Request :=
  if name ∈ ["check", "c"] then do
    let o <- Operands.read none words
    return .check o.localMarks o.files
  else if name ∈ ["symbols", "s", "sym"] then do
    let o <- Operands.read (some 1) words
    return .symbols o.localMarks (o.files.headD "")
  else if name = "help" then .error .help
  else .error (.refused (.unknownCommand name))

/-- The number of requests for more log output among options of one letter. -/
def countVerbose (word : String) : List Char -> Except Stop Nat
  | [] => .ok 0
  | 'v' :: rest => do
      let n <- countVerbose word rest
      return n + 1
  | 'h' :: _ => .error .help
  | 'V' :: _ => .error .version
  | _ => .error (.refused (.unknownOption word))

namespace Invocation

def readFrom (trace : Bool) (verbosity : Nat) : List String -> Except Stop Invocation
  | [] => .error (.refused .missingCommand)
  | word :: rest =>
      match Word.ofText word with
      | .escape => .error (.refused .missingCommand)
      | .long "trace" none =>
          if trace then .error (.refused (.repeatedOption "trace"))
          else readFrom true verbosity rest
      | .long "verbose" none => readFrom trace (verbosity + 1) rest
      | .long "help" none => .error .help
      | .long "version" none => .error .version
      | .long _ _ => .error (.refused (.unknownOption word))
      | .short letters => do
          let count <- countVerbose word letters
          readFrom trace (verbosity + count) rest
      | .plain name => do
          let request <- Request.read name rest
          return ⟨trace, verbosity, request⟩

def read (words : List String) : Except Stop Invocation := readFrom false 0 words

end Invocation

end Asm6502.Cli
