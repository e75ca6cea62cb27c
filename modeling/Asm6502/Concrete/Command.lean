import Asm6502.Command.Extension
import Asm6502.Concrete.Expr

/-!
# Reading labels and commands

The parts of a row: a label at its front, and a command with an extension and arguments.  A command
takes the whole rest of its row.  After a fault in an argument the rest of the row is given up,
while the arguments before it are kept.
-/

namespace Asm6502

namespace Concrete

/-! ## Labels -/

/-- The fragment that an index ending names when it stands in a label: `n,X` has the fragment `X`.
An ending starts with its comma.  For a token of this kind without any text, or one that starts
with a character beyond ASCII, there is no fragment to be named, and what is given here has no
meaning. -/
def endingFragment (ending : Token) : Token :=
  { kind := .identifier
    literal := String.ofList (ending.literal.toList.drop 1)
    span := ⟨ending.span.start.nextColumn, ending.span.stop⟩ }

def readLabelFragments : List Token -> List Token × List Token
  | [] => ([], [])
  | [ending] =>
      if ending.kind = .commaX ∨ ending.kind = .commaY then ([endingFragment ending], [])
      else ([], [ending])
  | first :: second :: rest =>
      if first.kind = .commaX ∨ first.kind = .commaY then
        let (fragments, rest) := readLabelFragments (second :: rest)
        (endingFragment first :: fragments, rest)
      else if first.kind = .comma ∧ second.kind.isWord then
        let (fragments, rest) := readLabelFragments rest
        (second :: fragments, rest)
      else ([], first :: second :: rest)

/-- Reads the rest of a label behind its first token.  Only a name can have further fragments. -/
def readLabel (first : Token) (tokens : List Token) : Label × List Token :=
  let (others, rest) := if first.kind = .identifier then readLabelFragments tokens else ([], tokens)
  match rest with
  | [] => (⟨first, others, none⟩, [])
  | colon :: tail =>
      if colon.kind = .colon then (⟨first, others, some colon⟩, tail)
      else (⟨first, others, none⟩, colon :: tail)

/-- Reads the label of a row.  It starts in the first column, or anywhere when its name is directly
followed by a colon. -/
def readLabel? (tokens : List Token) : Option Label × List Token :=
  match tokens with
  | [] => (none, [])
  | first :: rest =>
      if (first.kind = .identifier ∨ first.kind = .dot) ∧ first.span.start.column = 0 then
        let (label, rest) := readLabel first rest
        (some label, rest)
      else if first.kind = .whitespace then
        match rest with
        | name :: colon :: tail =>
            if name.kind = .identifier ∧ colon.kind = .colon then
              let (label, rest) := readLabel name (colon :: tail)
              (some label, rest)
            else (none, tokens)
        | _ => (none, tokens)
      else (none, tokens)

/-! ## Arguments -/

def readAddressEnding (value : Expr) (tokens : List Token) : Argument × List Token :=
  match tokens with
  | [] => (.address value none, [])
  | ending :: rest =>
      if ending.kind = .commaX ∨ ending.kind = .commaY then (.address value (some ending), rest)
      else (.address value none, ending :: rest)

/-- Reads an argument that starts with a parenthesis.  When an operator or an index by X follows
the closing one, the parentheses only group a part of an address. -/
def readIndirect (stop opening : Token) (tokens : List Token) (levels : Nat := nestingLimit) :
    Except ParseError (Argument × List Token) := do
  let (value, rest) <- readExpr stop true (skipBlanks tokens) levels
  match skipBlanks rest with
  | [] => .error (unexpected stop [] .indirectEnding)
  | closing :: rest =>
      if closing.kind = .parenRight then
        let next := peek stop rest
        if next.kind.isBinarySign ∨ next.kind = .commaX then do
          let (value, rest) <- readChain stop levels false (.round opening value closing) rest
          return readAddressEnding value rest
        else return (.indirect opening value closing, rest)
      else if closing.kind = .commaXParen ∨ closing.kind = .parenCommaY then
        return (.indirect opening value closing, rest)
      else .error (unexpected stop (closing :: rest) .indirectEnding)

def readArgument (stop : Token) (tokens : List Token) (levels : Nat := nestingLimit) :
    Except ParseError (Argument × List Token) :=
  match tokens with
  | [] => do
      let (value, rest) <- readExpr stop false [] levels
      return readAddressEnding value rest
  | first :: rest =>
      if first.kind = .hash then do
        let (value, rest) <- readExpr stop false rest levels
        return (.immediate first value, rest)
      else if first.kind = .parenLeft then readIndirect stop first rest levels
      else do
        let (value, rest) <- readExpr stop false (first :: rest) levels
        return readAddressEnding value rest

/--
The tokens of the next argument.

Arguments stand apart by a comma, with or without white space around it, or by white space alone.
The first argument may touch the name of its command, and a comma may stand between the two when
they do.
-/
def readSeparator (stop : Token) (afterName isFirst : Bool) (tokens : List Token) :
    Except ParseError (List Token) :=
  let spaced := (peek stop tokens).kind == .whitespace
  let rest := skipBlanks tokens
  if !isFirst || (afterName && !spaced) then
    match rest with
    | [] => .ok []
    | first :: tail =>
        if first.kind = .comma then
          let tail := skipBlanks tail
          if tail.isEmpty then .error (unexpected stop [] .argument) else .ok tail
        else if !spaced && !isFirst then .error (unexpected stop rest .argumentSeparator)
        else .ok rest
  else .ok rest

theorem length_readSeparator_le {stop : Token} {afterName isFirst : Bool}
    {tokens rest : List Token} (h : readSeparator stop afterName isFirst tokens = .ok rest) :
    rest.length ≤ tokens.length := by
  have hskip := length_skipBlanks_le tokens
  unfold readSeparator at h
  simp only at h
  split at h
  · split at h
    · cases h
      simp
    · next first tail heq =>
      have htail := length_skipBlanks_le tail
      rw [heq] at hskip
      simp only [List.length_cons] at hskip
      split at h
      · split at h
        · cases h
        · cases h
          omega
      · split at h
        · cases h
        · cases h
          rw [heq]
          simpa using hskip
  · cases h
    exact hskip

theorem length_readAddressEnding_le (value : Expr) (tokens : List Token) :
    (readAddressEnding value tokens).2.length ≤ tokens.length := by
  unfold readAddressEnding
  split
  · simp
  · split <;> simp

variable {stop opening : Token} {levels : Nat} {tokens rest : List Token} {argument : Argument}

theorem length_readIndirect_lt
    (h : readIndirect stop opening tokens levels = .ok (argument, rest)) :
    rest.length < tokens.length := by
  obtain ⟨⟨value, middle⟩, hvalue, h⟩ := ok_of_bind h
  have h1 := length_readExpr_lt hvalue
  have h2 := length_skipBlanks_le tokens
  have h3 := length_skipBlanks_le middle
  simp only at h
  split at h
  · cases h
  · next closing tail heq =>
    rw [heq] at h3
    simp only [List.length_cons] at h3
    split at h
    · split at h
      · obtain ⟨⟨address, after⟩, haddress, h⟩ := ok_of_bind h
        have h4 := (usesUp stop levels).chain haddress
        have h5 := length_readAddressEnding_le address after
        have hrest : (readAddressEnding address after).2 = rest :=
          congrArg Prod.snd (Except.ok.inj h)
        rw [hrest] at h5
        omega
      · cases h
        omega
    · split at h
      · cases h
        omega
      · cases h

theorem length_readArgument_lt (h : readArgument stop tokens levels = .ok (argument, rest)) :
    rest.length < tokens.length := by
  have haddress (h : (readExpr stop false tokens levels >>= fun read =>
      .ok (readAddressEnding read.1 read.2)) = .ok (argument, rest)) :
      rest.length < tokens.length := by
    obtain ⟨⟨value, middle⟩, hvalue, h⟩ := ok_of_bind h
    have hrest : (readAddressEnding value middle).2 = rest := congrArg Prod.snd (Except.ok.inj h)
    have hle := length_readAddressEnding_le value middle
    rw [hrest] at hle
    exact Nat.lt_of_le_of_lt hle (length_readExpr_lt hvalue)
  unfold readArgument at h
  split at h
  · exact haddress h
  · split at h
    · obtain ⟨⟨value, middle⟩, hvalue, h⟩ := ok_of_bind h
      cases h
      exact Nat.lt_succ_of_lt (length_readExpr_lt hvalue)
    · split at h
      · exact Nat.lt_succ_of_lt (length_readIndirect_lt h)
      · exact haddress h

def readArguments (stop : Token) (afterName isFirst : Bool) (tokens : List Token)
    (levels : Nat := nestingLimit) : List Argument × Option ParseError :=
  if (skipBlanks tokens).isEmpty then ([], none)
  else
    match _hseparator : readSeparator stop afterName isFirst tokens with
    | .error error => ([], some error)
    | .ok rest =>
        match _hargument : readArgument stop rest levels with
        | .error error => ([], some error)
        | .ok (argument, rest) =>
            let (arguments, error) := readArguments stop afterName false rest levels
            (argument :: arguments, error)
termination_by tokens.length
decreasing_by
  have h1 := length_readSeparator_le _hseparator
  have h2 := length_readArgument_lt _hargument
  omega

/-! ## Commands -/

def readExtension? (name : Token) (tokens : List Token) : Option Token × List Token :=
  match tokens with
  | [] => (none, [])
  | ext :: rest =>
      if ext.kind = .identifier ∧ ext.literal.toList.head? = some '.' ∧
          ext.span.start = name.span.stop then (some ext, rest)
      else (none, ext :: rest)

def extensionErrors (ext : Option Token) : List ParseError :=
  match ext with
  | some token =>
      if (Extension.ofSuffix? token.literal).isNone then [.unknownExtension token] else []
  | none => []

/-- The span of a command.  One of which nothing could be read is empty at the end of its row. -/
def commandSpan (stop : Token) (name ext : Option Token) (arguments : List Argument) : Span :=
  (Span.cover? (name.toList.map Token.span ++ ext.toList.map Token.span ++
    arguments.map Argument.span)).getD (.empty stop.span.start)

def readCommandTail (stop : Token) (name : Option Token) (tokens : List Token)
    (levels : Nat := nestingLimit) : Command × List ParseError :=
  let (ext, rest) :=
    match name with
    | some name => readExtension? name tokens
    | none => (none, tokens)
  let (arguments, error) := readArguments stop name.isSome true rest levels
  ({ name := name, extension := ext, arguments := arguments,
     span := commandSpan stop name ext arguments },
    extensionErrors ext ++ error.toList)

def startsArgument (kind : Token.Kind) : Bool :=
  kind.isNumber || kind.isUnarySign ||
    match kind with
    | .hash | .parenLeft | .bracketLeft | .braceLeft | .stringLiteral | .charLiteral | .dot
    | .doubleDot | .tripleDot | .star => true
    | _ => false

end Concrete

end Asm6502
