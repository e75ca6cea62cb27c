import Asm6502.Concrete
import Asm6502.Concrete.Error

/-!
# Reading expressions

An expression is an operand followed by any number of operators and operands, folded to the left
without precedence.  Each bracket, each operator in front of an operand and each operator of a
chain takes one level off the levels that are left, and none may be taken below zero.  Inside
brackets white space is insignificant and commas join names into one label.

A reader gets the token at which the row stops and the tokens that are left on the row.  It gives
the value and the tokens behind it, or the first fault.
-/

namespace Asm6502

namespace Concrete

/-- Tokens without the white space in front of them. -/
def skipBlanks (tokens : List Token) : List Token :=
  tokens.dropWhile fun token => token.kind == .whitespace

def skipBlanksIn (inBrackets : Bool) (tokens : List Token) : List Token :=
  if inBrackets then skipBlanks tokens else tokens

def peek (stop : Token) (tokens : List Token) : Token :=
  tokens.headD stop

def unexpected (stop : Token) (tokens : List Token) (expected : Expected) : ParseError :=
  .unexpectedToken expected (peek stop tokens)

def readKind (stop : Token) (kind : Token.Kind) (expected : Expected) (tokens : List Token) :
    Except ParseError (Token × List Token) :=
  match tokens with
  | token :: rest =>
      if token.kind = kind then .ok (token, rest)
      else .error (unexpected stop tokens expected)
  | [] => .error (unexpected stop tokens expected)

def readFragments : List Token -> List Token × List Token
  | comma :: word :: rest =>
      if comma.kind = .comma ∧ word.kind.isWord then
        let (fragments, rest) := readFragments rest
        (word :: fragments, rest)
      else ([], comma :: word :: rest)
  | tokens => ([], tokens)

def isAtom (kind : Token.Kind) : Bool :=
  kind.isNumber ||
    match kind with
    | .stringLiteral | .charLiteral | .dot | .doubleDot | .tripleDot | .star => true
    | _ => false

mutual

def readOperand (stop : Token) :
    Nat -> Bool -> List Token -> Except ParseError (Expr × List Token)
  | 0, _, tokens => .error (.nestingTooDeep (peek stop tokens))
  | _ + 1, _, [] => .error (unexpected stop [] .expression)
  | levels + 1, inBrackets, token :: rest =>
      if token.kind = .parenLeft then do
        let (left, rest) <- readOperand stop levels true (skipBlanks rest)
        let (inner, rest) <- readChain stop levels true left rest
        let (closing, rest) <- readKind stop .parenRight .closingParen (skipBlanks rest)
        return (.round token inner closing, rest)
      else if token.kind = .bracketLeft then do
        let (left, rest) <- readOperand stop levels true (skipBlanks rest)
        let (inner, rest) <- readChain stop levels true left rest
        let (closing, rest) <- readKind stop .bracketRight .closingBracket (skipBlanks rest)
        return (.square token inner closing, rest)
      else if token.kind = .braceLeft then do
        let (number, rest) <- readKind stop .decimal .macroArgumentNumber rest
        let (closing, rest) <- readKind stop .braceRight .closingBrace rest
        return (.macroArgument token number closing, rest)
      else if token.kind.isUnarySign then do
        let (operand, rest) <- readOperand stop levels inBrackets rest
        return (.unary token operand, rest)
      else if isAtom token.kind then .ok (.atom token, rest)
      else if token.kind.isWord then
        if inBrackets then
          let (fragments, rest) := readFragments rest
          .ok (.label (token :: fragments), rest)
        else .ok (.label [token], rest)
      else .error (unexpected stop (token :: rest) .expression)

def readChain (stop : Token) :
    Nat -> Bool -> Expr -> List Token -> Except ParseError (Expr × List Token)
  | levels, inBrackets, left, tokens =>
      match skipBlanksIn inBrackets tokens with
      | [] => .ok (left, [])
      | operator :: rest =>
          if operator.kind.isBinarySign then
            let rest := skipBlanksIn inBrackets rest
            match levels with
            | 0 => .error (.nestingTooDeep (peek stop rest))
            | levels + 1 => do
                let (right, rest) <- readOperand stop levels inBrackets rest
                readChain stop levels inBrackets (.binary left operator right) rest
          else .ok (left, operator :: rest)

end

def readExpr (stop : Token) (inBrackets : Bool) (tokens : List Token)
    (levels : Nat := nestingLimit) : Except ParseError (Expr × List Token) := do
  let (left, rest) <- readOperand stop levels inBrackets tokens
  readChain stop levels inBrackets left rest

/-! ## Readers use up tokens -/

theorem ok_of_bind {α β : Type} {answer : Except ParseError α} {next : α -> Except ParseError β}
    {b : β} (h : answer >>= next = .ok b) : ∃ a, answer = .ok a ∧ next a = .ok b := by
  cases answer with
  | error => cases h
  | ok a => exact ⟨a, rfl, h⟩

theorem length_skipBlanks_le (tokens : List Token) :
    (skipBlanks tokens).length ≤ tokens.length :=
  (List.dropWhile_sublist _).length_le

theorem length_skipBlanksIn_le (inBrackets : Bool) (tokens : List Token) :
    (skipBlanksIn inBrackets tokens).length ≤ tokens.length := by
  unfold skipBlanksIn
  split
  · exact length_skipBlanks_le tokens
  · exact Nat.le_refl _

theorem length_readKind_lt {stop : Token} {kind : Token.Kind} {expected : Expected}
    {tokens : List Token} {token : Token} {rest : List Token}
    (h : readKind stop kind expected tokens = .ok (token, rest)) :
    rest.length < tokens.length := by
  unfold readKind at h
  split at h
  · split at h
    · cases h
      simp
    · cases h
  · cases h

theorem length_readFragments_le (tokens : List Token) :
    (readFragments tokens).2.length ≤ tokens.length := by
  fun_induction readFragments tokens with
  | case1 comma word rest _ fragments rest' heq ih =>
      rw [heq] at ih
      simp only [List.length_cons]
      simp only at ih
      omega
  | case2 => simp
  | case3 => simp

variable {stop : Token} {levels : Nat} {inBrackets : Bool} {tokens rest : List Token} {e : Expr}

/-- An operand takes at least one token, and a chain gives none back. -/
structure UsesUp (stop : Token) (levels : Nat) : Prop where
  operand : ∀ {inBrackets : Bool} {tokens : List Token} {e : Expr} {rest : List Token},
    readOperand stop levels inBrackets tokens = .ok (e, rest) -> rest.length < tokens.length
  chain : ∀ {inBrackets : Bool} {left : Expr} {tokens : List Token} {e : Expr}
    {rest : List Token}, readChain stop levels inBrackets left tokens = .ok (e, rest) ->
      rest.length ≤ tokens.length

theorem UsesUp.brackets (h : UsesUp stop levels) {closing : Token.Kind} {expected : Expected}
    (build : Expr -> Token -> Expr)
    (hread : (do
      let (left, rest) <- readOperand stop levels true (skipBlanks tokens)
      let (inner, rest) <- readChain stop levels true left rest
      let (token, rest) <- readKind stop closing expected (skipBlanks rest)
      return (build inner token, rest) : Except ParseError (Expr × List Token)) = .ok (e, rest)) :
    rest.length < tokens.length := by
  obtain ⟨⟨left, middle⟩, hleft, hread⟩ := ok_of_bind hread
  obtain ⟨⟨inner, after⟩, hinner, hread⟩ := ok_of_bind hread
  obtain ⟨⟨token, behind⟩, hclosing, hread⟩ := ok_of_bind hread
  cases hread
  have h1 := h.operand hleft
  have h2 := h.chain hinner
  have h3 := length_readKind_lt hclosing
  have h4 := length_skipBlanks_le tokens
  have h5 := length_skipBlanks_le after
  omega

theorem length_macroArgument_lt {opening : Token}
    (hread : (do
      let (number, rest) <- readKind stop .decimal .macroArgumentNumber tokens
      let (closing, rest) <- readKind stop .braceRight .closingBrace rest
      return (.macroArgument opening number closing, rest) :
        Except ParseError (Expr × List Token)) = .ok (e, rest)) :
    rest.length < tokens.length := by
  obtain ⟨⟨number, middle⟩, hnumber, hread⟩ := ok_of_bind hread
  obtain ⟨⟨closing, after⟩, hclosing, hread⟩ := ok_of_bind hread
  cases hread
  exact Nat.lt_trans (length_readKind_lt hclosing) (length_readKind_lt hnumber)

theorem UsesUp.operand_succ (h : UsesUp stop levels)
    (hread : readOperand stop (levels + 1) inBrackets tokens = .ok (e, rest)) :
    rest.length < tokens.length := by
  cases tokens with
  | nil => simp [readOperand] at hread
  | cons token tail =>
      refine Nat.lt_succ_of_le ?_
      unfold readOperand at hread
      split at hread
      · exact Nat.le_of_lt (h.brackets (.round token) hread)
      split at hread
      · exact Nat.le_of_lt (h.brackets (.square token) hread)
      split at hread
      · exact Nat.le_of_lt (length_macroArgument_lt hread)
      split at hread
      · obtain ⟨⟨operand, middle⟩, hoperand, hread⟩ := ok_of_bind hread
        cases hread
        exact Nat.le_of_lt (h.operand hoperand)
      split at hread
      · cases hread
        exact Nat.le_refl _
      split at hread
      · split at hread
        · cases hread
          exact length_readFragments_le tail
        · cases hread
          exact Nat.le_refl _
      · cases hread

theorem length_readChain_le (hlower : ∀ fewer, levels = fewer + 1 -> UsesUp stop fewer)
    {left : Expr} (hread : readChain stop levels inBrackets left tokens = .ok (e, rest)) :
    rest.length ≤ tokens.length := by
  have hskip := length_skipBlanksIn_le inBrackets tokens
  unfold readChain at hread
  split at hread
  · cases hread
    simp
  · next operator tail heq =>
    rw [heq] at hskip
    split at hread
    · cases levels with
      | zero => cases hread
      | succ fewer =>
          obtain ⟨⟨right, middle⟩, hright, hread⟩ := ok_of_bind hread
          have h1 := (hlower fewer rfl).operand hright
          have h2 := (hlower fewer rfl).chain hread
          have h3 := length_skipBlanksIn_le inBrackets tail
          simp only [List.length_cons] at hskip
          omega
    · cases hread
      exact hskip

theorem usesUp (stop : Token) (levels : Nat) : UsesUp stop levels := by
  induction levels with
  | zero =>
      refine ⟨?_, length_readChain_le (by simp)⟩
      intro inBrackets tokens e rest hread
      simp [readOperand] at hread
  | succ levels ih =>
      refine ⟨ih.operand_succ, length_readChain_le ?_⟩
      intro fewer hfewer
      cases hfewer
      exact ih

theorem length_readExpr_lt (h : readExpr stop inBrackets tokens levels = .ok (e, rest)) :
    rest.length < tokens.length := by
  obtain ⟨⟨left, middle⟩, hleft, hchain⟩ := ok_of_bind h
  exact Nat.lt_of_le_of_lt ((usesUp stop levels).chain hchain) ((usesUp stop levels).operand hleft)

end Concrete

end Asm6502
