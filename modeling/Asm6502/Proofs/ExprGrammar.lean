import Asm6502.Concrete.Expr

/-!
# The grammar of expressions

An expression is spelled by the tokens of its parts in order.  Reading accepts exactly the
expressions of one shape, in which chains of operators lean to the left: whatever is read has this
shape and is spelled by the tokens that were used up, and whatever has it is read back from its
tokens as long as enough levels are left.  Each of its tokens takes at most one level.
-/

namespace Asm6502

namespace Concrete

variable {token : Token}

theorem ne_of_class {isIn : Token.Kind -> Bool} {kind other : Token.Kind}
    (hother : isIn other = false) (h : isIn kind = true) : kind ≠ other := by
  rintro rfl
  rw [h] at hother
  cases hother

/-! ## Tokens that are used up -/

/-- Tokens without white space. -/
def significant (tokens : List Token) : List Token :=
  tokens.filter fun token => token.kind != .whitespace

@[simp] theorem significant_append (front back : List Token) :
    significant (front ++ back) = significant front ++ significant back :=
  List.filter_append ..

theorem significant_cons (h : token.kind ≠ .whitespace) (tokens : List Token) :
    significant (token :: tokens) = token :: significant tokens := by
  simp [significant, h]

/-- Tokens from which a reader took some, white space not counted, and left the rest. -/
def Takes (tokens taken rest : List Token) : Prop :=
  ∃ front, tokens = front ++ rest ∧ significant front = taken

theorem Takes.refl (tokens : List Token) : Takes tokens [] tokens :=
  ⟨[], rfl, rfl⟩

theorem Takes.trans {a b c taken more : List Token} (h₁ : Takes a taken b)
    (h₂ : Takes b more c) : Takes a (taken ++ more) c := by
  obtain ⟨front, rfl, rfl⟩ := h₁
  obtain ⟨next, rfl, rfl⟩ := h₂
  exact ⟨front ++ next, by simp, by simp⟩

theorem takes_cons (token : Token) (rest : List Token) (h : token.kind ≠ .whitespace) :
    Takes (token :: rest) [token] rest :=
  ⟨[token], rfl, significant_cons h []⟩

theorem takes_skipBlanks (tokens : List Token) : Takes tokens [] (skipBlanks tokens) := by
  refine ⟨tokens.takeWhile fun token => token.kind == .whitespace,
    List.takeWhile_append_dropWhile.symm, ?_⟩
  unfold significant
  rw [List.filter_eq_nil_iff]
  intro token htoken
  have hblank := List.all_eq_true.1 List.all_takeWhile token htoken
  simpa using hblank

theorem takes_skipBlanksIn (inBrackets : Bool) (tokens : List Token) :
    Takes tokens [] (skipBlanksIn inBrackets tokens) := by
  cases inBrackets with
  | true => exact takes_skipBlanks tokens
  | false => exact .refl tokens

theorem skipBlanks_cons (h : token.kind ≠ .whitespace) (rest : List Token) :
    skipBlanks (token :: rest) = token :: rest := by
  simp [skipBlanks, h]

theorem skipBlanks_blank (h : token.kind = .whitespace) (rest : List Token) :
    skipBlanks (token :: rest) = skipBlanks rest := by
  simp [skipBlanks, h]

theorem skipBlanks_append {blanks : List Token}
    (h : ∀ token ∈ blanks, token.kind = .whitespace) (rest : List Token) :
    skipBlanks (blanks ++ rest) = skipBlanks rest := by
  refine List.dropWhile_append_of_pos ?_
  intro token htoken
  simp [h token htoken]

theorem skipBlanksIn_cons (h : token.kind ≠ .whitespace) (inBrackets : Bool) (rest : List Token) :
    skipBlanksIn inBrackets (token :: rest) = token :: rest := by
  cases inBrackets with
  | true => exact skipBlanks_cons h rest
  | false => rfl

/-! ## Spelling -/

namespace Expr

variable {e : Expr} {tokens : List Token}

/-- Names and the tokens by which commas join them to a name before. -/
inductive Joined : List Token -> List Token -> Prop where
  | nil : Joined [] []
  | cons {comma word : Token} {words tokens : List Token} (hcomma : comma.kind = .comma)
      (hword : word.kind.isWord = true) (h : Joined words tokens) :
      Joined (word :: words) (comma :: word :: tokens)

/-- An expression and its tokens in order.  The commas between the fragments of a label are not
kept in the expression, so any will do. -/
inductive Spells : Expr -> List Token -> Prop where
  | atom {token : Token} (h : isAtom token.kind = true) : Spells (atom token) [token]
  | label {first : Token} {others tokens : List Token} (hfirst : first.kind.isWord = true)
      (h : Joined others tokens) : Spells (label (first :: others)) (first :: tokens)
  | macroArgument {opening number closing : Token} (hopening : opening.kind = .braceLeft)
      (hnumber : number.kind = .decimal) (hclosing : closing.kind = .braceRight) :
      Spells (macroArgument opening number closing) [opening, number, closing]
  | unary {operator : Token} {operand : Expr} {tokens : List Token} (h : Spells operand tokens) :
      Spells (unary operator operand) (operator :: tokens)
  | binary {left right : Expr} {operator : Token} {front back : List Token}
      (hleft : Spells left front) (hright : Spells right back) :
      Spells (binary left operator right) (front ++ operator :: back)
  | round {opening closing : Token} {inner : Expr} {tokens : List Token}
      (hopening : opening.kind = .parenLeft) (h : Spells inner tokens)
      (hclosing : closing.kind = .parenRight) :
      Spells (round opening inner closing) (opening :: tokens ++ [closing])
  | square {opening closing : Token} {inner : Expr} {tokens : List Token}
      (hopening : opening.kind = .bracketLeft) (h : Spells inner tokens)
      (hclosing : closing.kind = .bracketRight) :
      Spells (square opening inner closing) (opening :: tokens ++ [closing])

def isBinary : Expr -> Bool
  | .binary .. => true
  | _ => false

/-- The shape in which operators lean to the left.  Several names make a label only inside
brackets. -/
def Canonical (inBrackets : Bool) : Expr -> Prop
  | .atom _ => True
  | .label fragments => inBrackets = true ∨ fragments.length ≤ 1
  | .macroArgument .. => True
  | .unary operator operand =>
      operator.kind.isUnarySign = true ∧ operand.isBinary = false ∧ operand.Canonical inBrackets
  | .binary left operator right =>
      left.Canonical inBrackets ∧ operator.kind.isBinarySign = true ∧
        right.isBinary = false ∧ right.Canonical inBrackets
  | .round _ inner _ => inner.Canonical true
  | .square _ inner _ => inner.Canonical true

/-- The number of operators in the chain that an expression is. -/
def operators : Expr -> Nat
  | .binary left _ _ => left.operators + 1
  | _ => 0

/-- The number of levels that reading an expression needs. -/
def levels : Expr -> Nat
  | .unary _ operand => operand.levels + 1
  | .binary left _ right => max left.levels (left.operators + 1 + right.levels)
  | .round _ inner _ => inner.levels + 1
  | .square _ inner _ => inner.levels + 1
  | _ => 1

theorem Spells.exists_cons {inBrackets : Bool} (h : e.Spells tokens)
    (hcanonical : e.Canonical inBrackets) :
    ∃ first rest, tokens = first :: rest ∧ first.kind ≠ .whitespace := by
  induction h with
  | atom h => exact ⟨_, _, rfl, ne_of_class rfl h⟩
  | label hfirst _ => exact ⟨_, _, rfl, ne_of_class rfl hfirst⟩
  | macroArgument hopening _ _ => exact ⟨_, _, rfl, by simp [hopening]⟩
  | unary _ _ => exact ⟨_, _, rfl, ne_of_class rfl hcanonical.1⟩
  | binary _ _ ihleft _ =>
      obtain ⟨first, rest, rfl, hfirst⟩ := ihleft hcanonical.1
      exact ⟨first, _, rfl, hfirst⟩
  | round hopening _ _ _ => exact ⟨_, _, rfl, by simp [hopening]⟩
  | square hopening _ _ _ => exact ⟨_, _, rfl, by simp [hopening]⟩

theorem Spells.operators_lt_length (h : e.Spells tokens) : e.operators < tokens.length := by
  induction h with
  | binary _ _ ihleft _ =>
      simp only [operators, List.length_append, List.length_cons]
      omega
  | _ => simp [operators]

theorem Spells.levels_le_length (h : e.Spells tokens) : e.levels ≤ tokens.length := by
  induction h with
  | atom => simp [levels]
  | label => simp [levels]
  | macroArgument => simp [levels]
  | unary _ ih =>
      simp only [levels, List.length_cons]
      omega
  | binary hleft _ ihleft ihright =>
      have hoperators := hleft.operators_lt_length
      simp only [levels, List.length_append, List.length_cons]
      omega
  | round _ _ _ ih =>
      simp only [levels, List.length_append, List.length_cons]
      omega
  | square _ _ _ ih =>
      simp only [levels, List.length_append, List.length_cons]
      omega

end Expr

/-! ## Steps of reading -/

/-- Reads an operand and the chain that it starts. -/
def readFrom (stop : Token) (levels : Nat) (inBrackets : Bool) (tokens : List Token) :
    Except ParseError (Expr × List Token) := do
  let (left, rest) <- readOperand stop levels inBrackets tokens
  readChain stop levels inBrackets left rest

def readClosed (stop : Token) (levels : Nat) (closing : Token.Kind) (expected : Expected)
    (build : Expr -> Token -> Expr) (tokens : List Token) :
    Except ParseError (Expr × List Token) := do
  let (inner, rest) <- readFrom stop levels true (skipBlanks tokens)
  let (token, rest) <- readKind stop closing expected (skipBlanks rest)
  return (build inner token, rest)

theorem readExpr_eq_readFrom (stop : Token) (inBrackets : Bool) (tokens : List Token)
    (levels : Nat) :
    readExpr stop inBrackets tokens levels = readFrom stop levels inBrackets tokens :=
  rfl

theorem readOperand_cons (stop : Token) (levels : Nat) (inBrackets : Bool) (token : Token)
    (rest : List Token) :
    readOperand stop (levels + 1) inBrackets (token :: rest) =
      if token.kind = .parenLeft then
        readClosed stop levels .parenRight .closingParen (.round token) rest
      else if token.kind = .bracketLeft then
        readClosed stop levels .bracketRight .closingBracket (.square token) rest
      else if token.kind = .braceLeft then do
        let (number, rest) <- readKind stop .decimal .macroArgumentNumber rest
        let (closing, rest) <- readKind stop .braceRight .closingBrace rest
        return (.macroArgument token number closing, rest)
      else if token.kind.isUnarySign then do
        let (operand, rest) <- readOperand stop levels inBrackets rest
        return (.unary token operand, rest)
      else if isAtom token.kind then .ok (.atom token, rest)
      else if token.kind.isWord then
        let (fragments, rest) := if inBrackets then readFragments rest else ([], rest)
        .ok (.label (token :: fragments), rest)
      else .error (unexpected stop (token :: rest) .expression) := by
  rw [readOperand]
  simp only [readClosed, readFrom, bind_assoc]
  cases inBrackets <;> rfl

theorem readChain_cons {operator : Token} (stop : Token) (levels : Nat) (inBrackets : Bool)
    (left : Expr) (rest : List Token) (h : operator.kind.isBinarySign = true) :
    readChain stop levels inBrackets left (operator :: rest) =
      (match levels with
      | 0 => .error (.nestingTooDeep (peek stop (skipBlanksIn inBrackets rest)))
      | levels + 1 => do
          let (right, rest) <- readOperand stop levels inBrackets (skipBlanksIn inBrackets rest)
          readChain stop levels inBrackets (.binary left operator right) rest) := by
  have hskip := skipBlanksIn_cons (ne_of_class rfl h) inBrackets rest
  have hunfold := readChain.eq_1 stop levels inBrackets left (operator :: rest)
  simp only [hskip, h, if_true] at hunfold
  exact hunfold.trans (by cases levels <;> rfl)

theorem readKind_eq_ok {stop token : Token} {kind : Token.Kind} {expected : Expected}
    {tokens rest : List Token} (h : readKind stop kind expected tokens = .ok (token, rest)) :
    tokens = token :: rest ∧ token.kind = kind := by
  unfold readKind at h
  split at h
  · split at h
    next hkind =>
      cases h
      exact ⟨rfl, hkind⟩
    next => cases h
  · cases h

theorem readKind_cons {token : Token} {kind : Token.Kind} (stop : Token) (expected : Expected)
    (rest : List Token) (h : token.kind = kind) :
    readKind stop kind expected (token :: rest) = .ok (token, rest) := by
  simp [readKind, h]

/-! ## What is read is in the grammar -/

theorem Expr.Joined.significant_eq {words tokens : List Token} (h : Joined words tokens) :
    significant tokens = tokens := by
  induction h with
  | nil => rfl
  | cons hcomma hword _ ih =>
      rw [significant_cons (by simp [hcomma]), significant_cons (ne_of_class rfl hword), ih]

theorem readFragments_joined (tokens : List Token) :
    ∃ taken, tokens = taken ++ (readFragments tokens).2 ∧
      Expr.Joined (readFragments tokens).1 taken := by
  fun_induction readFragments tokens with
  | case1 comma word rest hjoins fragments after heq ih =>
      rw [heq] at ih
      obtain ⟨taken, hrest, hjoined⟩ := ih
      refine ⟨comma :: word :: taken, ?_, .cons hjoins.1 hjoins.2 hjoined⟩
      rw [List.cons_append, List.cons_append, ← hrest]
  | case2 => exact ⟨[], rfl, .nil⟩
  | case3 => exact ⟨[], rfl, .nil⟩

def Reads (inBrackets : Bool) (tokens : List Token) (e : Expr) (rest : List Token) : Prop :=
  ∃ taken, Takes tokens taken rest ∧ e.Spells taken ∧ e.Canonical inBrackets

/-- A chain that was read on from an expression. -/
def Continues (inBrackets : Bool) (left : Expr) (tokens : List Token) (e : Expr)
    (rest : List Token) : Prop :=
  ∀ front, left.Spells front -> left.Canonical inBrackets ->
    ∃ taken, Takes tokens taken rest ∧ e.Spells (front ++ taken) ∧ e.Canonical inBrackets

structure Sound (stop : Token) (levels : Nat) : Prop where
  operand : ∀ {inBrackets : Bool} {tokens : List Token} {e : Expr} {rest : List Token},
    readOperand stop levels inBrackets tokens = .ok (e, rest) ->
      Reads inBrackets tokens e rest ∧ e.isBinary = false
  chain : ∀ {inBrackets : Bool} {left : Expr} {tokens : List Token} {e : Expr}
    {rest : List Token}, readChain stop levels inBrackets left tokens = .ok (e, rest) ->
      Continues inBrackets left tokens e rest

namespace Sound

variable {stop : Token} {levels : Nat}

variable {tokens rest : List Token} {e : Expr}

theorem expr (h : Sound stop levels) {inBrackets : Bool}
    (hread : readFrom stop levels inBrackets tokens = .ok (e, rest)) :
    Reads inBrackets tokens e rest := by
  obtain ⟨⟨left, middle⟩, hleft, hchain⟩ := ok_of_bind hread
  obtain ⟨⟨front, htakes, hspells, hcanonical⟩, -⟩ := h.operand hleft
  obtain ⟨taken, htakes', hspells', hcanonical'⟩ := h.chain hchain front hspells hcanonical
  exact ⟨front ++ taken, htakes.trans htakes', hspells', hcanonical'⟩

theorem closed (h : Sound stop levels) {closing : Token.Kind} {expected : Expected}
    {build : Expr -> Token -> Expr} (hclosing : closing ≠ .whitespace)
    (hread : readClosed stop levels closing expected build tokens = .ok (e, rest)) :
    ∃ inner token taken, e = build inner token ∧ token.kind = closing ∧ inner.Spells taken ∧
      inner.Canonical true ∧ Takes tokens (taken ++ [token]) rest := by
  obtain ⟨⟨inner, middle⟩, hinner, hread⟩ := ok_of_bind hread
  obtain ⟨⟨token, after⟩, hkind, hread⟩ := ok_of_bind hread
  cases hread
  obtain ⟨taken, htakes, hspells, hcanonical⟩ := h.expr hinner
  obtain ⟨hmiddle, htoken⟩ := readKind_eq_ok hkind
  have hclose : Takes middle [token] rest := by
    have hskip := takes_skipBlanks middle
    rw [hmiddle] at hskip
    exact hskip.trans (takes_cons token rest (htoken ▸ hclosing))
  exact ⟨inner, token, taken, rfl, htoken, hspells, hcanonical,
    (takes_skipBlanks tokens).trans (htakes.trans hclose)⟩

theorem operand_succ (h : Sound stop levels) {inBrackets : Bool}
    (hread : readOperand stop (levels + 1) inBrackets tokens = .ok (e, rest)) :
    Reads inBrackets tokens e rest ∧ e.isBinary = false := by
  cases tokens with
  | nil => simp [readOperand] at hread
  | cons token tail =>
      rw [readOperand_cons] at hread
      split at hread
      next hparen =>
        obtain ⟨inner, closing, taken, rfl, hclosing, hspells, hcanonical, htakes⟩ :=
          h.closed (by decide) hread
        have hfirst := takes_cons token tail (by simp [hparen])
        exact ⟨⟨_, hfirst.trans htakes, .round hparen hspells hclosing, hcanonical⟩, rfl⟩
      split at hread
      next hbracket =>
        obtain ⟨inner, closing, taken, rfl, hclosing, hspells, hcanonical, htakes⟩ :=
          h.closed (by decide) hread
        have hfirst := takes_cons token tail (by simp [hbracket])
        exact ⟨⟨_, hfirst.trans htakes, .square hbracket hspells hclosing, hcanonical⟩, rfl⟩
      split at hread
      next hbrace =>
        obtain ⟨⟨number, middle⟩, hnumber, hread⟩ := ok_of_bind hread
        obtain ⟨⟨closing, after⟩, hend, hread⟩ := ok_of_bind hread
        cases hread
        obtain ⟨rfl, hdecimal⟩ := readKind_eq_ok hnumber
        obtain ⟨rfl, hclosing⟩ := readKind_eq_ok hend
        have hfirst := takes_cons token (number :: closing :: rest) (by simp [hbrace])
        have hsecond := takes_cons number (closing :: rest) (by simp [hdecimal])
        have hthird := takes_cons closing rest (by simp [hclosing])
        exact ⟨⟨_, hfirst.trans (hsecond.trans hthird), .macroArgument hbrace hdecimal hclosing,
          trivial⟩, rfl⟩
      split at hread
      next hunary =>
        obtain ⟨⟨operand, middle⟩, hoperand, hread⟩ := ok_of_bind hread
        cases hread
        obtain ⟨⟨taken, htakes, hspells, hcanonical⟩, hbinary⟩ := h.operand hoperand
        have hfirst := takes_cons token tail (ne_of_class rfl hunary)
        exact ⟨⟨_, hfirst.trans htakes, .unary hspells, hunary, hbinary, hcanonical⟩, rfl⟩
      split at hread
      next hatom =>
        cases hread
        exact ⟨⟨_, takes_cons token rest (ne_of_class rfl hatom), .atom hatom, trivial⟩, rfl⟩
      split at hread
      next hword =>
        have hfirst := takes_cons token tail (ne_of_class rfl hword)
        cases inBrackets with
        | true =>
            cases hread
            obtain ⟨taken, htail, hjoined⟩ := readFragments_joined tail
            have hmore : Takes tail taken (readFragments tail).2 :=
              ⟨taken, htail, hjoined.significant_eq⟩
            exact ⟨⟨_, hfirst.trans hmore, .label hword hjoined, .inl rfl⟩, rfl⟩
        | false =>
            cases hread
            exact ⟨⟨_, hfirst, .label hword .nil, .inr (Nat.le_refl 1)⟩, rfl⟩
      next => cases hread

end Sound

/-- A chain that is read with some levels left is in the grammar if what is read with one level less
is. -/
theorem readChain_continues {stop : Token} {levels : Nat}
    (hlower : ∀ fewer, levels = fewer + 1 -> Sound stop fewer) {inBrackets : Bool} {left : Expr}
    {tokens : List Token} {e : Expr} {rest : List Token}
    (hread : readChain stop levels inBrackets left tokens = .ok (e, rest)) :
    Continues inBrackets left tokens e rest := by
  intro front hspells hcanonical
  have hskip := takes_skipBlanksIn inBrackets tokens
  unfold readChain at hread
  split at hread
  next hend =>
    cases hread
    rw [hend] at hskip
    exact ⟨[], hskip, by simpa using hspells, hcanonical⟩
  next operator tail hnext =>
    rw [hnext] at hskip
    split at hread
    next hsign =>
      cases levels with
      | zero => cases hread
      | succ fewer =>
          -- The operand joins what stands to the left, and the chain goes on from there.
          have hsound := hlower fewer rfl
          obtain ⟨⟨right, middle⟩, hright, hread⟩ := ok_of_bind hread
          obtain ⟨⟨back, htakes, hback, hcanonical'⟩, hbinary⟩ := hsound.operand hright
          have hjoined : (Expr.binary left operator right).Spells (front ++ operator :: back) :=
            .binary hspells hback
          obtain ⟨taken, htakes', hspells', hresult⟩ :=
            hsound.chain hread _ hjoined ⟨hcanonical, hsign, hbinary, hcanonical'⟩
          have hoperator := takes_cons operator tail (ne_of_class rfl hsign)
          have hblanks := takes_skipBlanksIn inBrackets tail
          refine ⟨operator :: back ++ taken, ?_, ?_, hresult⟩
          · exact hskip.trans (hoperator.trans (hblanks.trans (htakes.trans htakes')))
          · simpa using hspells'
    next =>
      cases hread
      exact ⟨[], hskip, by simpa using hspells, hcanonical⟩

theorem sound (stop : Token) (levels : Nat) : Sound stop levels := by
  induction levels with
  | zero =>
      refine ⟨?_, readChain_continues (by simp)⟩
      intro inBrackets tokens e rest hread
      simp [readOperand] at hread
  | succ levels ih =>
      refine ⟨ih.operand_succ, readChain_continues ?_⟩
      intro fewer hfewer
      cases hfewer
      exact ih

end Concrete

end Asm6502
