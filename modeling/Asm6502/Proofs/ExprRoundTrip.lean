import Asm6502.Proofs.ExprGrammar

/-!
# Reading expressions back

Every expression of the grammar is read back from its tokens, whatever follows it, as long as enough
levels are left; with fewer levels reading says so.  Together with what holds of the expressions
that are read, reading accepts exactly the grammar.
-/

namespace Asm6502

namespace Concrete

/-! ## Labels and what follows them -/

variable {rest tokens : List Token} {e : Expr} {levels : Nat}

/-- Inside brackets no comma follows, which would join a further name to a label. -/
def NoComma (inBrackets : Bool) (rest : List Token) : Prop :=
  inBrackets = true -> ∀ token ∈ rest.head?, token.kind ≠ .comma

theorem noComma_cons {token : Token} (h : token.kind ≠ .comma) (inBrackets : Bool)
    (rest : List Token) : NoComma inBrackets (token :: rest) := by
  intro _ first hfirst
  cases hfirst
  exact h

theorem readFragments_of_noComma (h : NoComma true rest) : readFragments rest = ([], rest) := by
  match rest with
  | [] => rfl
  | [_] => rfl
  | first :: second :: rest =>
      have hcomma : first.kind ≠ .comma := h rfl first rfl
      simp [readFragments, hcomma]

theorem Expr.Joined.readFragments_append {words : List Token} (h : Joined words tokens)
    (hrest : NoComma true rest) : readFragments (tokens ++ rest) = (words, rest) := by
  induction h with
  | nil => exact readFragments_of_noComma hrest
  | cons hcomma hword _ ih => simp [readFragments, hcomma, hword, ih]

/-- Reading fails because too few levels are left. -/
def TooDeep {α : Type} (answer : Except ParseError α) : Prop :=
  ∃ token, answer = .error (.nestingTooDeep token)

theorem TooDeep.bind {α β : Type} {answer : Except ParseError α} (h : TooDeep answer)
    (next : α -> Except ParseError β) : TooDeep (answer >>= next) := by
  obtain ⟨token, rfl⟩ := h
  exact ⟨token, rfl⟩

def ReadsBack (stop : Token) (levels : Nat) (inBrackets : Bool) (e : Expr)
    (tokens : List Token) : Prop :=
  ∀ rest, NoComma inBrackets rest ->
    (e.levels ≤ levels -> readOperand stop levels inBrackets (tokens ++ rest) = .ok (e, rest)) ∧
    (levels < e.levels -> TooDeep (readOperand stop levels inBrackets (tokens ++ rest)))

/-- A chain is read from its tokens if enough levels are left, and reading goes on behind it. -/
def ReadsOn (stop : Token) (levels : Nat) (inBrackets : Bool) (e : Expr)
    (tokens : List Token) : Prop :=
  ∀ rest, NoComma inBrackets rest ->
    (e.levels ≤ levels -> readFrom stop levels inBrackets (tokens ++ rest) =
      readChain stop (levels - e.operators) inBrackets e rest) ∧
    (levels < e.levels -> TooDeep (readFrom stop levels inBrackets (tokens ++ rest)))

theorem operators_of_not_binary (h : e.isBinary = false) : e.operators = 0 := by
  cases e with
  | binary => cases h
  | _ => rfl

theorem ReadsBack.readsOn {stop : Token} {inBrackets : Bool}
    (h : ReadsBack stop levels inBrackets e tokens) (hbinary : e.isBinary = false) :
    ReadsOn stop levels inBrackets e tokens := by
  intro rest hrest
  obtain ⟨henough, hdeep⟩ := h rest hrest
  refine ⟨?_, fun hlevels => (hdeep hlevels).bind _⟩
  intro hlevels
  rw [readFrom, henough hlevels, operators_of_not_binary hbinary]
  rfl

theorem readChain_of_end {stop : Token} {inBrackets : Bool}
    (h : ∀ token ∈ rest.head?, token.kind.isBinarySign = false ∧
      (inBrackets = true -> token.kind ≠ .whitespace)) :
    readChain stop levels inBrackets e rest = .ok (e, rest) := by
  have hskip : skipBlanksIn inBrackets rest = rest := by
    cases rest with
    | nil => cases inBrackets <;> rfl
    | cons token rest =>
        cases inBrackets with
        | true => exact skipBlanks_cons ((h token rfl).2 rfl) rest
        | false => rfl
  unfold readChain
  simp only [hskip]
  cases rest with
  | nil => rfl
  | cons token rest => simp [(h token rfl).1]

theorem readClosed_append {stop closing : Token} {kind : Token.Kind} (expected : Expected)
    (build : Expr -> Token -> Expr) {inner : Expr} (h : ReadsOn stop levels true inner tokens)
    (hspells : inner.Spells tokens) (hcanonical : inner.Canonical true)
    (hkind : closing.kind = kind) (hcloses : kind = .parenRight ∨ kind = .bracketRight)
    (rest : List Token) :
    (inner.levels ≤ levels -> readClosed stop levels kind expected build
      (tokens ++ closing :: rest) = .ok (build inner closing, rest)) ∧
    (levels < inner.levels -> TooDeep (readClosed stop levels kind expected build
      (tokens ++ closing :: rest))) := by
  obtain ⟨first, others, rfl, hfirst⟩ := hspells.exists_cons hcanonical
  have hblank : closing.kind ≠ .whitespace := by
    rcases hcloses with rfl | rfl <;> simp [hkind]
  have hcomma : closing.kind ≠ .comma := by
    rcases hcloses with rfl | rfl <;> simp [hkind]
  have hsign : closing.kind.isBinarySign = false := by
    rcases hcloses with rfl | rfl <;> simp [hkind, Token.Kind.isBinarySign]
  obtain ⟨henough, hdeep⟩ := h (closing :: rest) (noComma_cons hcomma true rest)
  unfold readClosed
  rw [List.cons_append, skipBlanks_cons hfirst, ← List.cons_append]
  refine ⟨?_, fun hlevels => (hdeep hlevels).bind _⟩
  intro hlevels
  have hend : readChain stop (levels - inner.operators) true inner (closing :: rest) =
      .ok (inner, closing :: rest) := by
    refine readChain_of_end ?_
    rintro token ⟨⟩
    exact ⟨hsign, fun _ => hblank⟩
  rw [henough hlevels, hend]
  simp only [bind, Except.bind]
  rw [skipBlanks_cons hblank, readKind_cons stop expected rest hkind]
  rfl

theorem tooDeep_readOperand_zero (stop : Token) (inBrackets : Bool) (tokens : List Token) :
    TooDeep (readOperand stop 0 inBrackets tokens) :=
  ⟨peek stop tokens, by rw [readOperand]⟩

theorem one_le_levels (e : Expr) : 1 ≤ e.levels := by
  induction e with
  | binary left operator right ihleft ihright =>
      simp only [Expr.levels]
      omega
  | _ => simp [Expr.levels]

theorem readsBack_of_succ {stop : Token} {inBrackets : Bool}
    (h : ∀ levels, ReadsBack stop (levels + 1) inBrackets e tokens) (levels : Nat) :
    ReadsBack stop levels inBrackets e tokens := by
  cases levels with
  | succ levels => exact h levels
  | zero =>
      intro rest _
      have hone := one_le_levels e
      exact ⟨fun hlevels => by omega, fun _ => tooDeep_readOperand_zero stop inBrackets _⟩

namespace Expr

variable {tokens : List Token} {operator : Token}

/-- An expression is read back, alone if it is an operand, and at the front of a chain. -/
structure Complete (stop : Token) (inBrackets : Bool) (e : Expr) (tokens : List Token) :
    Prop where
  operand : e.isBinary = false -> ∀ levels, ReadsBack stop levels inBrackets e tokens
  chain : ∀ levels, ReadsOn stop levels inBrackets e tokens

theorem complete_of_readsBack {stop : Token} {inBrackets : Bool} {e : Expr}
    (hbinary : e.isBinary = false) (h : ∀ levels, ReadsBack stop (levels + 1) inBrackets e tokens) :
    Complete stop inBrackets e tokens where
  operand := fun _ => readsBack_of_succ h
  chain := fun levels => (readsBack_of_succ h levels).readsOn hbinary

variable {stop : Token} {inBrackets : Bool}

theorem complete_atom {token : Token} (h : isAtom token.kind = true) :
    Complete stop inBrackets (atom token) [token] := by
  refine complete_of_readsBack rfl ?_
  intro levels rest _
  have hparen : token.kind ≠ .parenLeft := ne_of_class rfl h
  have hbracket : token.kind ≠ .bracketLeft := ne_of_class rfl h
  have hbrace : token.kind ≠ .braceLeft := ne_of_class rfl h
  have hunary : token.kind.isUnarySign = false := by
    revert h
    cases token.kind <;> decide
  refine ⟨fun _ => ?_, fun hlevels => by simp [Expr.levels] at hlevels⟩
  simp [readOperand_cons, hparen, hbracket, hbrace, hunary, h]

theorem complete_label {first : Token} {others : List Token} (hfirst : first.kind.isWord = true)
    (hjoined : Joined others tokens) (hcanonical : (label (first :: others)).Canonical inBrackets) :
    Complete stop inBrackets (label (first :: others)) (first :: tokens) := by
  refine complete_of_readsBack rfl ?_
  intro levels rest hrest
  have hparen : first.kind ≠ .parenLeft := ne_of_class rfl hfirst
  have hbracket : first.kind ≠ .bracketLeft := ne_of_class rfl hfirst
  have hbrace : first.kind ≠ .braceLeft := ne_of_class rfl hfirst
  have hunary : first.kind.isUnarySign = false := by
    revert hfirst
    cases first.kind <;> decide
  have hatom : isAtom first.kind = false := by
    revert hfirst
    cases first.kind <;> decide
  refine ⟨fun _ => ?_, fun hlevels => by simp [Expr.levels] at hlevels⟩
  cases inBrackets with
  | true =>
      have hfragments := hjoined.readFragments_append hrest
      simp [readOperand_cons, hparen, hbracket, hbrace, hunary, hatom, hfirst, hfragments]
  | false =>
      have hlength : (first :: others).length ≤ 1 := by simpa [Canonical] using hcanonical
      cases hjoined with
      | nil => simp [readOperand_cons, hparen, hbracket, hbrace, hunary, hatom, hfirst]
      | cons => simp at hlength

theorem complete_macroArgument {opening number closing : Token}
    (hopening : opening.kind = .braceLeft) (hnumber : number.kind = .decimal)
    (hclosing : closing.kind = .braceRight) :
    Complete stop inBrackets (macroArgument opening number closing) [opening, number, closing] := by
  refine complete_of_readsBack rfl ?_
  intro levels rest _
  refine ⟨fun _ => ?_, fun hlevels => by simp [Expr.levels] at hlevels⟩
  have hfirst := readKind_cons stop .macroArgumentNumber (closing :: rest) hnumber
  have hsecond := readKind_cons stop .closingBrace rest hclosing
  simp only [List.cons_append, List.nil_append, readOperand_cons, hopening]
  simp [hfirst, hsecond, bind, Except.bind, pure, Except.pure]

theorem complete_unary {operand : Expr} (hsign : operator.kind.isUnarySign = true)
    (hbinary : operand.isBinary = false) (h : Complete stop inBrackets operand tokens) :
    Complete stop inBrackets (unary operator operand) (operator :: tokens) := by
  refine complete_of_readsBack rfl ?_
  intro levels rest hrest
  obtain ⟨henough, hdeep⟩ := h.operand hbinary levels rest hrest
  have hparen : operator.kind ≠ .parenLeft := ne_of_class rfl hsign
  have hbracket : operator.kind ≠ .bracketLeft := ne_of_class rfl hsign
  have hbrace : operator.kind ≠ .braceLeft := ne_of_class rfl hsign
  have hread : readOperand stop (levels + 1) inBrackets (operator :: tokens ++ rest) =
      (readOperand stop levels inBrackets (tokens ++ rest) >>= fun read =>
        .ok (.unary operator read.1, read.2)) := by
    simp only [List.cons_append, readOperand_cons, hparen, hbracket, hbrace, hsign, if_true,
      if_false]
    rfl
  rw [hread]
  simp only [Expr.levels, Nat.add_le_add_iff_right, Nat.add_lt_add_iff_right]
  refine ⟨?_, fun hlevels => (hdeep hlevels).bind _⟩
  intro hlevels
  rw [henough hlevels]
  rfl

theorem complete_closed {opening closing : Token} {kind : Token.Kind} (expected : Expected)
    {build : Expr -> Token -> Expr} {inner : Expr}
    (hread : ∀ levels rest, readOperand stop (levels + 1) inBrackets (opening :: rest) =
      readClosed stop levels kind expected build rest)
    (hbinary : (build inner closing).isBinary = false)
    (hlevels : (build inner closing).levels = inner.levels + 1) (hkind : closing.kind = kind)
    (hcloses : kind = .parenRight ∨ kind = .bracketRight) (hspells : inner.Spells tokens)
    (hcanonical : inner.Canonical true) (h : Complete stop true inner tokens) :
    Complete stop inBrackets (build inner closing) (opening :: tokens ++ [closing]) := by
  refine complete_of_readsBack hbinary ?_
  intro levels rest _
  have hclosed :=
    readClosed_append expected build (h.chain levels) hspells hcanonical hkind hcloses rest
  rw [List.append_assoc, List.cons_append, List.singleton_append, hread, hlevels]
  simpa only [Nat.add_le_add_iff_right, Nat.add_lt_add_iff_right] using hclosed

theorem readChain_operator (left : Expr) {right : Expr} {back rest : List Token}
    (hsign : operator.kind.isBinarySign = true) (hbinary : right.isBinary = false)
    (hspells : right.Spells back) (hcanonical : right.Canonical inBrackets)
    (hright : Complete stop inBrackets right back) (hrest : NoComma inBrackets rest)
    (levels : Nat) :
    (left.operators + 1 + right.levels ≤ levels ->
      readChain stop (levels - left.operators) inBrackets left (operator :: back ++ rest) =
        readChain stop (levels - (binary left operator right).operators) inBrackets
          (binary left operator right) rest) ∧
    (levels < left.operators + 1 + right.levels ->
      TooDeep (readChain stop (levels - left.operators) inBrackets left
        (operator :: back ++ rest))) := by
  obtain ⟨first, others, rfl, hfirst⟩ := hspells.exists_cons hcanonical
  rw [List.cons_append, List.cons_append, readChain_cons _ _ _ _ _ hsign, skipBlanksIn_cons hfirst]
  -- One level goes to each operator of the left side, and one to this operator.
  cases hremaining : levels - left.operators with
  | zero =>
      have hone := one_le_levels right
      exact ⟨fun hfits => by omega, fun _ => ⟨_, rfl⟩⟩
  | succ fewer =>
      obtain ⟨henough, hdeep⟩ := hright.operand hbinary fewer rest hrest
      refine ⟨?_, fun hfits => (hdeep (by omega)).bind _⟩
      intro hfits
      have hread := henough (by omega)
      rw [List.cons_append] at hread
      have hleft : levels - (binary left operator right).operators = fewer := by
        simp only [operators]
        omega
      simp only [hread, hleft, bind, Except.bind]

theorem complete_binary {left right : Expr} {front back : List Token}
    (hsign : operator.kind.isBinarySign = true) (hbinary : right.isBinary = false)
    (hspells : right.Spells back) (hcanonical : right.Canonical inBrackets)
    (hleft : Complete stop inBrackets left front) (hright : Complete stop inBrackets right back) :
    Complete stop inBrackets (binary left operator right) (front ++ operator :: back) := by
  refine ⟨fun h => (by cases h), ?_⟩
  intro levels rest hrest
  have hcomma : operator.kind ≠ .comma := ne_of_class rfl hsign
  obtain ⟨henough, hdeep⟩ := hleft.chain levels (operator :: back ++ rest)
    (noComma_cons hcomma inBrackets _)
  obtain ⟨hjoins, htooDeep⟩ := readChain_operator left hsign hbinary hspells hcanonical hright
    hrest levels
  rw [List.append_assoc]
  simp only [Expr.levels]
  by_cases hlevels : left.levels ≤ levels
  · rw [henough hlevels]
    exact ⟨fun hfits => hjoins (by omega), fun hfits => htooDeep (by omega)⟩
  · exact ⟨fun hfits => by omega, fun _ => hdeep (by omega)⟩

/-- Every expression of the grammar is read back from its tokens. -/
theorem Spells.complete {e : Expr} (h : e.Spells tokens) (hcanonical : e.Canonical inBrackets) :
    Complete stop inBrackets e tokens := by
  induction h generalizing inBrackets with
  | atom h => exact complete_atom h
  | label hfirst hjoined => exact complete_label hfirst hjoined hcanonical
  | macroArgument hopening hnumber hclosing =>
      exact complete_macroArgument hopening hnumber hclosing
  | unary _ ih =>
      obtain ⟨hsign, hbinary, hoperand⟩ := hcanonical
      exact complete_unary hsign hbinary (ih hoperand)
  | binary _ hright ihleft ihright =>
      obtain ⟨hcleft, hsign, hbinary, hcright⟩ := hcanonical
      exact complete_binary hsign hbinary hright hcright (ihleft hcleft) (ihright hcright)
  | round hopening hinner hclosing ih =>
      refine complete_closed .closingParen ?_ rfl rfl hclosing (.inl rfl) hinner hcanonical
        (ih hcanonical)
      intro levels rest
      rw [readOperand_cons, if_pos hopening]
  | square hopening hinner hclosing ih =>
      refine complete_closed .closingBracket ?_ rfl rfl hclosing (.inr rfl) hinner hcanonical
        (ih hcanonical)
      intro levels rest
      rw [readOperand_cons, if_neg (by simp [hopening]), if_pos hopening]

end Expr

/-- Reading an expression outside brackets inverts writing it, up to the limit on levels. -/
theorem readExpr_append (stop : Token) {e : Expr} {tokens rest : List Token}
    (hcanonical : e.Canonical false) (hspells : e.Spells tokens)
    (hrest : ∀ token ∈ rest.head?, token.kind.isBinarySign = false) :
    (e.levels ≤ nestingLimit -> readExpr stop false (tokens ++ rest) = .ok (e, rest)) ∧
    (nestingLimit < e.levels -> TooDeep (readExpr stop false (tokens ++ rest))) := by
  have hcomma : NoComma false rest := fun h => by cases h
  obtain ⟨henough, hdeep⟩ := (hspells.complete hcanonical).chain nestingLimit rest hcomma
  rw [readExpr_eq_readFrom]
  refine ⟨?_, hdeep⟩
  intro hlevels
  rw [henough hlevels]
  refine readChain_of_end ?_
  intro token htoken
  exact ⟨hrest token htoken, fun h => by cases h⟩

/-- Reading accepts exactly the grammar.  What is read is canonical and spelled by the tokens that
were used up, white space apart.  What is canonical is read back from any tokens that spell it, up
to an operator behind it, unless it is nested too deep, which takes more than 256 tokens. -/
theorem readExpr_grammar (stop : Token) :
    (∀ (inBrackets : Bool) (tokens : List Token) (e : Expr) (rest : List Token),
      readExpr stop inBrackets tokens = .ok (e, rest) ->
        e.Canonical inBrackets ∧
          ∃ taken, tokens = taken ++ rest ∧ e.Spells (significant taken)) ∧
    (∀ (e : Expr) (tokens rest : List Token), e.Canonical false -> e.Spells tokens ->
      (∀ token ∈ rest.head?, token.kind.isBinarySign = false) ->
        (readExpr stop false (tokens ++ rest) = .ok (e, rest) ∨
          ∃ token, readExpr stop false (tokens ++ rest) = .error (.nestingTooDeep token)) ∧
        (tokens.length ≤ 256 -> readExpr stop false (tokens ++ rest) = .ok (e, rest))) := by
  refine ⟨?_, ?_⟩
  · intro inBrackets tokens e rest hread
    rw [readExpr_eq_readFrom] at hread
    obtain ⟨_, ⟨taken, htokens, rfl⟩, hspells, hcanonical⟩ := (sound stop nestingLimit).expr hread
    exact ⟨hcanonical, taken, htokens, hspells⟩
  · intro e tokens rest hcanonical hspells hrest
    obtain ⟨henough, hdeep⟩ := readExpr_append stop hcanonical hspells hrest
    refine ⟨?_, ?_⟩
    · by_cases hlevels : e.levels ≤ nestingLimit
      · exact .inl (henough hlevels)
      · exact .inr (hdeep (by omega))
    · intro hlength
      have hlevels := hspells.levels_le_length
      exact henough (Nat.le_trans hlevels hlength)

/-- A token of a kind whose place does not matter. -/
def unplaced (kind : Token.Kind) (literal : String) : Token := ⟨kind, literal, .origin⟩

/-- The expression `-[n,x]+1`: a label of two names under brackets, on the left of a chain. -/
def negatedEntry : Expr :=
  .binary
    (.unary (unplaced .minus "-")
      (.square (unplaced .bracketLeft "[")
        (.label [unplaced .identifier "n", unplaced .identifier "x"])
        (unplaced .bracketRight "]")))
    (unplaced .plus "+") (.atom (unplaced .decimal "1"))

def negatedEntryTokens : List Token :=
  [unplaced .minus "-", unplaced .bracketLeft "[", unplaced .identifier "n", unplaced .comma ",",
    unplaced .identifier "x", unplaced .bracketRight "]", unplaced .plus "+",
    unplaced .decimal "1"]

theorem negatedEntry_canonical : negatedEntry.Canonical false :=
  ⟨⟨rfl, rfl, .inl rfl⟩, rfl, rfl, trivial⟩

theorem negatedEntry_spells : negatedEntry.Spells negatedEntryTokens := by
  have hlabel : (Expr.label [unplaced .identifier "n", unplaced .identifier "x"]).Spells
      [unplaced .identifier "n", unplaced .comma ",", unplaced .identifier "x"] :=
    .label rfl (.cons rfl rfl .nil)
  exact .binary (.unary (.square rfl hlabel rfl)) (.atom rfl)

/-- In front of a comma, which ends an argument, the expression is read back as it was. -/
theorem readExpr_negatedEntry :
    readExpr (unplaced .eof "") false (negatedEntryTokens ++ [unplaced .comma ","]) =
        .ok (negatedEntry, [unplaced .comma ","]) ∧
      negatedEntry.Canonical false ∧
      ∃ taken, negatedEntryTokens ++ [unplaced .comma ","] = taken ++ [unplaced .comma ","] ∧
        negatedEntry.Spells (significant taken) := by
  obtain ⟨hsound, hcomplete⟩ := readExpr_grammar (unplaced .eof "")
  have hrest : ∀ token ∈ [unplaced .comma ","].head?, token.kind.isBinarySign = false := by
    rintro token ⟨⟩
    rfl
  have hread := (hcomplete negatedEntry negatedEntryTokens _ negatedEntry_canonical
    negatedEntry_spells hrest).2 (by decide)
  exact ⟨hread, hsound _ _ _ _ hread⟩

end Concrete

end Asm6502
