import Asm6502.Proofs.RowParts

/-!
# Heights of expressions

The reader counts levels on its way down: a bracket, an operator in front of an operand and each
operator of a chain takes one.  The tree that it builds can be higher than the levels that it
counted, because every operator of a chain puts what was read before it one level deeper, and
because parentheses at the front of an address take no level.  So the limit on levels bounds the
height of every expression, but not by the limit itself.
-/

namespace Asm6502

/-! ## Heights -/

/-- The height of an expression.  One without parts has height one. -/
def Expr.height : Expr -> Nat
  | .unary _ operand _ => operand.height + 1
  | .binary _ left right _ => max left.height right.height + 1
  | .brackets _ inner _ => inner.height + 1
  | _ => 1

namespace Concrete

namespace Expr

variable {e : Expr}

/-- The height of an expression.  One of single tokens has height one. -/
def height : Expr -> Nat
  | .unary _ operand => operand.height + 1
  | .binary left _ right => max left.height right.height + 1
  | .round _ inner _ => inner.height + 1
  | .square _ inner _ => inner.height + 1
  | _ => 1

theorem one_le_height (e : Expr) : 1 ≤ e.height := by
  cases e <;> simp [height]

theorem operators_lt_height (e : Expr) : e.operators < e.height := by
  induction e with
  | binary left operator right ihleft _ =>
      simp only [operators, height]
      omega
  | _ => simp [operators, height]

theorem height_ofAtom (uri : Uri) (token : Token) : (ofAtom uri token).height = 1 := by
  unfold ofAtom
  split
  · rfl
  · split
    · rfl
    · split <;> rfl

/-- The value that an expression writes is no higher than the expression. -/
theorem height_lower_le (uri : Uri) (e : Expr) : (e.lower uri).height ≤ e.height := by
  fun_induction Expr.lower uri e with
  | case1 token => simp [height_ofAtom, height]
  | case2 => simp [Asm6502.Expr.height, height]
  | case3 => simp [Asm6502.Expr.height, height]
  | case4 => simp [Asm6502.Expr.height, height]
  | case5 operator operand op hop ih =>
      simp only [Asm6502.Expr.height, height]
      omega
  | case6 operator operand hop ih =>
      simp only [height]
      omega
  | case7 left operator right op hop ihleft ihright =>
      simp only [Asm6502.Expr.height, height]
      omega
  | case8 left operator right hop ihleft =>
      simp only [height]
      omega
  | case9 opening inner closing ih =>
      simp only [Asm6502.Expr.height, height]
      omega
  | case10 opening inner closing ih =>
      simp only [Asm6502.Expr.height, height]
      omega

/-! ## Heights against levels -/

/-- The greatest height that some levels allow: one more operator can be put on top of the highest
expression for each level less. -/
def tallest : Nat -> Nat
  | 0 => 0
  | levels + 1 => tallest levels + (levels + 1)

theorem tallest_mono {a b : Nat} (h : a ≤ b) : tallest a ≤ tallest b := by
  induction h with
  | refl => exact Nat.le_refl _
  | step _ ih => exact Nat.le_trans ih (Nat.le_add_right _ _)

theorem two_mul_tallest (levels : Nat) : 2 * tallest levels = levels * (levels + 1) := by
  induction levels with
  | zero => rfl
  | succ levels ih =>
      simp only [tallest, Nat.mul_add, Nat.add_mul, ih]
      omega

theorem tallest_nestingLimit : tallest nestingLimit = 32896 := by
  have hdouble := two_mul_tallest nestingLimit
  simp only [nestingLimit] at hdouble ⊢
  omega

theorem operators_lt_levels (e : Expr) : e.operators < e.levels := by
  cases e with
  | binary left operator right =>
      have hone := one_le_levels right
      simp only [operators, levels]
      omega
  | _ => simp [operators, levels]

theorem height_le_tallest_of_operators (h : e.height ≤ tallest (e.levels - 1) + 1 + e.operators) :
    e.height ≤ tallest e.levels := by
  have hoperators := operators_lt_levels e
  obtain ⟨fewer, hlevels⟩ : ∃ fewer, e.levels = fewer + 1 := ⟨e.levels - 1, by omega⟩
  rw [hlevels, Nat.add_sub_cancel] at h
  rw [hlevels] at hoperators
  rw [hlevels, tallest]
  omega

/-- A chain is as high as its operators are many, above the highest of its operands. -/
theorem height_le_operators (e : Expr) : e.height ≤ tallest (e.levels - 1) + 1 + e.operators := by
  induction e with
  | atom | label | macroArgument =>
      simp only [height]
      omega
  | unary operator inner ih | round opening inner closing ih | square opening inner closing ih =>
      have hheight := height_le_tallest_of_operators ih
      simp only [height, levels, operators, Nat.add_sub_cancel]
      omega
  | binary left operator right ihleft ihright =>
      have hright := height_le_tallest_of_operators ihright
      simp only [height, levels, operators]
      have hleftLevels : tallest (left.levels - 1) ≤
          tallest (max left.levels (left.operators + 1 + right.levels) - 1) :=
        tallest_mono (by omega)
      have hrightLevels : tallest right.levels ≤
          tallest (max left.levels (left.operators + 1 + right.levels) - 1) :=
        tallest_mono (by omega)
      omega

theorem height_le_tallest (e : Expr) : e.height ≤ tallest e.levels :=
  height_le_tallest_of_operators (height_le_operators e)

/-- In every chain only the last operand is more than a single token, brackets and operators in
front of it included. -/
def deepLast : Expr -> Bool
  | .unary _ operand => operand.deepLast
  | .binary left _ right => left.height = left.operators + 1 && right.deepLast
  | .round _ inner _ => inner.deepLast
  | .square _ inner _ => inner.deepLast
  | _ => true

/-- Where only the last operand of a chain is deep, the levels that are counted are enough for the
height. -/
theorem height_le_levels (h : e.deepLast = true) : e.height ≤ e.levels := by
  induction e with
  | atom | label | macroArgument => simp [height, levels]
  | unary operator inner ih | round opening inner closing ih | square opening inner closing ih =>
      have hheight := ih h
      simp only [height, levels]
      omega
  | binary left operator right ihleft ihright =>
      simp only [deepLast, Bool.and_eq_true, decide_eq_true_eq] at h
      have hright := ihright h.2
      have hone := one_le_levels right
      simp only [height, levels]
      omega

/-! ## Addresses -/

/-- The number of levels that reading an expression as an address needs: parentheses at its front
take none. -/
def addressLevels : Expr -> Nat
  | .round _ inner _ => inner.levels
  | .binary left _ right => max left.addressLevels (left.operators + 1 + right.levels)
  | e => e.levels

theorem addressLevels_le_levels (e : Expr) : e.addressLevels ≤ e.levels := by
  induction e with
  | binary left operator right ihleft _ =>
      simp only [addressLevels, levels]
      omega
  | round opening inner closing _ => simp [addressLevels, levels]
  | _ => simp [addressLevels]

theorem operators_lt_addressLevels (e : Expr) : e.operators < e.addressLevels := by
  cases e with
  | binary left operator right =>
      have hone := one_le_levels right
      simp only [operators, addressLevels]
      omega
  | round opening inner closing => exact one_le_levels inner
  | _ => exact operators_lt_levels _

theorem height_le_addressLevels (e : Expr) :
    e.height ≤ tallest e.addressLevels + 1 + e.operators := by
  induction e with
  | round opening inner closing _ =>
      have hinner := height_le_tallest inner
      simp only [height, addressLevels, operators]
      omega
  | binary left operator right ihleft _ =>
      have hright := height_le_tallest right
      simp only [height, addressLevels, operators]
      have hleftLevels : tallest left.addressLevels ≤
          tallest (max left.addressLevels (left.operators + 1 + right.levels)) :=
        tallest_mono (by omega)
      have hrightLevels : tallest right.levels ≤
          tallest (max left.addressLevels (left.operators + 1 + right.levels)) :=
        tallest_mono (by omega)
      omega
  | atom | label | macroArgument | unary | square =>
      refine Nat.le_trans (height_le_tallest _) ?_
      simp only [addressLevels]
      omega

/-- Only parentheses at the front of a chain make a difference. -/
theorem addressLevels_eq_levels (h : e.height = e.operators + 1) : e.addressLevels = e.levels := by
  induction e with
  | round opening inner closing _ =>
      have hone := one_le_height inner
      simp only [height, operators] at h
      omega
  | binary left operator right ihleft _ =>
      have hleft : left.operators + 1 ≤ left.height := operators_lt_height left
      simp only [height, operators] at h
      simp only [addressLevels, levels, ihleft (by omega)]
  | _ => rfl

/-- Is an expression as a whole in parentheses? -/
def inParens : Expr -> Bool
  | .round .. => true
  | _ => false

theorem height_le_addressLevels_of_deepLast (h : e.deepLast = true) (hparens : e.inParens = false) :
    e.height ≤ e.addressLevels := by
  have hheight := height_le_levels h
  cases e with
  | round => cases hparens
  | binary left operator right =>
      simp only [deepLast, Bool.and_eq_true, decide_eq_true_eq] at h
      rwa [addressLevels, addressLevels_eq_levels h.1, ← levels]
  | _ => exact hheight

theorem height_le_of_addressLevels (h : e.addressLevels ≤ nestingLimit) : e.height ≤ 33152 := by
  have hlimit := tallest_nestingLimit
  have hheight := height_le_addressLevels e
  have hoperators := operators_lt_addressLevels e
  have htallest := tallest_mono h
  simp only [nestingLimit] at h
  omega

end Expr

/-! ## What is read keeps to the levels -/

/-- Reading gives an answer if some levels are left, and with fewer levels says that they are too
few. -/
def Needs {α : Type} (needed : Nat) (read : Nat -> Except ParseError α) (answer : α) : Prop :=
  ∀ levels, (needed ≤ levels -> read levels = .ok answer) ∧
    (levels < needed -> TooDeep (read levels))

namespace Needs

variable {α β : Type} {needed : Nat} {read : Nat -> Except ParseError α} {answer : α}

theorem le (h : Needs needed read answer) {levels : Nat} {other : α}
    (hread : read levels = .ok other) : needed ≤ levels := by
  apply Nat.le_of_not_lt
  intro hfew
  obtain ⟨token, herror⟩ := (h levels).2 hfew
  rw [hread] at herror
  cases herror

theorem const {read : Except ParseError α} (h : read = .ok answer) :
    Needs 0 (fun _ => read) answer :=
  fun _ => ⟨fun _ => h, fun hfew => absurd hfew (Nat.not_lt_zero _)⟩

theorem bind {f : Nat -> α -> Except ParseError β} {more : Nat} {result : β}
    (h : Needs needed read answer) (hnext : Needs more (fun levels => f levels answer) result) :
    Needs (max needed more) (fun levels => read levels >>= f levels) result := by
  intro levels
  obtain ⟨henough, hdeep⟩ := h levels
  by_cases hlevels : needed ≤ levels
  · have hbind : (read levels >>= f levels) = f levels answer := by
      rw [henough hlevels]
      rfl
    simp only [hbind]
    exact ⟨fun hmax => (hnext levels).1 (by omega), fun hmax => (hnext levels).2 (by omega)⟩
  · exact ⟨fun hmax => by omega, fun _ => (hdeep (by omega)).bind _⟩

theorem map (h : Needs needed read answer) (make : α -> β) :
    Needs needed (fun levels => read levels >>= fun answer => .ok (make answer)) (make answer) := by
  have hmade := h.bind (f := fun _ answer => .ok (make answer)) (const rfl)
  rwa [Nat.max_zero] at hmade

theorem cast (h : Needs needed read answer) {other : Nat} (hother : needed = other) :
    Needs other read answer :=
  hother ▸ h

end Needs

/-- Whatever can be read with some levels needs the levels of the expression, and a chain those of
the operators and operands that it adds. -/
structure Bounded (stop : Token) (levels : Nat) : Prop where
  operand : ∀ {inBrackets : Bool} {tokens : List Token} {e : Expr} {rest : List Token},
    readOperand stop levels inBrackets tokens = .ok (e, rest) ->
      Needs e.levels (fun levels => readOperand stop levels inBrackets tokens) (e, rest)
  chain : ∀ {inBrackets : Bool} {left : Expr} {tokens : List Token} {e : Expr}
    {rest : List Token}, readChain stop levels inBrackets left tokens = .ok (e, rest) ->
      ∃ more, Needs more (fun levels => readChain stop levels inBrackets left tokens) (e, rest) ∧
        e.levels = max left.levels (left.operators + more) ∧
        e.addressLevels = max left.addressLevels (left.operators + more)

namespace Bounded

variable {stop : Token} {levels : Nat}

variable {inBrackets : Bool} {tokens rest : List Token} {e : Expr}

theorem expr (h : Bounded stop levels)
    (hread : readFrom stop levels inBrackets tokens = .ok (e, rest)) :
    Needs e.levels (fun levels => readFrom stop levels inBrackets tokens) (e, rest) := by
  obtain ⟨⟨left, middle⟩, hleft, hchain⟩ := ok_of_bind hread
  have hbinary := ((sound stop levels).operand hleft).2
  obtain ⟨more, hmore, hlevels, -⟩ := h.chain hchain
  rw [operators_of_not_binary hbinary, Nat.zero_add] at hlevels
  rw [hlevels]
  exact (h.operand hleft).bind hmore

theorem closed (h : Bounded stop levels) {closing : Token.Kind} {expected : Expected}
    {build : Expr -> Token -> Expr}
    (hbuild : ∀ inner token, (build inner token).levels = inner.levels + 1)
    (hread : readClosed stop levels closing expected build tokens = .ok (e, rest)) :
    ∃ needed, e.levels = needed + 1 ∧
      Needs needed (fun levels => readClosed stop levels closing expected build tokens)
        (e, rest) := by
  obtain ⟨⟨inner, middle⟩, hinner, hread⟩ := ok_of_bind hread
  obtain ⟨⟨token, after⟩, hclosing, hread⟩ := ok_of_bind hread
  cases hread
  refine ⟨inner.levels, hbuild inner token, Needs.cast ?_ (Nat.max_zero _)⟩
  unfold readClosed
  refine (h.expr hinner).bind (Needs.const ?_)
  simp only [hclosing]
  rfl

/-- An operand takes a level for its first token, whatever that is. -/
theorem needs_succ {needed : Nat} {read : Nat -> Except ParseError (Expr × List Token)}
    (hzero : TooDeep (read 0)) (h : Needs needed (fun levels => read (levels + 1)) (e, rest)) :
    Needs (needed + 1) read (e, rest) := by
  rintro (_ | levels)
  · exact ⟨fun henough => by omega, fun _ => hzero⟩
  · simp only [Nat.add_le_add_iff_right, Nat.add_lt_add_iff_right]
    exact h levels

theorem operand_succ (h : Bounded stop levels)
    (hread : readOperand stop (levels + 1) inBrackets tokens = .ok (e, rest)) :
    Needs e.levels (fun levels => readOperand stop levels inBrackets tokens) (e, rest) := by
  cases tokens with
  | nil => simp [readOperand] at hread
  | cons token tail =>
      suffices hneeds : ∃ needed, e.levels = needed + 1 ∧
          Needs needed (fun levels => readOperand stop (levels + 1) inBrackets (token :: tail))
            (e, rest) by
        obtain ⟨needed, hlevels, hneeds⟩ := hneeds
        rw [hlevels]
        exact needs_succ (tooDeep_readOperand_zero stop inBrackets _) hneeds
      simp only [readOperand_cons] at hread ⊢
      split at hread
      next hparen =>
        simp only [if_pos hparen]
        exact h.closed (fun _ _ => rfl) hread
      next hparen =>
      split at hread
      next hbracket =>
        simp only [if_neg hparen, if_pos hbracket]
        exact h.closed (fun _ _ => rfl) hread
      next hbracket =>
      split at hread
      next hbrace =>
        simp only [if_neg hparen, if_neg hbracket, if_pos hbrace]
        refine ⟨0, ?_, .const hread⟩
        obtain ⟨⟨number, middle⟩, _, hread⟩ := ok_of_bind hread
        obtain ⟨⟨closing, after⟩, _, hread⟩ := ok_of_bind hread
        cases hread
        rfl
      next hbrace =>
      split at hread
      next hunary =>
        simp only [if_neg hparen, if_neg hbracket, if_neg hbrace, if_pos hunary]
        obtain ⟨⟨operand, middle⟩, hoperand, hread⟩ := ok_of_bind hread
        cases hread
        exact ⟨operand.levels, rfl,
          (h.operand hoperand).map fun read => (Expr.unary token read.1, read.2)⟩
      next hunary =>
        simp only [if_neg hparen, if_neg hbracket, if_neg hbrace, if_neg hunary]
        refine ⟨0, ?_, .const hread⟩
        split at hread
        · cases hread
          rfl
        · split at hread
          · cases hread
            rfl
          · cases hread

end Bounded

variable {inBrackets : Bool} {tokens rest : List Token} {e : Expr}

/-- A chain takes one level for each operator, and its right sides what is left then. -/
theorem readChain_bounded {stop : Token} {levels : Nat}
    (hlower : ∀ fewer, levels = fewer + 1 -> Bounded stop fewer) {left : Expr}
    (hread : readChain stop levels inBrackets left tokens = .ok (e, rest)) :
    ∃ more, Needs more (fun levels => readChain stop levels inBrackets left tokens) (e, rest) ∧
      e.levels = max left.levels (left.operators + more) ∧
      e.addressLevels = max left.addressLevels (left.operators + more) := by
  have hlevels := left.operators_lt_levels
  have haddress := left.operators_lt_addressLevels
  have hunfold (levels : Nat) := readChain.eq_1 stop levels inBrackets left tokens
  simp only [hunfold] at hread ⊢
  split at hread
  next hend =>
    cases hread
    exact ⟨0, .const rfl, by omega, by omega⟩
  next operator tail hnext =>
    split at hread
    next hsign =>
      cases levels with
      | zero => cases hread
      | succ fewer =>
          obtain ⟨⟨right, middle⟩, hright, hread⟩ := ok_of_bind hread
          obtain ⟨more, hmore, hresult, hresult'⟩ := (hlower fewer rfl).chain hread
          simp only [Expr.levels, Expr.addressLevels, Expr.operators] at hresult hresult'
          refine ⟨max right.levels more + 1, ?_, by omega, by omega⟩
          simp only [if_pos hsign]
          refine Bounded.needs_succ ⟨_, rfl⟩ ?_
          exact ((hlower fewer rfl).operand hright).bind hmore
    next hsign =>
      cases hread
      simp only [if_neg hsign]
      exact ⟨0, .const rfl, by omega, by omega⟩

theorem bounded (stop : Token) (levels : Nat) : Bounded stop levels := by
  induction levels with
  | zero =>
      refine ⟨?_, readChain_bounded (by simp)⟩
      intro inBrackets tokens e rest hread
      simp [readOperand] at hread
  | succ levels ih =>
      refine ⟨ih.operand_succ, readChain_bounded ?_⟩
      intro fewer hfewer
      cases hfewer
      exact ih

theorem readExpr_needs {stop : Token} {levels : Nat}
    (h : readExpr stop inBrackets tokens levels = .ok (e, rest)) :
    Needs e.levels (readExpr stop inBrackets tokens ·) (e, rest) :=
  (bounded stop levels).expr h

theorem parenLeft_of_readOperand {stop first opening closing : Token} {levels : Nat} {inner : Expr}
    (h : readOperand stop levels inBrackets (first :: tokens) =
      .ok (.round opening inner closing, rest)) : first.kind = .parenLeft := by
  cases levels with
  | zero => simp [readOperand] at h
  | succ levels =>
      rw [readOperand_cons] at h
      split at h
      next hparen => exact hparen
      exfalso
      split at h
      · obtain ⟨_, _, h⟩ := ok_of_bind h
        obtain ⟨_, _, h⟩ := ok_of_bind h
        cases h
      split at h
      · obtain ⟨_, _, h⟩ := ok_of_bind h
        obtain ⟨_, _, h⟩ := ok_of_bind h
        cases h
      split at h
      · obtain ⟨_, _, h⟩ := ok_of_bind h
        cases h
      split at h
      · cases h
      split at h <;> cases h

/-- An expression that does not start with a parenthesis needs all its levels as an address, too. -/
theorem addressLevels_of_readExpr {stop first : Token} {levels : Nat}
    (h : readExpr stop inBrackets (first :: tokens) levels = .ok (e, rest))
    (hfirst : first.kind ≠ .parenLeft) : e.addressLevels = e.levels := by
  obtain ⟨⟨left, middle⟩, hleft, hchain⟩ := ok_of_bind h
  obtain ⟨more, -, hlevels, haddress⟩ := (bounded stop levels).chain hchain
  have hfront : left.addressLevels = left.levels := by
    cases left with
    | binary => cases ((sound stop levels).operand hleft).2
    | round => exact absurd (parenLeft_of_readOperand hleft) hfirst
    | _ => rfl
  rw [hlevels, haddress, hfront]

/-! ## Arguments -/

def Argument.levels : Argument -> Nat
  | .address value _ => value.addressLevels
  | .immediate _ value => value.levels
  | .indirect _ value _ => value.levels

theorem Argument.addressLevels_value_le (argument : Argument) :
    argument.value.addressLevels ≤ argument.levels := by
  cases argument with
  | address => exact Nat.le_refl _
  | immediate | indirect => exact Expr.addressLevels_le_levels _

theorem value_readAddressEnding (value : Expr) (tokens : List Token) :
    (readAddressEnding value tokens).1.value = value := by
  unfold readAddressEnding
  split
  · rfl
  · split <;> rfl

theorem levels_readAddressEnding (value : Expr) (tokens : List Token) :
    (readAddressEnding value tokens).1.levels = value.addressLevels := by
  unfold readAddressEnding
  split
  · rfl
  · split <;> rfl

variable {stop opening : Token} {levels : Nat} {argument : Argument}

theorem readIndirect_needs (h : readIndirect stop opening tokens levels = .ok (argument, rest)) :
    Needs argument.levels (readIndirect stop opening tokens ·) (argument, rest) := by
  obtain ⟨⟨value, middle⟩, hvalue, h⟩ := ok_of_bind h
  have hneeds := readExpr_needs hvalue
  unfold readIndirect
  simp only at h
  split at h
  · cases h
  next closing tail hclosing =>
    split at h
    next hparen =>
      split at h
      next hnext =>
        -- The parentheses group the front of an address, which goes on with all levels left.
        obtain ⟨⟨address, after⟩, hchain, h⟩ := ok_of_bind h
        obtain ⟨more, hmore, -, hlevels⟩ := (bounded stop levels).chain hchain
        have hresult : readAddressEnding address after = (argument, rest) := Except.ok.inj h
        have hround : (Expr.round opening value closing).operators = 0 := rfl
        have hargument := levels_readAddressEnding address after
        rw [hresult, hlevels, Expr.addressLevels, hround, Nat.zero_add] at hargument
        rw [hargument, ← hresult]
        refine hneeds.bind ?_
        simp only [hclosing, if_pos hparen, if_pos hnext]
        exact hmore.map fun read => readAddressEnding read.1 read.2
      next hnext =>
        cases h
        refine Needs.cast (hneeds.bind ?_) (Nat.max_zero _)
        simp only [hclosing, if_pos hparen, if_neg hnext]
        exact .const rfl
    next hparen =>
      split at h
      next hending =>
        cases h
        refine Needs.cast (hneeds.bind ?_) (Nat.max_zero _)
        simp only [hclosing, if_neg hparen, if_pos hending]
        exact .const rfl
      · cases h

/-- With other levels the same argument is read if they are enough for it, and otherwise they are
too few. -/
theorem readArgument_needs (h : readArgument stop tokens levels = .ok (argument, rest)) :
    Needs argument.levels (readArgument stop tokens ·) (argument, rest) := by
  cases tokens with
  | nil =>
      obtain ⟨⟨value, middle⟩, hvalue, -⟩ := ok_of_bind h
      cases Nat.not_lt_zero _ (length_readExpr_lt hvalue)
  | cons first tail =>
      unfold readArgument at h ⊢
      simp only at h ⊢
      split at h
      next hhash =>
        obtain ⟨⟨value, middle⟩, hvalue, h⟩ := ok_of_bind h
        cases h
        simp only [if_pos hhash]
        exact (readExpr_needs hvalue).map fun read => (Argument.immediate first read.1, read.2)
      next hhash =>
        split at h
        next hparen =>
          simp only [if_neg hhash, if_pos hparen]
          exact readIndirect_needs h
        next hparen =>
          obtain ⟨⟨value, middle⟩, hvalue, h⟩ := ok_of_bind h
          have hresult : readAddressEnding value middle = (argument, rest) := Except.ok.inj h
          have hargument := levels_readAddressEnding value middle
          rw [hresult, addressLevels_of_readExpr hvalue hparen] at hargument
          rw [hargument, ← hresult]
          simp only [if_neg hhash, if_neg hparen]
          exact (readExpr_needs hvalue).map fun read => readAddressEnding read.1 read.2

/-! ## Values on rows -/

inductive ReadAs (e : Expr) : Prop where
  | argument {stop : Token} {tokens rest : List Token} {argument : Argument}
      (hread : readArgument stop tokens = .ok (argument, rest)) (hvalue : argument.value = e)
  | head {stop : Token} {tokens rest : List Token}
      (hread : readExpr stop false tokens = .ok (e, rest))

theorem readArguments_readAs (stop : Token) (afterName isFirst : Bool) (tokens : List Token) :
    ∀ argument ∈ (readArguments stop afterName isFirst tokens).1, ReadAs argument.value := by
  fun_induction readArguments stop afterName isFirst tokens with
  | case1 => simp
  | case2 => simp
  | case3 => simp
  | case4 isFirst tokens _ start _ argument rest hargument arguments error heq ih =>
      rw [heq] at ih
      intro a ha
      rcases List.mem_cons.1 ha with rfl | ha
      · exact .argument hargument rfl
      · exact ih a ha

theorem readCommandTail_readAs {stop : Token} {name : Option Token}
    (h : .value e ∈ (readCommandTail stop name tokens).1.parts) : ReadAs e := by
  obtain ⟨argument, hargument, hvalue⟩ := List.mem_map.1 h
  cases hvalue
  exact readArguments_readAs _ _ _ _ argument hargument

theorem readHeadExpr_readAs {stop : Token} {expected : Expected}
    (h : .value e ∈ valueParts (readHeadExpr stop expected tokens).1) : ReadAs e := by
  rw [mem_valueParts] at h
  unfold readHeadExpr at h
  split at h
  · cases h
  · split at h
    · cases h
    · next hread =>
      cases h
      exact .head hread

theorem readContent_readAs {stop first : Token}
    (h : .value e ∈ (readContent stop first tokens).1.parts) : ReadAs e := by
  have hcommand {name : Option Token} {rest : List Token}
      (h : .value e ∈
        (Content.command (some (readCommandTail stop name rest).1)).parts) : ReadAs e := by
    rw [Content.parts, Option.toList_some, List.flatMap_singleton] at h
    exact readCommandTail_readAs h
  unfold readContent at h
  split at h
  case h_1 | h_2 | h_3 | h_4 => exact readHeadExpr_readAs h
  case h_5 => simp [Content.parts] at h
  case h_6 | h_7 => exact hcommand h
  case h_8 =>
    split at h
    · exact hcommand h
    · simp [Content.parts] at h

theorem readBehindLabel_readAs {stop : Token} {hasLabel : Bool}
    (h : .value e ∈ (readBehindLabel stop hasLabel tokens).1.parts) : ReadAs e := by
  unfold readBehindLabel at h
  split at h
  · simp [Content.parts] at h
  · split at h
    · split at h
      · simp [Content.parts] at h
      · exact readContent_readAs h
    · split at h
      · simp [Content.parts] at h
      · exact readContent_readAs h

theorem Row.readAs_of_mem_parts {row : Row} (h : .value e ∈ row.parts) : ReadAs e := by
  rcases List.mem_append.1 h with h | h
  · simp [labelParts] at h
  · exact readBehindLabel_readAs h

theorem ReadAs.addressLevels_le (h : ReadAs e) : e.addressLevels ≤ nestingLimit := by
  cases h with
  | argument hread hvalue =>
      subst hvalue
      exact Nat.le_trans (Argument.addressLevels_value_le _) ((readArgument_needs hread).le hread)
  | head hread =>
      exact Nat.le_trans (Expr.addressLevels_le_levels e) ((readExpr_needs hread).le hread)

theorem addressLevels_le_of_mem_parts {comments : List Token} {source : String}
    (h : .value e ∈ Line.partsAll (ConcreteFile.ofTokens tokens comments source).lines) :
    e.addressLevels ≤ nestingLimit := by
  obtain ⟨row, _, hrow⟩ := exists_row_of_mem_parts h
  exact (Row.readAs_of_mem_parts hrow).addressLevels_le

theorem height_le_of_mem_expressions {comments : List Token} {source : String} {uri : Uri}
    {line : Asm6502.Line} {e : Asm6502.Expr} (hline : line ∈ Asm6502.Line.walkAll
      (lowerAll uri (ConcreteFile.ofTokens tokens comments source).lines))
    (he : e ∈ line.expressions) : e.height ≤ 33152 := by
  obtain ⟨outer, houter, hline⟩ := mem_walkAll_lowerAll.1 hline
  have hfrom := ConcreteFile.ofTokens_from _ _ _ outer houter
  obtain ⟨c, hc, rfl⟩ := (Line.shows_of_mem_walk hfrom line hline).expressions e he
  have hparts : .value c ∈ Line.partsAll (ConcreteFile.ofTokens tokens comments source).lines := by
    rw [Line.partsAll_eq_flatMap]
    exact List.mem_flatMap.2 ⟨outer, houter, hc⟩
  have hlevels := addressLevels_le_of_mem_parts hparts
  exact Nat.le_trans (c.height_lower_le uri) (Expr.height_le_of_addressLevels hlevels)

end Concrete

end Asm6502
