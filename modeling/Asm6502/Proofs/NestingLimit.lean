import Asm6502.Proofs.ReadingLimits

/-!
# The limit on nesting

The limit bounds the levels of all that is accepted, and whatever needs more is reported.  The
levels count neither parentheses at the front of an address nor what a chain puts on top of its
first operands, so the highest expression that is accepted is far higher than the limit.
-/

namespace Asm6502

namespace Concrete

/-! ## Addresses are read back -/

/-- Parentheses are the front of an address only if an operator or an index by X follows them. -/
def Expr.IsFrontOf (stop : Token) (rest : List Token) : Expr -> Prop
  | .round .. => (peek stop rest).kind.isBinarySign = true ∨ (peek stop rest).kind = .commaX
  | _ => True

def readAddressFrom (stop : Token) (levels : Nat) (front : Expr) (tokens : List Token) :
    Except ParseError (Argument × List Token) := do
  let (value, rest) <- readChain stop levels false front tokens
  return readAddressEnding value rest

/-- An address is read from its tokens if enough levels are left, and reading goes on behind it. -/
def ReadsAddress (stop : Token) (levels : Nat) (e : Expr) (tokens : List Token) : Prop :=
  ∀ rest, e.IsFrontOf stop rest -> e.addressLevels ≤ levels ->
    readArgument stop (tokens ++ rest) levels =
      readAddressFrom stop (levels - e.operators) e rest

theorem readsAddress_operand {stop first : Token} {levels : Nat} {e : Expr} {others : List Token}
    (hcomplete : e.Complete stop false (first :: others)) (hlevels : e.addressLevels = e.levels)
    (hhash : first.kind ≠ .hash) (hparen : first.kind ≠ .parenLeft) :
    ReadsAddress stop levels e (first :: others) := by
  intro rest _ hfits
  obtain ⟨henough, -⟩ := hcomplete.chain levels rest (fun h => by cases h)
  have hread : readExpr stop false (first :: others ++ rest) levels =
      readChain stop (levels - e.operators) false e rest := henough (hlevels ▸ hfits)
  simp only [List.cons_append, readArgument, hhash, hparen, if_false] at hread ⊢
  rw [hread]
  rfl

/-- Parentheses at the front leave all levels to what they enclose, and again to what follows. -/
theorem readsAddress_round {stop opening closing : Token} {levels : Nat} {inner : Expr}
    {tokens : List Token} (hopening : opening.kind = .parenLeft)
    (hclosing : closing.kind = .parenRight) (hspells : inner.Spells tokens)
    (hcanonical : inner.Canonical true) :
    ReadsAddress stop levels (.round opening inner closing) (opening :: tokens ++ [closing]) := by
  intro rest hfront hfits
  have hcomplete : inner.Complete stop true tokens := hspells.complete hcanonical
  obtain ⟨henough, -⟩ := hcomplete.chain levels (closing :: rest)
    (noComma_cons (by simp [hclosing]) true rest)
  obtain ⟨first, others, rfl, hfirst⟩ := hspells.exists_cons hcanonical
  have hread : readArgument stop (opening :: (first :: others) ++ [closing] ++ rest) levels =
      readIndirect stop opening (first :: others ++ closing :: rest) levels := by
    simp [readArgument, hopening]
  have hskip : skipBlanks (first :: others ++ closing :: rest) =
      first :: others ++ closing :: rest := skipBlanks_cons hfirst _
  have hblank : closing.kind ≠ .whitespace := by simp [hclosing]
  have hend : readChain stop (levels - inner.operators) true inner (closing :: rest) =
      .ok (inner, closing :: rest) := by
    refine readChain_of_end ?_
    rintro token ⟨⟩
    exact ⟨by simp [hclosing, Token.Kind.isBinarySign], fun _ => hblank⟩
  rw [hread, readIndirect, hskip, readExpr_eq_readFrom, henough hfits, hend]
  simp only [bind, Except.bind, skipBlanks_cons hblank, hclosing, if_true]
  have hnext : (peek stop rest).kind.isBinarySign = true ∨ (peek stop rest).kind = .commaX := hfront
  rw [if_pos hnext]
  rfl

theorem Expr.Spells.readsAddress {stop : Token} {levels : Nat} {e : Expr} {tokens : List Token}
    (h : e.Spells tokens) (hcanonical : e.Canonical false) : ReadsAddress stop levels e tokens := by
  induction h with
  | @atom token h =>
      exact readsAddress_operand (complete_atom h) rfl (ne_of_class rfl h) (ne_of_class rfl h)
  | label hfirst hjoined =>
      exact readsAddress_operand (complete_label hfirst hjoined hcanonical) rfl
        (ne_of_class rfl hfirst) (ne_of_class rfl hfirst)
  | macroArgument hopening hnumber hclosing =>
      exact readsAddress_operand (complete_macroArgument hopening hnumber hclosing) rfl
        (by simp [hopening]) (by simp [hopening])
  | unary hoperand _ =>
      have hsign := hcanonical.1
      exact readsAddress_operand (Spells.complete (.unary hoperand) hcanonical) rfl
        (ne_of_class rfl hsign) (ne_of_class rfl hsign)
  | round hopening hinner hclosing _ =>
      exact readsAddress_round hopening hclosing hinner hcanonical
  | square hopening hinner hclosing _ =>
      exact readsAddress_operand (Spells.complete (.square hopening hinner hclosing) hcanonical)
        rfl (by simp [hopening]) (by simp [hopening])
  | @binary left right operator front back _ hright ihleft _ =>
      obtain ⟨hcleft, hsign, hbinary, hcright⟩ := hcanonical
      intro rest _ hfits
      have hfront : left.IsFrontOf stop (operator :: back ++ rest) := by
        cases left with
        | round => exact .inl hsign
        | _ => trivial
      rw [addressLevels] at hfits
      have hleft := ihleft hcleft (operator :: back ++ rest) hfront (by omega)
      have hcomplete : right.Complete stop false back := hright.complete hcright
      have hcomma : NoComma false rest := fun h => by cases h
      obtain ⟨hjoins, -⟩ := readChain_operator left hsign hbinary hright hcright hcomplete hcomma
        levels
      rw [List.append_assoc, hleft]
      simp only [readAddressFrom, hjoins (by omega)]

theorem readArgument_indexed (stop : Token) {levels : Nat} {ending : Token} {e : Expr}
    {tokens : List Token} (hspells : e.Spells tokens) (hcanonical : e.Canonical false)
    (hending : ending.kind = .commaX) (hlevels : e.addressLevels ≤ levels) :
    readArgument stop (tokens ++ [ending]) levels = .ok (.address e (some ending), []) := by
  have hfront : e.IsFrontOf stop [ending] := by
    cases e with
    | round => exact .inr hending
    | _ => trivial
  have hend : readChain stop (levels - e.operators) false e [ending] = .ok (e, [ending]) := by
    refine readChain_of_end ?_
    rintro token ⟨⟩
    exact ⟨by simp [hending, Token.Kind.isBinarySign], fun h => by cases h⟩
  rw [hspells.readsAddress hcanonical [ending] hfront hlevels, readAddressFrom, hend]
  simp [bind, Except.bind, pure, Except.pure, readAddressEnding, hending]

/-! ## Rows with one address -/

theorem Expr.Joined.isLineEnd_eq_false {words tokens : List Token} (h : Joined words tokens) :
    ∀ token ∈ tokens, token.kind.isLineEnd = false := by
  induction h with
  | nil => simp
  | cons hcomma hword _ ih =>
      have hkind : ∀ kind : Token.Kind, kind.isWord = true -> kind.isLineEnd = false := by
        intro kind
        cases kind <;> decide
      simp only [List.mem_cons]
      rintro token (rfl | rfl | htoken)
      · simp [hcomma, Token.Kind.isLineEnd]
      · exact hkind _ hword
      · exact ih token htoken

/-- An expression does not go beyond its row. -/
theorem Expr.Spells.isLineEnd_eq_false {e : Expr} {tokens : List Token} {inBrackets : Bool}
    (h : e.Spells tokens) (hcanonical : e.Canonical inBrackets) :
    ∀ token ∈ tokens, token.kind.isLineEnd = false := by
  have hof {isIn : Token.Kind -> Bool} {kind : Token.Kind} (hkind : isIn kind = true)
      (hnewline : isIn .newline = false) (heof : isIn .eof = false) : kind.isLineEnd = false := by
    have h1 : kind ≠ .newline := ne_of_class hnewline hkind
    have h2 : kind ≠ .eof := ne_of_class heof hkind
    cases kind <;> simp_all [Token.Kind.isLineEnd]
  induction h generalizing inBrackets with
  | atom h =>
      rintro token (_ | ⟨_, ⟨⟩⟩)
      exact hof h rfl rfl
  | label hfirst hjoined =>
      rintro token (_ | ⟨_, htoken⟩)
      · exact hof hfirst rfl rfl
      · exact hjoined.isLineEnd_eq_false token htoken
  | macroArgument hopening hnumber hclosing =>
      simp [hopening, hnumber, hclosing, Token.Kind.isLineEnd]
  | unary _ ih =>
      obtain ⟨hsign, _, hoperand⟩ := hcanonical
      rintro token (_ | ⟨_, htoken⟩)
      · exact hof hsign rfl rfl
      · exact ih hoperand token htoken
  | binary _ _ ihleft ihright =>
      obtain ⟨hleft, hsign, _, hright⟩ := hcanonical
      intro token htoken
      rcases List.mem_append.1 htoken with htoken | _ | ⟨_, htoken⟩
      · exact ihleft hleft token htoken
      · exact hof hsign rfl rfl
      · exact ihright hright token htoken
  | round hopening _ hclosing ih | square hopening _ hclosing ih =>
      intro token htoken
      simp only [List.mem_append, List.mem_cons, List.not_mem_nil, or_false] at htoken
      rcases htoken with (rfl | htoken) | rfl
      · simp [hopening, Token.Kind.isLineEnd]
      · exact ih hcanonical token htoken
      · simp [hclosing, Token.Kind.isLineEnd]

/-- The row on which a command takes one address, indexed by X. -/
structure IndexedRow where
  blank : Token
  name : Token
  gap : Token
  value : Expr
  written : List Token
  ending : Token
  stop : Token
  blank_kind : blank.kind = .whitespace
  name_kind : name.kind = .identifier
  gap_kind : gap.kind = .whitespace
  ending_kind : ending.kind = .commaX
  stop_kind : stop.kind = .newline
  canonical : value.Canonical false
  spells : value.Spells written

namespace IndexedRow

def tokens (r : IndexedRow) : List Token :=
  r.blank :: r.name :: r.gap :: (r.written ++ [r.ending])

def row (r : IndexedRow) : Row := ⟨r.tokens, r.stop⟩

def command (r : IndexedRow) : Command :=
  let arguments := [.address r.value (some r.ending)]
  ⟨some r.name, none, arguments, commandSpan r.stop (some r.name) none arguments⟩

def file (r : IndexedRow) : ConcreteFile := .ofTokens (r.tokens ++ [r.stop]) [] ""

theorem isLineEnd_eq_false (r : IndexedRow) : ∀ token ∈ r.tokens, token.kind.isLineEnd = false := by
  have hwritten := r.spells.isLineEnd_eq_false r.canonical
  simp only [tokens, List.mem_cons, List.mem_append, List.not_mem_nil, or_false]
  rintro token (rfl | rfl | rfl | htoken | rfl)
  · simp [r.blank_kind, Token.Kind.isLineEnd]
  · simp [r.name_kind, Token.Kind.isLineEnd]
  · simp [r.gap_kind, Token.Kind.isLineEnd]
  · exact hwritten token htoken
  · simp [r.ending_kind, Token.Kind.isLineEnd]

theorem rows_eq (r : IndexedRow) : rows (r.tokens ++ [r.stop]) = [r.row] :=
  rows_append r.isLineEnd_eq_false r.stop_kind []

theorem row_isRead (r : IndexedRow) : r.row.IsRead (r.tokens ++ [r.stop]) [] "" :=
  ⟨[], [], r.rows_eq, by simp [State.fresh]⟩

theorem readArguments_eq (r : IndexedRow) {levels : Nat} (h : r.value.addressLevels ≤ levels) :
    readArguments r.stop true true (r.gap :: (r.written ++ [r.ending])) levels =
      (r.command.arguments, none) := by
  have hread := readArgument_indexed r.stop r.spells r.canonical r.ending_kind h
  obtain ⟨first, others, hwritten, hfirst⟩ := r.spells.exists_cons r.canonical
  rw [hwritten, List.cons_append] at hread ⊢
  have hskip : skipBlanks (r.gap :: first :: (others ++ [r.ending])) =
      first :: (others ++ [r.ending]) := by
    rw [skipBlanks_blank r.gap_kind, skipBlanks_cons hfirst]
  have hseparator : readSeparator r.stop true true (r.gap :: first :: (others ++ [r.ending])) =
      .ok (first :: (others ++ [r.ending])) := by
    simp [readSeparator, hskip, peek, r.gap_kind]
  have hnone : readArguments r.stop true false [] levels = ([], none) := by
    rw [readArguments]
    simp [skipBlanks]
  rw [readArguments]
  simp only [hskip, List.isEmpty_cons, Bool.false_eq_true, if_false]
  grind [command]

/-- The name takes no extension, and the rest of the row is its argument. -/
theorem read_eq (r : IndexedRow) {levels : Nat} (h : r.value.addressLevels ≤ levels) :
    r.row.read levels = (none, .command (some r.command), []) := by
  have hlabel : readLabel? r.tokens = (none, r.tokens) := by
    simp [readLabel?, tokens, r.blank_kind, r.gap_kind]
  have hskip : skipBlanks (r.name :: r.gap :: (r.written ++ [r.ending])) =
      r.name :: r.gap :: (r.written ++ [r.ending]) := skipBlanks_cons (by simp [r.name_kind]) _
  have hextension : readExtension? r.name (r.gap :: (r.written ++ [r.ending])) =
      (none, r.gap :: (r.written ++ [r.ending])) := by
    simp [readExtension?, r.gap_kind]
  simp only [Row.read, row, hlabel]
  simp [readBehindLabel, tokens, r.blank_kind, hskip, readContent, r.name_kind, readCommandTail,
    hextension, extensionErrors, r.readArguments_eq h, command]

theorem file_spec (r : IndexedRow) (h : r.value.addressLevels ≤ nestingLimit) :
    r.file.errors = [] ∧ .value r.value ∈ Line.partsAll r.file.lines := by
  have hfile : r.file = ((State.fresh []).readRow r.row).finish (sourceRows "".toList) := by
    rw [file, ConcreteFile.ofTokens_eq, r.rows_eq]
    rfl
  simp only [hfile, State.readRow_eq, r.read_eq h]
  refine ⟨rfl, ?_⟩
  simp [State.finish, State.addLine_eq, State.fault, State.fresh, State.closeAll, Line.partsAll,
    Line.parts, LineStart.margin, labelParts, Command.parts, command, Argument.value]

end IndexedRow

/-! ## The highest expressions -/

namespace Expr

/-- The number one. -/
def one : Expr := .atom (unplaced .decimal "1")

/-- The sum of an expression and some ones, added one after the other. -/
def plusOnes (e : Expr) : Nat -> Expr
  | 0 => e
  | count + 1 => .binary (e.plusOnes count) (unplaced .plus "+") one

def boxed (e : Expr) : Expr :=
  .square (unplaced .bracketLeft "[") e (unplaced .bracketRight "]")

/-- An expression in parentheses. -/
def grouped (e : Expr) : Expr :=
  .round (unplaced .parenLeft "(") e (unplaced .parenRight ")")

theorem height_plusOnes (e : Expr) (count : Nat) :
    (e.plusOnes count).height = e.height + count := by
  have hone := one_le_height e
  induction count with
  | zero => rfl
  | succ count ih =>
      simp only [plusOnes, height, one, ih]
      omega

theorem height_lower_plusOnes (uri : Uri) (e : Expr) (count : Nat) :
    ((e.plusOnes count).lower uri).height = (e.lower uri).height + count := by
  have hone : 1 ≤ (e.lower uri).height := by
    cases e.lower uri <;> simp [Asm6502.Expr.height]
  induction count with
  | zero => rfl
  | succ count ih =>
      have hright : (one.lower uri).height = 1 := height_ofAtom uri _
      have hlower : ((e.plusOnes (count + 1)).lower uri).height =
          max ((e.plusOnes count).lower uri).height (one.lower uri).height + 1 := rfl
      rw [hlower, ih, hright]
      omega

theorem operators_plusOnes (e : Expr) (count : Nat) :
    (e.plusOnes count).operators = e.operators + count := by
  induction count with
  | zero => rfl
  | succ count ih =>
      simp only [plusOnes, operators, ih]
      omega

theorem levels_plusOnes_le (e : Expr) (count : Nat) :
    (e.plusOnes count).levels ≤ max e.levels (e.operators + count + 1) := by
  induction count with
  | zero => exact Nat.le_max_left _ _
  | succ count ih =>
      simp only [plusOnes, levels, one, operators_plusOnes]
      omega

theorem addressLevels_plusOnes_le (e : Expr) (count : Nat) :
    (e.plusOnes count).addressLevels ≤ max e.addressLevels (e.operators + count + 1) := by
  induction count with
  | zero => exact Nat.le_max_left _ _
  | succ count ih =>
      simp only [plusOnes, addressLevels, levels, one, operators_plusOnes]
      omega

theorem canonical_plusOnes {e : Expr} {inBrackets : Bool} (h : e.Canonical inBrackets)
    (count : Nat) : (e.plusOnes count).Canonical inBrackets := by
  induction count with
  | zero => exact h
  | succ count ih => exact ⟨ih, rfl, rfl, trivial⟩

theorem exists_spells_plusOnes {e : Expr} (h : ∃ tokens, e.Spells tokens) (count : Nat) :
    ∃ tokens, (e.plusOnes count).Spells tokens := by
  induction count with
  | zero => exact h
  | succ count ih =>
      obtain ⟨tokens, htokens⟩ := ih
      exact ⟨_, .binary htokens (.atom rfl)⟩

/-- As many ones are added around each pair of brackets as the levels allow. -/
def tower : Nat -> Expr
  | 0 => one
  | n + 1 => (tower n).boxed.plusOnes (n + 1)

theorem height_tower (n : Nat) : (tower n).height = tallest (n + 1) := by
  induction n with
  | zero => rfl
  | succ n ih =>
      have htallest : tallest (n + 2) = tallest (n + 1) + (n + 2) := rfl
      rw [tower, height_plusOnes, boxed, height, ih, htallest]
      omega

theorem height_lower_tower (uri : Uri) (n : Nat) :
    ((tower n).lower uri).height = tallest (n + 1) := by
  induction n with
  | zero => exact height_ofAtom uri _
  | succ n ih =>
      have hlower : ((tower n).boxed.lower uri).height = ((tower n).lower uri).height + 1 := rfl
      have htallest : tallest (n + 2) = tallest (n + 1) + (n + 2) := rfl
      rw [tower, height_lower_plusOnes, hlower, ih, htallest]
      omega

theorem levels_tower_le (n : Nat) : (tower n).levels ≤ n + 1 := by
  induction n with
  | zero => exact Nat.le_refl 1
  | succ n ih =>
      have hlevels := levels_plusOnes_le (tower n).boxed (n + 1)
      simp only [boxed, levels, operators] at hlevels
      rw [tower]
      exact Nat.le_trans hlevels (by omega)

theorem canonical_tower (n : Nat) (inBrackets : Bool) : (tower n).Canonical inBrackets := by
  induction n generalizing inBrackets with
  | zero => trivial
  | succ n ih =>
      have hboxed : (tower n).boxed.Canonical inBrackets := ih true
      exact canonical_plusOnes hboxed (n + 1)

theorem exists_spells_tower (n : Nat) : ∃ tokens, (tower n).Spells tokens := by
  induction n with
  | zero => exact ⟨_, .atom rfl⟩
  | succ n ih =>
      obtain ⟨tokens, htokens⟩ := ih
      exact exists_spells_plusOnes ⟨_, .square rfl htokens rfl⟩ (n + 1)

/-- The number one in some square brackets. -/
def boxes : Nat -> Expr
  | 0 => one
  | n + 1 => (boxes n).boxed

theorem height_boxes (n : Nat) : (boxes n).height = n + 1 := by
  induction n with
  | zero => rfl
  | succ n ih => rw [boxes, boxed, height, ih]

theorem height_lower_boxes (uri : Uri) (n : Nat) : ((boxes n).lower uri).height = n + 1 := by
  induction n with
  | zero => exact height_ofAtom uri _
  | succ n ih =>
      have hlower : ((boxes n).boxed.lower uri).height = ((boxes n).lower uri).height + 1 := rfl
      rw [boxes, hlower, ih]

theorem levels_boxes (n : Nat) : (boxes n).levels = n + 1 := by
  induction n with
  | zero => rfl
  | succ n ih => rw [boxes, boxed, levels, ih]

theorem deepLast_boxes (n : Nat) : (boxes n).deepLast = true := by
  induction n with
  | zero => rfl
  | succ n ih => exact ih

theorem canonical_boxes (n : Nat) (inBrackets : Bool) : (boxes n).Canonical inBrackets := by
  induction n generalizing inBrackets with
  | zero => trivial
  | succ n ih => exact ih true

theorem exists_spells_boxes (n : Nat) : ∃ tokens, (boxes n).Spells tokens := by
  induction n with
  | zero => exact ⟨_, .atom rfl⟩
  | succ n ih =>
      obtain ⟨tokens, htokens⟩ := ih
      exact ⟨_, .square rfl htokens rfl⟩

end Expr

/-- The row `  LDA e,X` for an expression. -/
theorem exists_indexedRow {e : Expr} (hcanonical : e.Canonical false)
    (hspells : ∃ tokens, e.Spells tokens) : ∃ r : IndexedRow, r.value = e := by
  obtain ⟨tokens, htokens⟩ := hspells
  exact ⟨⟨unplaced .whitespace "  ", unplaced .identifier "LDA", unplaced .whitespace " ", e,
    tokens, unplaced .commaX ",X", unplaced .newline "\n", rfl, rfl, rfl, rfl, rfl, hcanonical,
    htokens⟩, rfl⟩

/-- The bound is reached: `(tower)+1+…+1`, with all levels used up in front of the closing
parenthesis and again behind it. -/
theorem exists_highest : ∃ r : IndexedRow, r.file.errors = [] ∧
    .value r.value ∈ Line.partsAll r.file.lines ∧ r.value.height = 33152 ∧
    ∀ uri, (r.value.lower uri).height = 33152 := by
  -- The last level is kept as a variable, so that no tower is ever unfolded.
  obtain ⟨last, hlast⟩ : ∃ last, nestingLimit = last + 1 := ⟨255, rfl⟩
  have hheight : Expr.tallest (last + 1) + 1 + last = 33152 := by
    have hlimit := Expr.tallest_nestingLimit
    rw [hlast] at hlimit
    simp only [nestingLimit] at hlast
    omega
  obtain ⟨tokens, htokens⟩ := Expr.exists_spells_tower last
  have hcanonical : (Expr.tower last).grouped.Canonical false := Expr.canonical_tower last true
  obtain ⟨r, hr⟩ := exists_indexedRow (Expr.canonical_plusOnes hcanonical last)
    (Expr.exists_spells_plusOnes ⟨_, .round rfl htokens rfl⟩ last)
  have hlevels : r.value.addressLevels ≤ nestingLimit := by
    have hinner := Expr.levels_tower_le last
    have hsum := Expr.addressLevels_plusOnes_le (Expr.tower last).grouped last
    have hgrouped : (Expr.tower last).grouped.addressLevels = (Expr.tower last).levels := rfl
    have hoperators : (Expr.tower last).grouped.operators = 0 := rfl
    rw [hr, hlast]
    omega
  obtain ⟨herrors, hvalue⟩ := r.file_spec hlevels
  refine ⟨r, herrors, hvalue, ?_, ?_⟩
  · have hgrouped : (Expr.tower last).grouped.height = (Expr.tower last).height + 1 := rfl
    rw [hr, Expr.height_plusOnes, hgrouped, Expr.height_tower, hheight]
  · intro uri
    have hgrouped : ((Expr.tower last).grouped.lower uri).height =
        ((Expr.tower last).lower uri).height + 1 := rfl
    rw [hr, Expr.height_lower_plusOnes, hgrouped, Expr.height_lower_tower, hheight]

/-- The limit on levels bounds the height of every expression by 33152, and by the limit itself
where only the last operand of each chain is deep and no parentheses stand around the whole.  The
lowered expressions are no higher.  A row that is read without faults under some other limit is read
in the same way if its expressions fit the limit.  A row that under some other limit holds an
expression that does not fit, such as any that is higher than 33152, is reported as nested too
deep.  An expression of height 33152 is accepted. -/
theorem ofTokens_heights (tokens comments : List Token) (source : String) :
    let file := ConcreteFile.ofTokens tokens comments source
    (∀ e, .value e ∈ Line.partsAll file.lines ->
      e.height ≤ 33152 ∧ (e.deepLast = true -> e.inParens = false -> e.height ≤ nestingLimit)) ∧
    (∀ uri, ∀ line ∈ Asm6502.Line.walkAll (lowerAll uri file.lines),
      ∀ e ∈ line.expressions, e.height ≤ 33152) ∧
    (∀ (row : Row) (limit : Nat), row.IsRead tokens comments source ->
      ((row.read limit).2.2 = [] -> (row.read limit).2.1.Fits nestingLimit ->
        row.read = row.read limit) ∧
      (¬ (row.read limit).2.1.Fits nestingLimit ->
        ∃ token, .nestingTooDeep token ∈ row.read.2.2 ∧ .nestingTooDeep token ∈ file.errors)) ∧
    (∀ (content : Content) (e : Expr), .value e ∈ content.parts -> 33152 < e.height ->
      ¬ content.Fits nestingLimit) ∧
    ∃ highest : IndexedRow, highest.file.errors = [] ∧
      .value highest.value ∈ Line.partsAll highest.file.lines ∧
      highest.value.height = 33152 ∧ ∀ uri, (highest.value.lower uri).height = 33152 := by
  intro file
  refine ⟨?_, fun uri line hline e he => height_le_of_mem_expressions hline he, ?_, ?_,
    exists_highest⟩
  · intro e he
    have hlevels := addressLevels_le_of_mem_parts he
    refine ⟨Expr.height_le_of_addressLevels hlevels, ?_⟩
    intro hdeep hparens
    exact Nat.le_trans (Expr.height_le_addressLevels_of_deepLast hdeep hparens) hlevels
  · intro row limit hread
    obtain ⟨hsame, hdeep⟩ := row.read_narrows nestingLimit limit
    refine ⟨hsame, ?_⟩
    intro hfits
    obtain ⟨token, htoken⟩ := hdeep hfits
    exact ⟨token, htoken, hread.faults_subset htoken⟩
  · intro content e he hheight hfits
    have hbound := Expr.height_le_of_addressLevels (hfits.addressLevels_le he)
    omega

/-- Brackets alone are accepted up to the limit, and one more pair is nested too deep. -/
theorem ofTokens_heights_boxes :
    (∃ r : IndexedRow, r.value = Expr.boxes 255 ∧ r.file.errors = [] ∧
      .value r.value ∈ Line.partsAll r.file.lines ∧ r.value.height ≤ nestingLimit ∧
      r.row.read = r.row.read 300) ∧
    ∃ r : IndexedRow, r.value = Expr.boxes 256 ∧
      ∃ token, .nestingTooDeep token ∈ r.file.errors := by
  have hlevels (n : Nat) : (Expr.boxes n).addressLevels = n + 1 := by
    rw [← Expr.levels_boxes]
    cases n <;> rfl
  refine ⟨?_, ?_⟩
  · obtain ⟨r, hr⟩ := exists_indexedRow (Expr.canonical_boxes 255 false)
      (Expr.exists_spells_boxes 255)
    obtain ⟨hbound, _, hrows, _⟩ := ofTokens_heights (r.tokens ++ [r.stop]) [] ""
    have hfits : r.value.addressLevels ≤ nestingLimit := by
      rw [hr, hlevels]
      decide
    obtain ⟨herrors, hvalue⟩ := r.file_spec hfits
    have hwide := r.read_eq (Nat.le_trans hfits (by decide : nestingLimit ≤ 300))
    refine ⟨r, hr, herrors, hvalue, (hbound r.value hvalue).2 ?_ ?_,
      (hrows r.row 300 r.row_isRead).1 ?_ ?_⟩
    · rw [hr]
      exact Expr.deepLast_boxes 255
    · rw [hr]
      rfl
    · rw [hwide]
    · rw [hwide]
      rintro c ⟨⟩ argument (_ | ⟨_, ⟨⟩⟩)
      exact hfits
  · obtain ⟨r, hr⟩ := exists_indexedRow (Expr.canonical_boxes 256 false)
      (Expr.exists_spells_boxes 256)
    obtain ⟨_, _, hrows, _⟩ := ofTokens_heights (r.tokens ++ [r.stop]) [] ""
    have hwide := r.read_eq (Nat.le_of_eq ((congrArg _ hr).trans (hlevels 256)))
    obtain ⟨token, _, htoken⟩ := (hrows r.row 257 r.row_isRead).2 (by
      rw [hwide]
      intro hfits
      have hlast : r.value.addressLevels ≤ nestingLimit := hfits r.command rfl _
        (List.mem_singleton_self _)
      rw [hr, hlevels, nestingLimit] at hlast
      omega)
    exact ⟨r, hr, token, htoken⟩

/-- One more operator behind 255 brackets is accepted as well, though the expression is higher than
the limit. -/
theorem nestingLimit_lt_height_boxes_plus_one : ∃ r : IndexedRow,
    r.value = (Expr.boxes 255).plusOnes 1 ∧ r.file.errors = [] ∧
    .value r.value ∈ Line.partsAll r.file.lines ∧ r.value.height = 257 ∧ nestingLimit < 257 ∧
    ∀ uri, (r.value.lower uri).height = 257 := by
  obtain ⟨r, hr⟩ := exists_indexedRow (Expr.canonical_plusOnes (Expr.canonical_boxes 255 false) 1)
    (Expr.exists_spells_plusOnes (Expr.exists_spells_boxes 255) 1)
  have hlevels : r.value.addressLevels ≤ nestingLimit := by
    have hboxes := Expr.levels_boxes 255
    have hle := Expr.addressLevels_le_levels (Expr.boxes 255)
    have hsum := Expr.addressLevels_plusOnes_le (Expr.boxes 255) 1
    have hoperators : (Expr.boxes 255).operators = 0 := rfl
    rw [hr, nestingLimit]
    omega
  obtain ⟨herrors, hvalue⟩ := r.file_spec hlevels
  refine ⟨r, hr, herrors, hvalue, ?_, by decide, ?_⟩
  · rw [hr, Expr.height_plusOnes, Expr.height_boxes]
  · intro uri
    rw [hr, Expr.height_lower_plusOnes, Expr.height_lower_boxes]

end Concrete

end Asm6502
