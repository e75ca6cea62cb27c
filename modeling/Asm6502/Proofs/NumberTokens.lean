import Mathlib.Data.List.Nodup
import Asm6502.Proofs.ExprHeights
import Asm6502.Proofs.RowContents

/-!
# Number tokens

In a text without faults every number is an operand, the ordinal of a macro argument, the name of a
macro, or text in the body of a macro.
-/

namespace Asm6502

namespace Concrete

/-! ## Numbers of expressions -/

variable {token stop : Token} {tokens rest : List Token} {kind : Token.Kind} {e : Expr}
  {content : Content} {row : Row}

/-- The single tokens that an expression is made of as values. -/
def Expr.operands : Expr -> List Token
  | .atom token => [token]
  | .label _ => []
  | .macroArgument _ _ _ => []
  | .unary _ operand => operand.operands
  | .binary left _ right => left.operands ++ right.operands
  | .round _ inner _ => inner.operands
  | .square _ inner _ => inner.operands

def Expr.ordinals : Expr -> List Token
  | .atom _ => []
  | .label _ => []
  | .macroArgument _ number _ => [number]
  | .unary _ operand => operand.ordinals
  | .binary left _ right => left.ordinals ++ right.ordinals
  | .round _ inner _ => inner.ordinals
  | .square _ inner _ => inner.ordinals

def numbers (tokens : List Token) : List Token := tokens.filter fun token => token.kind.isNumber

@[simp] theorem numbers_nil : numbers [] = [] := rfl

@[simp] theorem numbers_append (front back : List Token) :
    numbers (front ++ back) = numbers front ++ numbers back :=
  List.filter_append ..

theorem numbers_cons_of_not (h : token.kind.isNumber = false) (tokens : List Token) :
    numbers (token :: tokens) = numbers tokens := by
  simp [numbers, h]

theorem numbers_of_forall (h : ∀ token ∈ tokens, token.kind.isNumber = false) :
    numbers tokens = [] :=
  List.filter_eq_nil_iff.2 fun token htoken => by simp [h token htoken]

theorem isNumber_of_isWord (h : kind.isWord = true) : kind.isNumber = false := by
  revert h
  cases kind <;> decide

theorem isNumber_of_isUnarySign (h : kind.isUnarySign = true) : kind.isNumber = false := by
  revert h
  cases kind <;> decide

theorem isNumber_of_isBinarySign (h : kind.isBinarySign = true) : kind.isNumber = false := by
  revert h
  cases kind <;> decide

theorem isSeparating_of_isNumber (h : kind.isNumber = true) : isSeparating kind = false := by
  revert h
  cases kind <;> decide

theorem numbers_meaningful (tokens : List Token) :
    numbers (meaningful tokens) = numbers tokens := by
  unfold numbers meaningful
  rw [List.filter_filter]
  refine List.filter_congr fun token _ => ?_
  cases hkind : token.kind.isNumber with
  | true => simp [isSeparating_of_isNumber hkind]
  | false => simp

theorem Expr.Joined.numbers_eq {words : List Token} (h : Joined words tokens) :
    numbers words = [] := by
  induction h with
  | nil => rfl
  | cons _ hword _ ih => rw [numbers_cons_of_not (isNumber_of_isWord hword), ih]

/-- Every number of an expression is an operand or an ordinal, and each is so in one place. -/
theorem Expr.Spells.count_numbers {inBrackets : Bool} (h : e.Spells tokens)
    (hcanonical : e.Canonical inBrackets) (token : Token) :
    (numbers e.tokens).count token = (numbers e.operands).count token + e.ordinals.count token := by
  induction h generalizing inBrackets with
  | atom _ => simp [Expr.tokens, operands, ordinals]
  | label hfirst h =>
      simp [Expr.tokens, operands, ordinals, numbers_cons_of_not (isNumber_of_isWord hfirst),
        h.numbers_eq]
  | macroArgument hopening hnumber hclosing =>
      simp [Expr.tokens, operands, ordinals, numbers, hopening, hnumber, hclosing,
        Token.Kind.isNumber]
  | unary _ ih =>
      rw [Expr.tokens, numbers_cons_of_not (isNumber_of_isUnarySign hcanonical.1),
        ih hcanonical.2.2]
      rfl
  | binary _ _ ihleft ihright =>
      rw [Expr.tokens, numbers_append,
        numbers_cons_of_not (isNumber_of_isBinarySign hcanonical.2.1), List.count_append,
        ihleft hcanonical.1, ihright hcanonical.2.2.2]
      simp only [operands, ordinals, numbers_append, List.count_append]
      omega
  | @round opening closing inner tokens hopening _ hclosing ih
  | @square opening closing inner tokens hopening _ hclosing ih =>
      have hends : numbers (opening :: inner.tokens ++ [closing]) = numbers inner.tokens := by
        rw [List.cons_append, numbers_cons_of_not (by rw [hopening]; rfl), numbers_append,
          numbers_cons_of_not (by rw [hclosing]; rfl)]
        simp
      rw [Expr.tokens, hends, ih hcanonical]
      rfl

/-! ## Numbers of rows -/

/-- The expressions of a row. -/
def Content.values : Content -> List Expr
  | .command content => content.toList.flatMap fun command => command.arguments.map Argument.value
  | .conditional _ condition => condition.toList
  | .repetition _ count => count.toList
  | .macroBlock _ _ => []

theorem Content.mem_values : e ∈ content.values ↔ .value e ∈ content.parts := by
  cases content with
  | command command => cases command <;> simp [values, parts, Command.parts]
  | conditional | repetition => simp [values, parts, mem_valueParts]
  | macroBlock => simp [values, parts]

theorem readAddressEnding_numbers (value : Expr) (tokens : List Token) :
    numbers (readAddressEnding value tokens).1.tokens = numbers value.tokens := by
  unfold readAddressEnding
  split
  · simp [Argument.tokens]
  · split
    · next hending =>
      rcases hending with h | h <;> simp [Argument.tokens, numbers, h, Token.Kind.isNumber]
    · simp [Argument.tokens]

/-- An argument as it can be read: its operators are signs, and its marks are no numbers. -/
structure Argument.Proper (argument : Argument) : Prop where
  canonical : ∃ inBrackets, argument.value.Canonical inBrackets
  numbers : numbers argument.tokens = numbers argument.value.tokens

theorem readAddressEnding_proper {value : Expr} {inBrackets : Bool}
    (h : value.Canonical inBrackets) (tokens : List Token) :
    (readAddressEnding value tokens).1.Proper := by
  have hvalue := value_readAddressEnding value tokens
  refine ⟨⟨inBrackets, by rwa [hvalue]⟩, ?_⟩
  rw [hvalue, readAddressEnding_numbers]

theorem readIndirect_proper {opening : Token} {argument : Argument}
    (hopening : opening.kind = .parenLeft)
    (h : readIndirect stop opening tokens = .ok (argument, rest)) : argument.Proper := by
  obtain ⟨⟨value, middle⟩, hvalue, h⟩ := ok_of_bind h
  obtain ⟨taken, -, hspells, hcanonical⟩ := readExpr_reads hvalue
  simp only at h
  split at h
  · cases h
  · next closing tail _ =>
    have hindirect (hkind : closing.kind.isNumber = false) :
        (Argument.indirect opening value closing).Proper := by
      refine ⟨⟨true, hcanonical⟩, ?_⟩
      rw [Argument.tokens, List.cons_append, numbers_cons_of_not (by rw [hopening]; rfl),
        numbers_append, numbers_cons_of_not hkind]
      simp [Argument.value]
    split at h
    · next hparen =>
      split at h
      · -- The parentheses group the front of an address.
        obtain ⟨⟨address, after⟩, hchain, h⟩ := ok_of_bind h
        have hround : (Expr.round opening value closing).Spells (opening :: taken ++ [closing]) :=
          .round hopening hspells hparen
        have hinner : (Expr.round opening value closing).Canonical false := hcanonical
        obtain ⟨-, -, -, haddress⟩ := (sound stop nestingLimit).chain hchain _ hround hinner
        have hresult : readAddressEnding address after = (argument, rest) := Except.ok.inj h
        have hproper := readAddressEnding_proper haddress after
        rwa [hresult] at hproper
      · cases h
        exact hindirect (by rw [hparen]; rfl)
    · split at h
      · next hending =>
        cases h
        exact hindirect (by rcases hending with h | h <;> rw [h] <;> rfl)
      · cases h

theorem readArgument_proper {argument : Argument}
    (h : readArgument stop tokens = .ok (argument, rest)) : argument.Proper := by
  have haddress (hread : (readExpr stop false tokens >>= fun read =>
      Except.ok (readAddressEnding read.1 read.2)) = Except.ok (argument, rest)) :
      argument.Proper := by
    obtain ⟨⟨value, middle⟩, hvalue, hread⟩ := ok_of_bind hread
    obtain ⟨-, -, -, hcanonical⟩ := readExpr_reads hvalue
    have hresult : readAddressEnding value middle = (argument, rest) := Except.ok.inj hread
    have hproper := readAddressEnding_proper hcanonical middle
    rwa [hresult] at hproper
  unfold readArgument at h
  split at h
  · exact haddress h
  · split at h
    · next hhash =>
      obtain ⟨⟨value, middle⟩, hvalue, h⟩ := ok_of_bind h
      obtain ⟨-, -, -, hcanonical⟩ := readExpr_reads hvalue
      cases h
      exact ⟨⟨false, hcanonical⟩, numbers_cons_of_not (by rw [hhash]; rfl) _⟩
    · split at h
      · next hparen => exact readIndirect_proper hparen h
      · exact haddress h

theorem ReadAs.canonical (h : ReadAs e) : ∃ inBrackets, e.Canonical inBrackets := by
  cases h with
  | argument hread hvalue => exact hvalue ▸ (readArgument_proper hread).canonical
  | head hread =>
      obtain ⟨-, -, -, hcanonical⟩ := readExpr_reads hread
      exact ⟨false, hcanonical⟩

theorem readArguments_numbers (stop : Token) (afterName isFirst : Bool) (tokens : List Token) :
    numbers ((readArguments stop afterName isFirst tokens).1.flatMap Argument.tokens) =
      numbers ((readArguments stop afterName isFirst tokens).1.flatMap
        fun argument => argument.value.tokens) := by
  fun_induction readArguments stop afterName isFirst tokens with
  | case1 => rfl
  | case2 => rfl
  | case3 => rfl
  | case4 isFirst tokens _ start _ argument rest hargument arguments error heq ih =>
      rw [heq] at ih
      rw [List.flatMap_cons, List.flatMap_cons, numbers_append, numbers_append, ih,
        (readArgument_proper hargument).numbers]

theorem readCommandTail_numbers (stop : Token) {name : Option Token}
    (hname : ∀ token ∈ name, token.kind.isNumber = false) (tokens : List Token) :
    numbers (readCommandTail stop name tokens).1.tokens =
      numbers ((readCommandTail stop name tokens).1.arguments.flatMap
        fun argument => argument.value.tokens) := by
  have hfound (found : Option Token × List Token)
      (hext : ∀ token ∈ found.1, token.kind.isNumber = false) :
      numbers (name.toList ++ found.1.toList ++
        (readArguments stop name.isSome true found.2).1.flatMap Argument.tokens) =
      numbers ((readArguments stop name.isSome true found.2).1.flatMap
        fun argument => argument.value.tokens) := by
    rw [numbers_append, numbers_append,
      numbers_of_forall fun token htoken => hname token (Option.mem_toList.1 htoken),
      numbers_of_forall fun token htoken => hext token (Option.mem_toList.1 htoken),
      readArguments_numbers]
    rfl
  unfold readCommandTail
  cases name with
  | none => exact hfound (none, tokens) (by simp)
  | some name =>
      refine hfound _ ?_
      unfold readExtension?
      split
      · simp
      · split
        · next hext =>
          rintro _ ⟨⟩
          rw [hext.1]
          rfl
        · simp

def Content.macroName? : Content -> Option Token
  | .macroBlock _ name => name
  | _ => none

/-- The numbers of a row without faults are those of its expressions and the name of its macro. -/
theorem readContent_numbers {first : Token} (h : (readContent stop first tokens).2 = []) :
    numbers (first :: tokens) =
      numbers ((readContent stop first tokens).1.values.flatMap Expr.tokens) ++
        numbers (readContent stop first tokens).1.macroName?.toList := by
  by_cases hmac : first.kind = .macWord
  · have hrow : readContent stop first tokens =
        (.macroBlock first (readMacroName stop tokens).1, (readMacroName stop tokens).2) := by
      simp [readContent, hmac]
    rw [hrow] at h ⊢
    rw [numbers_cons_of_not (by rw [hmac]; rfl), ← numbers_meaningful]
    simp only [Content.values, Content.macroName?, List.flatMap_nil, numbers_nil, List.nil_append]
    unfold readMacroName at h ⊢
    split at h
    · cases h
    · next name rest hskip =>
      obtain ⟨left, hleft, hnil⟩ := restErrors_accounts stop rest
      rw [hnil h] at hleft
      rw [meaningful_of_skipBlanks hskip, ← List.singleton_append, meaningful_append, hleft,
        List.append_nil, List.append_nil, numbers_meaningful]
      rfl
  · have haccounts := (readContent_accounts stop hmac tokens).tokens
    obtain ⟨left, hleft, hnil⟩ := haccounts
    rw [hnil h, List.append_nil] at hleft
    rw [← numbers_meaningful, hleft]
    have hhead {keyword : Token} {value : Option Expr} (hkind : keyword.kind.isNumber = false) :
        numbers (keyword :: value.toList.flatMap Expr.tokens) =
          numbers (value.toList.flatMap Expr.tokens) ++ [] := by
      rw [numbers_cons_of_not hkind, List.append_nil]
    have hcommand {name : Option Token} {rest : List Token}
        (hname : ∀ token ∈ name, token.kind.isNumber = false) :
        numbers (Content.command (some (readCommandTail stop name rest).1)).tokens =
          numbers ((Content.command (some (readCommandTail stop name rest).1)).values.flatMap
            Expr.tokens) ++ [] := by
      simp only [Content.tokens, Content.values, Option.toList_some, List.flatMap_singleton,
        List.append_nil, List.flatMap_map]
      exact readCommandTail_numbers stop hname rest
    unfold readContent
    split
    case h_1 hkind | h_2 hkind | h_3 hkind | h_4 hkind => exact hhead (by rw [hkind]; rfl)
    case h_5 hkind => exact absurd hkind hmac
    case h_6 hkind | h_7 hkind =>
      refine hcommand ?_
      rintro _ ⟨⟩
      rw [hkind]
      rfl
    case h_8 =>
      split
      · exact hcommand (by simp)
      · rfl

theorem readBehindLabel_numbers {hasLabel : Bool}
    (h : (readBehindLabel stop hasLabel tokens).2 = []) :
    numbers tokens =
      numbers ((readBehindLabel stop hasLabel tokens).1.values.flatMap Expr.tokens) ++
        numbers (readBehindLabel stop hasLabel tokens).1.macroName?.toList := by
  unfold readBehindLabel at h ⊢
  split
  · rfl
  · next first rest =>
    simp only at h
    split at h
    · next hblank =>
      rw [if_pos hblank, numbers_cons_of_not (by rw [hblank]; rfl), ← numbers_meaningful]
      split at h
      · next hskip =>
        rw [meaningful_of_skipBlanks hskip]
        rfl
      · next second after hskip =>
        rw [meaningful_of_skipBlanks hskip, numbers_meaningful]
        exact readContent_numbers h
    · next hblank =>
      rw [if_neg hblank]
      split at h
      · cases h
      · next hlabel =>
        rw [if_neg hlabel]
        exact readContent_numbers h

theorem readLabelFragments_numbers (tokens : List Token) :
    numbers (readLabelFragments tokens).2 = numbers tokens := by
  have hending {ending : Token} (h : ending.kind = .commaX ∨ ending.kind = .commaY) :
      ending.kind.isNumber = false := by
    rcases h with h | h <;> rw [h] <;> rfl
  fun_induction readLabelFragments tokens with
  | case1 => rfl
  | case2 ending h => rw [numbers_cons_of_not (hending h)]
  | case3 => rfl
  | case4 first second rest h fragments after heq ih =>
      rw [heq] at ih
      rw [numbers_cons_of_not (hending h), ← ih]
  | case5 first second rest _ h fragments after heq ih =>
      rw [heq] at ih
      rw [numbers_cons_of_not (by rw [h.1]; rfl),
        numbers_cons_of_not (isNumber_of_isWord h.2), ← ih]
  | case6 => rfl

/-- No number stands in a label. -/
theorem readLabel_numbers (first : Token) (tokens : List Token) :
    numbers (readLabel first tokens).2 = numbers tokens := by
  have hfragments : numbers
      (if first.kind = .identifier then readLabelFragments tokens else ([], tokens)).2 =
        numbers tokens := by
    split
    · exact readLabelFragments_numbers tokens
    · rfl
  unfold readLabel
  generalize (if first.kind = .identifier then readLabelFragments tokens else ([], tokens)) =
    fragments at hfragments
  obtain ⟨others, rest⟩ := fragments
  rw [← hfragments]
  cases rest with
  | nil => rfl
  | cons colon tail =>
      by_cases hcolon : colon.kind = .colon
      · simp only [hcolon, if_true]
        rw [numbers_cons_of_not (by rw [hcolon]; rfl)]
      · simp only [hcolon, if_false]

theorem readLabel?_numbers (tokens : List Token) :
    numbers (readLabel? tokens).2 = numbers tokens := by
  unfold readLabel?
  split
  · rfl
  · next first rest =>
    split
    · next h =>
      have hfirst : first.kind.isNumber = false := by
        rcases h.1 with h | h <;> rw [h] <;> rfl
      rw [numbers_cons_of_not hfirst]
      exact readLabel_numbers first rest
    · split
      · next hblank =>
        split
        · next name colon tail =>
          split
          · next h =>
            rw [numbers_cons_of_not (by rw [hblank]; rfl), numbers_cons_of_not (by rw [h.1]; rfl)]
            exact readLabel_numbers name (colon :: tail)
          · rfl
        · rfl
      · rfl

theorem Row.numbers_eq (h : row.read.2.2 = []) :
    numbers row.tokens = numbers (row.read.2.1.values.flatMap Expr.tokens) ++
      numbers row.read.2.1.macroName?.toList := by
  rw [← readLabel?_numbers]
  exact readBehindLabel_numbers h

/-! ## Numbers of files -/

def Content.operands (content : Content) : List Token := content.values.flatMap Expr.operands

def Content.ordinals (content : Content) : List Token := content.values.flatMap Expr.ordinals

theorem Expr.operands_subset (e : Expr) : e.operands ⊆ e.tokens := by
  induction e with
  | atom token => exact List.Subset.refl _
  | label | macroArgument => exact List.nil_subset _
  | unary operator operand ih => exact List.subset_cons_of_subset _ ih
  | binary left operator right ihleft ihright =>
      exact List.append_subset.2 ⟨List.subset_append_of_subset_left _ ihleft,
        List.subset_append_of_subset_right _ (List.subset_cons_of_subset _ ihright)⟩
  | round opening inner closing ih | square opening inner closing ih =>
      exact List.subset_cons_of_subset _ (List.subset_append_of_subset_left _ ih)

theorem Expr.ordinals_subset (e : Expr) : e.ordinals ⊆ e.tokens := by
  induction e with
  | atom | label => exact List.nil_subset _
  | macroArgument opening number closing => simp [ordinals, tokens]
  | unary operator operand ih => exact List.subset_cons_of_subset _ ih
  | binary left operator right ihleft ihright =>
      exact List.append_subset.2 ⟨List.subset_append_of_subset_left _ ihleft,
        List.subset_append_of_subset_right _ (List.subset_cons_of_subset _ ihright)⟩
  | round opening inner closing ih | square opening inner closing ih =>
      exact List.subset_cons_of_subset _ (List.subset_append_of_subset_left _ ih)

/-- What is taken from the expressions of a content is held by it, and no macro is opened. -/
theorem Content.of_mem_values {pick : Expr -> List Token} (hpick : ∀ e, pick e ⊆ e.tokens)
    (h : token ∈ content.values.flatMap pick) :
    token ∈ content.tokens ∧ content.isMacro = false := by
  obtain ⟨e, he, htoken⟩ := List.mem_flatMap.1 h
  refine ⟨(Content.tokens_isInfix (mem_values.1 he)).subset (hpick e htoken), ?_⟩
  cases content with
  | macroBlock keyword name => cases he
  | _ => rfl

theorem Content.mem_tokens_of_macroName? (h : content.macroName? = some token) :
    token ∈ content.tokens := by
  cases content with
  | macroBlock keyword name =>
      cases h
      simp [tokens]
  | _ => cases h

theorem Row.numbers_of_ends (hhead : row.head? = some (token, rest))
    (hkeyword : token.kind.isKeyword = true) (h : restErrors row.stop rest = []) :
    numbers row.tokens = [] := by
  have hword : token.kind.isWord = true := by simp [Token.Kind.isWord, hkeyword]
  obtain ⟨left, hleft, hnil⟩ := row.accounts_of_head? hhead (isSeparating_of_isWord hword)
  rw [← numbers_meaningful, hleft, hnil h, List.append_nil,
    numbers_cons_of_not (isNumber_of_isWord hword)]
  rfl

/-- Every number of a row without faults is in one place an operand, an ordinal or the name of a
macro. -/
theorem Row.count_numbers (h : row.read.2.2 = []) (token : Token) :
    (numbers row.tokens).count token = (numbers row.read.2.1.operands).count token +
      row.read.2.1.ordinals.count token + (numbers row.read.2.1.macroName?.toList).count token := by
  have hvalues {values : List Expr} (hread : ∀ e ∈ values, e.MadeOf row.tokens ∧ ReadAs e) :
      (numbers (values.flatMap Expr.tokens)).count token =
        (numbers (values.flatMap Expr.operands)).count token +
          (values.flatMap Expr.ordinals).count token := by
    induction values with
    | nil => rfl
    | cons e values ih =>
        obtain ⟨⟨⟨taken, -, hspells⟩, hread⟩, hothers⟩ := List.forall_mem_cons.1 hread
        obtain ⟨inBrackets, hcanonical⟩ := hread.canonical
        simp only [List.flatMap_cons, numbers_append, List.count_append, ih hothers,
          hspells.count_numbers hcanonical token]
        omega
  rw [Row.numbers_eq h, List.count_append, hvalues]
  · rfl
  · intro e he
    have hpart := Content.mem_values.1 he
    exact ⟨row.read_spec.2.madeOf.value hpart,
      Row.readAs_of_mem_parts (List.mem_append_right _ hpart)⟩

end Concrete

open Concrete

namespace ConcreteFile

variable (file : ConcreteFile)

/-- The tokens that are values in the expressions of a file. -/
def operands : List Token := file.contents.flatMap Content.operands

/-- The numbers of the macro arguments in the expressions of a file. -/
def ordinals : List Token := file.contents.flatMap Content.ordinals

def macroNames : List Token := file.contents.filterMap Content.macroName?

end ConcreteFile

/-- In a text without faults of the grammar a number is an operand if and only if it is not in the
body of a macro, not the name of a macro and not the ordinal of a macro argument. -/
theorem ConcreteFile.mem_operands_iff {text : String} (h : (ofSource text).errors = [])
    {token : Token} (htoken : token ∈ (tokenize text).tokens) (hkind : token.kind.isNumber = true) :
    token ∈ (ofSource text).operands ↔ (ofSource text).isRaw token.span.start.line = false ∧
      token ∉ (ofSource text).macroNames ∧ token ∉ (ofSource text).ordinals := by
  obtain ⟨hrows, hcontents⟩ := ofSource_rows h
  have hlineEnd : token.kind.isLineEnd = false := by
    revert hkind
    cases token.kind <;> decide
  obtain ⟨row, hrow, hmem⟩ := exists_row_of_mem_tokenize htoken hlineEnd
  have hnumbers : token ∈ numbers row.tokens := List.mem_filter.2 ⟨hmem, hkind⟩
  have honce : (numbers row.tokens).count token ≤ 1 := by
    refine List.nodup_iff_count_le_one.1 ?_ token
    exact ((tokenize_nodup text).sublist (rows_sublist _ row hrow)).filter _
  -- What holds the token was read from its row.
  have hsame {content : Content} (hcontent : content ∈ (ofSource text).contents)
      (hheld : token ∈ content.tokens) : row.read.2.1 = content ∧ (content.isMacro = false ->
        (ofSource text).isRaw token.span.start.line = false) := by
    obtain ⟨other, hother, hread, hoff⟩ := hcontents content hcontent
    have htokens : token ∈ other.tokens :=
      other.read_spec.2.madeOf.tokens_subset (by rwa [hread])
    obtain ⟨_, hon⟩ := tokenize_rowsOn text
    cases hon.eq_of_mem hrow hother hmem htokens
    exact ⟨hread, fun hisMacro => hoff hisMacro token htokens⟩
  have hcount {tokens : List Token} : 0 < (numbers tokens).count token ↔ token ∈ tokens := by
    rw [List.count_pos_iff, numbers, List.mem_filter, and_iff_left hkind]
  have hpos := List.count_pos_iff.2 hnumbers
  constructor
  · intro hoperand
    obtain ⟨content, hcontent, hoperand⟩ := List.mem_flatMap.1 hoperand
    obtain ⟨hheld, hisMacro⟩ := Content.of_mem_values Expr.operands_subset hoperand
    obtain ⟨rfl, hoff⟩ := hsame hcontent hheld
    have hraw := hoff hisMacro
    have hclean : row.read.2.2 = [] := by
      rcases hrows row hrow with ⟨-, hclean⟩ | ⟨first, rest, hhead, hkeyword, hrest⟩ | hpassed
      · exact hclean
      · rw [Row.numbers_of_ends hhead hkeyword hrest] at hnumbers
        cases hnumbers
      · rw [hpassed token hmem] at hraw
        cases hraw
    have hsum := Row.count_numbers hclean token
    have hone := hcount.2 hoperand
    refine ⟨hraw, fun hname => ?_, fun hordinal => ?_⟩
    · obtain ⟨other, hother, hname⟩ := List.mem_filterMap.1 hname
      obtain ⟨rfl, -⟩ := hsame hother (Content.mem_tokens_of_macroName? hname)
      have htwo := hcount.2 (Option.mem_toList.2 hname)
      omega
    · obtain ⟨other, hother, hordinal⟩ := List.mem_flatMap.1 hordinal
      obtain ⟨hheld, -⟩ := Content.of_mem_values Expr.ordinals_subset hordinal
      obtain ⟨rfl, -⟩ := hsame hother hheld
      have htwo := List.count_pos_iff.2 hordinal
      omega
  · rintro ⟨hraw, hname, hordinal⟩
    rcases hrows row hrow with ⟨hcontent, hclean⟩ | ⟨first, rest, hhead, hkeyword, hrest⟩ | hpassed
    · have hsum := Row.count_numbers hclean token
      have hnoName : (numbers row.read.2.1.macroName?.toList).count token = 0 := by
        refine Nat.eq_zero_of_not_pos fun h => hname ?_
        exact List.mem_filterMap.2 ⟨_, hcontent, Option.mem_toList.1 (hcount.1 h)⟩
      have hnoOrdinal : row.read.2.1.ordinals.count token = 0 :=
        List.count_eq_zero.2 fun h => hordinal (List.mem_flatMap.2 ⟨_, hcontent, h⟩)
      exact List.mem_flatMap.2 ⟨_, hcontent, hcount.1 (by omega)⟩
    · rw [Row.numbers_of_ends hhead hkeyword hrest] at hnumbers
      cases hnumbers
    · rw [hpassed token hmem] at hraw
      cases hraw

end Asm6502
