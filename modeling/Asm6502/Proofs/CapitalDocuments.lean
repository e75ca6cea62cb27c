import Asm6502.Proofs.LetterCase
import Asm6502.Proofs.RewordedLines
import Asm6502.Proofs.SourceRows

/-!
# Documents in capitals

A text in capitals is read as the same document: the names, texts, comments, macro bodies and
characters in it are in capitals, and everything else is equal, down to the places of all parts and
the values of all numbers.
-/

namespace Asm6502

/-! ## What is in capitals -/

def Identifier.upcased (id : Identifier) : Identifier := { id with name := upcase id.name }

def DynamicLabel.upcased (label : DynamicLabel) : DynamicLabel :=
  { label with fragments := label.fragments.map Identifier.upcased }

def Expr.upcased : Expr -> Expr
  | .number text value location => .number (upcase text) value location
  | .identifier id => .identifier id.upcased
  | .dynamicLabel label => .dynamicLabel label.upcased
  | .string value location => .string (upcase value) location
  | .char value location => .char value.toUpper location
  | .macroArgument ordinal location => .macroArgument ordinal location
  | .unary op operand location => .unary op operand.upcased location
  | .binary op left right location => .binary op left.upcased right.upcased location
  | .brackets kind inner location => .brackets kind inner.upcased location

def Label.upcased : Label -> Label
  | .plain id => .plain id.upcased
  | .dynamic label => .dynamic label.upcased

def Argument.upcased (argument : Argument) : Argument :=
  { argument with value := argument.value.upcased }

def Command.upcased (command : Command) : Command :=
  { command with
    name := command.name.map Identifier.upcased
    arguments := command.arguments.map Argument.upcased }

def MacroBlock.upcased (block : MacroBlock) : MacroBlock :=
  { block with name := block.name.map Identifier.upcased, body := upcase block.body }

def Comment.upcased (comment : Comment) : Comment := { comment with text := upcase comment.text }

def Margin.upcased (margin : Margin) : Margin :=
  { margin with
    label := margin.label.map Label.upcased
    comment := margin.comment.map Comment.upcased }

mutual

def Line.upcased : Line -> Line
  | .command margin c => .command margin.upcased (c.map Command.upcased)
  | .macroBlock margin block => .macroBlock margin.upcased block.upcased
  | .conditional margin kind condition thenLines elseLines location =>
      .conditional margin.upcased kind (condition.map Expr.upcased) (Line.upcasedAll thenLines)
        (Line.upcasedAll elseLines) location
  | .repetition margin count body location =>
      .repetition margin.upcased (count.map Expr.upcased) (Line.upcasedAll body) location

def Line.upcasedAll : List Line -> List Line
  | [] => []
  | line :: lines => line.upcased :: Line.upcasedAll lines

end

def File.upcased (file : File) : File := { file with lines := Line.upcasedAll file.lines }

/-- Faults of the grammar quote tokens; faults of the text quote no letters. -/
def ParseError.upcased : ParseError -> ParseError
  | .unexpectedToken expected found => .unexpectedToken expected found.upcased
  | .unterminatedBlock expected opened => .unterminatedBlock expected opened.upcased
  | .unknownExtension token => .unknownExtension token.upcased
  | .nestingTooDeep token => .nestingTooDeep token.upcased

def SourceError.upcased : SourceError -> SourceError
  | .lex error => .lex error
  | .parse error => .parse error.upcased

def Document.upcased (document : Document) : Document :=
  { document with
    file := document.file.upcased
    errors := document.errors.map SourceError.upcased }

/-! ## Capitals as a rewording -/

theorem unifiedName_upcase (text : String) : unifiedName (upcase text) = unifiedName text := by
  have hname := Lexeme.unifiedName_capitals text.toList
  rwa [← toList_upcase, String.ofList_toList, String.ofList_toList] at hname

theorem Extension.ofSuffix?_upcase (text : String) :
    Extension.ofSuffix? (upcase text) = Extension.ofSuffix? text := by
  rw [ofSuffix?, unifiedName_upcase]
  rfl

namespace Concrete

theorem endingFragment_upcased (token : Token) :
    endingFragment token.upcased = (endingFragment token).upcased := by
  simp only [endingFragment, Token.upcased, toList_upcase, drop_capitals, upcase_ofList]

theorem head?_upcased (token : Token) :
    token.upcased.literal.toList.head? = some '.' ↔ token.literal.toList.head? = some '.' := by
  have hdot := Lexeme.head?_capitals_beq '.' (by decide) token.literal.toList
  rw [Bool.eq_iff_iff, beq_iff_eq, beq_iff_eq, ← toList_upcase] at hdot
  exact hdot

def letterCase : Rewording :=
  .inPlace Token.upcased upcase (fun _ => rfl) (fun _ => rfl) (fun token _ => head?_upcased token)
    (fun token _ => by rw [Token.upcased, Extension.ofSuffix?_upcase])
    (fun token _ => endingFragment_upcased token)

theorem error_letterCase (error : ParseError) : letterCase.error error = error.upcased := by
  cases error <;> rfl

theorem inFront_capitals (c : Char) (rows : List (List Char)) :
    inFront c.toUpper (rows.map capitals) = (inFront c rows).map capitals := by
  cases rows <;> rfl

theorem sourceRows_capitals (text : List Char) :
    sourceRows (capitals text) = (sourceRows text).map capitals := by
  induction text with
  | nil => rfl
  | cons c rest ih =>
      have hfeed := Lexeme.head?_capitals_beq '\n' (by decide) rest
      rw [Bool.eq_iff_iff, beq_iff_eq, beq_iff_eq] at hfeed
      rw [capitals_cons, sourceRows_cons, sourceRows_cons, ih]
      simp only [toUpper_eq_iff (show '\r'.isAlpha = false by decide), hfeed, isLineBreak_toUpper,
        inFront_capitals]
      split
      · rfl
      split
      · rfl
      · rfl

theorem capitals_flatten (rows : List (List Char)) :
    capitals rows.flatten = (rows.map capitals).flatten :=
  List.map_flatten ..

theorem sourceLike_upcase (source : String) :
    letterCase.SourceLike (sourceRows source.toList) (sourceRows (upcase source).toList) := by
  rw [toList_upcase, sourceRows_capitals]
  refine ⟨List.length_map .., ?_⟩
  intro first stop
  show _ = upcase (String.ofList _)
  rw [upcase_ofList, capitals_flatten, rowText, List.map_take, List.map_drop]

end Concrete

/-! ## Values of tokens in capitals -/

theorem digitValue?_toUpper {base : Nat} (c : Char) :
    digitValue? base c.toUpper = digitValue? base c := by
  by_cases hsmall : 97 ≤ c.toNat ∧ c.toNat ≤ 122
  · have hcode := toNat_toUpper hsmall
    have hle (a b : Char) : a ≤ b ↔ a.toNat ≤ b.toNat := Iff.rfl
    have h0 : '0'.toNat = 48 := rfl
    have h9 : '9'.toNat = 57 := rfl
    have ha : 'a'.toNat = 97 := rfl
    have hf : 'f'.toNat = 102 := rfl
    have hA : 'A'.toNat = 65 := rfl
    have hF : 'F'.toNat = 70 := rfl
    -- No small letter and no capital is a figure, and the two stand 32 apart.
    have hfigure : ¬ (48 ≤ c.toNat ∧ c.toNat ≤ 57) := by omega
    have hfigure' : ¬ (48 ≤ c.toUpper.toNat ∧ c.toUpper.toNat ≤ 57) := by omega
    have hcapital : ¬ (65 ≤ c.toNat ∧ c.toNat ≤ 70) := by omega
    have hsmall' : ¬ (97 ≤ c.toUpper.toNat ∧ c.toUpper.toNat ≤ 102) := by omega
    have hsame : (65 ≤ c.toUpper.toNat ∧ c.toUpper.toNat ≤ 70) ↔
        (97 ≤ c.toNat ∧ c.toNat ≤ 102) := by omega
    have hvalue : c.toUpper.toNat - 55 = c.toNat - 87 := by omega
    simp only [digitValue?, hle, h0, h9, ha, hf, hA, hF, hfigure, hfigure', hcapital, hsmall',
      hsame, hvalue, if_false]
  · rw [toUpper_of_not_small hsmall]

theorem readDigits?_capitals (base value : Nat) (digits : List Char) :
    readDigits? base value (capitals digits) = readDigits? base value digits := by
  induction digits generalizing value with
  | nil => rfl
  | cons c rest ih => simp only [capitals_cons, readDigits?, digitValue?_toUpper, ih]

theorem isEmpty_capitals (text : List Char) : (capitals text).isEmpty = text.isEmpty := by
  cases text <;> rfl

theorem baseAndDigits_capitals (text : List Char) :
    baseAndDigits (capitals text) =
      ((baseAndDigits text).1, capitals (baseAndDigits text).2) := by
  cases text with
  | nil => rfl
  | cons c rest =>
      by_cases hpercent : c = '%'
      · subst hpercent
        rfl
      by_cases hdollar : c = '$'
      · subst hdollar
        rfl
      by_cases hzero : c = '0'
      · subst hzero
        rfl
      have h1 := toUpper_ne (by decide) hpercent
      have h2 := toUpper_ne (by decide) hdollar
      have h3 := toUpper_ne (by decide) hzero
      simp [baseAndDigits, hpercent, hdollar, hzero, h1, h2, h3]

theorem numberValue?_upcase (text : String) : numberValue? (upcase text) = numberValue? text := by
  simp only [numberValue?, toList_upcase, baseAndDigits_capitals, isEmpty_capitals,
    readDigits?_capitals]

theorem ordinalValue_upcase (text : String) : ordinalValue (upcase text) = ordinalValue text := by
  unfold ordinalValue
  rw [toList_upcase]
  cases text.toList with
  | nil => rfl
  | cons c rest =>
      by_cases hplus : c = '+'
      · subst hplus
        simp [show '+'.toUpper = '+' from rfl, isEmpty_capitals, readDigits?_capitals]
      · have hplus' : c.toUpper ≠ '+' := toUpper_ne (by decide) hplus
        have hdigits := readDigits?_capitals 10 0 (c :: rest)
        rw [capitals_cons] at hdigits
        simp [hplus, hplus', hdigits]

theorem quotedChar?_upcase (text : String) :
    quotedChar? (upcase text) = (quotedChar? text).map Char.toUpper := by
  rw [quotedChar?, quotedChar?, toList_upcase]
  match text.toList with
  | [] => rfl
  | [c] => simp
  | [c, d] =>
      by_cases hquote : c = '\''
      · subst hquote
        rfl
      · have hquote' : c.toUpper ≠ '\'' := toUpper_ne (by decide) hquote
        simp [hquote, hquote']
  | c :: d :: e :: rest => simp

theorem upcase_beq_of_no_letters {sign : String} (h : ∀ c ∈ sign.toList, c.isAlpha = false)
    (text : String) : (sign == upcase text) = (sign == text) := by
  have hlists : ∀ (sign text : List Char), (∀ c ∈ sign, c.isAlpha = false) ->
      (sign = capitals text ↔ sign = text) := by
    intro sign text h
    induction text generalizing sign with
    | nil => rfl
    | cons c rest ih =>
        cases sign with
        | nil => simp
        | cons d sign =>
            have hd := h d List.mem_cons_self
            have hrest := ih sign fun e he => h e (List.mem_cons_of_mem d he)
            simp only [capitals_cons, List.cons.injEq, hrest]
            rw [eq_comm, toUpper_eq_iff hd, eq_comm]
  rw [Bool.eq_iff_iff, beq_iff_eq, beq_iff_eq, ← String.toList_inj, ← String.toList_inj,
    toList_upcase]
  exact hlists _ _ h

theorem UnaryOp.ofSign?_upcase (text : String) :
    UnaryOp.ofSign? (upcase text) = UnaryOp.ofSign? text := by
  have hsign (op : UnaryOp) : ∀ c ∈ op.sign.toList, c.isAlpha = false := by
    cases op <;> simp [sign]
  simp only [ofSign?, upcase_beq_of_no_letters (hsign _)]

theorem BinaryOp.ofSign?_upcase (text : String) :
    BinaryOp.ofSign? (upcase text) = BinaryOp.ofSign? text := by
  have hsign (op : BinaryOp) : ∀ c ∈ op.sign.toList, c.isAlpha = false := by
    cases op <;> simp [sign]
  simp only [ofSign?, upcase_beq_of_no_letters (hsign _)]

namespace Concrete

def openQuote : List Char -> List Char
  | '"' :: rest => rest
  | text => text

def closeQuote (text : List Char) : List Char :=
  if text.getLast? = some '"' then text.dropLast else text

theorem unquote_eq (literal : String) :
    unquote literal = String.ofList (closeQuote (openQuote literal.toList)) :=
  rfl

theorem openQuote_capitals (text : List Char) :
    openQuote (capitals text) = capitals (openQuote text) := by
  cases text with
  | nil => rfl
  | cons c rest =>
      by_cases hquote : c = '"'
      · subst hquote
        rfl
      · have hquote' : c.toUpper ≠ '"' := toUpper_ne (by decide) hquote
        simp [openQuote, hquote, hquote']

theorem closeQuote_capitals (text : List Char) :
    closeQuote (capitals text) = capitals (closeQuote text) := by
  have hsame : (capitals text).getLast? = some '"' ↔ text.getLast? = some '"' := by
    rw [capitals, List.getLast?_map]
    cases text.getLast? with
    | none => simp
    | some c => simpa using toUpper_eq_iff (by decide)
  simp only [closeQuote, hsame]
  split
  · exact List.map_dropLast.symm
  · rfl

theorem unquote_upcase (literal : String) :
    unquote (upcase literal) = upcase (unquote literal) := by
  rw [unquote_eq, unquote_eq, toList_upcase, openQuote_capitals, closeQuote_capitals, upcase_ofList]

theorem dropWhile_isBlank_capitals (text : List Char) :
    (capitals text).dropWhile isBlank = capitals (text.dropWhile isBlank) := by
  have hsame : isBlank ∘ Char.toUpper = isBlank := funext isBlank_toUpper
  rw [capitals, List.dropWhile_map, hsame]
  rfl

theorem reverse_capitals (text : List Char) : (capitals text).reverse = capitals text.reverse :=
  List.map_reverse.symm

theorem trim_capitals (text : List Char) : trim (capitals text) = capitals (trim text) := by
  simp only [trim, trimRight, dropWhile_isBlank_capitals, reverse_capitals]

theorem dropMark_capitals (text : List Char) :
    dropMark ['/', '*'] (capitals text) = capitals (dropMark ['/', '*'] text) := by
  have hmark {mark : Char} (h : mark.isAlpha = false) (c : Char) :
      (mark == c.toUpper) = (mark == c) := by
    rw [Bool.eq_iff_iff, beq_iff_eq, beq_iff_eq, eq_comm, toUpper_eq_iff h, eq_comm]
  have hsame : ['/', '*'].isPrefixOf (capitals text) = ['/', '*'].isPrefixOf text := by
    match text with
    | [] => rfl
    | [c] => simp [List.isPrefixOf]
    | c :: d :: rest =>
        simp [List.isPrefixOf, hmark (show '/'.isAlpha = false by decide),
          hmark (show '*'.isAlpha = false by decide)]
  rw [dropMark, hsame, drop_capitals, dropMark]
  split <;> rfl

theorem toComment_upcased (uri : Uri) (token : Token) :
    toComment uri token.upcased = (toComment uri token).upcased := by
  have hliteral : token.upcased.literal.toList = capitals token.literal.toList :=
    toList_upcase token.literal
  unfold toComment
  rw [hliteral]
  have hblock (text : List Char) :
      String.ofList
          (trim (dropMark ['/', '*'] (dropMark ['/', '*'] (capitals text)).reverse).reverse) =
        upcase (String.ofList
          (trim (dropMark ['/', '*'] (dropMark ['/', '*'] text).reverse).reverse)) := by
    simp only [dropMark_capitals, reverse_capitals, trim_capitals, upcase_ofList]
  cases token.literal.toList with
  | nil => rfl
  | cons c rest =>
      by_cases hmark : c = ';'
      · subst hmark
        have hblanks : (capitals rest).takeWhile isBlank = capitals (rest.takeWhile isBlank) := by
          have hsame : isBlank ∘ Char.toUpper = isBlank := funext isBlank_toUpper
          rw [capitals, List.takeWhile_map, hsame]
          rfl
        simp only [capitals_cons, show ';'.toUpper = ';' from rfl, hblanks, length_capitals,
          trim_capitals, Comment.upcased, upcase_ofList]
        rfl
      · have hmark' : c.toUpper ≠ ';' := toUpper_ne (by decide) hmark
        have htext := hblock (c :: rest)
        rw [capitals_cons] at htext
        simp [hmark, hmark', Comment.upcased, htext, Token.upcased]

/-! ## Documents -/

theorem expr_span_letterCase (e : Expr) : (letterCase.expr e).span = e.span :=
  (letterCase.alike_expr e).symm

theorem ofAtom_upcased (uri : Uri) (token : Token) :
    ofAtom uri token.upcased = (ofAtom uri token).upcased := by
  have hkind : token.upcased.kind = token.kind := rfl
  have hliteral : token.upcased.literal = upcase token.literal := rfl
  unfold ofAtom
  rw [hkind, hliteral, numberValue?_upcase, unquote_upcase, quotedChar?_upcase]
  split
  · rfl
  split
  · rfl
  split
  · cases quotedChar? token.literal <;> rfl
  · rfl

theorem toDynamicLabel_upcased (uri : Uri) (fragments : List Token) :
    toDynamicLabel uri (fragments.map Token.upcased) = (toDynamicLabel uri fragments).upcased := by
  simp only [toDynamicLabel, DynamicLabel.upcased, List.map_map]
  rfl

theorem lower_expr (uri : Uri) (e : Expr) :
    (letterCase.expr e).lower uri = (e.lower uri).upcased := by
  induction e with
  | atom token => exact ofAtom_upcased uri token
  | label fragments =>
      match fragments with
      | [] => exact congrArg Asm6502.Expr.dynamicLabel (toDynamicLabel_upcased uri [])
      | [token] => rfl
      | first :: second :: rest =>
          exact congrArg Asm6502.Expr.dynamicLabel
            (toDynamicLabel_upcased uri (first :: second :: rest))
  | macroArgument opening number closing =>
      exact congrArg (Asm6502.Expr.macroArgument · _) (ordinalValue_upcase number.literal)
  | unary operator operand ih =>
      have hspan := expr_span_letterCase (.unary operator operand)
      have hsign : UnaryOp.ofSign? (letterCase.token operator).literal =
          UnaryOp.ofSign? operator.literal := UnaryOp.ofSign?_upcase operator.literal
      simp only [Rewording.expr] at hspan
      simp only [Rewording.expr, Expr.lower, hsign, ih, hspan]
      split <;> rfl
  | binary left operator right ihleft ihright =>
      have hspan := expr_span_letterCase (.binary left operator right)
      have hsign : BinaryOp.ofSign? (letterCase.token operator).literal =
          BinaryOp.ofSign? operator.literal := BinaryOp.ofSign?_upcase operator.literal
      simp only [Rewording.expr] at hspan
      simp only [Rewording.expr, Expr.lower, hsign, ihleft, ihright, hspan]
      split <;> rfl
  | round opening inner closing ih | square opening inner closing ih =>
      simp only [Rewording.expr, Expr.lower, ih]
      rfl

theorem lower_expr? (uri : Uri) (e : Option Expr) :
    (e.map letterCase.expr).map (Expr.lower uri) = (e.map (Expr.lower uri)).map (·.upcased) := by
  cases e with
  | none => rfl
  | some e => exact congrArg some (lower_expr uri e)

theorem lower_argument (uri : Uri) (argument : Argument) :
    (letterCase.argument argument).lower uri = (argument.lower uri).upcased := by
  have hspan : (letterCase.argument argument).span = argument.span :=
    (letterCase.alike_argument argument).symm
  have hmode : (letterCase.argument argument).mode = argument.mode := by
    cases argument with
    | address value ending => cases ending <;> rfl
    | _ => rfl
  have hvalue : (letterCase.argument argument).value = letterCase.expr argument.value := by
    cases argument <;> rfl
  rw [Argument.lower, hspan, hmode, hvalue, lower_expr]
  rfl

theorem toLabel_letterCase (uri : Uri) (label : Label) :
    toLabel uri (letterCase.label label) = (toLabel uri label).upcased := by
  obtain ⟨first, others, colon⟩ := label
  cases others with
  | nil => rfl
  | cons second rest =>
      exact congrArg Asm6502.Label.dynamic (toDynamicLabel_upcased uri (first :: second :: rest))

theorem map_toIdentifier_letterCase (uri : Uri) (name : Option Token) :
    (name.map letterCase.token).map (toIdentifier uri) =
      (name.map (toIdentifier uri)).map Identifier.upcased := by
  cases name <;> rfl

theorem lower_command {a b : Command} (uri : Uri) (h : letterCase.CommandLike a b) :
    b.lower uri = (a.lower uri).upcased := by
  have hspan : a.span = b.span := h.span
  have hname := map_toIdentifier_letterCase uri a.name
  have hextension : (a.extension.map letterCase.token).bind
        (fun ext => Extension.ofSuffix? ext.literal) =
      a.extension.bind fun ext => Extension.ofSuffix? ext.literal := by
    cases a.extension with
    | none => rfl
    | some ext =>
        have hliteral : (letterCase.token ext).literal = upcase ext.literal := rfl
        rw [Option.map_some, Option.bind_some, Option.bind_some, hliteral,
          Extension.ofSuffix?_upcase]
  have harguments : (a.arguments.map letterCase.argument).map (Argument.lower uri) =
      (a.arguments.map (Argument.lower uri)).map Asm6502.Argument.upcased := by
    simp only [List.map_map, Function.comp_def, lower_argument]
  simp only [Command.lower, Asm6502.Command.upcased, h.name, h.extension, h.arguments, ← hspan,
    hname, hextension, harguments]

theorem lower_margin {a b : Margin} (uri : Uri) (h : letterCase.MarginLike a b) :
    b.lower uri = (a.lower uri).upcased := by
  have hspan : a.span = b.span := h.span
  have hlabel : (a.label.map letterCase.label).map (toLabel uri) =
      (a.label.map (toLabel uri)).map Asm6502.Label.upcased := by
    simp only [Option.map_map, Function.comp_def, toLabel_letterCase]
  have hcomment : (a.comment.map letterCase.token).map (toComment uri) =
      (a.comment.map (toComment uri)).map Comment.upcased := by
    cases a.comment with
    | none => rfl
    | some comment => exact congrArg some (toComment_upcased uri comment)
  rw [Margin.lower, h.label, h.comment, ← hspan, hlabel, hcomment]
  rfl

theorem lower_macroBlock {a b : MacroBlock} (uri : Uri) (h : letterCase.MacroLike a b) :
    b.lower uri = (a.lower uri).upcased := by
  have hspan : a.span = b.span := h.span
  have hname := map_toIdentifier_letterCase uri a.name
  rw [MacroBlock.lower, h.name, h.body, ← hspan, hname]
  rfl

mutual

theorem lower_line {a b : Line} (uri : Uri) (h : letterCase.LineLike a b) :
    b.lower uri = (a.lower uri).upcased :=
  match h with
  | .bare hmargin => by
      rw [Line.lower, lower_margin uri hmargin]
      rfl
  | .command hmargin hcommand => by
      rw [Line.lower, lower_margin uri hmargin, Option.map_some, lower_command uri hcommand]
      rfl
  | .macroBlock hmargin hblock => by
      rw [Line.lower, lower_margin uri hmargin, lower_macroBlock uri hblock]
      rfl
  | .conditional hmargin hthen helse hspan => by
      rw [Line.lower, lower_margin uri hmargin, lower_expr?, lower_lines uri hthen,
        lower_lines uri helse, ← show _ = _ from hspan]
      rfl
  | .repetition hmargin hbody hspan => by
      rw [Line.lower, lower_margin uri hmargin, lower_expr?, lower_lines uri hbody,
        ← show _ = _ from hspan]
      rfl

theorem lower_lines {a b : List Line} (uri : Uri) (h : letterCase.LinesLike a b) :
    lowerAll uri b = Asm6502.Line.upcasedAll (lowerAll uri a) :=
  match h with
  | .nil => rfl
  | .cons hline hlines => by
      rw [lowerAll, lower_line uri hline, lower_lines uri hlines]
      rfl

end

theorem span_of_linesLike {a b : List Line} (h : letterCase.LinesLike a b) :
    a.map Line.span = b.map Line.span := by
  have hspans : List.Forall₂ Eq (a.map Line.span) (b.map Line.span) := h.alike
  rwa [List.forall₂_eq_eq_eq] at hspans

end Concrete

/-- Reading ignores the case of ASCII letters.  The tokens of a text in capitals are its tokens in
capitals, of the same kinds and at the same places, with the same faults; and its document is the
document of the text with names, texts, comments, macro bodies and characters in capitals. -/
theorem Document.ofText_upcase (text : String) (uri : Uri) :
    tokenize (upcase text) =
        { tokens := (tokenize text).tokens.map Token.upcased
          comments := (tokenize text).comments.map Token.upcased
          errors := (tokenize text).errors } ∧
      ofText (upcase text) uri = (ofText text uri).upcased := by
  have htokens := tokenize_upcase_eq text
  refine ⟨htokens, ?_⟩
  obtain ⟨hlines, herrors, hraw⟩ := Concrete.letterCase.ofTokens_map
    (exists_eof_mem_tokenize text) (tokenize text).comments (Concrete.sourceLike_upcase text)
  have hfile : (ConcreteFile.ofTokens ((tokenize text).tokens.map Token.upcased)
        ((tokenize text).comments.map Token.upcased) (upcase text)).lower uri =
      ((ConcreteFile.ofTokens (tokenize text).tokens (tokenize text).comments text).lower
        uri).upcased := by
    have hspan := Concrete.span_of_linesLike hlines
    have hlower := Concrete.lower_lines uri hlines
    simp only [ConcreteFile.lower, ConcreteFile.span, File.upcased]
    rw [hspan]
    exact congrArg (File.mk · _) hlower
  have hparse : Concrete.letterCase.error = ParseError.upcased := funext Concrete.error_letterCase
  rw [hparse] at herrors
  have htoken : Concrete.letterCase.token = Token.upcased := rfl
  rw [htoken] at herrors hraw
  simp only [ofText, upcased, htokens, hfile, herrors, hraw, List.map_append, List.map_map]
  rfl

end Asm6502
