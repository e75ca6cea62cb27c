import Asm6502.Proofs.NumberTokens

/-!
# Lowered trees

The lines of a document are those of its text one by one.  What a concrete line is lowered to can be
said without the functions that lower it: every part stands for one part at the same place, an
operator for the one that its token spells, a name for a name and several names for the label that
they make, and a literal for the characters that stand in the text.
-/

namespace Asm6502

/-! ## Literals in a text -/

/-- A token whose characters stand at an offset of a text. -/
structure Token.StandsAt (text : List Char) (i : Nat) (token : Token) : Prop where
  start : token.span.start = .ofOffset text i
  literal : text.extract i (i + token.literal.length) = token.literal.toList

/-- A token of a string and the text in it: all that stands between its quotes, or all of the row
behind a quote that has no other. -/
inductive Token.Quotes (text : List Char) (token : Token) (body : List Char) : Prop where
  | closed {i : Nat} (place : token.StandsAt text i)
      (literal : token.literal.toList = '"' :: (body ++ ['"']))
      (inside : ∀ c ∈ body, c ≠ '"' ∧ isLineBreak c = false)
  | opened {i : Nat} (place : token.StandsAt text i) (literal : token.literal.toList = '"' :: body)
      (inside : ∀ c ∈ body, c ≠ '"' ∧ isLineBreak c = false)
      (ends : EndsRow (text.drop (i + token.literal.length)))

theorem tokenize_standsAt (text : String) : ∀ token ∈ (tokenize text).tokens,
    ∃ i, token.StandsAt text.toList i ∧ (token.kind = .stringLiteral ->
      token.kind.Writes token.literal.toList ∨
        OpenString token.literal.toList (text.toList.drop (i + token.literal.length))) := by
  intro token htoken
  rcases List.mem_append.1 htoken with htoken | htoken
  · obtain ⟨lexeme, hmem, hlexeme⟩ := List.mem_filterMap.1 htoken
    have hspelled := Lexeme.scan_spelled none .origin text.toList lexeme hmem
    obtain ⟨i, hstands⟩ := exists_standsAt_of_mem_scan text lexeme hmem
    have hliteral : token.literal.toList = lexeme.taken := by
      obtain ⟨shape, taken, start⟩ := lexeme
      cases shape <;> cases hlexeme <;> exact String.toList_ofList
    rw [← String.length_toList, hliteral]
    refine ⟨i, ⟨?_, ?_⟩, fun hkind => ?_⟩
    · rw [Lexeme.span_of_token? hlexeme, Lexeme.span_eq]
      exact hstands.start_eq
    · rw [← String.length_toList, hliteral]
      exact hstands.taken_eq
    · have hdescribes := hstands.describes
      obtain ⟨shape, taken, start⟩ := lexeme
      cases shape with
      | token kind =>
          cases hlexeme
          exact .inl hspelled
      | unclosedString => exact .inr hdescribes
      | _ => cases hlexeme
  · rw [List.mem_singleton.1 htoken]
    exact ⟨text.toList.length, ⟨Position.advance_origin _, by simp [Token.endOfText]⟩,
      fun hkind => nomatch hkind⟩

theorem Token.quotes_of_mem {text : String} {token : Token} (h : token ∈ (tokenize text).tokens)
    (hkind : token.kind = .stringLiteral) :
    ∃ body, token.Quotes text.toList body ∧
      Concrete.unquote token.literal = String.ofList body := by
  obtain ⟨i, hplace, hstring⟩ := tokenize_standsAt text token h
  rcases hstring hkind with hwrites | ⟨body, hliteral, hbody, hends⟩
  · obtain ⟨body, hliteral, hbody⟩ := hwrites.string hkind
    exact ⟨body, .closed hplace hliteral hbody, by simp [Concrete.unquote, hliteral]⟩
  · refine ⟨body, .opened hplace hliteral hbody hends, ?_⟩
    have hlast : body.getLast? ≠ some '"' :=
      fun hlast => (hbody '"' (List.mem_of_getLast? hlast)).1 rfl
    simp [Concrete.unquote, hliteral, hlast]

namespace Concrete

/-! ## Names -/

/-- The name that a word spells. -/
def nameOf (uri : Uri) (token : Token) : Identifier := ⟨token.literal, false, ⟨uri, token.span⟩⟩

theorem toIdentifier_of_isWord (uri : Uri) {token : Token} (h : token.kind.isWord = true) :
    toIdentifier uri token = nameOf uri token := by
  unfold toIdentifier nameOf
  revert h
  cases token.kind <;> simp [Token.Kind.isWord, Token.Kind.isKeyword]

theorem cover_eq_ends {first : Token} {others : List Token} (h : InOrder (first :: others)) :
    (Span.cover? ((first :: others).map Token.span)).getD .origin =
      first.span.union (others.getLastD first).span := by
  have htight := Tight.ends h
  refine Span.eq_of_inside (Span.coverOr_inside (by simp) (fun part hpart => ?_) _)
    (htight.least _ fun token htoken =>
      Span.inside_coverOr (List.mem_map_of_mem htoken) .origin)
  obtain ⟨token, htoken, rfl⟩ := List.mem_map.1 hpart
  exact htight.inside token htoken

/-! ## Expressions -/

def Expr.place (uri : Uri) (e : Expr) : Location := ⟨uri, e.span⟩

/-- An expression of a text and the value that it is lowered to: of the same shape, part by part,
and at the same place. -/
inductive Expr.LowersTo (text : List Char) (uri : Uri) : Expr -> Asm6502.Expr -> Prop where
  | number {token : Token} (h : token.kind.isNumber = true) :
      LowersTo text uri (.atom token)
        (.number token.literal (numberValue? token.literal) ((Expr.atom token).place uri))
  | string {token : Token} {body : List Char} (h : token.kind = .stringLiteral)
      (hbody : token.Quotes text body) :
      LowersTo text uri (.atom token) (.string (String.ofList body) ((Expr.atom token).place uri))
  | char {token : Token} {c : Char} {i : Nat} (h : token.kind = .charLiteral)
      (hplace : token.StandsAt text i) (hliteral : token.literal.toList = ['\'', c]) :
      LowersTo text uri (.atom token) (.char c ((Expr.atom token).place uri))
  | programCounter {token : Token}
      (h : token.kind ∈ [Token.Kind.dot, .doubleDot, .tripleDot, .star]) :
      LowersTo text uri (.atom token)
        (.identifier ⟨token.literal, true, (Expr.atom token).place uri⟩)
  | name {token : Token} (h : token.kind.isWord = true) :
      LowersTo text uri (.label [token])
        (.identifier ⟨token.literal, false, (Expr.label [token]).place uri⟩)
  | dynamicLabel {first second : Token} {others : List Token}
      (h : ∀ token ∈ first :: second :: others, token.kind.isWord = true) :
      LowersTo text uri (.label (first :: second :: others))
        (.dynamicLabel ⟨(first :: second :: others).map (nameOf uri),
          (Expr.label (first :: second :: others)).place uri⟩)
  | macroArgument {opening number closing : Token} (h : number.kind = .decimal) :
      LowersTo text uri (.macroArgument opening number closing)
        (.macroArgument (ordinalValue number.literal)
          ((Expr.macroArgument opening number closing).place uri))
  | unary {operator : Token} {op : UnaryOp} {operand : Expr} {value : Asm6502.Expr}
      (hop : op.sign = operator.literal) (h : LowersTo text uri operand value) :
      LowersTo text uri (.unary operator operand)
        (.unary op value ((Expr.unary operator operand).place uri))
  | binary {operator : Token} {op : BinaryOp} {left right : Expr} {first second : Asm6502.Expr}
      (hop : op.sign = operator.literal) (hleft : LowersTo text uri left first)
      (hright : LowersTo text uri right second) :
      LowersTo text uri (.binary left operator right)
        (.binary op first second ((Expr.binary left operator right).place uri))
  | round {opening closing : Token} {inner : Expr} {value : Asm6502.Expr}
      (h : LowersTo text uri inner value) :
      LowersTo text uri (.round opening inner closing)
        (.brackets .round value ((Expr.round opening inner closing).place uri))
  | square {opening closing : Token} {inner : Expr} {value : Asm6502.Expr}
      (h : LowersTo text uri inner value) :
      LowersTo text uri (.square opening inner closing)
        (.brackets .square value ((Expr.square opening inner closing).place uri))

theorem lowersTo_ofAtom {text : String} (uri : Uri) {token : Token}
    (htoken : token ∈ (tokenize text).tokens) (hatom : isAtom token.kind = true) :
    (Expr.atom token).LowersTo text.toList uri (ofAtom uri token) := by
  unfold ofAtom
  dsimp only
  by_cases hnumber : token.kind.isNumber = true
  · rw [if_pos hnumber]
    exact .number hnumber
  rw [if_neg hnumber]
  by_cases hstring : token.kind = .stringLiteral
  · obtain ⟨body, hquotes, hbody⟩ := Token.quotes_of_mem htoken hstring
    rw [if_pos hstring, hbody]
    exact .string hstring hquotes
  rw [if_neg hstring]
  by_cases hchar : token.kind = .charLiteral
  · obtain ⟨i, hplace, -⟩ := tokenize_standsAt text token htoken
    obtain ⟨c, hliteral⟩ := ((tokenize_writes text token htoken).resolve_left hstring).char hchar
    rw [if_pos hchar, quotedChar?, hliteral]
    exact .char hchar hplace hliteral
  rw [if_neg hchar]
  have hcounter : token.kind ∈ [Token.Kind.dot, .doubleDot, .tripleDot, .star] := by
    revert hatom hnumber hstring hchar
    cases token.kind <;> decide
  have hidentifier : toIdentifier uri token = ⟨token.literal, true, ⟨uri, token.span⟩⟩ := by
    unfold toIdentifier
    simp only [List.mem_cons, List.not_mem_nil, or_false] at hcounter
    rcases hcounter with h | h | h | h <;> rw [h]
  rw [hidentifier]
  exact .programCounter hcounter

theorem lowersTo_label {text : List Char} (uri : Uri) {first : Token} {others : List Token}
    (horder : InOrder (first :: others))
    (hwords : ∀ word ∈ first :: others, word.kind.isWord = true) :
    (Expr.label (first :: others)).LowersTo text uri
      ((Expr.label (first :: others)).lower uri) := by
  have hcover := cover_eq_ends horder
  cases others with
  | nil =>
      have hspan : first.span = (Expr.label [first]).span := hcover
      have hidentifier := toIdentifier_of_isWord uri (hwords first List.mem_cons_self)
      rw [nameOf, hspan] at hidentifier
      rw [Expr.lower, hidentifier]
      exact .name (hwords first List.mem_cons_self)
  | cons second others =>
      have hnames : (first :: second :: others).map (toIdentifier uri) =
          (first :: second :: others).map (nameOf uri) :=
        List.map_congr_left fun token htoken => toIdentifier_of_isWord uri (hwords token htoken)
      have hlabel : toDynamicLabel uri (first :: second :: others) =
          ⟨(first :: second :: others).map (nameOf uri),
            (Expr.label (first :: second :: others)).place uri⟩ := by
        rw [toDynamicLabel, hnames, hcover]
        rfl
      show Expr.LowersTo text uri _ (.dynamicLabel (toDynamicLabel uri (first :: second :: others)))
      rw [hlabel]
      exact .dynamicLabel hwords

theorem Expr.Spells.lowersTo {text : String} (uri : Uri) {e : Expr} {tokens : List Token}
    {inBrackets : Bool} (h : e.Spells tokens) (hcanonical : e.Canonical inBrackets)
    (hsub : tokens.Sublist (tokenize text).tokens) :
    e.LowersTo text.toList uri (e.lower uri) := by
  induction h generalizing inBrackets with
  | atom hatom => exact lowersTo_ofAtom uri (hsub.subset List.mem_cons_self) hatom
  | label hfirst hjoined =>
      refine lowersTo_label uri ?_ (List.forall_mem_cons.2 ⟨hfirst, hjoined.isWord⟩)
      exact (tokenize_inOrder text).sublist ((hjoined.sublist.cons_cons _).trans hsub)
  | macroArgument _ hnumber _ => exact .macroArgument hnumber
  | @unary operator operand tokens h ih =>
      have hsigned := tokenize_signed text operator (hsub.subset List.mem_cons_self)
      obtain ⟨op, hop⟩ := Option.isSome_iff_exists.1 (hsigned.unary hcanonical.1)
      rw [Expr.lower, hop]
      exact .unary (by simpa using List.find?_some hop)
        (ih hcanonical.2.2 ((List.sublist_cons_self _ _).trans hsub))
  | @binary left right operator front back hleft hright ihleft ihright =>
      have hsigned := tokenize_signed text operator (hsub.subset (by simp))
      obtain ⟨op, hop⟩ := Option.isSome_iff_exists.1 (hsigned.binary hcanonical.2.1)
      rw [Expr.lower, hop]
      exact .binary (by simpa using List.find?_some hop)
        (ihleft hcanonical.1 ((List.sublist_append_left _ _).trans hsub))
        (ihright hcanonical.2.2.2
          (((List.sublist_cons_self _ _).trans (List.sublist_append_right _ _)).trans hsub))
  | round _ _ _ ih =>
      exact .round (ih hcanonical ((((List.sublist_append_left _ _).cons _)).trans hsub))
  | square _ _ _ ih =>
      exact .square (ih hcanonical ((((List.sublist_append_left _ _).cons _)).trans hsub))

/-! ## Lines -/

/-- A label of one fragment is a name, one of several is the label that they make, from the first
fragment to the last. -/
inductive Label.LowersTo (uri : Uri) : Label -> Asm6502.Label -> Prop where
  | plain {first : Token} {colon : Option Token} :
      LowersTo uri ⟨first, [], colon⟩ (.plain (toIdentifier uri first))
  | dynamic {first second : Token} {others : List Token} {colon : Option Token} :
      LowersTo uri ⟨first, second :: others, colon⟩
        (.dynamic ⟨(first :: second :: others).map (toIdentifier uri),
          ⟨uri, first.span.union ((second :: others).getLastD first).span⟩⟩)

theorem Label.MadeOf.lowersTo {text : String} (uri : Uri) {label : Label}
    (h : label.MadeOf (tokenize text).tokens) : label.LowersTo uri (toLabel uri label) := by
  have hcover := cover_eq_ends
    (h.fragments_inOrder (tokenize_inOrder text) (tokenize_regular text).1)
  obtain ⟨first, others, colon⟩ := label
  cases others with
  | nil => exact .plain
  | cons second others =>
      have hlabel : toLabel uri ⟨first, second :: others, colon⟩ =
          .dynamic ⟨(first :: second :: others).map (toIdentifier uri),
            ⟨uri, first.span.union ((second :: others).getLastD first).span⟩⟩ := by
        rw [← hcover]
        rfl
      rw [hlabel]
      exact .dynamic

section Lines

variable (text : List Char) (uri : Uri)

structure Argument.LowersTo (argument : Argument) (lowered : Asm6502.Argument) : Prop where
  mode : lowered.mode = argument.mode
  value : argument.value.LowersTo text uri lowered.value
  location : lowered.location = ⟨uri, argument.span⟩

structure Command.LowersTo (command : Command) (lowered : Asm6502.Command) : Prop where
  name : lowered.name = command.name.map (toIdentifier uri)
  extension : lowered.extension = command.extension.bind fun ext => Extension.ofSuffix? ext.literal
  arguments : List.Forall₂ (Argument.LowersTo text uri) command.arguments lowered.arguments
  location : lowered.location = ⟨uri, command.span⟩

structure Margin.LowersTo (margin : Margin) (lowered : Asm6502.Margin) : Prop where
  label : Option.Rel (Label.LowersTo uri) margin.label lowered.label
  comment : lowered.comment = margin.comment.map (toComment uri)
  location : lowered.location = ⟨uri, margin.span⟩

/-- A line is a line of the same kind, and the lines inside it are the lines inside the other, one
by one. -/
inductive Line.LowersTo : Line -> Asm6502.Line -> Prop where
  | command {margin : Margin} {front : Asm6502.Margin} {content : Option Command}
      {lowered : Option Asm6502.Command} (hmargin : margin.LowersTo uri front)
      (hcontent : Option.Rel (Command.LowersTo text uri) content lowered) :
      LowersTo (.command margin content) (.command front lowered)
  | macroBlock {margin : Margin} {front : Asm6502.Margin} {block : MacroBlock}
      (hmargin : margin.LowersTo uri front) :
      LowersTo (.macroBlock margin block)
        (.macroBlock front ⟨block.name.map (toIdentifier uri), block.body, ⟨uri, block.span⟩⟩)
  | conditional {margin : Margin} {front : Asm6502.Margin} {keyword : Token}
      {condition : Option Expr} {value : Option Asm6502.Expr} {thenLines elseLines : List Line}
      {elseKeyword ending : Option Token} {span : Span}
      {thenLowered elseLowered : List Asm6502.Line}
      (hmargin : margin.LowersTo uri front)
      (hcondition : Option.Rel (Expr.LowersTo text uri) condition value)
      (hthen : List.Forall₂ LowersTo thenLines thenLowered)
      (helse : List.Forall₂ LowersTo elseLines elseLowered) :
      LowersTo (.conditional margin keyword condition thenLines elseKeyword elseLines ending span)
        (.conditional front (conditionKind keyword) value thenLowered elseLowered ⟨uri, span⟩)
  | repetition {margin : Margin} {front : Asm6502.Margin} {keyword : Token} {count : Option Expr}
      {value : Option Asm6502.Expr} {body : List Line} {ending : Option Token} {span : Span}
      {lowered : List Asm6502.Line} (hmargin : margin.LowersTo uri front)
      (hcount : Option.Rel (Expr.LowersTo text uri) count value)
      (hbody : List.Forall₂ LowersTo body lowered) :
      LowersTo (.repetition margin keyword count body ending span)
        (.repetition front value lowered ⟨uri, span⟩)

def Part.Lowers : Part -> Prop
  | .label c => c.LowersTo uri (toLabel uri c)
  | .value e => e.LowersTo text uri (e.lower uri)

end Lines

variable {text : List Char} {uri : Uri}

theorem optionRel_map {α β : Type} {r : α -> β -> Prop} {f : α -> β} {x : Option α}
    (h : ∀ a ∈ x, r a (f a)) : Option.Rel r x (x.map f) := by
  cases x with
  | none => exact .none
  | some a => exact .some (h a rfl)

theorem forall₂_map {α β : Type} {r : α -> β -> Prop} {f : α -> β} {l : List α}
    (h : ∀ a ∈ l, r a (f a)) : List.Forall₂ r l (l.map f) :=
  List.forall₂_map_right_iff.2 (List.forall₂_same.2 h)

theorem Margin.lowersTo {margin : Margin}
    (h : ∀ part ∈ labelParts margin.label, part.Lowers text uri) :
    margin.LowersTo uri (margin.lower uri) where
  label := optionRel_map fun _ hlabel =>
    h _ (List.mem_map_of_mem (Option.mem_toList.2 hlabel))
  comment := rfl
  location := rfl

theorem Command.lowersTo {command : Command} (h : ∀ part ∈ command.parts, part.Lowers text uri) :
    command.LowersTo text uri (command.lower uri) where
  name := rfl
  extension := rfl
  arguments := forall₂_map fun _ hargument => ⟨rfl, h _ (List.mem_map_of_mem hargument), rfl⟩
  location := rfl

theorem value_lowersTo {value : Option Expr} (h : ∀ part ∈ valueParts value, part.Lowers text uri) :
    Option.Rel (Expr.LowersTo text uri) value (value.map (Expr.lower uri)) :=
  optionRel_map fun _ he => h _ (mem_valueParts.2 he)

theorem Line.From.lowersTo {plays : Role -> Prop} {comments : List Token} {line : Line}
    (h : line.From plays comments) (hparts : ∀ part ∈ line.parts, part.Lowers text uri) :
    line.LowersTo text uri (line.lower uri) := by
  have hlines {lines : List Line}
      (ih : ∀ line ∈ lines, (∀ part ∈ line.parts, part.Lowers text uri) ->
        line.LowersTo text uri (line.lower uri))
      (hall : ∀ part ∈ Line.partsAll lines, part.Lowers text uri) :
      List.Forall₂ (Line.LowersTo text uri) lines (lowerAll uri lines) := by
    rw [lowerAll_eq_map]
    refine forall₂_map fun line hline => ih line hline fun part hpart => hall part ?_
    rw [Line.partsAll_eq_flatMap]
    exact List.mem_flatMap.2 ⟨line, hline, hpart⟩
  induction h with
  | command =>
      obtain ⟨hlabel, hcontent⟩ := List.forall_mem_append.1 hparts
      refine .command (Margin.lowersTo hlabel) (optionRel_map fun c hc => Command.lowersTo ?_)
      exact fun part hpart => hcontent part (List.mem_flatMap.2 ⟨c, Option.mem_toList.2 hc, hpart⟩)
  | macroBlock => exact .macroBlock (Margin.lowersTo hparts)
  | conditional _ _ _ _ _ _ _ _ ihthen ihelse =>
      obtain ⟨hhead, hinner⟩ := List.forall_mem_append.1 hparts
      obtain ⟨hlabel, hcondition⟩ := List.forall_mem_append.1 hhead
      obtain ⟨hthen, helse⟩ := List.forall_mem_append.1 hinner
      exact .conditional (Margin.lowersTo hlabel) (value_lowersTo hcondition) (hlines ihthen hthen)
        (hlines ihelse helse)
  | repetition _ _ _ _ _ _ ih =>
      obtain ⟨hhead, hbody⟩ := List.forall_mem_append.1 hparts
      obtain ⟨hlabel, hcount⟩ := List.forall_mem_append.1 hhead
      exact .repetition (Margin.lowersTo hlabel) (value_lowersTo hcount) (hlines ih hbody)

theorem lowers_of_mem_parts (text : String) (uri : Uri) {part : Part}
    (h : part ∈ Line.partsAll (ConcreteFile.ofSource text).lines) :
    part.Lowers text.toList uri := by
  have hstands := ofTokens_parts_standIn (tokenize text).tokens (tokenize text).comments text part h
  cases part with
  | label label => exact hstands.1.lowersTo uri
  | value e =>
      obtain ⟨row, -, hpart⟩ := exists_row_of_mem_parts h
      obtain ⟨inBrackets, hcanonical⟩ := (Row.readAs_of_mem_parts hpart).canonical
      obtain ⟨⟨taken, hsub, hspells⟩, -⟩ := hstands
      exact hspells.lowersTo uri hcanonical hsub

end Concrete

/-- Lowering keeps the tree of every text, whatever its faults.  The lines of its document are the
lines that were read, one by one and in order, and so are the lines of every block and the arguments
of every command.  Each expression has the shape and the place of the one that was read, with the
operators that its tokens spell; characters and strings are what stands in the text. -/
theorem Document.ofText_lowersTo (text : String) (uri : Uri) :
    List.Forall₂ (Concrete.Line.LowersTo text.toList uri) (ConcreteFile.ofSource text).lines
        (ofText text uri).file.lines ∧
      (ofText text uri).file.location = ⟨uri, (ConcreteFile.ofSource text).span⟩ := by
  refine ⟨?_, rfl⟩
  have hfile : (ofText text uri).file.lines =
      (ConcreteFile.ofSource text).lines.map (Concrete.Line.lower uri) :=
    Concrete.lowerAll_eq_map uri _
  rw [hfile]
  refine Concrete.forall₂_map fun line hline => ?_
  refine (ConcreteFile.ofTokens_from _ (tokenize text).comments text line hline).lowersTo ?_
  intro part hpart
  refine Concrete.lowers_of_mem_parts text uri ?_
  rw [Concrete.Line.partsAll_eq_flatMap]
  exact List.mem_flatMap.2 ⟨line, hline, hpart⟩

end Asm6502
