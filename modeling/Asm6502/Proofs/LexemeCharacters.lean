import Asm6502.Expr
import Asm6502.Proofs.LexemePositions

/-!
# Characters of lexemes

A token is spelled like its kind.  A word is made of the characters of words and is a keyword or a
name, an index ending is a comma and one letter, an operator is its sign, a number starts with the
sign of its base, a character stands alone behind an apostrophe, and a closed string stands between
quotes.  A comment that starts with a semicolon stays on its row.
-/

namespace Asm6502

theorem isWordChar_comma : isWordChar ',' = false := by
  decide +kernel

/-- So a comma tells the names of dynamic labels from words, and no word is the program counter. -/
theorem IsWord.regular {w : List Char} (h : IsWord w) : ',' ∉ w ∧ w ≠ ['.'] := by
  cases w with
  | nil => cases h
  | cons first rest =>
      obtain ⟨hfirst, hrest⟩ := h
      refine ⟨fun hcomma => ?_, ?_⟩
      · rcases List.mem_cons.1 hcomma with rfl | hcomma
        · exact absurd (hfirst.1.symm.trans isWordChar_comma) (by decide)
        · exact absurd ((List.all_eq_true.1 hrest _ hcomma).symm.trans isWordChar_comma) (by decide)
      · rintro ⟨⟩
        exact hfirst rfl

/-- The characters of the tokens of a kind, if strings are closed. -/
structure Token.Kind.Writes (kind : Token.Kind) (taken : List Char) : Prop where
  word : kind.isWord = true -> IsWord taken ∧ kind = Lexeme.wordKind taken
  dot : kind = .dot -> taken = ['.']
  ending : kind = .commaX ∨ kind = .commaY ->
    ∃ c, taken = [',', c] ∧ (c.toUpper = 'X' ∨ c.toUpper = 'Y')
  binary : kind = .binary -> taken.head? = some '%'
  octal : kind = .octal -> taken.head? = some '0'
  decimal : kind = .decimal -> ∃ c, taken.head? = some c ∧ c.isDigit = true
  hex : kind = .hex -> taken.head? = some '$'
  char : kind = .charLiteral -> ∃ c, taken = ['\'', c]
  string : kind = .stringLiteral ->
    ∃ body, taken = '"' :: (body ++ ['"']) ∧ ∀ c ∈ body, c ≠ '"' ∧ isLineBreak c = false
  binarySign : kind.isBinarySign = true -> (BinaryOp.ofSign? (String.ofList taken)).isSome = true
  unarySign : kind.isUnarySign = true -> (UnaryOp.ofSign? (String.ofList taken)).isSome = true

namespace Lexeme

variable {kind : Token.Kind} {rest : List Char}

def Plain (kind : Token.Kind) : Prop :=
  kind ≠ .dot ∧ ¬ (kind = .commaX ∨ kind = .commaY) ∧ kind.isNumber = false ∧
    kind ≠ .charLiteral ∧ kind ≠ .stringLiteral

instance (kind : Token.Kind) : Decidable (Plain kind) :=
  inferInstanceAs (Decidable (_ ∧ _))

/-- A plain kind that is neither a word nor an operator. -/
def Punctuation (kind : Token.Kind) : Prop :=
  Plain kind ∧ kind.isWord = false ∧ kind.isBinarySign = false ∧ kind.isUnarySign = false

instance (kind : Token.Kind) : Decidable (Punctuation kind) :=
  inferInstanceAs (Decidable (_ ∧ _))

theorem Plain.writes {taken : List Char} (h : Plain kind)
    (hword : kind.isWord = true -> IsWord taken ∧ kind = wordKind taken)
    (hbinary : kind.isBinarySign = true -> (BinaryOp.ofSign? (String.ofList taken)).isSome = true)
    (hunary : kind.isUnarySign = true -> (UnaryOp.ofSign? (String.ofList taken)).isSome = true) :
    kind.Writes taken := by
  obtain ⟨hdot, hending, hnumber, hchar, hstring⟩ := h
  refine ⟨hword, fun h => absurd h hdot, fun h => absurd h hending, ?_, ?_, ?_, ?_,
    fun h => absurd h hchar, fun h => absurd h hstring, hbinary, hunary⟩
  all_goals
    rintro rfl
    cases hnumber

theorem Punctuation.writes (h : Punctuation kind) (taken : List Char) : kind.Writes taken := by
  obtain ⟨hplain, hword, hbinary, hunary⟩ := h
  exact hplain.writes (by simp [hword]) (by simp [hbinary]) (by simp [hunary])

/-- What is known of the characters of a shape from the characters alone. -/
def Shape.Spelled : Shape -> List Char -> Prop
  | .token kind, taken => kind.Writes taken
  | .comment, taken => taken.head? = some ';' -> ∀ c ∈ taken, isLineBreak c = false
  | _, _ => True

theorem plain_wordKind (w : List Char) : Plain (wordKind w) ∧
    (wordKind w).isBinarySign = false ∧ (wordKind w).isUnarySign = false := by
  unfold wordKind Token.Kind.ofKeyword?
  split <;> decide

section

variable {previous : Option Token.Kind} {taken : List Char} {shape : Shape}

theorem Worded.writes (h : Worded previous taken kind) : kind.Writes taken := by
  cases h with
  | @number first _ _ _ h =>
      cases kind with
      | binary | hex | octal | decimal =>
          constructor <;> intro hkind
          all_goals first
            | exact absurd hkind (by decide)
            | exact congrArg some h.1
            | exact ⟨first, rfl, h.1⟩
      | _ => exact h.elim
  | word h =>
      obtain ⟨hplain, hbinary, hunary⟩ := plain_wordKind taken
      exact hplain.writes (fun _ => ⟨h, rfl⟩) (by simp [hbinary]) (by simp [hunary])
  | dot => constructor <;> intro hkind <;> first | exact absurd hkind (by decide) | rfl
  | @commaX c hc | @commaY c hc =>
      constructor <;> intro hkind
      all_goals first
        | exact absurd hkind (by decide)
        | exact ⟨c, rfl, by simp [hc]⟩
  | parenCommaY => exact Punctuation.writes (by decide) _

theorem writes_of_sign {first : Char} {text : List Char} {length : Nat}
    (h : sign first text = (.token kind, length)) : kind.Writes (first :: text.take length) := by
  unfold sign at h
  split at h <;> cases h
  all_goals
    simp only [List.take_succ_cons, List.take_zero]
    exact Plain.writes (by decide) (by decide) (by decide) (by decide)

theorem Whole.spelled (h : Whole taken shape) : shape.Spelled taken := by
  cases h with
  | feed | returnFeed | tripleDot | commaXParen => exact Punctuation.writes (by decide) _
  | blockComment => nofun
  | @string body h =>
      constructor <;> intro hkind
      all_goals first
        | exact absurd hkind (by decide)
        | exact ⟨body, rfl, h⟩
  | @char c =>
      constructor <;> intro hkind <;> first | exact absurd hkind (by decide) | exact ⟨c, rfl⟩
  | sign h => exact writes_of_sign h

theorem Form.spelled (h : Form previous taken rest shape) : shape.Spelled taken := by
  cases h with
  | whole h => exact h.spelled
  | worded h => exact h.writes
  | rowed h =>
      cases h with
      | comment h => exact fun _ => List.forall_mem_cons.2 ⟨rfl, h⟩
      | openString | missingCharacter => trivial
  | openComment => trivial
  | carriageReturn | blanks | doubleDot | comma | parenRight =>
      exact Punctuation.writes (by decide) _
  | sign _ _ h =>
      cases shape with
      | token => exact writes_of_sign h
      | comment => unfold Lexeme.sign at h; split at h <;> cases h
      | _ => trivial

theorem scan_spelled (previous : Option Token.Kind) (start : Position) (text : List Char) :
    ∀ lexeme ∈ scan previous start text, lexeme.shape.Spelled lexeme.taken := by
  have hscans := scan_scans previous start text
  generalize scan previous start text = lexemes at hscans ⊢
  induction hscans with
  | nil => simp
  | cons h _ ih => exact List.forall_mem_cons.2 ⟨h.spelled, ih⟩

end

end Lexeme

/-! ## Tokens and comments of a text -/

theorem Position.advance_of_no_break (p : Position) {text : List Char}
    (h : ∀ c ∈ text, isLineBreak c = false) :
    p.advance text = ⟨p.line, p.column + text.length⟩ := by
  induction text generalizing p with
  | nil => rfl
  | cons c rest ih =>
      have hc := h c List.mem_cons_self
      have hreturn : c ≠ '\r' := by
        rintro rfl
        cases hc
      have hstep : p.advance (c :: rest) = p.nextColumn.advance rest := by
        rw [advance]
        · rintro rfl
          cases hc
        · exact fun _ h _ => hreturn h
        · exact hreturn
      rw [hstep, ih p.nextColumn fun d hd => h d (List.mem_cons_of_mem c hd)]
      simp only [nextColumn, List.length_cons, Position.mk.injEq, true_and]
      omega

/-- A token of a text: it ends no earlier than it starts, the letter of an index ending stands
behind its comma, and a word holds no comma and is not a dot. -/
structure Token.Regular (token : Token) : Prop where
  proper : token.span.start ≤ token.span.stop
  ending : token.kind = .commaX ∨ token.kind = .commaY ->
    token.span.start.nextColumn ≤ token.span.stop
  word : token.kind.isWord = true -> ',' ∉ token.literal.toList ∧ token.literal ≠ "."
  dot : token.kind = .dot -> token.literal = "."

/-- A comment of a text: it ends no earlier than it starts, and on the row where it starts when its
mark is a semicolon. -/
structure Token.RegularComment (comment : Token) : Prop where
  proper : comment.span.start ≤ comment.span.stop
  onRow : comment.literal.toList.head? = some ';' -> comment.span.stop =
    ⟨comment.span.start.line, comment.span.start.column + comment.literal.toList.length⟩

namespace Lexeme.StandsAt

variable {text : List Char} {i : Nat} {lexeme : Lexeme}

theorem span_proper (h : lexeme.StandsAt text i) : lexeme.span.start ≤ lexeme.span.stop := by
  rw [span_eq]
  dsimp only
  split
  · exact Position.le_iff.2 (.inr ⟨rfl, Nat.le_add_right _ _⟩)
  · exact Position.le_of_lt h.start_lt_stop

theorem regular_token (h : lexeme.StandsAt text i) (hspelled : lexeme.shape.Spelled lexeme.taken)
    {token : Token} (htoken : lexeme.token? = some token) : token.Regular := by
  have hproper := h.span_proper
  rw [← span_of_token? htoken] at hproper
  obtain ⟨shape, taken, start⟩ := lexeme
  cases shape with
  | token kind =>
      have hwrites : kind.Writes taken := hspelled
      cases htoken
      refine ⟨hproper, ?_, ?_, ?_⟩
      · intro hkind
        -- The suffix is a comma and one letter on the same row, so its token is two columns wide.
        obtain ⟨c, htaken, hc⟩ := hwrites.ending hkind
        have hstop : start.advance taken = ⟨start.line, start.column + 2⟩ := by
          have hbreak : ∀ d ∈ [',', c], isLineBreak d = false := by
            intro d hd
            rcases List.mem_cons.1 hd with rfl | hd
            · rfl
            · rw [List.mem_singleton.1 hd]
              rcases hc with hc | hc <;> exact isLineBreak_of_toUpper hc rfl
          rw [htaken, Position.advance_of_no_break start hbreak]
          rfl
        have hnewline : kind ≠ .newline := by
          rintro rfl
          rcases hkind with hkind | hkind <;> cases hkind
        have hspan : (asToken ⟨.token kind, taken, start⟩ kind).span =
            ⟨start, start.advance taken⟩ := by
          rw [asToken, span_eq, if_neg (by simpa using hnewline)]
          rfl
        rw [hspan, hstop]
        exact Position.le_iff.2 (.inr ⟨rfl, by simp [Position.nextColumn]⟩)
      · intro hkind
        obtain ⟨hcomma, hlone⟩ := (hwrites.word hkind).1.regular
        refine ⟨by simpa [asToken] using hcomma, ?_⟩
        intro hliteral
        exact hlone (by simpa [asToken] using congrArg String.toList hliteral)
      · intro hkind
        rw [asToken, hwrites.dot hkind]
  | unclosedString =>
      cases htoken
      refine ⟨hproper, ?_, ?_, ?_⟩
      · rintro (hkind | hkind) <;> cases hkind
      · intro hkind
        cases hkind
      · intro hkind
        cases hkind
  | _ => cases htoken

theorem regular_comment (h : lexeme.StandsAt text i)
    (hspelled : lexeme.shape.Spelled lexeme.taken) {comment : Token}
    (hcomment : lexeme.comment? = some comment) : comment.RegularComment := by
  have hproper := h.span_proper
  have hdescribes := h.describes
  obtain ⟨shape, taken, start⟩ := lexeme
  cases shape with
  | comment =>
      cases hcomment
      refine ⟨hproper, ?_⟩
      simp only [asToken, String.toList_ofList]
      intro hmark
      exact Position.advance_of_no_break start (hspelled hmark)
  | unclosedComment =>
      cases hcomment
      refine ⟨hproper, ?_⟩
      obtain ⟨body, htaken, -⟩ := hdescribes
      dsimp only at htaken
      simp [asToken, htaken]
  | _ => cases hcomment

end Lexeme.StandsAt

/-- The tokens of a text are spelled like their kinds, those of strings that stay open apart. -/
theorem tokenize_writes (source : String) : ∀ token ∈ (tokenize source).tokens,
    token.kind = .stringLiteral ∨ token.kind.Writes token.literal.toList := by
  intro token htoken
  rcases List.mem_append.1 htoken with htoken | htoken
  · obtain ⟨lexeme, hmem, hlexeme⟩ := List.mem_filterMap.1 htoken
    have hspelled := Lexeme.scan_spelled none .origin source.toList lexeme hmem
    obtain ⟨shape, taken, start⟩ := lexeme
    cases shape with
    | token kind =>
        cases hlexeme
        right
        simpa [Lexeme.asToken, Lexeme.Shape.Spelled] using hspelled
    | unclosedString =>
        cases hlexeme
        exact .inl rfl
    | _ => cases hlexeme
  · rw [List.mem_singleton.1 htoken]
    have heof : Lexeme.Punctuation .eof := by decide
    exact .inr (heof.writes _)

structure Token.Signed (token : Token) : Prop where
  binary : token.kind.isBinarySign = true -> (BinaryOp.ofSign? token.literal).isSome = true
  unary : token.kind.isUnarySign = true -> (UnaryOp.ofSign? token.literal).isSome = true

theorem tokenize_signed (source : String) : ∀ token ∈ (tokenize source).tokens, token.Signed := by
  intro token htoken
  rcases tokenize_writes source token htoken with hstring | hwrites
  · constructor <;> rw [hstring] <;> intro h <;> cases h
  · have hbinary := hwrites.binarySign
    have hunary := hwrites.unarySign
    rw [String.ofList_toList] at hbinary hunary
    exact ⟨hbinary, hunary⟩

theorem tokenize_regular (source : String) :
    (∀ token ∈ (tokenize source).tokens, token.Regular) ∧
      (∀ comment ∈ (tokenize source).comments, comment.RegularComment) := by
  have htiles := Lexeme.scan_tiles none .origin source.toList
  have hspelled := Lexeme.scan_spelled none .origin source.toList
  refine ⟨?_, ?_⟩
  · intro token htoken
    rcases List.mem_append.1 htoken with htoken | htoken
    · obtain ⟨lexeme, hmem, hlexeme⟩ := List.mem_filterMap.1 htoken
      obtain ⟨i, hstands⟩ := htiles.exists_standsAt lexeme hmem
      exact hstands.regular_token (hspelled lexeme hmem) hlexeme
    · rw [List.mem_singleton.1 htoken]
      refine ⟨Position.le_iff.2 (.inr ⟨rfl, Nat.le_refl _⟩), ?_, ?_, ?_⟩
      · rintro (hkind | hkind) <;> cases hkind
      · intro hkind
        cases hkind
      · intro hkind
        cases hkind
  · intro comment hcomment
    obtain ⟨lexeme, hmem, hlexeme⟩ := List.mem_filterMap.1 hcomment
    obtain ⟨i, hstands⟩ := htiles.exists_standsAt lexeme hmem
    exact hstands.regular_comment (hspelled lexeme hmem) hlexeme

theorem tokenize_ordered (source : String) :
    (tokenize source).tokens.Pairwise fun a b =>
      a.span.stop ≤ b.span.start ∧ a.span.start < b.span.start := by
  have hordered := (Lexeme.scan_tiles none .origin source.toList).pairwise_tokens
  rwa [← Position.advance_origin] at hordered

theorem token_eq_of_span_eq {source : String} {a b : Token} (ha : a ∈ (tokenize source).tokens)
    (hb : b ∈ (tokenize source).tokens) (h : a.span = b.span) : a = b := by
  have hlt := List.pairwise_iff_getElem.1 (tokenize_ordered source)
  obtain ⟨i, hi, rfl⟩ := List.getElem_of_mem ha
  obtain ⟨j, hj, rfl⟩ := List.getElem_of_mem hb
  rcases Nat.lt_trichotomy i j with hij | rfl | hij
  · have hstart := (hlt i j hi hj hij).2
    rw [Position.lt_iff, h] at hstart
    omega
  · rfl
  · have hstart := (hlt j i hj hi hij).2
    rw [Position.lt_iff, h] at hstart
    omega

end Asm6502
