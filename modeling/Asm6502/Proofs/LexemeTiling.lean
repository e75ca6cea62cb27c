import Asm6502.Proofs.LexemeForms

/-!
# Lexemes tile their text

What a lexeme can be made of follows from its shape and from how the text goes on behind it.  No
lexeme parts a carriage return from its line feed.  The lexemes of a text stand one behind another
and together are the text, so tokens, comments and single faulty characters account for all of it.
-/

namespace Asm6502

/-! ## Shapes and their characters -/

/-- A quote and all of the row behind it, without a second quote. -/
def OpenString (taken rest : List Char) : Prop :=
  ∃ body, taken = '"' :: body ∧ (∀ c ∈ body, c ≠ '"' ∧ isLineBreak c = false) ∧ EndsRow rest

/-- The start mark of a block comment and all of the text behind it, without an end mark. -/
def OpenComment (taken rest : List Char) : Prop :=
  ∃ body, taken = '/' :: '*' :: body ∧ ¬ ['*', '/'] <:+: body ∧ rest = []

/-- A line feed, a carriage return, or both in this order. -/
def LineBreak (taken : List Char) : Prop :=
  taken = ['\n'] ∨ taken = ['\r'] ∨ taken = ['\r', '\n']

/-- The characters between two parts of a text do not end inside a line break. -/
def KeepsBreak (taken rest : List Char) : Prop :=
  taken.getLast? = some '\r' -> rest.head? ≠ some '\n'

theorem keepsBreak_of_forall {taken : List Char} (rest : List Char)
    (h : ∀ c ∈ taken, c ≠ '\r') : KeepsBreak taken rest := by
  intro hlast
  exact absurd rfl (h _ (List.mem_of_getLast? hlast))

theorem KeepsBreak.tail {c : Char} {taken rest : List Char} (h : KeepsBreak (c :: taken) rest) :
    KeepsBreak taken rest := by
  intro hlast
  exact h (by rw [List.getLast?_cons, hlast, Option.getD_some])

namespace Lexeme

variable {first c : Char} {rest : List Char} {condition : Char -> Bool}

/-- What the characters of a shape are, given the rest of the text. -/
def Shape.Describes : Shape -> List Char -> List Char -> Prop
  | .token kind, taken, _ => kind ≠ .eof ∧ (kind = .newline -> LineBreak taken)
  | .unclosedString, taken, rest => OpenString taken rest
  | .comment, _, _ => True
  | .unclosedComment, taken, rest => OpenComment taken rest
  | .missingCharacter, taken, rest => taken = ['\''] ∧ EndsRow rest
  | .unexpectedCharacter, taken, _ => ∃ c, taken = [c]

/-- A token kind that is neither the end of the text nor a line break nor a comment. -/
def Inner (kind : Token.Kind) : Prop := kind ≠ .eof ∧ kind ≠ .newline ∧ kind ≠ .comment

instance (kind : Token.Kind) : Decidable (Inner kind) :=
  inferInstanceAs (Decidable (_ ∧ _))

theorem Inner.describes {kind : Token.Kind} (h : Inner kind) (taken rest : List Char) :
    (Shape.token kind).Describes taken rest :=
  ⟨h.1, fun hnewline => absurd hnewline h.2.1⟩

theorem inner_wordKind (w : List Char) : Inner (wordKind w) := by
  unfold wordKind Token.Kind.ofKeyword?
  split <;> decide

theorem inner_of_sign {first : Char} {text : List Char} {kind : Token.Kind} {length : Nat}
    (h : sign first text = (.token kind, length)) : Inner kind := by
  unfold sign at h
  split at h <;> cases h <;> decide

theorem Worded.inner {previous : Option Token.Kind} {taken : List Char} {kind : Token.Kind}
    (h : Worded previous taken kind) : Inner kind := by
  cases h with
  | number _ h =>
      cases kind with
      | binary | octal | decimal | hex => decide
      | _ => exact h.elim
  | word => exact inner_wordKind _
  | _ => decide

theorem throughCommentEnd?_none {text : List Char} (h : throughCommentEnd? text = none) :
    ¬ ['*', '/'] <:+: text := by
  induction text using throughCommentEnd?.induct with
  | case1 => simp
  | case2 rest => cases h
  | case3 c rest hne ih =>
      rw [throughCommentEnd?_cons hne] at h
      rw [List.infix_cons_iff]
      rintro (hfront | hinside)
      · obtain ⟨tail, htail⟩ := hfront
        cases htail
        exact hne tail rfl rfl
      · exact ih (Option.map_eq_none_iff.1 h) hinside

theorem getLast?_of_throughCommentEnd? {body : List Char}
    (h : throughCommentEnd? body = some body.length) : body.getLast? = some '/' := by
  induction body using throughCommentEnd?.induct with
  | case1 => cases h
  | case2 rest =>
      have hlength : rest.length = 0 := by simpa [throughCommentEnd?] using h
      obtain rfl := List.length_eq_zero_iff.1 hlength
      rfl
  | case3 c rest hne ih =>
      rw [throughCommentEnd?_cons hne] at h
      obtain ⟨length, hlength, hsum⟩ := Option.map_eq_some_iff.1 h
      have hlast := ih (hlength.trans (congrArg some (Nat.add_right_cancel hsum)))
      rw [List.getLast?_cons, hlast, Option.getD_some]

section

variable {previous : Option Token.Kind} {taken rest : List Char} {shape : Shape}

/-- What the characters of a lexeme are follows from its form. -/
theorem Form.describes (h : Form previous taken rest shape) : shape.Describes taken rest := by
  cases h with
  | whole h =>
      cases h with
      | feed => exact ⟨by decide, fun _ => .inl rfl⟩
      | returnFeed => exact ⟨by decide, fun _ => .inr (.inr rfl)⟩
      | blockComment => trivial
      | sign h => exact (inner_of_sign h).describes _ _
      | _ => exact Inner.describes (by decide) _ _
  | worded h => exact h.inner.describes _ _
  | rowed h hrest =>
      cases h with
      | comment => trivial
      | openString h => exact ⟨_, rfl, h, hrest⟩
      | missingCharacter => exact ⟨rfl, hrest⟩
  | carriageReturn => exact ⟨by decide, fun _ => .inr (.inl rfl)⟩
  | openComment h => exact ⟨_, rfl, throughCommentEnd?_none h, rfl⟩
  | @sign first _ _ _ _ h =>
      cases shape with
      | token kind => exact (inner_of_sign h).describes _ _
      | unexpectedCharacter => exact ⟨first, rfl⟩
      | _ =>
          unfold Lexeme.sign at h
          split at h <;> cases h
  | _ => exact Inner.describes (by decide) _ _

theorem isLineBreak_of_isWordChar {c : Char} (h : isWordChar c = true) : isLineBreak c = false := by
  rw [isLineBreak, ne_of_isWordChar (by decide) h, ne_of_isWordChar (by decide) h]
  rfl

theorem isLineBreak_of_isBlank {c : Char} (h : isBlank c = false) : isLineBreak c = false := by
  refine Bool.eq_false_iff.2 fun hbreak => ?_
  have hc : c = '\n' ∨ c = '\r' := by simpa [isLineBreak] using hbreak
  rcases hc with rfl | rfl <;> cases h

theorem isLineBreak_of_toUpper {c letter : Char} (h : c.toUpper = letter)
    (hletter : isLineBreak letter = false) : isLineBreak c = false := by
  cases hc : isLineBreak c with
  | false => rfl
  | true =>
      have hbreak : c = '\n' ∨ c = '\r' := by simpa [isLineBreak] using hc
      rcases hbreak with rfl | rfl <;> subst h <;> exact hletter

theorem Worded.inline {kind : Token.Kind} (h : Worded previous taken kind) :
    ∀ c ∈ taken, isLineBreak c = false := by
  cases h with
  | @number first inner _ hinner h =>
      refine List.forall_mem_cons.2 ⟨?_, fun c hc => isLineBreak_of_isWordChar (hinner c hc)⟩
      cases kind with
      | binary | hex | octal => rw [h.1]; rfl
      | decimal => exact isLineBreak_of_isWordChar (isWordChar_of_isDigit h.1)
      | _ => exact h.elim
  | word h =>
      rcases taken with _ | ⟨first, inner⟩
      · exact h.elim
      · refine List.forall_mem_cons.2 ⟨?_, fun c hc =>
          isLineBreak_of_isWordChar (List.all_eq_true.1 h.2 c hc)⟩
        have hfirst := h.1
        split at hfirst
        · next hdot => rw [hdot]; rfl
        · exact isLineBreak_of_isWordChar hfirst.1
  | dot => exact List.forall_mem_singleton.2 rfl
  | commaX h | commaY h => simpa using ⟨by decide, isLineBreak_of_toUpper h rfl⟩
  | parenCommaY h => simpa using ⟨by decide, by decide, isLineBreak_of_toUpper h rfl⟩

theorem Form.breaks (h : Form previous taken rest shape) :
    (shape = .token .newline ∧ LineBreak taken ∧ KeepsBreak taken rest) ∨
      (∃ body, taken = '/' :: '*' :: body ∧ (shape = .comment ∨ shape = .unclosedComment) ∧
        KeepsBreak taken rest) ∨
      ((∀ kind, shape = .token kind -> Inner kind) ∧ ∀ c ∈ taken, isLineBreak c = false) := by
  have hinner {kind : Token.Kind} (h : Inner kind) : ∀ other, Shape.token kind = .token other ->
      Inner other := by
    rintro _ ⟨⟩
    exact h
  cases h with
  | whole h =>
      cases h with
      | feed => exact .inl ⟨rfl, .inl rfl, by rintro ⟨⟩⟩
      | returnFeed => exact .inl ⟨rfl, .inr (.inr rfl), by rintro ⟨⟩⟩
      | blockComment h =>
          refine .inr (.inl ⟨_, rfl, .inl rfl, fun hlast => ?_⟩)
          rw [List.getLast?_cons, List.getLast?_cons, getLast?_of_throughCommentEnd? h] at hlast
          cases hlast
      | string h =>
          refine .inr (.inr ⟨hinner (by decide), List.forall_mem_cons.2
            ⟨rfl, List.forall_mem_append.2
            ⟨fun c hc => (h c hc).2, List.forall_mem_singleton.2 rfl⟩⟩⟩)
      | char h => exact .inr (.inr ⟨hinner (by decide), by simpa using ⟨by decide, h⟩⟩)
      | tripleDot => exact .inr (.inr ⟨hinner (by decide), by simp [isLineBreak]⟩)
      | commaXParen hc =>
          have hc := isLineBreak_of_toUpper hc (by decide)
          exact .inr (.inr ⟨hinner (by decide), by simpa using ⟨by decide, hc, by decide⟩⟩)
      | sign h =>
          refine .inr (.inr ⟨hinner (inner_of_sign h), ?_⟩)
          unfold Lexeme.sign at h
          split at h <;> simp_all <;> decide
  | worded h => exact .inr (.inr ⟨hinner h.inner, h.inline⟩)
  | rowed h =>
      refine .inr (.inr ?_)
      cases h with
      | comment h => exact ⟨by rintro _ ⟨⟩, List.forall_mem_cons.2 ⟨rfl, h⟩⟩
      | openString h => exact ⟨by rintro _ ⟨⟩, List.forall_mem_cons.2 ⟨rfl, fun c hc => (h c hc).2⟩⟩
      | missingCharacter => exact ⟨by rintro _ ⟨⟩, List.forall_mem_singleton.2 rfl⟩
  | carriageReturn hrest => exact .inl ⟨rfl, .inr (.inl rfl), fun _ => hrest⟩
  | openComment => exact .inr (.inl ⟨_, rfl, .inr rfl, by rintro _ ⟨⟩⟩)
  | blanks h =>
      refine .inr (.inr ⟨hinner (by decide), fun c hc => ?_⟩)
      simpa using (Bool.and_eq_true_iff.1 (h c hc)).2
  | doubleDot | comma | parenRight => exact .inr (.inr ⟨hinner (by decide), by simp [isLineBreak]⟩)
  | sign hfirst _ h =>
      refine .inr (.inr ⟨?_, List.forall_mem_singleton.2 (isLineBreak_of_isBlank hfirst.blank)⟩)
      rintro kind rfl
      exact inner_of_sign h

theorem Form.keepsBreak (h : Form previous taken rest shape) : KeepsBreak taken rest := by
  obtain ⟨-, -, hkeeps⟩ | ⟨-, -, -, hkeeps⟩ | ⟨-, hinline⟩ := h.breaks
  · exact hkeeps
  · exact hkeeps
  · refine keepsBreak_of_forall rest fun c hc => ?_
    rintro rfl
    exact absurd (hinline _ hc) (by decide)

end

/-! ## Tilings -/

/-- Lexemes that stand one behind another from a position on, and together are a text. -/
inductive Tiles : Position -> List Char -> List Lexeme -> Prop where
  | nil (p : Position) : Tiles p [] []
  | cons {lexeme : Lexeme} {rest : List Char} {lexemes : List Lexeme}
      (nonempty : lexeme.taken ≠ [])
      (describes : lexeme.shape.Describes lexeme.taken rest)
      (keepsBreak : KeepsBreak lexeme.taken rest)
      (tiles : Tiles lexeme.stop rest lexemes) :
      Tiles lexeme.start (lexeme.taken ++ rest) (lexeme :: lexemes)

theorem Scans.tiles {previous : Option Token.Kind} {start : Position} {text : List Char}
    {lexemes : List Lexeme} (h : Scans previous start text lexemes) : Tiles start text lexemes := by
  induction h with
  | nil => exact .nil _
  | cons h _ ih => exact .cons h.ne_nil h.describes h.keepsBreak ih

theorem scan_tiles (previous : Option Token.Kind) (start : Position) (text : List Char) :
    Tiles start text (scan previous start text) :=
  (scan_scans previous start text).tiles

namespace Tiles

variable {p : Position} {text : List Char} {lexemes : List Lexeme}

theorem describes_of_mem (h : Tiles p text lexemes) :
    ∀ lexeme ∈ lexemes, ∃ rest, lexeme.shape.Describes lexeme.taken rest := by
  induction h with
  | nil => simp
  | cons _ hdescribes _ _ ih =>
      intro lexeme hmem
      rcases List.mem_cons.1 hmem with rfl | hmem
      · exact ⟨_, hdescribes⟩
      · exact ih lexeme hmem

end Tiles

end Lexeme

/-! ## Pieces of a text -/

/-- The single character that a fault is about, if it is about one. -/
def LexError.character? : LexError -> Option Char
  | unexpectedCharacter character _ => some character
  | missingCharacter _ => some '\''
  | unterminatedString _ | unterminatedComment _ => none

/-- What a part of a text became. -/
inductive Piece where
  | token (token : Token)
  | comment (comment : Token)
  /-- A faulty character that is in no token and no comment. -/
  | stray (character : Char)

namespace Piece

def text : Piece -> List Char
  | token t => t.literal.toList
  | comment c => c.literal.toList
  | stray character => [character]

def token? : Piece -> Option Token
  | token t => some t
  | _ => none

def comment? : Piece -> Option Token
  | comment c => some c
  | _ => none

def stray? : Piece -> Option Char
  | stray character => some character
  | _ => none

end Piece

namespace Lexeme

def piece (lexeme : Lexeme) : Piece :=
  match lexeme.shape with
  | .token kind => .token (lexeme.asToken kind)
  | .unclosedString => .token (lexeme.asToken .stringLiteral)
  | .comment | .unclosedComment => .comment (lexeme.asToken .comment)
  | .missingCharacter | .unexpectedCharacter => .stray (lexeme.taken.headD ' ')

variable {lexeme : Lexeme} {rest : List Char}

theorem token?_comp_piece : Piece.token? ∘ piece = token? := by
  funext lexeme
  unfold Function.comp piece token?
  cases lexeme.shape <;> rfl

theorem comment?_comp_piece : Piece.comment? ∘ piece = comment? := by
  funext lexeme
  unfold Function.comp piece comment?
  cases lexeme.shape <;> rfl

theorem stray?_piece (h : lexeme.shape.Describes lexeme.taken rest) :
    lexeme.piece.stray? = lexeme.error?.bind LexError.character? := by
  obtain ⟨shape, taken, start⟩ := lexeme
  cases shape with
  | missingCharacter =>
      obtain ⟨rfl, -⟩ := h
      rfl
  | _ => rfl

theorem text_piece (h : lexeme.shape.Describes lexeme.taken rest) :
    lexeme.piece.text = lexeme.taken := by
  obtain ⟨shape, taken, start⟩ := lexeme
  cases shape with
  | missingCharacter =>
      obtain ⟨rfl, -⟩ := h
      rfl
  | unexpectedCharacter =>
      obtain ⟨c, rfl⟩ := h
      rfl
  | _ => simp [piece, asToken, Piece.text]

theorem kind_of_token? {token : Token} (h : lexeme.shape.Describes lexeme.taken rest)
    (htoken : lexeme.token? = some token) : token.kind ≠ .eof := by
  obtain ⟨shape, taken, start⟩ := lexeme
  cases shape with
  | token kind =>
      cases htoken
      exact h.1
  | unclosedString =>
      cases htoken
      exact Token.Kind.noConfusion
  | _ => cases htoken

namespace Tiles

variable {p : Position} {text : List Char} {lexemes : List Lexeme}

theorem text_pieces (h : Tiles p text lexemes) :
    (lexemes.map piece).flatMap Piece.text = text := by
  induction h with
  | nil => rfl
  | cons _ hdescribes _ _ ih =>
      rw [List.map_cons, List.flatMap_cons, text_piece hdescribes, ih]

theorem stray?_pieces (h : Tiles p text lexemes) :
    (lexemes.map piece).filterMap Piece.stray? =
      (lexemes.filterMap error?).filterMap LexError.character? := by
  rw [List.filterMap_filterMap]
  induction h with
  | nil => rfl
  | cons _ hdescribes _ _ ih =>
      rw [List.map_cons, List.filterMap_cons, List.filterMap_cons, stray?_piece hdescribes, ih]

end Tiles

end Lexeme

/-- Tokens, comments and faults are those of lexemes that tile the text. -/
theorem tokenize_tiles (source : String) :
    ∃ lexemes, Lexeme.Tiles .origin source.toList lexemes ∧
      tokenize source =
        { tokens := lexemes.filterMap Lexeme.token? ++
            [.endOfText (Position.origin.advance source.toList)]
          comments := lexemes.filterMap Lexeme.comment?
          errors := lexemes.filterMap Lexeme.error? } :=
  ⟨_, Lexeme.scan_tiles none .origin source.toList, rfl⟩

theorem exists_eof_mem_tokenize (source : String) :
    ∃ token ∈ (tokenize source).tokens, token.kind = .eof :=
  ⟨_, List.mem_append_right _ List.mem_cons_self, rfl⟩

/-- The lexer loses and invents no character: tokens, comments and faulty characters, each in their
order, can be put together to the text.  The tokens end in the only mark of the end of the text. -/
theorem tokenize_pieces (source : String) :
    ∃ pieces : List Piece,
      pieces.filterMap Piece.token? = (tokenize source).tokens ∧
      pieces.filterMap Piece.comment? = (tokenize source).comments ∧
      pieces.filterMap Piece.stray? = (tokenize source).errors.filterMap LexError.character? ∧
      pieces.flatMap Piece.text = source.toList ∧
      ∃ front last, (tokenize source).tokens = front ++ [last] ∧
        last.kind = .eof ∧ last.literal = "" ∧ ∀ token ∈ front, token.kind ≠ .eof := by
  obtain ⟨lexemes, htiles, htokenize⟩ := tokenize_tiles source
  rw [htokenize]
  refine ⟨lexemes.map Lexeme.piece ++ [.token (.endOfText (Position.origin.advance source.toList))],
    ?_, ?_, ?_, ?_, ?_⟩
  · rw [List.filterMap_append, List.filterMap_map, Lexeme.token?_comp_piece]
    rfl
  · rw [List.filterMap_append, List.filterMap_map, Lexeme.comment?_comp_piece]
    exact List.append_nil _
  · rw [List.filterMap_append, htiles.stray?_pieces]
    exact List.append_nil _
  · rw [List.flatMap_append, htiles.text_pieces]
    exact List.append_nil _
  · refine ⟨lexemes.filterMap Lexeme.token?, .endOfText _, rfl, rfl, rfl, ?_⟩
    intro token htoken
    obtain ⟨lexeme, hmem, hlexeme⟩ := List.mem_filterMap.1 htoken
    obtain ⟨rest, hdescribes⟩ := htiles.describes_of_mem lexeme hmem
    exact Lexeme.kind_of_token? hdescribes hlexeme

end Asm6502
