import Asm6502.Proofs.RewordedLines
import Asm6502.Proofs.SourceRows

/-!
# The style of line breaks

A line break can be written as a line feed, as a carriage return or as both.  A text whose line
feeds are written in another way has the same lexemes: outside of comments no lexeme goes beyond its
row, and what stands on a row does not depend on how the row ends.
-/

namespace Asm6502

/-- The ways to write a line break other than by a line feed alone. -/
inductive BreakStyle where
  | returnAndFeed
  | returnOnly
deriving DecidableEq, Repr

namespace BreakStyle

def chars : BreakStyle -> List Char
  | returnAndFeed => ['\r', '\n']
  | returnOnly => ['\r']

variable (style : BreakStyle)

variable {text : List Char}

def rewrite (text : List Char) : List Char :=
  text.flatMap fun c => if c = '\n' then style.chars else [c]

@[simp] theorem rewrite_nil : style.rewrite [] = [] := rfl

@[simp] theorem rewrite_feed (rest : List Char) :
    style.rewrite ('\n' :: rest) = style.chars ++ style.rewrite rest :=
  rfl

theorem rewrite_cons {c : Char} (h : c ≠ '\n') (rest : List Char) :
    style.rewrite (c :: rest) = c :: style.rewrite rest := by
  simp [rewrite, h]

@[simp] theorem rewrite_append (front back : List Char) :
    style.rewrite (front ++ back) = style.rewrite front ++ style.rewrite back :=
  List.flatMap_append

theorem rewrite_eq_self (h : '\n' ∉ text) : style.rewrite text = text := by
  induction text with
  | nil => rfl
  | cons c rest ih =>
      have hc : c ≠ '\n' := fun hc => h (hc ▸ List.mem_cons_self)
      rw [style.rewrite_cons hc, ih fun hrest => h (List.mem_cons_of_mem c hrest)]

/-- Only a line feed at the front of a text starts another way in a style. -/
theorem head?_rewrite (text : List Char) : (style.rewrite text).head? = text.head? ∨
    text.head? = some '\n' ∧ (style.rewrite text).head? = some '\r' := by
  cases text with
  | nil => exact .inl rfl
  | cons c rest =>
      by_cases hc : c = '\n'
      · subst hc
        cases style <;> exact .inr ⟨rfl, rfl⟩
      · rw [style.rewrite_cons hc]
        exact .inl rfl

/-- Behind a carriage return that stands for a line feed no further line feed is read. -/
theorem head?_returnOnly (text : List Char) : (returnOnly.rewrite text).head? ≠ some '\n' := by
  cases text with
  | nil => simp
  | cons c rest =>
      by_cases hc : c = '\n'
      · subst hc
        simp [chars]
      · simp [returnOnly.rewrite_cons hc, hc]

theorem advance_rewrite (p : Position) (h : '\r' ∉ text) :
    p.advance (style.rewrite text) = p.advance text := by
  induction text generalizing p with
  | nil => rfl
  | cons c rest ih =>
      have hrest : '\r' ∉ rest := fun hr => h (List.mem_cons_of_mem c hr)
      have hreturn : c ≠ '\r' := fun hc => h (hc ▸ List.mem_cons_self)
      by_cases hc : c = '\n'
      · subst hc
        have hfeed : p.advance ('\n' :: rest) = p.nextLine.advance rest := rfl
        rw [hfeed, ← ih p.nextLine hrest]
        cases style with
        | returnAndFeed => rfl
        | returnOnly =>
            have hhead := head?_returnOnly rest
            rw [rewrite_feed, chars, List.singleton_append, Position.advance_cons]
            simp [hhead, isLineBreak]
      · have hbreak : isLineBreak c = false := by simp [isLineBreak, hc, hreturn]
        rw [style.rewrite_cons hc, Position.advance_cons, Position.advance_cons]
        simp only [hreturn, false_and, if_false, hbreak]
        exact ih p.nextColumn hrest

end BreakStyle

namespace Lexeme

/-! ## Lexemes of a text with its breaks written in a style -/

variable (style : BreakStyle)

theorem throughCommentEnd?_skip {c : Char} (h : c ≠ '*') (rest : List Char) :
    throughCommentEnd? (c :: rest) = (throughCommentEnd? rest).map (· + 1) := by
  rw [throughCommentEnd?]
  exact fun _ hc _ => h hc

theorem throughCommentEnd?_break (rest : List Char) :
    throughCommentEnd? (style.chars ++ rest) =
      (throughCommentEnd? rest).map (style.chars.length + ·) := by
  cases style with
  | returnAndFeed =>
      rw [BreakStyle.chars, List.cons_append, List.singleton_append,
        throughCommentEnd?_skip (by decide), throughCommentEnd?_skip (by decide), Option.map_map]
      congr 1
      funext length
      simp
      omega
  | returnOnly =>
      rw [BreakStyle.chars, List.singleton_append, throughCommentEnd?_skip (by decide)]
      congr 1
      funext length
      simp
      omega

theorem throughCommentEnd?_rewrite (text : List Char) :
    throughCommentEnd? (style.rewrite text) =
      (throughCommentEnd? text).map fun length => (style.rewrite (text.take length)).length := by
  induction text using throughCommentEnd?.induct with
  | case1 => rfl
  | case2 rest => rfl
  | case3 c rest hend ih =>
      rw [throughCommentEnd?.eq_3 c rest hend, Option.map_map]
      by_cases hc : c = '\n'
      · subst hc
        rw [BreakStyle.rewrite_feed, throughCommentEnd?_break, ih, Option.map_map]
        congr 1
        funext length
        simp
      · have hstep : throughCommentEnd? (c :: style.rewrite rest) =
            (throughCommentEnd? (style.rewrite rest)).map (· + 1) := by
          rw [throughCommentEnd?]
          rintro more hstar hmore
          cases rest with
          | nil => cases hmore
          | cons d rest =>
              by_cases hd : d = '\n'
              · subst hd
                cases style <;> cases hmore
              · rw [style.rewrite_cons hd] at hmore
                exact hend rest hstar (by rw [(List.cons.inj hmore).1])
        rw [style.rewrite_cons hc, hstep, ih, Option.map_map]
        congr 1
        funext length
        simp [style.rewrite_cons hc]

/-- What stands behind a lexeme looks the same to it in all styles. -/
theorem shows_rewrite (rest : List Char) : Shows rest (style.rewrite rest) := by
  have hword (rest : List Char) : EndsWord (style.rewrite rest) -> EndsWord rest := by
    obtain hhead | ⟨hhead, -⟩ := style.head?_rewrite rest
    · simp only [EndsWord, hhead, imp_self]
    · simp only [EndsWord, hhead]
      exact fun _ => by simp; decide
  cases rest with
  | nil => exact shows_blank (by simp) []
  | cons c rest =>
      by_cases hc : c = '\n'
      · subst hc
        exact shows_blank (by cases style <;> simp [BreakStyle.chars] <;> decide) _
      · rw [style.rewrite_cons hc]
        refine shows_cons (hword rest) ?_ c
        cases rest with
        | nil => exact id
        | cons d rest =>
            by_cases hd : d = '\n'
            · subst hd
              cases style <;> exact fun h => absurd h.1 (by decide)
            · rw [style.rewrite_cons hd]
              exact fun h => ⟨h.1, hword rest h.2⟩

/-- The shape of a lexeme does not depend on the style of the breaks behind it or, in a comment,
inside it. -/
theorem Form.rewrite {previous : Option Token.Kind} {taken rest : List Char} {shape : Shape}
    (h : Form previous taken rest shape) (hreturn : '\r' ∉ taken) :
    Form previous (style.rewrite taken) (style.rewrite rest) shape := by
  obtain ⟨rfl, hbreak, -⟩ | ⟨body, rfl, hshape, -⟩ | ⟨hinner, hinline⟩ := h.breaks
  · rcases hbreak with rfl | rfl | rfl
    · cases style with
      | returnAndFeed => exact .whole .returnFeed _
      | returnOnly => exact .carriageReturn (BreakStyle.head?_returnOnly rest)
    · exact absurd List.mem_cons_self hreturn
    · exact absurd List.mem_cons_self hreturn
  · have hend := throughCommentEnd?_rewrite style body
    rw [style.rewrite_cons (by decide), style.rewrite_cons (by decide)]
    rcases hshape with rfl | rfl
    · cases h with
      | whole h =>
          cases h with
          | blockComment h =>
              rw [h, Option.map_some, List.take_length] at hend
              exact .whole (.blockComment hend) _
      | rowed h => cases h
    · cases h with
      | whole h | rowed h => cases h
      | openComment h =>
          rw [h] at hend
          exact .openComment hend
  · have hfeed : '\n' ∉ taken := fun hmem => by cases hinline _ hmem
    rw [style.rewrite_eq_self hfeed]
    refine h.shows (shows_rewrite style rest) (fun _ => ?_) ?_ (fun _ => ?_) ?_
    · obtain hhead | ⟨-, hhead⟩ := style.head?_rewrite rest <;> simp [EndsRow, hhead, isLineBreak]
    · rintro rfl
      exact absurd List.mem_cons_self hreturn
    · obtain hhead | ⟨-, hhead⟩ := style.head?_rewrite rest <;>
        simp [hhead, isInlineBlank, isLineBreak]
    · rintro - rfl
      rfl

/-- A lexeme of a text without carriage returns: only line breaks and comments hold line feeds. -/
structure Unbroken (lexeme : Lexeme) : Prop where
  returns : '\r' ∉ lexeme.taken
  newline : lexeme.shape = .token .newline -> lexeme.taken = ['\n']
  comment : lexeme.shape ≠ .token .comment
  others : lexeme.shape ≠ .token .newline -> lexeme.shape ≠ .comment ->
    lexeme.shape ≠ .unclosedComment -> '\n' ∉ lexeme.taken

theorem Form.unbroken {previous : Option Token.Kind} {lexeme : Lexeme} {rest : List Char}
    (h : Form previous lexeme.taken rest lexeme.shape) (hreturn : '\r' ∉ lexeme.taken) :
    Unbroken lexeme := by
  obtain ⟨hshape, hbreak, -⟩ | ⟨-, -, hshape, -⟩ | ⟨hinner, hinline⟩ := h.breaks
  · refine ⟨hreturn, fun _ => ?_, by simp [hshape], fun hne => absurd hshape hne⟩
    rcases hbreak with htaken | htaken | htaken
    · exact htaken
    · exact absurd (htaken ▸ List.mem_cons_self) hreturn
    · exact absurd (htaken ▸ List.mem_cons_self) hreturn
  · rcases hshape with hshape | hshape <;> exact ⟨hreturn, by simp [hshape], by simp [hshape],
      by simp [hshape]⟩
  · exact ⟨hreturn, fun hnewline => absurd rfl (hinner _ hnewline).2.1,
      fun hcomment => (hinner _ hcomment).2.2 rfl, fun _ _ _ hmem => by cases hinline _ hmem⟩

theorem unbroken_scan (previous : Option Token.Kind) (start : Position) {text : List Char}
    (h : '\r' ∉ text) : ∀ lexeme ∈ scan previous start text, Unbroken lexeme := by
  have hscans := scan_scans previous start text
  generalize scan previous start text = lexemes at hscans ⊢
  induction hscans with
  | nil => simp
  | cons hform _ ih =>
      obtain ⟨htaken, hrest⟩ := not_or.1 (mt List.mem_append.2 h)
      exact List.forall_mem_cons.2 ⟨hform.unbroken htaken, ih hrest⟩

end Lexeme

/-! ## The tokens of the text -/

namespace BreakStyle

variable (style : BreakStyle)

def lexeme (lexeme : Lexeme) : Lexeme := { lexeme with taken := style.rewrite lexeme.taken }

theorem scans_rewrite {previous : Option Token.Kind} {start : Position} {text : List Char}
    {lexemes : List Lexeme} (hscans : Lexeme.Scans previous start text lexemes)
    (h : '\r' ∉ text) :
    Lexeme.Scans previous start (style.rewrite text) (lexemes.map style.lexeme) := by
  induction hscans with
  | nil => exact .nil _ _
  | @cons previous lexeme rest lexemes hform _ ih =>
      obtain ⟨htaken, hrest⟩ := not_or.1 (mt List.mem_append.2 h)
      have hstop : (style.lexeme lexeme).stop = lexeme.stop := style.advance_rewrite _ htaken
      have hkind : (style.lexeme lexeme).kindBehind previous = lexeme.kindBehind previous := by
        unfold Lexeme.kindBehind Lexeme.token? BreakStyle.lexeme
        cases lexeme.shape <;> rfl
      rw [rewrite_append]
      refine @Lexeme.Scans.cons _ (style.lexeme lexeme) _ _ (hform.rewrite style htaken) ?_
      rw [hstop, hkind]
      exact ih hrest

/-- A text of the source, or of a comment, in a style. -/
def text (text : String) : String := String.ofList (style.rewrite text.toList)

/-- A token of a text in a style.  A line break is written in that style and ends behind it;
comments hold line breaks; all other tokens stay on their row. -/
def token (token : Token) : Token :=
  match token.kind with
  | .newline =>
      { kind := .newline
        literal := String.ofList style.chars
        span := ⟨token.span.start,
          ⟨token.span.start.line, token.span.start.column + style.chars.length⟩⟩ }
  | .comment => { token with literal := style.text token.literal }
  | _ => token

theorem token_of_ne {t : Token} (hnewline : t.kind ≠ .newline) (hcomment : t.kind ≠ .comment) :
    style.token t = t := by
  unfold token
  split
  next h => exact absurd h hnewline
  next h => exact absurd h hcomment
  next => rfl

section Lexeme

variable {lexeme : Lexeme} (h : lexeme.Unbroken)

include h

theorem lexeme_eq_self (hnewline : lexeme.shape ≠ .token .newline)
    (hcomment : lexeme.shape ≠ .comment) (hunclosed : lexeme.shape ≠ .unclosedComment) :
    style.lexeme lexeme = lexeme := by
  rw [BreakStyle.lexeme, style.rewrite_eq_self (h.others hnewline hcomment hunclosed)]

theorem span_lexeme (hnewline : lexeme.shape ≠ .token .newline) :
    (style.lexeme lexeme).span = lexeme.span := by
  have hstop : (style.lexeme lexeme).stop = lexeme.stop := style.advance_rewrite _ h.returns
  unfold Lexeme.span
  split
  next hshape => exact absurd hshape hnewline
  next => rw [hstop, BreakStyle.lexeme]

theorem token?_lexeme : (style.lexeme lexeme).token? = lexeme.token?.map style.token := by
  by_cases hnewline : lexeme.shape = .token .newline
  · have htaken := h.newline hnewline
    simp [Lexeme.token?, Lexeme.asToken, Lexeme.span, BreakStyle.lexeme, hnewline, htaken, token]
  by_cases hcomment : lexeme.shape = .comment
  · simp [Lexeme.token?, BreakStyle.lexeme, hcomment]
  by_cases hunclosed : lexeme.shape = .unclosedComment
  · simp [Lexeme.token?, BreakStyle.lexeme, hunclosed]
  rw [style.lexeme_eq_self h hnewline hcomment hunclosed]
  cases hshape : lexeme.shape with
  | token kind =>
      have hkind : kind ≠ .newline ∧ kind ≠ .comment := by
        have hkinds := h.comment
        rw [hshape] at hnewline hkinds
        exact ⟨fun hk => hnewline (hk ▸ rfl), fun hk => hkinds (hk ▸ rfl)⟩
      simp [Lexeme.token?, hshape, style.token_of_ne (t := lexeme.asToken kind) hkind.1 hkind.2]
  | unclosedString =>
      simp [Lexeme.token?, hshape, style.token_of_ne (t := lexeme.asToken .stringLiteral)
        (by simp [Lexeme.asToken]) (by simp [Lexeme.asToken])]
  | _ => simp [Lexeme.token?, hshape]

theorem comment?_lexeme : (style.lexeme lexeme).comment? = lexeme.comment?.map style.token := by
  have hliteral : String.ofList (style.rewrite lexeme.taken) =
      style.text (String.ofList lexeme.taken) := by
    rw [text, String.toList_ofList]
  cases hshape : lexeme.shape with
  | comment | unclosedComment =>
      have hspan := style.span_lexeme h (by rw [hshape]; simp)
      have htoken : (style.lexeme lexeme).asToken .comment =
          style.token (lexeme.asToken .comment) := by
        rw [Lexeme.asToken, hspan]
        exact congrArg (Token.mk .comment · lexeme.span) hliteral
      simpa [Lexeme.comment?, BreakStyle.lexeme, hshape] using htoken
  | _ => simp [Lexeme.comment?, BreakStyle.lexeme, hshape]

theorem error?_lexeme : (style.lexeme lexeme).error? = lexeme.error? := by
  by_cases hnewline : lexeme.shape = .token .newline
  · simp [Lexeme.error?, BreakStyle.lexeme, hnewline]
  by_cases hcomment : lexeme.shape = .comment
  · simp [Lexeme.error?, BreakStyle.lexeme, hcomment]
  by_cases hunclosed : lexeme.shape = .unclosedComment
  · have hspan := style.span_lexeme h hnewline
    simpa [Lexeme.error?, BreakStyle.lexeme, hunclosed] using hspan
  rw [style.lexeme_eq_self h hnewline hcomment hunclosed]

end Lexeme

/-- What is taken from the lexemes of a text one by one. -/
theorem filterMap_lexeme {α : Type} {part : Lexeme -> Option α} {change : α -> α}
    (hpart : ∀ {lexeme : Lexeme}, lexeme.Unbroken ->
      part (style.lexeme lexeme) = (part lexeme).map change)
    {lexemes : List Lexeme} (h : ∀ lexeme ∈ lexemes, lexeme.Unbroken) :
    (lexemes.map style.lexeme).filterMap part = (lexemes.filterMap part).map change := by
  induction lexemes with
  | nil => rfl
  | cons lexeme lexemes ih =>
      have htail := ih fun l hl => h l (List.mem_cons_of_mem lexeme hl)
      rw [List.map_cons, List.filterMap_cons, List.filterMap_cons,
        hpart (h lexeme List.mem_cons_self), htail]
      cases part lexeme <;> rfl

theorem toList_text (text : String) : (style.text text).toList = style.rewrite text.toList :=
  String.toList_ofList

theorem tokenize_text {text : String} (h : '\r' ∉ text.toList) :
    tokenize (style.text text) =
      { tokens := (tokenize text).tokens.map style.token
        comments := (tokenize text).comments.map style.token
        errors := (tokenize text).errors } := by
  have hlexemes := Lexeme.unbroken_scan none .origin h
  have htokens := style.filterMap_lexeme style.token?_lexeme hlexemes
  have hcomments := style.filterMap_lexeme style.comment?_lexeme hlexemes
  have herrors : ((Lexeme.scan none .origin text.toList).map style.lexeme).filterMap Lexeme.error? =
      ((Lexeme.scan none .origin text.toList).filterMap Lexeme.error?).map id :=
    style.filterMap_lexeme
      (fun hl => (style.error?_lexeme hl).trans (Option.map_id_apply ..).symm) hlexemes
  have hend : style.token (Token.endOfText (Position.origin.advance text.toList)) =
      Token.endOfText (Position.origin.advance text.toList) := rfl
  simp only [tokenize, style.toList_text,
    (style.scans_rewrite (Lexeme.scan_scans none .origin _) h).scan_eq,
    style.advance_rewrite .origin h, htokens, hcomments, herrors, List.map_append,
    List.map_singleton, hend, List.map_id]

/-! ## The lines of the text -/

/-- Writing line breaks in a style is a rewording: no part of the text starts elsewhere. -/
def rewording : Concrete.Rewording where
  token := style.token
  body := style.text
  Alike a b := b.start = a.start
  kind_token t := by
    unfold token
    split <;> simp [*]
  stop_token t h := by
    unfold token
    split
    next hkind => exact absurd hkind h
    next => rfl
    next => rfl
  dotted_token t h := by rw [style.token_of_ne (by simp [h]) (by simp [h])]
  suffix_token t h := by rw [style.token_of_ne (by simp [h]) (by simp [h])]
  fragment_token t h := by
    have hkind : t.kind ≠ .newline ∧ t.kind ≠ .comment := by
      rcases h with h | h <;> simp [h]
    rw [style.token_of_ne hkind.1 hkind.2]
    rfl
  alike_token t := by
    unfold token
    split <;> rfl
  alike_empty _ := rfl
  alike_union h h' := by rw [Span.union, Span.union, h, h']
  start_eq h := h

theorem rewrite_inFront {c : Char} (h : c ≠ '\n') (rows : List (List Char)) :
    Concrete.inFront c (rows.map style.rewrite) = (Concrete.inFront c rows).map style.rewrite := by
  cases rows with
  | nil => simp [Concrete.inFront, style.rewrite_cons h]
  | cons row rows => simp [Concrete.inFront, style.rewrite_cons h]

theorem sourceRows_break (rest : List Char) :
    Concrete.sourceRows (style.chars ++ style.rewrite rest) =
      style.chars :: Concrete.sourceRows (style.rewrite rest) := by
  cases style with
  | returnAndFeed => rfl
  | returnOnly =>
      have hhead := head?_returnOnly rest
      rw [chars, List.singleton_append, Concrete.sourceRows_cons]
      simp [hhead, isLineBreak]

theorem sourceRows_rewrite {text : List Char} (h : '\r' ∉ text) :
    Concrete.sourceRows (style.rewrite text) =
      (Concrete.sourceRows text).map style.rewrite := by
  induction text with
  | nil => rfl
  | cons c rest ih =>
      have hrest : '\r' ∉ rest := fun hr => h (List.mem_cons_of_mem c hr)
      have hreturn : c ≠ '\r' := fun hr => h (hr ▸ List.mem_cons_self)
      by_cases hc : c = '\n'
      · subst hc
        rw [style.rewrite_feed, sourceRows_break, ih hrest, Concrete.sourceRows_cons]
        simp [isLineBreak]
      · have hbreak : isLineBreak c = false := by simp [isLineBreak, hc, hreturn]
        rw [style.rewrite_cons hc, Concrete.sourceRows_cons, Concrete.sourceRows_cons, ih hrest]
        simp [hreturn, hbreak, style.rewrite_inFront hc]

theorem rewrite_flatten (rows : List (List Char)) :
    style.rewrite rows.flatten = (rows.map style.rewrite).flatten := by
  induction rows with
  | nil => rfl
  | cons row rows ih => simp [ih]

theorem sourceLike_text {source : String} (h : '\r' ∉ source.toList) :
    style.rewording.SourceLike (Concrete.sourceRows source.toList)
      (Concrete.sourceRows (style.text source).toList) := by
  rw [style.toList_text, style.sourceRows_rewrite h]
  refine ⟨List.length_map .., ?_⟩
  intro first stop
  show _ = style.text (String.ofList _)
  rw [text, String.toList_ofList, rewrite_flatten, Concrete.rowText, List.map_take, List.map_drop]

end BreakStyle

def ConcreteFile.ofSource (text : String) : ConcreteFile :=
  ofTokens (tokenize text).tokens (tokenize text).comments text

/-- The style of line breaks does not matter.  A text without carriage returns and the same text
with its line feeds written in a style have the same tokens, comments and faults, but for the line
breaks themselves and those in comments; and they have the same lines, with the same places at which
everything starts, the same faults of the grammar, the same rows of macro bodies, and macro bodies
that differ in their line breaks alone. -/
theorem BreakStyle.ofSource_text (style : BreakStyle) {text : String} (h : '\r' ∉ text.toList) :
    tokenize (style.text text) =
        { tokens := (tokenize text).tokens.map style.token
          comments := (tokenize text).comments.map style.token
          errors := (tokenize text).errors } ∧
      style.rewording.LinesLike (ConcreteFile.ofSource text).lines
        (ConcreteFile.ofSource (style.text text)).lines ∧
      (ConcreteFile.ofSource (style.text text)).span.start =
        (ConcreteFile.ofSource text).span.start ∧
      (ConcreteFile.ofSource (style.text text)).errors =
        (ConcreteFile.ofSource text).errors.map style.rewording.error ∧
      (ConcreteFile.ofSource (style.text text)).rawRows = (ConcreteFile.ofSource text).rawRows := by
  have htokens := style.tokenize_text h
  obtain ⟨hlines, herrors, hraw⟩ := style.rewording.ofTokens_map
    (exists_eof_mem_tokenize text) (tokenize text).comments (style.sourceLike_text h)
  have hsource : ConcreteFile.ofSource (style.text text) =
      ConcreteFile.ofTokens ((tokenize text).tokens.map style.token)
        ((tokenize text).comments.map style.token) (style.text text) := by
    rw [ConcreteFile.ofSource, htokens]
  rw [hsource]
  exact ⟨htokens, hlines, style.rewording.alike_cover? hlines.alike .origin, herrors, hraw⟩

/-- A macro of two rows and a comment that goes over a line break. -/
def macroAndComment : String := " mac m\n nop\n rts\n endm\n/* a\nb */ m\n"

theorem BreakStyle.ofSource_text_macroAndComment :
    '\r' ∉ macroAndComment.toList ∧
      returnAndFeed.text macroAndComment =
        " mac m\r\n nop\r\n rts\r\n endm\r\n/* a\r\nb */ m\r\n" ∧
      (tokenize (returnAndFeed.text macroAndComment)).errors = (tokenize macroAndComment).errors ∧
      returnAndFeed.rewording.LinesLike (ConcreteFile.ofSource macroAndComment).lines
        (ConcreteFile.ofSource (returnAndFeed.text macroAndComment)).lines := by
  have h : '\r' ∉ macroAndComment.toList := by decide
  obtain ⟨htokens, hlines, _⟩ := ofSource_text .returnAndFeed h
  refine ⟨h, by decide, ?_, hlines⟩
  rw [htokens]

end Asm6502
