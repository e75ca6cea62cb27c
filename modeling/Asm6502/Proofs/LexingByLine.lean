import Asm6502.Proofs.LexemePositions

/-!
# Lexing line by line

A line feed cuts a text in two parts that are cut into lexemes on their own.  What stands in front
of it does not see it, unless a block comment is still open, and what stands behind it does not see
what came before: only its rows are counted on from there.
-/

namespace Asm6502

/-! ## Moving down -/

def Position.down (rows : Nat) (p : Position) : Position := ⟨p.line + rows, p.column⟩

def Span.down (rows : Nat) (span : Span) : Span := ⟨span.start.down rows, span.stop.down rows⟩

def Token.down (rows : Nat) (token : Token) : Token := { token with span := token.span.down rows }

def LexError.down (rows : Nat) : LexError -> LexError
  | unexpectedCharacter character span => unexpectedCharacter character (span.down rows)
  | unterminatedString span => unterminatedString (span.down rows)
  | missingCharacter span => missingCharacter (span.down rows)
  | unterminatedComment span => unterminatedComment (span.down rows)

namespace Position

theorem advance_down (rows : Nat) (p : Position) (text : List Char) :
    (p.down rows).advance text = (p.advance text).down rows := by
  have hnext (p : Position) : (p.down rows).nextLine = p.nextLine.down rows := by
    simp only [down, nextLine, Position.mk.injEq, and_true]
    omega
  induction text generalizing p with
  | nil => rfl
  | cons c rest ih =>
      rw [advance_cons, advance_cons]
      split
      · exact ih p
      split
      · rw [hnext, ih]
      · exact ih p.nextColumn

/-- A text can be gone over in two parts that do not part a line break. -/
theorem advance_append (p : Position) {front back : List Char} (h : KeepsBreak front back) :
    p.advance (front ++ back) = (p.advance front).advance back := by
  induction front generalizing p with
  | nil => rfl
  | cons c rest ih =>
      have hhead : (c = '\r' ∧ (rest ++ back).head? = some '\n') ↔
          (c = '\r' ∧ rest.head? = some '\n') := by
        cases rest with
        | nil =>
            have hback : c = '\r' -> back.head? ≠ some '\n' := fun hc => h (by rw [hc]; rfl)
            constructor
            · intro hfeed
              exact absurd hfeed.2 (hback hfeed.1)
            · intro hfeed
              cases hfeed.2
        | cons d rest => exact Iff.rfl
      rw [List.cons_append, advance_cons, advance_cons]
      simp only [hhead]
      split
      · exact ih p h.tail
      split
      · exact ih p.nextLine h.tail
      · exact ih p.nextColumn h.tail

end Position

namespace Lexeme

def down (rows : Nat) (lexeme : Lexeme) : Lexeme := { lexeme with start := lexeme.start.down rows }

theorem stop_down (rows : Nat) (lexeme : Lexeme) :
    (lexeme.down rows).stop = lexeme.stop.down rows :=
  Position.advance_down rows lexeme.start lexeme.taken

theorem span_down (rows : Nat) (lexeme : Lexeme) :
    (lexeme.down rows).span = lexeme.span.down rows := by
  rw [span_eq, span_eq, stop_down]
  by_cases h : lexeme.shape = .token .newline
  · simp [h, down, Span.down, Position.down]
  · simp [h, down, Span.down]

theorem asToken_down (rows : Nat) (lexeme : Lexeme) (kind : Token.Kind) :
    (lexeme.down rows).asToken kind = (lexeme.asToken kind).down rows := by
  rw [asToken, span_down]
  rfl

theorem token?_down (rows : Nat) (lexeme : Lexeme) :
    (lexeme.down rows).token? = lexeme.token?.map (Token.down rows) := by
  obtain ⟨shape, taken, start⟩ := lexeme
  cases shape with
  | token kind => exact congrArg some (asToken_down rows ⟨.token kind, taken, start⟩ kind)
  | unclosedString => exact congrArg some (asToken_down rows ⟨_, taken, start⟩ .stringLiteral)
  | _ => rfl

theorem comment?_down (rows : Nat) (lexeme : Lexeme) :
    (lexeme.down rows).comment? = lexeme.comment?.map (Token.down rows) := by
  obtain ⟨shape, taken, start⟩ := lexeme
  cases shape with
  | comment | unclosedComment =>
      exact congrArg some (asToken_down rows ⟨_, taken, start⟩ .comment)
  | _ => rfl

theorem error?_down (rows : Nat) (lexeme : Lexeme) :
    (lexeme.down rows).error? = lexeme.error?.map (LexError.down rows) := by
  have hspan := span_down rows lexeme
  obtain ⟨shape, taken, start⟩ := lexeme
  cases shape with
  | unclosedString => exact congrArg (some ∘ LexError.unterminatedString) hspan
  | unclosedComment => exact congrArg (some ∘ LexError.unterminatedComment) hspan
  | missingCharacter => exact congrArg (some ∘ LexError.missingCharacter) hspan
  | unexpectedCharacter =>
      exact congrArg (some ∘ LexError.unexpectedCharacter (taken.headD ' ')) hspan
  | _ => rfl

theorem scan_down (rows : Nat) (previous : Option Token.Kind) (start : Position)
    (text : List Char) :
    scan previous (start.down rows) text = (scan previous start text).map (down rows) := by
  fun_induction scan previous start text with
  | case1 => simp [scan]
  | case2 previous start first rest shape length hcut lexeme ih =>
      have hkind : (lexeme.down rows).token?.map Token.kind = lexeme.token?.map Token.kind := by
        rw [token?_down, Option.map_map]
        rfl
      rw [scan]
      simp only [hcut]
      rw [List.map_cons, ← ih, ← stop_down, ← hkind]
      rfl

/-! ## What is remembered -/

theorem cut_of_endsOperand {previous other : Option Token.Kind}
    (h : previous.any Token.Kind.endsOperand = other.any Token.Kind.endsOperand) (first : Char)
    (rest : List Char) : cut previous first rest = cut other first rest := by
  simp only [cut, h]

/-- From what came earlier only matters whether it ended an operand. -/
theorem scan_of_endsOperand {previous other : Option Token.Kind}
    (h : previous.any Token.Kind.endsOperand = other.any Token.Kind.endsOperand)
    (start : Position) (text : List Char) : scan previous start text = scan other start text := by
  fun_induction scan previous start text generalizing other with
  | case1 => simp [scan]
  | case2 previous start first rest shape length hcut lexeme =>
      rename_i ih
      have hsame : cut other first rest = (shape, length) := by
        rw [← cut_of_endsOperand h, hcut]
      have hnext (kind : Option Token.Kind) : (kind.or previous).any Token.Kind.endsOperand =
          (kind.or other).any Token.Kind.endsOperand := by
        cases kind with
        | none => exact h
        | some kind => rfl
      rw [scan]
      simp only [hsame]
      rw [ih (hnext _)]

theorem scan_behind_break (start : Position) (text : List Char) :
    scan (some .newline) start.nextLine text =
      (scan none .origin text).map (down (start.line + 1)) := by
  have hstart : start.nextLine = Position.origin.down (start.line + 1) := by
    simp [Position.nextLine, Position.down, Position.origin]
  have hfresh : scan (some .newline) .origin text = scan none .origin text :=
    scan_of_endsOperand (by rfl) .origin text
  rw [hstart, scan_down, hfresh]

/-- A line break in front of a text is one lexeme, whatever came before it. -/
theorem scan_break (previous : Option Token.Kind) (start : Position) {taken rest : List Char}
    (hbreak : LineBreak taken) (hkeeps : KeepsBreak taken rest) :
    scan previous start (taken ++ rest) =
      ⟨.token .newline, taken, start⟩ :: scan (some .newline) start.nextLine rest := by
  rcases hbreak with rfl | rfl | rfl
  · rw [List.singleton_append, scan]
    rfl
  · have hcut : cut previous '\r' rest = (.token .newline, 0) := by
      have hhead := hkeeps rfl
      simp [cut, hhead]
    rw [List.singleton_append, scan, hcut]
    rfl
  · rw [List.cons_append, scan]
    rfl

/-! ## What stands in front of a line feed -/

theorem shows_append_feed (rest more : List Char) : Shows rest (rest ++ '\n' :: more) := by
  have hword (rest : List Char) : EndsWord (rest ++ '\n' :: more) -> EndsWord rest := by
    cases rest with
    | nil => exact fun _ => nofun
    | cons => exact id
  cases rest with
  | nil => exact shows_blank (by simp; decide) []
  | cons c rest =>
      refine shows_cons (hword rest) ?_ c
      cases rest with
      | nil => exact fun h => absurd h.1 (by decide)
      | cons d rest => exact fun h => ⟨h.1, hword rest h.2⟩

/-- The lexeme in front of a text is the same when a line feed and more follow the text, unless it
is a block comment without an end or a carriage return at the end of the text. -/
theorem Form.append_feed {previous : Option Token.Kind} {taken rest : List Char} {shape : Shape}
    (h : Form previous taken rest shape) (hopen : shape ≠ .unclosedComment)
    (hreturn : (taken ++ rest).getLast? ≠ some '\r') (more : List Char) :
    Form previous taken (rest ++ '\n' :: more) shape := by
  refine h.shows (shows_append_feed rest more) (fun _ => ?_) ?_ (fun _ => ?_)
    fun hcomment _ => absurd hcomment hopen
  · cases rest <;> simp [EndsRow, isLineBreak]
  · rintro rfl
    cases rest with
    | nil => exact absurd rfl hreturn
    | cons => exact id
  · cases rest with
    | nil => simp [isInlineBlank, isLineBreak]
    | cons => exact id

/-- The lexemes of a text with a line feed in it: those in front of the line feed, the line feed,
and those behind it. -/
theorem Scans.append_feed {previous : Option Token.Kind} {start : Position} {text : List Char}
    {lexemes : List Lexeme} (h : Scans previous start text lexemes) (more : List Char)
    (hreturn : text.getLast? ≠ some '\r')
    (hopen : ∀ lexeme ∈ lexemes, lexeme.shape ≠ .unclosedComment) :
    Scans previous start (text ++ '\n' :: more)
      (lexemes ++ ⟨.token .newline, ['\n'], start.advance text⟩ ::
        scan (some .newline) (start.advance text).nextLine more) := by
  induction h with
  | nil previous start =>
      exact @Scans.cons _ ⟨_, ['\n'], start⟩ _ _ (.whole .feed more) (scan_scans _ _ _)
  | @cons previous lexeme rest lexemes hform _ ih =>
      obtain ⟨hfront, hothers⟩ := List.forall_mem_cons.1 hopen
      have hlast : rest.getLast? ≠ some '\r' := by
        intro hlast
        rw [List.getLast?_append, hlast] at hreturn
        exact hreturn rfl
      rw [Position.advance_append lexeme.start hform.keepsBreak, List.append_assoc]
      exact .cons (hform.append_feed hfront hreturn more) (ih hlast hothers)

theorem scan_append_feed (previous : Option Token.Kind) (start : Position) (text more : List Char)
    (hreturn : text.getLast? ≠ some '\r')
    (hopen : ∀ lexeme ∈ scan previous start text, lexeme.shape ≠ .unclosedComment) :
    scan previous start (text ++ '\n' :: more) =
      scan previous start text ++ ⟨.token .newline, ['\n'], start.advance text⟩ ::
        scan (some .newline) (start.advance text).nextLine more :=
  ((scan_scans previous start text).append_feed more hreturn hopen).scan_eq

end Lexeme

/-! ## The tokens of a text -/

theorem shape_ne_unclosedComment {source : String}
    (h : ∀ span, LexError.unterminatedComment span ∉ (tokenize source).errors) :
    ∀ lexeme ∈ Lexeme.scan none .origin source.toList, lexeme.shape ≠ .unclosedComment := by
  intro lexeme hmem hshape
  apply h lexeme.span
  exact List.mem_filterMap.2 ⟨lexeme, hmem, by simp [Lexeme.error?, hshape]⟩

theorem filterMap_down {α : Type} {part : Lexeme -> Option α} {change : α -> α} {rows : Nat}
    (hpart : ∀ lexeme : Lexeme, part (lexeme.down rows) = (part lexeme).map change)
    (lexemes : List Lexeme) :
    (lexemes.map (Lexeme.down rows)).filterMap part = (lexemes.filterMap part).map change := by
  have hcompose : part ∘ Lexeme.down rows = fun lexeme => (part lexeme).map change :=
    funext hpart
  rw [List.filterMap_map, List.map_filterMap, hcompose]

/-- Lexing is local to lines.  Where the text in front of a line feed leaves no block comment open
and does not end in a carriage return, its tokens, comments and faults are the first ones of the
whole text; the line feed is a token of its own; and those of the text behind it follow, moved down
by one row more than there are line breaks in front.  Behind a line break of any style a text is cut
as if it stood alone, whatever token came before the break. -/
theorem tokenize_line_by_line (front back : String)
    (hreturn : front.toList.getLast? ≠ some '\r')
    (hopen : ∀ span, LexError.unterminatedComment span ∉ (tokenize front).errors) :
    let stop := Position.ofOffset front.toList front.toList.length
    let rows := stop.line + 1
    tokenize (front ++ "\n" ++ back) =
        { tokens := (tokenize front).tokens.dropLast ++
            ⟨.newline, "\n", ⟨stop, stop.nextColumn⟩⟩ ::
              (tokenize back).tokens.map (Token.down rows)
          comments := (tokenize front).comments ++ (tokenize back).comments.map (Token.down rows)
          errors := (tokenize front).errors ++ (tokenize back).errors.map (LexError.down rows) } ∧
      ∀ previous start taken rest, LineBreak taken -> KeepsBreak taken rest ->
        Lexeme.scan previous start (taken ++ rest) =
          ⟨.token .newline, taken, start⟩ ::
            (Lexeme.scan none .origin rest).map (Lexeme.down (start.line + 1)) := by
  intro stop rows
  have hstop : Position.origin.advance front.toList = stop := Position.advance_origin front.toList
  have htext : (front ++ "\n" ++ back).toList = front.toList ++ '\n' :: back.toList := by
    simp [String.toList_append]
  have hlexemes : Lexeme.scan none .origin (front ++ "\n" ++ back).toList =
      Lexeme.scan none .origin front.toList ++ ⟨.token .newline, ['\n'], stop⟩ ::
        (Lexeme.scan none .origin back.toList).map (Lexeme.down rows) := by
    rw [htext, Lexeme.scan_append_feed none .origin _ _ hreturn (shape_ne_unclosedComment hopen),
      hstop, Lexeme.scan_behind_break]
  have hend : Position.origin.advance (front ++ "\n" ++ back).toList =
      (Position.origin.advance back.toList).down rows := by
    have hkeeps : KeepsBreak front.toList ('\n' :: back.toList) :=
      fun hlast => absurd hlast hreturn
    have hrow : stop.nextLine = Position.origin.down rows := by
      simp [Position.nextLine, Position.down, Position.origin, rows]
    rw [htext, Position.advance_append _ hkeeps, hstop, ← Position.advance_down, ← hrow]
    rfl
  refine ⟨?_, ?_⟩
  · simp only [tokenize, hlexemes, hend, List.filterMap_append, List.filterMap_cons,
      filterMap_down (Lexeme.token?_down rows), filterMap_down (Lexeme.comment?_down rows),
      filterMap_down (Lexeme.error?_down rows), List.dropLast_concat, List.map_append,
      List.map_singleton]
    rw [List.append_assoc]
    rfl
  · intro previous start taken rest hbreak hkeeps
    rw [Lexeme.scan_break previous start hbreak hkeeps, Lexeme.scan_behind_break]

/-- A string that is still open at the end of its row: the row behind it starts with a number and
not with an operator. -/
theorem tokenize_line_by_line_openString :
    let front := "n = 2+\"s"
    let back := "%10 '"
    front.toList.getLast? ≠ some '\r' ∧
      (∀ span, LexError.unterminatedComment span ∉ (tokenize front).errors) ∧
      (tokenize (front ++ "\n" ++ back)).tokens.drop 6 =
        [⟨.stringLiteral, "\"s", ⟨⟨0, 6⟩, ⟨0, 8⟩⟩⟩, ⟨.newline, "\n", ⟨⟨0, 8⟩, ⟨0, 9⟩⟩⟩,
          ⟨.binary, "%10", ⟨⟨1, 0⟩, ⟨1, 3⟩⟩⟩, ⟨.whitespace, " ", ⟨⟨1, 3⟩, ⟨1, 4⟩⟩⟩,
          ⟨.eof, "", ⟨⟨1, 5⟩, ⟨1, 5⟩⟩⟩] ∧
      (tokenize (front ++ "\n" ++ back)).errors =
        [.unterminatedString ⟨⟨0, 6⟩, ⟨0, 8⟩⟩, .missingCharacter ⟨⟨1, 4⟩, ⟨1, 5⟩⟩] := by
  intro front back
  have hreturn : front.toList.getLast? ≠ some '\r' := by decide
  have herrors : (tokenize front).errors = [.unterminatedString ⟨⟨0, 6⟩, ⟨0, 8⟩⟩] := by
    decide +kernel
  have hopen : ∀ span, LexError.unterminatedComment span ∉ (tokenize front).errors := by
    intro span
    rw [herrors]
    simp
  have hlexed := (tokenize_line_by_line front back hreturn hopen).1
  rw [hlexed]
  exact ⟨hreturn, hopen, by decide +kernel, by decide +kernel⟩

end Asm6502
