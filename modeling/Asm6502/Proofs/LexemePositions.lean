import Asm6502.Proofs.LexemeTiling

/-!
# Positions of lexemes

The position at an offset of a text counts the line breaks before it and the characters behind the
last of them.  Going over a lexeme leads from the position at its first offset to the position
behind its last, since no lexeme ends inside a line break.  So every span that the lexer gives is
that of two offsets of the text, and the spans of the tokens follow one another.
-/

namespace Asm6502

variable {p : Position} {error : LexError}

namespace Position

/-! ## Positions at offsets -/

/-- Whether a line break ends with the character at an offset: a line feed, or a carriage return
that is not followed by a line feed. -/
def breakEndsAt (text : List Char) (offset : Nat) : Bool :=
  text[offset]? == some '\n' || (text[offset]? == some '\r' && text[offset + 1]? != some '\n')

/-- The position at an offset: the number of line breaks that end before it, and the number of
characters since the last of them. -/
def ofOffset (text : List Char) (offset : Nat) : Position where
  line := (List.range offset).countP (breakEndsAt text)
  column := ((List.range offset).reverse.takeWhile fun i => !breakEndsAt text i).length

theorem ofOffset_succ (text : List Char) (i : Nat) :
    ofOffset text (i + 1) =
      if breakEndsAt text i then (ofOffset text i).nextLine else (ofOffset text i).nextColumn := by
  unfold ofOffset
  rw [List.range_succ, List.countP_append, List.reverse_append]
  cases h : breakEndsAt text i <;> simp [h, nextLine, nextColumn]

theorem lt_iff {a b : Position} :
    a < b ↔ a.line < b.line ∨ (a.line = b.line ∧ a.column < b.column) := by
  change ¬ b ≤ a ↔ _
  rw [le_iff]
  omega

theorem le_of_lt {a b : Position} (h : a < b) : a ≤ b := by
  rw [lt_iff] at h
  rw [le_iff]
  omega

theorem lt_of_lt_of_le {a b c : Position} (hab : a < b) (hbc : b ≤ c) : a < c := by
  rw [lt_iff] at hab ⊢
  rw [le_iff] at hbc
  omega

theorem eq_of_le_of_le {p q : Position} (h : p ≤ q) (h' : q ≤ p) : p = q := by
  obtain ⟨line, column⟩ := p
  obtain ⟨line', column'⟩ := q
  simp only [Position.le_iff] at h h'
  simp only [Position.mk.injEq]
  omega

theorem le_trans {a b c : Position} (hab : a ≤ b) (hbc : b ≤ c) : a ≤ c := by
  rw [le_iff] at *
  omega

theorem ofOffset_lt_succ (text : List Char) (i : Nat) :
    ofOffset text i < ofOffset text (i + 1) := by
  rw [ofOffset_succ, lt_iff]
  split
  next => exact .inl (Nat.lt_succ_self _)
  next => exact .inr ⟨rfl, Nat.lt_succ_self _⟩

theorem ofOffset_lt {text : List Char} {i j : Nat} (h : i < j) :
    ofOffset text i < ofOffset text j := by
  induction h with
  | refl => exact ofOffset_lt_succ text i
  | step _ ih => exact lt_of_lt_of_le ih (le_of_lt (ofOffset_lt_succ text _))

theorem ofOffset_le {text : List Char} {i j : Nat} (h : i ≤ j) :
    ofOffset text i ≤ ofOffset text j := by
  rcases Nat.eq_or_lt_of_le h with rfl | h
  · exact le_iff.2 (.inr ⟨rfl, Nat.le_refl _⟩)
  · exact le_of_lt (ofOffset_lt h)

/-! ## Going over a part of a text -/

theorem drop_succ_of_drop {text more : List Char} {i : Nat} {c : Char}
    (h : text.drop i = c :: more) : text.drop (i + 1) = more := by
  rw [← List.tail_drop, h, List.tail_cons]

theorem breakEndsAt_of_drop {text more : List Char} {i : Nat} {c : Char}
    (h : text.drop i = c :: more) :
    breakEndsAt text i = (c == '\n' || (c == '\r' && more.head? != some '\n')) := by
  have hi : text[i]? = some c := by rw [← List.head?_drop, h, List.head?_cons]
  have hnext : text[i + 1]? = more.head? := by rw [← List.head?_drop, drop_succ_of_drop h]
  rw [breakEndsAt, hi, hnext]
  rfl

/-- The position behind a text, by its first character.  The carriage return of a line break leaves
the break to the line feed. -/
theorem advance_cons (p : Position) (c : Char) (rest : List Char) :
    p.advance (c :: rest) =
      if c = '\r' ∧ rest.head? = some '\n' then p.advance rest
      else if isLineBreak c then p.nextLine.advance rest
      else p.nextColumn.advance rest := by
  by_cases hreturn : c = '\r'
  · subst hreturn
    match rest with
    | [] => rfl
    | d :: rest =>
        by_cases hfeed : d = '\n'
        · subst hfeed
          rfl
        · have hstep : p.advance ('\r' :: d :: rest) = p.nextLine.advance (d :: rest) := by
            rw [advance]
            rintro more ⟨⟩
            exact hfeed rfl
          simp [hstep, hfeed, isLineBreak]
  · by_cases hfeed : c = '\n'
    · subst hfeed
      rfl
    · have hstep : p.advance (c :: rest) = p.nextColumn.advance rest := by
        rw [advance]
        · exact hfeed
        · exact fun _ h _ => hreturn h
        · exact hreturn
      simp [hstep, hreturn, hfeed, isLineBreak]

/-- Going over a part that does not end inside a line break leads to the position behind it. -/
theorem advance_ofOffset {text taken rest : List Char} {i : Nat}
    (hp : p = ofOffset text i) (htext : text.drop i = taken ++ rest) (h : KeepsBreak taken rest) :
    p.advance taken = ofOffset text (i + taken.length) := by
  fun_induction Position.advance p taken generalizing i with
  | case1 p => exact hp
  | case2 p more ih =>
      have hbreak : breakEndsAt text i = true := by simp [breakEndsAt_of_drop htext]
      rw [ih (by rw [ofOffset_succ, if_pos hbreak, hp]) (drop_succ_of_drop htext) h.tail,
        List.length_cons, Nat.add_assoc, Nat.add_comm 1]
  | case3 p more ih =>
      -- The carriage return is a column of its own until the line feed ends the row.
      have hreturn : breakEndsAt text i = false := by simp [breakEndsAt_of_drop htext]
      have htext' := drop_succ_of_drop htext
      have hfeed : breakEndsAt text (i + 1) = true := by simp [breakEndsAt_of_drop htext']
      have hnext : p.nextLine = ofOffset text (i + 2) := by
        rw [ofOffset_succ, if_pos hfeed, ofOffset_succ, hreturn, hp]
        rfl
      rw [ih hnext (drop_succ_of_drop htext') h.tail.tail, List.length_cons, List.length_cons]
      congr 1
      omega
  | case4 p more hne ih =>
      have hhead : (more ++ rest).head? ≠ some '\n' := by
        cases more with
        | nil => exact h rfl
        | cons c more =>
            rw [List.cons_append, List.head?_cons]
            rintro ⟨⟩
            exact hne more rfl
      have hbreak : breakEndsAt text i = true := by
        rw [breakEndsAt_of_drop htext]
        simpa using hhead
      rw [ih (by rw [ofOffset_succ, if_pos hbreak, hp]) (drop_succ_of_drop htext) h.tail,
        List.length_cons, Nat.add_assoc, Nat.add_comm 1]
  | case5 p c more hfeed _ hreturn ih =>
      have hbreak : breakEndsAt text i = false := by
        rw [breakEndsAt_of_drop htext, beq_eq_false_iff_ne.2 hfeed, beq_eq_false_iff_ne.2 hreturn]
        rfl
      have hnext : p.nextColumn = ofOffset text (i + 1) := by
        rw [ofOffset_succ, hbreak, hp]
        rfl
      rw [ih hnext (drop_succ_of_drop htext) h.tail, List.length_cons, Nat.add_assoc,
        Nat.add_comm 1]

-- Behind the carriage return of a line break the two do not agree.
example : (ofOffset ['\r', '\n'] 0).advance ['\r'] ≠ ofOffset ['\r', '\n'] 1 := by decide

theorem advance_origin (text : List Char) : origin.advance text = ofOffset text text.length := by
  have hkeeps : KeepsBreak text [] := by simp [KeepsBreak]
  have hall : origin.advance text = ofOffset text (0 + text.length) :=
    advance_ofOffset rfl (List.append_nil text).symm hkeeps
  rwa [Nat.zero_add] at hall

end Position

/-! ## Lexemes at offsets -/

namespace Lexeme

/-- A lexeme whose characters and positions are those of a text at an offset. -/
structure StandsAt (text : List Char) (i : Nat) (lexeme : Lexeme) : Prop where
  nonempty : 0 < lexeme.taken.length
  inside : i + lexeme.taken.length ≤ text.length
  taken_eq : text.extract i (i + lexeme.taken.length) = lexeme.taken
  start_eq : lexeme.start = .ofOffset text i
  stop_eq : lexeme.stop = .ofOffset text (i + lexeme.taken.length)
  describes : lexeme.shape.Describes lexeme.taken (text.drop (i + lexeme.taken.length))

theorem drop_add_of_drop {text taken rest : List Char} {i : Nat}
    (h : text.drop i = taken ++ rest) : text.drop (i + taken.length) = rest := by
  rw [← List.drop_drop, h, List.drop_left]

theorem Tiles.standsAt {text rest : List Char} {lexemes : List Lexeme}
    (h : Tiles p rest lexemes) {i : Nat} (hp : p = .ofOffset text i) (hrest : text.drop i = rest) :
    ∀ lexeme ∈ lexemes, ∃ k, i ≤ k ∧ lexeme.StandsAt text k := by
  induction h generalizing i with
  | nil => simp
  | @cons first rest lexemes nonempty describes keepsBreak tiles ih =>
      have hlength : 0 < first.taken.length := List.length_pos_iff.2 nonempty
      have hstop : first.stop = .ofOffset text (i + first.taken.length) :=
        Position.advance_ofOffset hp hrest keepsBreak
      have hafter := drop_add_of_drop hrest
      intro lexeme hmem
      rcases List.mem_cons.1 hmem with rfl | hmem
      · refine ⟨i, Nat.le_refl i, hlength, ?_, ?_, hp, hstop, hafter ▸ describes⟩
        · have := congrArg List.length hrest
          rw [List.length_drop, List.length_append] at this
          omega
        · rw [List.extract_eq_take_drop, hrest, Nat.add_sub_cancel_left, List.take_left]
      · obtain ⟨k, hk, hstands⟩ := ih hstop hafter lexeme hmem
        exact ⟨k, by omega, hstands⟩

theorem Tiles.pairwise {text rest : List Char} {lexemes : List Lexeme}
    (h : Tiles p rest lexemes) {i : Nat} (hp : p = .ofOffset text i) (hrest : text.drop i = rest) :
    lexemes.Pairwise fun a b => a.stop ≤ b.start := by
  induction h generalizing i with
  | nil => exact .nil
  | @cons first rest lexemes nonempty describes keepsBreak tiles ih =>
      have hstop : first.stop = .ofOffset text (i + first.taken.length) :=
        Position.advance_ofOffset hp hrest keepsBreak
      have hafter := drop_add_of_drop hrest
      refine .cons ?_ (ih hstop hafter)
      intro lexeme hmem
      obtain ⟨k, hk, hstands⟩ := tiles.standsAt hstop hafter lexeme hmem
      rw [hstop, hstands.start_eq]
      exact Position.ofOffset_le hk

theorem span_eq (lexeme : Lexeme) :
    lexeme.span = ⟨lexeme.start,
      if lexeme.shape = .token .newline then
        ⟨lexeme.start.line, lexeme.start.column + lexeme.taken.length⟩
      else lexeme.stop⟩ := by
  unfold span
  split
  next h => rw [if_pos h]
  next h => rw [if_neg h]

theorem span_of_token? {lexeme : Lexeme} {token : Token} (h : lexeme.token? = some token) :
    token.span = lexeme.span := by
  unfold token? at h
  split at h <;> cases h <;> rfl

end Lexeme

/-! ## Tokens, comments and faults -/

/-- A token with the text between two offsets and their positions, but that a line break ends on
the row where it starts, behind its characters. -/
def Token.StandsIn (text : List Char) (token : Token) : Prop :=
  ∃ i j, i ≤ j ∧ j ≤ text.length ∧ token.literal = String.ofList (text.extract i j) ∧
    token.span.start = .ofOffset text i ∧
    token.span.stop =
      if token.kind = .newline then
        ⟨(Position.ofOffset text i).line, (Position.ofOffset text i).column + (j - i)⟩
      else .ofOffset text j

namespace LexError

/-- The characters that a fault is about, given the rest of the text. -/
def Reports : LexError -> List Char -> List Char -> Prop
  | unexpectedCharacter character _, taken, _ => taken = [character]
  | unterminatedString _, taken, rest => OpenString taken rest
  | missingCharacter _, taken, rest => taken = ['\''] ∧ EndsRow rest
  | unterminatedComment _, taken, rest => OpenComment taken rest

/-- A fault with the positions of the characters that it is about. -/
def StandsIn (text : List Char) (error : LexError) : Prop :=
  ∃ i j, i < j ∧ j ≤ text.length ∧ error.Reports (text.extract i j) (text.drop j) ∧
    error.span = ⟨.ofOffset text i, .ofOffset text j⟩

end LexError

theorem Token.endOfText_standsIn (text : List Char) :
    (endOfText (.ofOffset text text.length)).StandsIn text := by
  refine ⟨text.length, text.length, Nat.le_refl _, Nat.le_refl _, ?_, rfl, rfl⟩
  rw [List.extract_eq_take_drop, Nat.sub_self]
  rfl

namespace Lexeme

theorem span_of_error? {lexeme : Lexeme} (h : lexeme.error? = some error) :
    error.span = ⟨lexeme.start, lexeme.stop⟩ := by
  obtain ⟨shape, taken, start⟩ := lexeme
  cases shape <;> cases h <;> rfl

theorem reports_of_error? {lexeme : Lexeme} {rest : List Char}
    (hdescribes : lexeme.shape.Describes lexeme.taken rest) (h : lexeme.error? = some error) :
    error.Reports lexeme.taken rest := by
  obtain ⟨shape, taken, start⟩ := lexeme
  cases shape with
  | unexpectedCharacter =>
      obtain ⟨c, rfl⟩ := hdescribes
      cases h
      rfl
  | _ => cases h <;> exact hdescribes

end Lexeme

namespace Lexeme.StandsAt

variable {text : List Char} {i : Nat} {lexeme : Lexeme}

theorem start_lt_stop (h : lexeme.StandsAt text i) : lexeme.start < lexeme.stop := by
  rw [h.start_eq, h.stop_eq]
  exact Position.ofOffset_lt (Nat.lt_add_of_pos_right h.nonempty)

theorem span_stop_le (h : lexeme.StandsAt text i) : lexeme.span.stop ≤ lexeme.stop := by
  have hdescribes := h.describes
  rw [span_eq]
  split
  next hshape =>
    -- A line break leads to the next row, and its span ends on the row before.
    rw [hshape] at hdescribes
    have hnext : lexeme.stop = lexeme.start.nextLine := by
      unfold stop
      rcases hdescribes.2 rfl with htaken | htaken | htaken <;> rw [htaken] <;> rfl
    rw [hnext]
    exact .inl (Nat.lt_succ_self _)
  next => exact .inr ⟨rfl, Nat.le_refl _⟩

theorem asToken_standsIn (h : lexeme.StandsAt text i) {kind : Token.Kind}
    (hkind : kind = .newline ↔ lexeme.shape = .token .newline) :
    (lexeme.asToken kind).StandsIn text := by
  refine ⟨i, i + lexeme.taken.length, Nat.le_add_right _ _, h.inside, ?_, ?_, ?_⟩
  · rw [h.taken_eq]
    rfl
  · rw [asToken, span_eq]
    exact h.start_eq
  · rw [asToken, span_eq, ← h.start_eq, ← h.stop_eq, Nat.add_sub_cancel_left]
    simp only [hkind]

theorem token_standsIn (h : lexeme.StandsAt text i) {token : Token}
    (htoken : lexeme.token? = some token) : token.StandsIn text := by
  unfold token? at htoken
  split at htoken
  next kind hshape =>
    cases htoken
    exact h.asToken_standsIn (by simp [hshape])
  next hshape =>
    cases htoken
    exact h.asToken_standsIn (by simp [hshape])
  next => cases htoken

theorem comment_standsIn (h : lexeme.StandsAt text i) {comment : Token}
    (hcomment : lexeme.comment? = some comment) : comment.StandsIn text := by
  unfold comment? at hcomment
  split at hcomment
  next hshape =>
    cases hcomment
    exact h.asToken_standsIn (by simp [hshape])
  next hshape =>
    cases hcomment
    exact h.asToken_standsIn (by simp [hshape])
  next => cases hcomment

theorem error_standsIn (h : lexeme.StandsAt text i)
    (herror : lexeme.error? = some error) : error.StandsIn text := by
  refine ⟨i, i + lexeme.taken.length, Nat.lt_add_of_pos_right h.nonempty, h.inside, ?_, ?_⟩
  · rw [h.taken_eq]
    exact reports_of_error? h.describes herror
  · rw [span_of_error? herror, h.start_eq, h.stop_eq]

theorem token_before (h : lexeme.StandsAt text i) {token : Token}
    (htoken : lexeme.token? = some token) (hp : lexeme.stop ≤ p) :
    token.span.stop ≤ p ∧ token.span.start < p := by
  rw [span_of_token? htoken]
  refine ⟨Position.le_trans h.span_stop_le hp, ?_⟩
  rw [span_eq]
  exact Position.lt_of_lt_of_le h.start_lt_stop hp

end Lexeme.StandsAt

namespace Lexeme.Tiles

variable {text : List Char} {lexemes : List Lexeme}

theorem exists_standsAt (h : Tiles .origin text lexemes) :
    ∀ lexeme ∈ lexemes, ∃ i, lexeme.StandsAt text i := by
  intro lexeme hmem
  obtain ⟨i, -, hstands⟩ := h.standsAt rfl List.drop_zero lexeme hmem
  exact ⟨i, hstands⟩

theorem pairwise_tokens (h : Tiles .origin text lexemes) :
    (lexemes.filterMap token? ++ [Token.endOfText (.ofOffset text text.length)]).Pairwise fun a b =>
      a.span.stop ≤ b.span.start ∧ a.span.start < b.span.start := by
  refine List.pairwise_append.2 ⟨?_, List.pairwise_singleton _ _, ?_⟩
  · refine List.pairwise_filterMap.2 ((h.pairwise rfl List.drop_zero).imp_of_mem ?_)
    intro a b ha _ hab token htoken next hnext
    obtain ⟨i, hstands⟩ := h.exists_standsAt a ha
    rw [span_of_token? hnext, span_eq b]
    exact hstands.token_before htoken hab
  · intro token htoken last hlast
    obtain ⟨lexeme, hmem, hlexeme⟩ := List.mem_filterMap.1 htoken
    obtain ⟨i, hstands⟩ := h.exists_standsAt lexeme hmem
    rw [List.mem_singleton.1 hlast]
    refine hstands.token_before hlexeme ?_
    rw [hstands.stop_eq]
    exact Position.ofOffset_le hstands.inside

end Lexeme.Tiles

/-- Every span of the lexer is where its text stands: tokens, comments and faults stand between two
offsets of the text, and each token ends before the next one starts. -/
theorem tokenize_spans (source : String) :
    (∀ token ∈ (tokenize source).tokens, token.StandsIn source.toList) ∧
      (∀ comment ∈ (tokenize source).comments, comment.StandsIn source.toList) ∧
      (∀ error ∈ (tokenize source).errors, error.StandsIn source.toList) ∧
      (tokenize source).tokens.Pairwise fun a b =>
        a.span.stop ≤ b.span.start ∧ a.span.start < b.span.start := by
  obtain ⟨lexemes, htiles, htokenize⟩ := tokenize_tiles source
  rw [htokenize, Position.advance_origin]
  refine ⟨?_, ?_, ?_, htiles.pairwise_tokens⟩
  · intro token htoken
    rcases List.mem_append.1 htoken with htoken | htoken
    · obtain ⟨lexeme, hmem, hlexeme⟩ := List.mem_filterMap.1 htoken
      obtain ⟨i, hstands⟩ := htiles.exists_standsAt lexeme hmem
      exact hstands.token_standsIn hlexeme
    · rw [List.mem_singleton.1 htoken]
      exact Token.endOfText_standsIn _
  · intro comment hcomment
    obtain ⟨lexeme, hmem, hlexeme⟩ := List.mem_filterMap.1 hcomment
    obtain ⟨i, hstands⟩ := htiles.exists_standsAt lexeme hmem
    exact hstands.comment_standsIn hlexeme
  · intro error herror
    obtain ⟨lexeme, hmem, hlexeme⟩ := List.mem_filterMap.1 herror
    obtain ⟨i, hstands⟩ := htiles.exists_standsAt lexeme hmem
    exact hstands.error_standsIn hlexeme

end Asm6502
