import Mathlib.Data.List.Find
import Mathlib.Data.List.TakeWhile
import Asm6502.Proofs.LexingByLine
import Asm6502.Proofs.RowLayout

/-!
# The numbers of rows

Where no comment holds a line break, the rows of tokens are the rows of the text: each token starts
on the row that the line breaks before it count to.  So the rows of tokens are numbered one after
the other, the first token on a row that is no white space is the head of that row of tokens, and
the text of some rows is made of the characters whose positions are on them.
-/

namespace Asm6502

/-- No comment of a text holds a line break. -/
def InlineComments (text : String) : Prop :=
  ∀ comment ∈ (tokenize text).comments, ∀ c ∈ comment.literal.toList, isLineBreak c = false

/-- Tokens from a row on.  Behind a line break the next row follows. -/
inductive LinedUp : Nat -> List Token -> Prop where
  | nil (row : Nat) : LinedUp row []
  | inline {row : Nat} {token : Token} {rest : List Token} (hkind : token.kind ≠ .newline)
      (hrow : token.span.start.line = row) (h : LinedUp row rest) : LinedUp row (token :: rest)
  | newline {row : Nat} {token : Token} {rest : List Token} (hkind : token.kind = .newline)
      (hrow : token.span.start.line = row) (h : LinedUp (row + 1) rest) :
      LinedUp row (token :: rest)

namespace Lexeme

/-! ## Lexemes on their rows -/

theorem stop_of_lineBreak {lexeme : Lexeme} (h : LineBreak lexeme.taken) :
    lexeme.stop = lexeme.start.nextLine := by
  unfold stop
  rcases h with h | h | h <;> rw [h] <;> rfl

theorem Scans.linedUp {previous : Option Token.Kind} {start : Position} {text : List Char}
    {lexemes : List Lexeme} (h : Scans previous start text lexemes)
    (hcomments : ∀ lexeme ∈ lexemes, lexeme.comment?.isSome ->
      ∀ c ∈ lexeme.taken, isLineBreak c = false) :
    LinedUp start.line (lexemes.filterMap token? ++ [Token.endOfText (start.advance text)]) := by
  induction h with
  | nil => exact .inline (by simp [Token.endOfText]) rfl (.nil _)
  | @cons previous lexeme rest lexemes hform _ ih =>
      obtain ⟨hlexeme, hrest⟩ := List.forall_mem_cons.1 hcomments
      have hbehind := ih hrest
      rw [Position.advance_append lexeme.start hform.keepsBreak]
      by_cases hshape : lexeme.shape = .token .newline
      · have hline : lexeme.stop.line = lexeme.start.line + 1 := by
          have hdescribes := hform.describes
          rw [hshape] at hdescribes
          rw [stop_of_lineBreak (hdescribes.2 rfl)]
          rfl
        have htoken : lexeme.token? = some (lexeme.asToken .newline) := by
          simp [token?, hshape]
        rw [List.filterMap_cons_some htoken]
        exact .newline rfl (by rw [asToken, span_eq]) (hline ▸ hbehind)
      · have hstays : ∀ c ∈ lexeme.taken, isLineBreak c = false := by
          obtain ⟨hnewline, -⟩ | ⟨-, -, hcomment, -⟩ | ⟨-, hinline⟩ := hform.breaks
          · exact absurd hnewline hshape
          · exact hlexeme (by rcases hcomment with h | h <;> simp [comment?, h])
          · exact hinline
        have hline : lexeme.stop.line = lexeme.start.line := by
          rw [stop, Position.advance_of_no_break lexeme.start hstays]
        rw [hline] at hbehind
        rcases Option.eq_none_or_eq_some lexeme.token? with htoken | ⟨token, htoken⟩
        · rw [List.filterMap_cons_none htoken]
          exact hbehind
        · rw [List.filterMap_cons_some htoken]
          refine .inline ?_ ?_ hbehind
          · intro hkind
            exact hshape (shape_of_newline htoken hkind)
          · rw [span_of_token? htoken, span_eq]

end Lexeme

theorem InlineComments.tokenize_linedUp {text : String} (h : InlineComments text) :
    LinedUp 0 (tokenize text).tokens := by
  refine (Lexeme.scan_scans none .origin text.toList).linedUp ?_
  intro lexeme hlexeme hcomment c hc
  obtain ⟨comment, hcomment⟩ := Option.isSome_iff_exists.1 hcomment
  have hliteral : comment.literal = String.ofList lexeme.taken := by
    unfold Lexeme.comment? at hcomment
    split at hcomment <;> cases hcomment <;> rfl
  refine h comment (List.mem_filterMap.2 ⟨lexeme, hlexeme, hcomment⟩) c ?_
  rwa [hliteral, String.toList_ofList]

namespace Concrete

/-! ## Rows of tokens -/

def Row.On (n : Nat) (row : Row) : Prop :=
  ∀ token ∈ row.tokens ++ [row.stop], token.span.start.line = n

theorem Row.On.number_eq {n : Nat} {row : Row} (h : row.On n) : row.number = n :=
  h _ row.peek_mem

theorem Row.On.taken {n : Nat} {row : Row} (h : row.On n) :
    ∀ token ∈ row.taken, token.span.start.line = n := by
  intro token htoken
  apply h token
  unfold Row.taken at htoken
  split at htoken
  · exact htoken
  · exact List.mem_append_left _ htoken

/-- Rows of tokens on the rows of the text one behind the other. -/
inductive Numbered : Nat -> List Row -> Prop where
  | nil (n : Nat) : Numbered n []
  | cons {n : Nat} {row : Row} {rows : List Row} (row_on : row.On n)
      (rest : Numbered (n + 1) rows) : Numbered n (row :: rows)

theorem Numbered.exists_on {n : Nat} {rows : List Row} (h : Numbered n rows) :
    ∀ row ∈ rows, ∃ k, row.On k ∧ n ≤ k ∧ k < n + rows.length := by
  induction h with
  | nil n => simp
  | @cons n first rows first_on rest ih =>
      rw [List.length_cons]
      intro row hrow
      rcases List.mem_cons.1 hrow with rfl | hrow
      · exact ⟨n, first_on, by omega, by omega⟩
      · obtain ⟨k, hon, hlow, hhigh⟩ := ih row hrow
        exact ⟨k, hon, by omega, by omega⟩

theorem Numbered.of_append {n : Nat} {front back : List Row} (h : Numbered n (front ++ back)) :
    Numbered n front ∧ Numbered (n + front.length) back := by
  induction front generalizing n with
  | nil => exact ⟨.nil n, h⟩
  | cons row front ih =>
      cases h with
      | cons hrow hrest =>
          obtain ⟨hfront, hback⟩ := ih hrest
          rw [List.length_cons, Nat.add_comm front.length, ← Nat.add_assoc]
          exact ⟨.cons hrow hfront, hback⟩

theorem Numbered.exists_number {n k : Nat} {rows : List Row} (h : Numbered n rows) (hlow : n ≤ k)
    (hhigh : k < n + rows.length) : ∃ row ∈ rows, row.number = k := by
  induction h with
  | nil n => simp only [List.length_nil] at hhigh; omega
  | @cons n row rows hrow _ ih =>
      by_cases hk : k = n
      · exact ⟨row, List.mem_cons_self, hk ▸ hrow.number_eq⟩
      · rw [List.length_cons] at hhigh
        obtain ⟨other, hother, hnumber⟩ := ih (by omega) (by omega)
        exact ⟨other, List.mem_cons_of_mem row hother, hnumber⟩

/-- Tokens that are lined up come in numbered rows, the last of which is no further down than the
end of the text. -/
theorem rowsUpTo_numbered {mark : Token} (hmark : mark.kind = .eof) {front : List Token}
    (hfront : ∀ token ∈ front, token.kind ≠ .eof) {n : Nat} (h : LinedUp n (front ++ [mark])) :
    Numbered n (rowsUpTo mark (front ++ [mark])) ∧
      n + (rowsUpTo mark (front ++ [mark])).length ≤ mark.span.start.line + 1 := by
  have hend {k : Nat} (hlast : LinedUp k [mark]) : mark.span.start.line = k := by
    cases hlast with
    | inline _ hrow _ => exact hrow
    | newline _ hrow _ => exact hrow
  induction front generalizing n with
  | nil =>
      rw [List.nil_append] at h
      have hlines := hend h
      rw [List.nil_append, rowsUpTo, if_pos hmark]
      exact ⟨.nil n, by simp only [List.length_nil]; omega⟩
  | cons token rest ih =>
      obtain ⟨heof, hrest⟩ := List.forall_mem_cons.1 hfront
      rw [List.cons_append, rowsUpTo, if_neg heof]
      cases h with
      | newline hkind hrow h =>
          obtain ⟨hnumbered, hlength⟩ := ih hrest h
          rw [if_pos hkind, List.length_cons]
          exact ⟨.cons (by simpa [Row.On] using hrow) hnumbered, by omega⟩
      | inline hkind hrow h =>
          rw [if_neg hkind]
          obtain ⟨hnumbered, hlength⟩ := ih hrest h
          cases hrows : rowsUpTo mark (rest ++ [mark]) with
          | nil =>
              -- The text ends on the row of the token.
              have hnone : rest = [] := by
                cases rest with
                | nil => rfl
                | cons token rest =>
                    exact absurd (rowsUpTo_eq_nil_iff.1 hrows token rfl)
                      (hrest token List.mem_cons_self)
              rw [hnone] at h
              have hlines := hend h
              refine ⟨.cons ?_ (.nil _), by simp only [List.length_singleton]; omega⟩
              simp [Row.On, hrow, hlines]
          | cons row rows =>
              rw [hrows] at hnumbered hlength
              cases hnumbered with
              | cons row_on others =>
                  exact ⟨.cons (List.forall_mem_cons.2 ⟨hrow, row_on⟩) others, hlength⟩

/-! ## Heads of rows -/

/-- The first token on a row of the text that is no white space. -/
def headOn? (tokens : List Token) (row : Nat) : Option Token :=
  tokens.find? fun token => token.span.start.line == row && token.kind != .whitespace

theorem headOn?_eq_none {tokens : List Token} {row : Nat}
    (h : ∀ token ∈ tokens, token.span.start.line ≠ row) : headOn? tokens row = none := by
  refine List.find?_eq_none.2 ?_
  intro token htoken
  simp [h token htoken]

theorem headOn?_append (front back : List Token) (row : Nat) :
    headOn? (front ++ back) row = (headOn? front row).or (headOn? back row) :=
  List.find?_append

theorem Row.On.headOn? {n : Nat} {row : Row} (h : row.On n) :
    headOn? row.taken n = row.taken.find? fun token => token.kind != .whitespace := by
  unfold Concrete.headOn?
  refine List.find?_congr ?_
  intro token htoken
  simp [h.taken token htoken]

theorem Numbered.headOn? {n : Nat} {rows : List Row} (h : Numbered n rows) :
    ∀ row ∈ rows, headOn? (rows.flatMap Row.taken) row.number =
      row.taken.find? fun token => token.kind != .whitespace := by
  induction h with
  | nil n => simp
  | @cons n first rows first_on rest ih =>
      intro row hrow
      rw [List.flatMap_cons, headOn?_append]
      have hbehind : ∀ other ∈ rows, ∀ token ∈ other.taken, token.span.start.line ≠ n := by
        intro other hother token htoken
        obtain ⟨k, hon, hlow, -⟩ := rest.exists_on other hother
        have hline := hon.taken token htoken
        omega
      rcases List.mem_cons.1 hrow with rfl | hrow
      · rw [first_on.number_eq, first_on.headOn?, headOn?_eq_none, Option.or_none]
        intro token htoken
        obtain ⟨other, hother, htoken⟩ := List.mem_flatMap.1 htoken
        exact hbehind other hother token htoken
      · obtain ⟨k, hon, hlow, -⟩ := rest.exists_on row hrow
        rw [← ih row hrow, headOn?_eq_none, Option.none_or]
        intro token htoken
        rw [first_on.taken token htoken, hon.number_eq]
        omega

theorem Row.find?_tokens (row : Row) :
    (row.tokens.find? fun token => token.kind != .whitespace) = row.head?.map Prod.fst := by
  have hskip : (row.tokens.find? fun token => token.kind != .whitespace) =
      (skipBlanks row.tokens).head? :=
    row.tokens.find?_not_eq_head?_dropWhile fun token : Token => token.kind == .whitespace
  rw [hskip, Row.head?]
  cases skipBlanks row.tokens <;> rfl

def endsBody (tokens : List Token) (row : Nat) : Bool :=
  (headOn? tokens row).any fun token => token.kind == .endMWord

theorem endsBody_append_mark {mark : Token} (hmark : mark.kind = .eof) (front : List Token)
    (row : Nat) : endsBody (front ++ [mark]) row = endsBody front row := by
  unfold endsBody
  rw [headOn?_append]
  cases headOn? front row with
  | some token => rfl
  | none =>
      by_cases hrow : mark.span.start.line = row
      · simp [headOn?, hrow, hmark]
      · rw [headOn?_eq_none (by simpa using hrow)]
        rfl

/-- The macro word is met where a row of tokens is headed by it. -/
theorem Numbered.endsBody_number {n : Nat} {rows : List Row} (h : Numbered n rows) {row : Row}
    (hrow : row ∈ rows) :
    endsBody (rows.flatMap Row.taken) row.number =
      row.head?.any fun head => head.1.kind == .endMWord := by
  rw [endsBody, h.headOn? row hrow, Row.taken]
  have htokens := row.find?_tokens
  split
  · next hstop =>
    rw [List.find?_append, htokens]
    cases row.head? with
    | some head => rfl
    | none => simp [hstop]
  · rw [htokens]
    cases row.head? <;> rfl

theorem Numbered.endsBody_of_le {n : Nat} {rows : List Row} (h : Numbered n rows) {row : Nat}
    (hrow : n + rows.length ≤ row) : endsBody (rows.flatMap Row.taken) row = false := by
  rw [endsBody, headOn?_eq_none]
  · rfl
  · intro token htoken
    obtain ⟨other, hother, htoken⟩ := List.mem_flatMap.1 htoken
    obtain ⟨k, hon, -, hhigh⟩ := h.exists_on other hother
    rw [hon.taken token htoken]
    omega

/-- The rows of tokens of a text are its first rows.  The word that ends a macro heads a row of the
text where it heads the row of tokens. -/
theorem rows_numbered {text : String} (h : InlineComments text) :
    let tokens := (tokenize text).tokens
    Numbered 0 (rows tokens) ∧ (rows tokens).length ≤ (sourceRows text.toList).length ∧
      (∀ row ∈ rows tokens, endsBody tokens row.number =
        row.head?.any fun head => head.1.kind == .endMWord) ∧
      ∀ row, (rows tokens).length ≤ row -> endsBody tokens row = false := by
  intro tokens
  obtain ⟨-, -, -, -, -, front, mark, htokens, hmark, -, hfront⟩ := tokenize_pieces text
  have hlines : mark.span.start.line + 1 = (sourceRows text.toList).length := by
    obtain ⟨-, hlast⟩ := List.append_inj' htokens rfl
    rw [← List.singleton_inj.1 hlast, ← Nat.zero_add (sourceRows _).length]
    exact line_advance .origin text.toList
  have hsplit : tokens = front ++ [mark] := htokens
  have hend : endMark (front ++ [mark]) = mark := by
    have hnone : front.find? (fun token => token.kind == .eof) = none := by
      simpa using hfront
    rw [endMark, List.find?_append, hnone]
    simp [hmark]
  have hall : (rows tokens).flatMap Row.taken = front := by
    rw [hsplit]
    exact flatMap_taken_rows hmark hfront
  have hends (row : Nat) :
      endsBody tokens row = endsBody ((rows tokens).flatMap Row.taken) row := by
    rw [hall, hsplit, endsBody_append_mark hmark]
  have hlinedUp := h.tokenize_linedUp
  rw [htokens] at hlinedUp
  obtain ⟨hnumbered, hlength⟩ := rowsUpTo_numbered hmark hfront hlinedUp
  have hrows : rows tokens = rowsUpTo mark (front ++ [mark]) := by
    rw [hsplit, rows, hend]
  rw [← hrows, Nat.zero_add] at hlength
  rw [← hrows] at hnumbered
  refine ⟨hnumbered, by omega, ?_, ?_⟩
  · intro row hrow
    rw [hends, hnumbered.endsBody_number hrow]
  · intro row hrow
    rw [hends, hnumbered.endsBody_of_le (by omega)]

/-- The first of the rows from one on that is headed by the word that ends a macro, or the number
of rows if there is none. -/
def bodyStop (tokens : List Token) (count first : Nat) : Nat :=
  ((List.range' first (count - first)).find? (endsBody tokens)).getD count

theorem bodyStop_eq {tokens : List Token} {count first stop : Nat} (hfirst : first ≤ stop)
    (hcount : stop < count) (hends : endsBody tokens stop = true)
    (hinside : ∀ row, first ≤ row -> row < stop -> endsBody tokens row = false) :
    bodyStop tokens count first = stop := by
  have hfind : (List.range' first (count - first)).find? (endsBody tokens) = some stop := by
    refine List.find?_range'_eq_some.2 ⟨hends, ?_, ?_⟩
    · rw [List.mem_range'_1]
      omega
    · intro row hlow hhigh
      rw [hinside row hlow hhigh]
      rfl
  rw [bodyStop, hfind, Option.getD_some]

theorem bodyStop_of_none {tokens : List Token} {count first : Nat}
    (hinside : ∀ row, first ≤ row -> row < count -> endsBody tokens row = false) :
    bodyStop tokens count first = count := by
  have hfind : (List.range' first (count - first)).find? (endsBody tokens) = none := by
    refine List.find?_eq_none.2 ?_
    intro row hrow
    rw [List.mem_range'_1] at hrow
    simp [hinside row hrow.1 (by omega)]
  rw [bodyStop, hfind, Option.getD_none]

/-! ## The text of rows -/

def textOfRows (text : List Char) (first stop : Nat) : List Char :=
  (text.zipIdx.filter fun c =>
    first ≤ (Position.ofOffset text c.2).line && (Position.ofOffset text c.2).line < stop).map
    Prod.fst

theorem sourceRows_of_drop {text rest : List Char} {i : Nat} {c : Char}
    (h : text.drop i = c :: rest) :
    sourceRows (c :: rest) =
      if Position.breakEndsAt text i then [c] :: sourceRows rest
      else inFront c (sourceRows rest) := by
  rw [sourceRows_cons, Position.breakEndsAt_of_drop h]
  by_cases hreturn : c = '\r'
  · by_cases hfeed : rest.head? = some '\n' <;> simp [hreturn, hfeed, isLineBreak]
  · by_cases hfeed : c = '\n' <;> simp [hreturn, hfeed, isLineBreak]

theorem flatMap_filter_sourceRows (keep : Nat -> Bool) {text more : List Char} {i : Nat}
    (h : text.drop i = more) :
    (((sourceRows more).zipIdx (Position.ofOffset text i).line).filter fun row =>
        keep row.2).flatMap Prod.fst =
      ((more.zipIdx i).filter fun c => keep (Position.ofOffset text c.2).line).map Prod.fst := by
  induction more generalizing i with
  | nil =>
      simp only [sourceRows, List.zipIdx_cons, List.zipIdx_nil, List.filter_cons, List.filter_nil]
      split <;> rfl
  | cons c rest ih =>
      have hrest := ih (Position.drop_succ_of_drop h)
      rw [Position.ofOffset_succ] at hrest
      have hline : (Position.ofOffset text i).nextLine.line = (Position.ofOffset text i).line + 1 :=
        rfl
      have hsame :
          (Position.ofOffset text i).nextColumn.line = (Position.ofOffset text i).line := rfl
      rw [sourceRows_of_drop h]
      cases hbreak : Position.breakEndsAt text i with
      | true =>
          rw [hbreak, if_pos rfl, hline] at hrest
          by_cases hkeep : keep (Position.ofOffset text i).line <;> simp [hkeep, hrest]
      | false =>
          rw [hbreak, if_neg Bool.false_ne_true, hsame] at hrest
          obtain ⟨row, rows, hrows⟩ := List.exists_cons_of_ne_nil (sourceRows_ne_nil rest)
          rw [hrows] at hrest ⊢
          by_cases hkeep : keep (Position.ofOffset text i).line
          · simp [inFront, hkeep, ← hrest]
          · simp [inFront, hkeep, ← hrest]

theorem flatMap_filter_range {α : Type} (rows : List (List α)) (first stop n : Nat) :
    ((rows.zipIdx n).filter fun row => first ≤ row.2 && row.2 < stop).flatMap Prod.fst =
      ((rows.drop (first - n)).take (stop - max first n)).flatten := by
  induction rows generalizing n with
  | nil => simp
  | cons row rows ih =>
      rw [List.zipIdx_cons, List.filter_cons]
      by_cases hfirst : first ≤ n
      · by_cases hstop : n < stop
        · have htake : stop - max first n = stop - max first (n + 1) + 1 := by omega
          have hdrop : first - n = 0 ∧ first - (n + 1) = 0 := by omega
          rw [htake, hdrop.1]
          simp [hfirst, hstop, ih, hdrop]
        · have htake : stop - max first n = 0 ∧ stop - max first (n + 1) = 0 := by omega
          simp [hstop, ih, htake]
      · have htake : stop - max first n = stop - max first (n + 1) := by omega
        have hdrop : first - n = first - (n + 1) + 1 := by omega
        simp [hfirst, ih, htake, hdrop]

theorem toList_rowText (text : List Char) (first stop : Nat) :
    (rowText (sourceRows text) first stop).toList = textOfRows text first stop := by
  have hrows := flatMap_filter_sourceRows (fun row => first ≤ row && row < stop)
    (text.drop_zero)
  have hrange := flatMap_filter_range (sourceRows text) first stop 0
  rw [Nat.sub_zero, Nat.max_zero] at hrange
  rw [rowText, String.toList_ofList, ← hrange]
  exact hrows

end Concrete

end Asm6502
