import Mathlib.Data.List.Pairwise
import Asm6502.Proofs.TextSpans

/-!
# The layout of rows

The tokens and comments of a text never overlap, and a row break stands between all that comes
before it and all that comes behind it.  So each row of tokens has lines of the text to itself, and
a comment that starts where a row starts stays on the lines of that row.
-/

namespace Asm6502

namespace Span

/-! ## Ends of spans -/

variable {parts : List Span} {other span : Span} {first next : Nat}

theorem union_start (a b : Span) : (a.union b).start = a.start ∨ (a.union b).start = b.start := by
  change min a.start b.start = _ ∨ min a.start b.start = _
  change (if a.start ≤ b.start then a.start else b.start) = _ ∨
    (if a.start ≤ b.start then a.start else b.start) = _
  split
  · exact .inl rfl
  · exact .inr rfl

theorem union_stop (a b : Span) : (a.union b).stop = a.stop ∨ (a.union b).stop = b.stop := by
  change (if a.stop ≤ b.stop then b.stop else a.stop) = _ ∨
    (if a.stop ≤ b.stop then b.stop else a.stop) = _
  split
  · exact .inr rfl
  · exact .inl rfl

/-- A span that starts where one of some parts starts and stops where one of them stops. -/
structure EndsAmong (parts : List Span) (span : Span) : Prop where
  start : ∃ part ∈ parts, span.start = part.start
  stop : ∃ part ∈ parts, span.stop = part.stop

theorem foldl_union_ends (parts : List Span) (base : Span) :
    (parts.foldl union base).EndsAmong (base :: parts) := by
  induction parts generalizing base with
  | nil => exact ⟨⟨base, by simp⟩, ⟨base, by simp⟩⟩
  | cons first rest ih =>
      obtain ⟨⟨a, ha, hstart⟩, b, hb, hstop⟩ := ih (base.union first)
      rw [List.foldl_cons]
      constructor
      · rw [hstart]
        rcases List.mem_cons.1 ha with rfl | ha
        · rcases union_start base first with h | h
          · exact ⟨base, List.mem_cons_self, h⟩
          · exact ⟨first, by simp, h⟩
        · exact ⟨a, by simp [ha], rfl⟩
      · rw [hstop]
        rcases List.mem_cons.1 hb with rfl | hb
        · rcases union_stop base first with h | h
          · exact ⟨base, List.mem_cons_self, h⟩
          · exact ⟨first, by simp, h⟩
        · exact ⟨b, by simp [hb], rfl⟩

theorem coverOr_ends (hne : parts ≠ []) (default : Span) :
    (coverOr default parts).EndsAmong parts := by
  cases parts with
  | nil => exact absurd rfl hne
  | cons first rest => exact foldl_union_ends rest first

/-- Neither end of a span falls inside another one. -/
structure Avoids (other span : Span) : Prop where
  start : other.stop ≤ span.start ∨ span.start ≤ other.start
  stop : span.stop ≤ other.start ∨ other.stop ≤ span.stop

theorem Avoids.cases (h : other.Avoids span) :
    other.stop ≤ span.start ∨ span.stop ≤ other.start ∨ other.Inside span := by
  rcases h.start with hstart | hstart
  · exact .inl hstart
  · rcases h.stop with hstop | hstop
    · exact .inr (.inl hstop)
    · exact .inr (.inr ⟨hstart, hstop⟩)

theorem Avoids.of_inside {inner : Span} (h : other.Avoids span) (hinside : inner.Inside other) :
    inner.Avoids span where
  start := h.start.imp (Position.le_trans hinside.stop) (Position.le_trans · hinside.start)
  stop := h.stop.imp (Position.le_trans · hinside.start) (Position.le_trans hinside.stop)

theorem avoids_of_apart (hspan : span.Proper)
    (h : other.stop ≤ span.start ∨ span.stop ≤ other.start) : other.Avoids span := by
  rcases h with h | h
  · exact ⟨.inl h, .inr (Position.le_trans h hspan)⟩
  · exact ⟨.inr (Position.le_trans hspan h), .inl h⟩

theorem EndsAmong.avoids (h : span.EndsAmong parts) (hparts : ∀ part ∈ parts, other.Avoids part) :
    other.Avoids span := by
  obtain ⟨⟨a, ha, hstart⟩, b, hb, hstop⟩ := h
  refine ⟨?_, ?_⟩
  · rw [hstart]
    exact (hparts a ha).start
  · rw [hstop]
    exact (hparts b hb).stop

/-! ## Lines of spans -/

structure OnRows (first next : Nat) (span : Span) : Prop where
  start : first ≤ span.start.line
  stop : span.stop.line < next
  proper : span.Proper

theorem Proper.line_le (h : span.Proper) : span.start.line ≤ span.stop.line := by
  have hle := Position.le_iff.1 h
  omega

theorem OnRows.mono {first' next' : Nat} (h : span.OnRows first next) (hfirst : first' ≤ first)
    (hnext : next ≤ next') : span.OnRows first' next' :=
  ⟨Nat.le_trans hfirst h.start, Nat.lt_of_lt_of_le h.stop hnext, h.proper⟩

theorem OnRows.of_inside {inner outer : Span} (h : outer.OnRows first next)
    (hinside : inner.Inside outer) (hproper : inner.Proper) : inner.OnRows first next := by
  have hstart := Position.le_iff.1 hinside.start
  have hstop := Position.le_iff.1 hinside.stop
  have hfirst := h.start
  have hnext := h.stop
  exact ⟨by omega, by omega, hproper⟩

theorem EndsAmong.onRows (h : span.EndsAmong parts)
    (hparts : ∀ part ∈ parts, part.OnRows first next) (hproper : span.Proper) :
    span.OnRows first next := by
  obtain ⟨⟨a, ha, hstart⟩, b, hb, hstop⟩ := h
  refine ⟨?_, ?_, hproper⟩
  · rw [hstart]
    exact (hparts a ha).start
  · rw [hstop]
    exact (hparts b hb).stop

theorem foldl_union_onRows {base : Span} (h : ∀ part ∈ base :: parts, part.OnRows first next) :
    (parts.foldl union base).OnRows first next := by
  refine (foldl_union_ends parts base).onRows h ?_
  exact (h base List.mem_cons_self).proper.of_inside (inside_foldl_union parts base).1

theorem coverOr_onRows {default : Span} (hdefault : default.OnRows first next)
    (h : ∀ part ∈ parts, part.OnRows first next) : (coverOr default parts).OnRows first next := by
  cases parts with
  | nil => exact hdefault
  | cons part parts => exact foldl_union_onRows h

/-- What is on earlier lines ends before what is on later ones. -/
theorem OnRows.stop_le {middle : Nat} {a b : Span} (ha : a.OnRows first middle)
    (hb : b.OnRows middle next) : a.stop ≤ b.start := by
  have hstop := ha.stop
  have hstart := hb.start
  rw [Position.le_iff]
  omega

theorem OnRows.avoids {middle : Nat} {a b : Span} (ha : a.OnRows first middle)
    (hb : b.OnRows middle next) : a.Avoids b :=
  avoids_of_apart hb.proper (.inl (ha.stop_le hb))

end Span

/-! ## Tokens and comments -/

/-- How the tokens and comments of a text stand to each other. -/
structure Arranged (tokens comments : List Token) : Prop where
  order : Concrete.InOrder tokens
  regular : ∀ token ∈ tokens, token.Regular
  regularComments : ∀ comment ∈ comments, comment.RegularComment
  apart : ∀ token ∈ tokens, ∀ comment ∈ comments,
    comment.span.stop ≤ token.span.start ∨ token.span.stop ≤ comment.span.start
  /-- Nothing that stands behind a row break is on its line. -/
  breaks : tokens.Pairwise fun a b => a.kind = .newline -> a.span.start.line < b.span.start.line
  /-- The end of a row is on one line, and the comments behind it are on later ones. -/
  ends : ∀ token ∈ tokens, token.kind = .newline ∨ token.kind = .eof ->
    token.span.stop.line = token.span.start.line ∧ ∀ comment ∈ comments,
      comment.span.stop ≤ token.span.start ∨ token.span.start.line < comment.span.start.line

namespace Lexeme

variable {lexeme : Lexeme} {token : Token}

theorem span_of_comment? {comment : Token} (h : lexeme.comment? = some comment) :
    comment.span = ⟨lexeme.start, lexeme.stop⟩ := by
  unfold comment? at h
  split at h
  next hshape =>
    cases h
    rw [asToken, span_eq, if_neg (by simp [hshape])]
  next hshape =>
    cases h
    rw [asToken, span_eq, if_neg (by simp [hshape])]
  next => cases h

theorem ne_of_token?_comment? {a b : Lexeme} {comment : Token} (ha : a.token? = some token)
    (hb : b.comment? = some comment) : a ≠ b := by
  rintro rfl
  obtain ⟨shape, taken, start⟩ := a
  cases shape <;> simp [token?, comment?] at ha hb

theorem shape_of_newline (h : lexeme.token? = some token) (hkind : token.kind = .newline) :
    lexeme.shape = .token .newline := by
  obtain ⟨shape, taken, start⟩ := lexeme
  cases shape with
  | token kind =>
      cases h
      exact congrArg Shape.token hkind
  | unclosedString =>
      cases h
      cases hkind
  | _ => cases h

theorem StandsAt.stop_of_newline {text : List Char} {i : Nat} (h : lexeme.StandsAt text i)
    (hshape : lexeme.shape = .token .newline) : lexeme.stop = lexeme.start.nextLine := by
  have hdescribes := h.describes
  rw [hshape] at hdescribes
  unfold stop
  rcases hdescribes.2 rfl with htaken | htaken | htaken <;> rw [htaken] <;> rfl

/-- What stands behind a row break is on a later line. -/
theorem StandsAt.line_lt {text : List Char} {i : Nat} {p : Position} (h : lexeme.StandsAt text i)
    (htoken : lexeme.token? = some token) (hkind : token.kind = .newline) (hp : lexeme.stop ≤ p) :
    token.span.start.line < p.line := by
  rw [h.stop_of_newline (shape_of_newline htoken hkind), Position.le_iff] at hp
  rw [span_of_token? htoken, span_eq]
  dsimp only [Position.nextLine] at hp ⊢
  omega

end Lexeme

section Tokenize

variable (text : String)

/-- Of a token and a comment one stands in front of the other. -/
theorem before_or_behind {lexeme other : Lexeme}
    (hlexeme : lexeme ∈ Lexeme.scan none .origin text.toList)
    (hother : other ∈ Lexeme.scan none .origin text.toList) (hne : lexeme ≠ other) :
    lexeme.stop ≤ other.start ∨ other.stop ≤ lexeme.start := by
  have hordered := (Lexeme.scan_tiles none .origin text.toList).pairwise rfl List.drop_zero
  have hpairwise : (Lexeme.scan none .origin text.toList).Pairwise fun a b =>
      a.stop ≤ b.start ∨ b.stop ≤ a.start := hordered.imp Or.inl
  have hsymm : Std.Symm fun a b : Lexeme => a.stop ≤ b.start ∨ b.stop ≤ a.start :=
    ⟨fun _ _ => Or.symm⟩
  exact hpairwise.forall hlexeme hother hne

theorem comment_apart_token : ∀ token ∈ (tokenize text).tokens,
    ∀ comment ∈ (tokenize text).comments,
      comment.span.stop ≤ token.span.start ∨ token.span.stop ≤ comment.span.start := by
  intro token htoken comment hcomment
  rcases List.mem_append.1 htoken with htoken | htoken
  · obtain ⟨lexeme, hmem, hlexeme⟩ := List.mem_filterMap.1 htoken
    obtain ⟨other, hother, hcomment⟩ := List.mem_filterMap.1 hcomment
    obtain ⟨i, hstands⟩ := exists_standsAt_of_mem_scan text lexeme hmem
    rw [Lexeme.span_of_token? hlexeme, Lexeme.span_of_comment? hcomment]
    rcases before_or_behind text hmem hother (Lexeme.ne_of_token?_comment? hlexeme hcomment) with
      h | h
    · exact .inr (Position.le_trans hstands.span_stop_le h)
    · rw [Lexeme.span_eq]
      exact .inl h
  · rw [List.mem_singleton.1 htoken]
    exact .inl (comment_inside text comment hcomment).stop

theorem pairwise_breaks : (tokenize text).tokens.Pairwise fun a b =>
    a.kind = .newline -> a.span.start.line < b.span.start.line := by
  have htiles := Lexeme.scan_tiles none .origin text.toList
  refine List.pairwise_append.2 ⟨?_, List.pairwise_singleton _ _, ?_⟩
  · refine List.pairwise_filterMap.2 ((htiles.pairwise rfl List.drop_zero).imp_of_mem ?_)
    intro a b ha _ hab token htoken next hnext hkind
    obtain ⟨i, hstands⟩ := htiles.exists_standsAt a ha
    rw [Lexeme.span_of_token? hnext, Lexeme.span_eq b]
    exact hstands.line_lt htoken hkind hab
  · intro token htoken last hlast hkind
    obtain ⟨lexeme, hmem, hlexeme⟩ := List.mem_filterMap.1 htoken
    obtain ⟨i, hstands⟩ := htiles.exists_standsAt lexeme hmem
    rw [List.mem_singleton.1 hlast]
    refine hstands.line_lt hlexeme hkind ?_
    rw [hstands.stop_eq]
    show _ ≤ Position.origin.advance text.toList
    rw [Position.advance_origin]
    exact Position.ofOffset_le hstands.inside

theorem comment_of_rowEnd : ∀ token ∈ (tokenize text).tokens,
    token.kind = .newline ∨ token.kind = .eof ->
    token.span.stop.line = token.span.start.line ∧ ∀ comment ∈ (tokenize text).comments,
      comment.span.stop ≤ token.span.start ∨
        token.span.start.line < comment.span.start.line := by
  intro token htoken hkind
  rcases List.mem_append.1 htoken with htoken | htoken
  · obtain ⟨lexeme, hmem, hlexeme⟩ := List.mem_filterMap.1 htoken
    obtain ⟨i, hstands⟩ := exists_standsAt_of_mem_scan text lexeme hmem
    have hnewline : token.kind = .newline := by
      rcases hkind with hkind | hkind
      · exact hkind
      · exact absurd hkind (Lexeme.kind_of_token? hstands.describes hlexeme)
    refine ⟨?_, ?_⟩
    · rw [Lexeme.span_of_token? hlexeme, Lexeme.span_eq,
        if_pos (Lexeme.shape_of_newline hlexeme hnewline)]
    · intro comment hcomment
      obtain ⟨other, hother, hcomment⟩ := List.mem_filterMap.1 hcomment
      rw [Lexeme.span_of_comment? hcomment]
      rcases before_or_behind text hmem hother (Lexeme.ne_of_token?_comment? hlexeme hcomment) with
        h | h
      · exact .inr (hstands.line_lt hlexeme hnewline h)
      · rw [Lexeme.span_of_token? hlexeme, Lexeme.span_eq]
        exact .inl h
  · rw [List.mem_singleton.1 htoken]
    exact ⟨rfl, fun comment hcomment => .inl (comment_inside text comment hcomment).stop⟩

theorem tokenize_arranged : Arranged (tokenize text).tokens (tokenize text).comments where
  order := Concrete.tokenize_inOrder text
  regular := (tokenize_regular text).1
  regularComments := (tokenize_regular text).2
  apart := comment_apart_token text
  breaks := pairwise_breaks text
  ends := comment_of_rowEnd text

end Tokenize

/-! ## Rows -/

theorem Arranged.sublist {tokens more comments : List Token} (h : Arranged more comments)
    (hsub : tokens.Sublist more) : Arranged tokens comments where
  order := h.order.sublist hsub
  regular := fun token htoken => h.regular token (hsub.subset htoken)
  regularComments := h.regularComments
  apart := fun token htoken => h.apart token (hsub.subset htoken)
  breaks := h.breaks.sublist hsub
  ends := fun token htoken => h.ends token (hsub.subset htoken)

namespace Concrete

theorem rowsUpTo_cases {mark : Token} {tokens : List Token} {row : Row} {rows : List Row}
    (h : rowsUpTo mark tokens = row :: rows) :
    (∀ token ∈ row.tokens, token.kind ≠ .eof) ∧ ∃ rest, tokens = row.tokens ++ rest ∧
      ((row.stop.kind = .newline ∧ ∃ after, rest = row.stop :: after ∧
          rows = rowsUpTo mark after) ∨
        (row.stop = mark ∧ rows = [] ∧ AtEnd rest)) := by
  induction tokens generalizing row with
  | nil => cases h
  | cons token tokens ih =>
      rw [rowsUpTo] at h
      split at h
      · cases h
      · next heof =>
        split at h
        · next hnewline =>
          cases h
          exact ⟨by simp, _, rfl, .inl ⟨hnewline, _, rfl, rfl⟩⟩
        · cases hrest : rowsUpTo mark tokens with
          | nil =>
              simp only [hrest] at h
              cases h
              exact ⟨by simpa using heof, tokens, rfl,
                .inr ⟨rfl, rfl, rowsUpTo_eq_nil_iff.1 hrest⟩⟩
          | cons first others =>
              simp only [hrest] at h
              cases h
              obtain ⟨hinner, rest, rfl, hstop⟩ := ih hrest
              exact ⟨List.forall_mem_cons.2 ⟨heof, hinner⟩, rest, rfl, hstop⟩

structure Row.OnRows (comments : List Token) (first next : Nat) (row : Row) : Prop where
  arranged : Arranged (row.tokens ++ [row.stop]) comments
  tokens : ∀ token ∈ row.tokens ++ [row.stop], token.span.OnRows first next
  comments : ∀ comment ∈ comments, comment.span.start.line = row.number ->
    comment.span.OnRows first next

/-- Rows one behind the other on some lines, each on lines of its own. -/
inductive RowsOn (comments : List Token) : Nat -> Nat -> List Row -> Prop where
  | nil {first next : Nat} (le : first ≤ next) : RowsOn comments first next []
  | cons {first middle next : Nat} {row : Row} {rows : List Row}
      (row_on : row.OnRows comments first middle) (rest : RowsOn comments middle next rows) :
      RowsOn comments first next (row :: rows)

theorem Row.peek_mem (row : Row) : peek row.stop row.tokens ∈ row.tokens ++ [row.stop] := by
  cases h : row.tokens <;> simp [peek]

section OnRows

variable {comments : List Token} {first next : Nat} {row : Row}
  (h : row.OnRows comments first next)

include h

theorem Row.OnRows.line_of_mem {token : Token} (htoken : token ∈ row.tokens ++ [row.stop]) :
    first ≤ token.span.start.line ∧ token.span.start.line < next := by
  have hspan := h.tokens token htoken
  exact ⟨hspan.start, Nat.lt_of_le_of_lt hspan.proper.line_le hspan.stop⟩

theorem Row.OnRows.lt : first < next :=
  Nat.lt_of_le_of_lt (h.line_of_mem row.peek_mem).1 (h.line_of_mem row.peek_mem).2

theorem Row.OnRows.number_le {token : Token} (htoken : token ∈ row.tokens ++ [row.stop]) :
    row.number ≤ token.span.start.line := by
  have hordered := h.arranged.order.ordered
  have hproper := h.arranged.order.proper
  unfold Row.number
  cases htokens : row.tokens with
  | nil =>
      rw [htokens, List.nil_append, List.mem_singleton] at htoken
      rw [htoken]
      exact Nat.le_refl _
  | cons head rest =>
      rw [htokens, List.cons_append] at htoken hordered hproper
      rcases List.mem_cons.1 htoken with rfl | htoken
      · exact Nat.le_refl _
      · have hbehind := Position.le_iff.1 (Position.le_trans (hproper head List.mem_cons_self)
          ((List.pairwise_cons.1 hordered).1 token htoken))
        simp only [peek, List.headD_cons]
        omega

end OnRows

namespace RowsOn

variable {comments : List Token} {first next : Nat} {rows : List Row}

theorem le (h : RowsOn comments first next rows) : first ≤ next := by
  induction h with
  | nil hle => exact hle
  | cons hrow _ ih => exact Nat.le_trans (Nat.le_of_lt hrow.lt) ih

theorem mono (h : RowsOn comments first next rows) {top : Nat} (hle : next ≤ top) :
    RowsOn comments first top rows := by
  induction h with
  | nil hfirst => exact .nil (Nat.le_trans hfirst hle)
  | cons hrow _ ih => exact .cons hrow (ih hle)

theorem exists_of_append {more : List Row} (h : RowsOn comments first next (rows ++ more)) :
    ∃ middle, RowsOn comments first middle rows ∧ RowsOn comments middle next more ∧
      (more = [] -> middle = next) := by
  by_cases hmore : more = []
  · subst hmore
    exact ⟨next, by simpa using h, .nil (Nat.le_refl _), fun _ => rfl⟩
  · induction rows generalizing first with
    | nil => exact ⟨first, .nil (Nat.le_refl _), h, fun hnone => absurd hnone hmore⟩
    | cons row rows ih =>
        cases h with
        | cons hrow hrest =>
            obtain ⟨middle, hrows, hothers⟩ := ih hrest
            exact ⟨middle, .cons hrow hrows, hothers⟩

theorem exists_of_append_cons {row : Row} {more : List Row}
    (h : RowsOn comments first next (rows ++ row :: more)) :
    ∃ middle inside, RowsOn comments first middle rows ∧ row.OnRows comments middle inside ∧
      RowsOn comments inside next more := by
  obtain ⟨middle, hrows, hmore, -⟩ := h.exists_of_append
  cases hmore with
  | @cons _ inside _ _ _ hrow hrest => exact ⟨middle, inside, hrows, hrow, hrest⟩

theorem onRows (h : RowsOn comments first next rows) :
    ∀ row ∈ rows, ∀ token ∈ row.tokens ++ [row.stop], token.span.OnRows first next := by
  induction h with
  | nil => simp
  | cons hrow hrest ih =>
      refine List.forall_mem_cons.2 ⟨fun token htoken => ?_, fun row hmem token htoken => ?_⟩
      · exact (hrow.tokens token htoken).mono (Nat.le_refl _) hrest.le
      · exact (ih row hmem token htoken).mono (Nat.le_of_lt hrow.lt) (Nat.le_refl _)

theorem line_of_mem (h : RowsOn comments first next rows) {row : Row} (hrow : row ∈ rows)
    {token : Token} (htoken : token ∈ row.tokens ++ [row.stop]) :
    first ≤ token.span.start.line ∧ token.span.start.line < next := by
  have hspan := h.onRows row hrow token htoken
  exact ⟨hspan.start, Nat.lt_of_le_of_lt hspan.proper.line_le hspan.stop⟩

end RowsOn

/-- A row that ends in a row break or in the end of the text is on the lines up to its end. -/
theorem Row.onRows {comments : List Token} {first : Nat} {row : Row}
    (harranged : Arranged (row.tokens ++ [row.stop]) comments)
    (hfirst : ∀ token ∈ row.tokens ++ [row.stop], first ≤ token.span.start.line)
    (hstop : row.stop.kind = .newline ∨ row.stop.kind = .eof) :
    row.OnRows comments first (row.stop.span.start.line + 1) := by
  have hmem : row.stop ∈ row.tokens ++ [row.stop] := by simp
  obtain ⟨hline, hcomments⟩ := harranged.ends row.stop hmem hstop
  have hordered := (List.pairwise_append.1 harranged.order.ordered).2.2
  have htokens : ∀ token ∈ row.tokens ++ [row.stop],
      token.span.OnRows first (row.stop.span.start.line + 1) := by
    intro token htoken
    have hproper := harranged.order.proper token htoken
    refine ⟨hfirst token htoken, ?_, hproper⟩
    rcases List.mem_append.1 htoken with htoken | htoken
    · have hbefore := Position.le_iff.1 (hordered token htoken row.stop (by simp))
      omega
    · rw [List.mem_singleton.1 htoken]
      omega
  refine ⟨harranged, htokens, ?_⟩
  intro comment hcomment hnumber
  have hproper := (harranged.regularComments comment hcomment).proper
  have hpeek := htokens _ row.peek_mem
  have hpeekLine := hpeek.proper.line_le
  have hpeekStart := hpeek.start
  have hpeekStop := hpeek.stop
  unfold Row.number at hnumber
  refine ⟨by omega, ?_, hproper⟩
  rcases hcomments comment hcomment with hbefore | hbehind
  · have hle := Position.le_iff.1 hbefore
    omega
  · omega

/-- The rows of tokens that hold the end of the text have lines of their own. -/
theorem rowsUpTo_rowsOn {mark : Token} (hmark : mark.kind = .eof) {comments : List Token}
    {rows : List Row} {tokens : List Token} {first : Nat} (harranged : Arranged tokens comments)
    (hmem : mark ∈ tokens) (honly : ∀ token ∈ tokens, token.kind = .eof -> token = mark)
    (hfirst : ∀ token ∈ tokens, first ≤ token.span.start.line)
    (hrows : rowsUpTo mark tokens = rows) : ∃ next, RowsOn comments first next rows := by
  induction rows generalizing tokens first with
  | nil => exact ⟨first, .nil (Nat.le_refl _)⟩
  | cons row rows ih =>
      obtain ⟨hinner, rest, rfl, hstop⟩ := rowsUpTo_cases hrows
      rcases hstop with ⟨hnewline, after, rfl, hafter⟩ | ⟨rfl, rfl, hend⟩
      · have hsub : (row.tokens ++ [row.stop]).Sublist (row.tokens ++ row.stop :: after) := by
          simp
        have hrest : after.Sublist (row.tokens ++ row.stop :: after) := by
          exact (List.sublist_cons_self _ _).trans (List.sublist_append_right _ _)
        have hrow := Row.onRows (harranged.sublist hsub)
          (fun token htoken => hfirst token (hsub.subset htoken)) (.inl hnewline)
        have hbreaks := (List.pairwise_append.1 harranged.breaks).2.1
        refine (ih (harranged.sublist hrest) ?_
          (fun token htoken => honly token (hrest.subset htoken)) ?_ hafter.symm).imp
            fun _ hrows => .cons hrow hrows
        · rcases List.mem_append.1 hmem with h | h
          · exact absurd hmark (hinner mark h)
          · rcases List.mem_cons.1 h with rfl | h
            · rw [hmark] at hnewline
              cases hnewline
            · exact h
        · intro token htoken
          exact (List.pairwise_cons.1 hbreaks).1 token htoken hnewline
      · -- The mark is what the tokens of the row stop at.
        obtain ⟨after, rfl⟩ : ∃ after, rest = row.stop :: after := by
          cases rest with
          | nil =>
              rw [List.append_nil] at hmem
              exact absurd hmark (hinner _ hmem)
          | cons token after =>
              have hkind : token.kind = .eof := hend token rfl
              exact ⟨after, by rw [honly token (by simp) hkind]⟩
        have hsub : (row.tokens ++ [row.stop]).Sublist (row.tokens ++ row.stop :: after) := by
          simp
        exact ⟨_, .cons (Row.onRows (harranged.sublist hsub)
          (fun token htoken => hfirst token (hsub.subset htoken)) (.inr hmark))
          (.nil (Nat.le_refl _))⟩

theorem tokenize_rowsOn (text : String) :
    ∃ next, RowsOn (tokenize text).comments 0 next (rows (tokenize text).tokens) := by
  obtain ⟨-, -, -, -, -, front, last, htokens, hlast, -, hfront⟩ := tokenize_pieces text
  have honly : ∀ token ∈ (tokenize text).tokens, token.kind = .eof -> token = last := by
    intro token htoken hkind
    rw [htokens] at htoken
    rcases List.mem_append.1 htoken with htoken | htoken
    · exact absurd hkind (hfront token htoken)
    · exact List.mem_singleton.1 htoken
  have hmem := endMark_mem (exists_eof_mem_tokenize text)
  have hmark := kind_endMark (tokenize text).tokens
  refine rowsUpTo_rowsOn hmark (tokenize_arranged text) hmem ?_ (fun _ _ => Nat.zero_le _) rfl
  intro token htoken hkind
  rw [honly token htoken hkind, honly _ hmem hmark]

end Concrete

end Asm6502
