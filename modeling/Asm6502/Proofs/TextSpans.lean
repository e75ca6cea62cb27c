import Asm6502.Proofs.FaultTokens
import Asm6502.Proofs.LabelPlaces
import Asm6502.Proofs.LocationNesting
import Asm6502.Proofs.SourceRows

/-!
# Spans in a text

Whatever is read from a text lies in it.  The spans of its lines are put together from the spans of
its tokens and comments and from the starts of its rows, so all of them lie between the start and
the end of the text, and with them the spans of all parts of its lines.
-/

namespace Asm6502

/-- From the start to the end of a text. -/
def textSpan (text : String) : Span := ⟨.origin, Position.origin.advance text.toList⟩

theorem Position.origin_le (p : Position) : origin ≤ p := by
  rw [le_iff, origin]
  simp only
  omega

theorem Span.Inside.line_lt {span : Span} {text : String} (h : span.Inside (textSpan text))
    (hproper : span.Proper) : span.start.line < (Concrete.sourceRows text.toList).length := by
  have hend := Concrete.line_advance .origin text.toList
  have hle : span.start ≤ Position.origin.advance text.toList := Position.le_trans hproper h.stop
  have horigin : Position.origin.line = 0 := rfl
  rw [Position.le_iff] at hle
  omega

theorem Span.coverOr_inside_of_default {parts : List Span} {default outer : Span}
    (hdefault : default.Inside outer) (h : ∀ part ∈ parts, part.Inside outer) :
    (coverOr default parts).Inside outer := by
  cases parts with
  | nil => exact hdefault
  | cons part parts => exact coverOr_inside (List.cons_ne_nil part parts) h default

/-! ## Tokens, comments and faults -/

theorem Lexeme.StandsAt.span_inside {text : String} {i : Nat} {lexeme : Lexeme}
    (h : lexeme.StandsAt text.toList i) : lexeme.span.Inside (textSpan text) := by
  refine ⟨Position.origin_le _, ?_⟩
  have hstop : lexeme.stop ≤ .ofOffset text.toList text.toList.length := by
    rw [h.stop_eq]
    exact Position.ofOffset_le h.inside
  rw [textSpan, Position.advance_origin]
  exact Position.le_trans h.span_stop_le hstop

section Tokenize

variable (text : String)

theorem exists_standsAt_of_mem_scan :
    ∀ lexeme ∈ Lexeme.scan none .origin text.toList, ∃ i, lexeme.StandsAt text.toList i :=
  (Lexeme.scan_tiles none .origin text.toList).exists_standsAt

theorem token_inside : ∀ token ∈ (tokenize text).tokens, token.span.Inside (textSpan text) := by
  intro token htoken
  rcases List.mem_append.1 htoken with htoken | htoken
  · obtain ⟨lexeme, hmem, hlexeme⟩ := List.mem_filterMap.1 htoken
    obtain ⟨i, hstands⟩ := exists_standsAt_of_mem_scan text lexeme hmem
    rw [Lexeme.span_of_token? hlexeme]
    exact hstands.span_inside
  · rw [List.mem_singleton.1 htoken]
    exact ⟨Position.origin_le _, Std.le_refl _⟩

theorem comment_inside :
    ∀ comment ∈ (tokenize text).comments, comment.span.Inside (textSpan text) := by
  intro comment hcomment
  obtain ⟨lexeme, hmem, hlexeme⟩ := List.mem_filterMap.1 hcomment
  obtain ⟨i, hstands⟩ := exists_standsAt_of_mem_scan text lexeme hmem
  have hspan : comment.span = lexeme.span := by
    unfold Lexeme.comment? at hlexeme
    split at hlexeme <;> cases hlexeme <;> rfl
  rw [hspan]
  exact hstands.span_inside

theorem lexError_inside : ∀ error ∈ (tokenize text).errors,
    error.span.Proper ∧ error.span.Inside (textSpan text) := by
  intro error herror
  obtain ⟨lexeme, hmem, hlexeme⟩ := List.mem_filterMap.1 herror
  obtain ⟨i, hstands⟩ := exists_standsAt_of_mem_scan text lexeme hmem
  obtain ⟨first, stop, hlt, hstop, -, hspan⟩ := hstands.error_standsIn hlexeme
  rw [hspan, textSpan, Position.advance_origin]
  exact ⟨Position.ofOffset_le (Nat.le_of_lt hlt),
    ⟨Position.origin_le _, Position.ofOffset_le hstop⟩⟩

end Tokenize

namespace Concrete

/-! ## Parts of rows -/

section Parts

variable {tokens : List Token} {outer : Span} (ht : InOrder tokens)
  (htokens : ∀ token ∈ tokens, token.span.Inside outer)

include htokens

theorem Label.MadeOf.inside {label : Label} (h : label.MadeOf tokens) :
    label.span.Inside outer := by
  obtain ⟨taken, hsub, hothers⟩ := h.others
  have hfirst := htokens label.first (hsub.subset List.mem_cons_self)
  have hfragment : ∀ fragment ∈ label.others, fragment.span.Inside outer := by
    intro fragment hfragment
    rw [hothers] at hfragment
    obtain ⟨token, htoken, rfl⟩ := List.mem_map.1 hfragment
    exact (asFragment_inside token).trans
      (htokens token (hsub.subset (List.mem_cons_of_mem _ htoken)))
  have hlast : (label.others.getLastD label.first).span.Inside outer := by
    have hmem : label.others.getLastD label.first ∈ label.first :: label.others :=
      List.getLastD_mem_cons
    rcases List.mem_cons.1 hmem with hlast | hlast
    · rw [hlast]
      exact hfirst
    · exact hfragment _ hlast
  have hnamed := Span.union_inside hfirst hlast
  unfold Label.span
  split
  next colon hcolon => exact Span.union_inside hnamed (htokens colon (h.colon colon hcolon))
  next => exact hnamed

include ht

theorem Expr.MadeOf.inside {e : Expr} (h : e.MadeOf tokens) : e.span.Inside outer := by
  obtain ⟨taken, hsub, hspells⟩ := h
  exact (hspells.tight (ht.sublist hsub)).least outer
    fun token htoken => htokens token (hsub.subset htoken)

theorem Argument.MadeOf.inside {argument : Argument} (h : argument.MadeOf tokens) :
    argument.span.Inside outer := by
  obtain ⟨taken, hsub, hspells⟩ := h
  exact (hspells.tight (ht.sublist hsub)).least outer
    fun token htoken => htokens token (hsub.subset htoken)

theorem Command.MadeOf.inside {command : Command} (h : command.MadeOf tokens) {stop : Token}
    (hstop : stop.span.Inside outer)
    (hspan : command.span = commandSpan stop command.name command.extension command.arguments)
    (hproper : stop.span.Proper) : command.span.Inside outer := by
  rw [hspan]
  refine Span.coverOr_inside_of_default ⟨hstop.start, Position.le_trans hproper hstop.stop⟩ ?_
  intro part hpart
  simp only [List.mem_append, List.mem_map, Option.mem_toList] at hpart
  rcases hpart with (⟨token, htoken, rfl⟩ | ⟨token, htoken, rfl⟩) | ⟨argument, hargument, rfl⟩
  · exact htokens token (h.name token htoken)
  · exact htokens token (h.extension token htoken)
  · exact (h.arguments argument hargument).inside ht htokens

end Parts

theorem readContent_span {stop first : Token} {tokens : List Token} {c : Command}
    (h : (readContent stop first tokens).1 = .command (some c)) :
    c.span = commandSpan stop c.name c.extension c.arguments := by
  unfold readContent at h
  split at h
  case h_1 | h_2 | h_3 | h_4 | h_5 => cases h
  case h_6 | h_7 =>
    cases h
    rfl
  case h_8 =>
    split at h
    · cases h
      rfl
    · cases h

theorem Row.command_span {row : Row} {c : Command} (h : row.read.2.1 = .command (some c)) :
    c.span = commandSpan row.stop c.name c.extension c.arguments := by
  have hbehind : (readBehindLabel row.stop (readLabel? row.tokens).1.isSome
      (readLabel? row.tokens).2).1 = .command (some c) := h
  unfold readBehindLabel at hbehind
  split at hbehind
  · cases hbehind
  · split at hbehind
    · split at hbehind
      · cases hbehind
      · exact readContent_span hbehind
    · split at hbehind
      · cases hbehind
      · exact readContent_span hbehind

/-! ## Lines -/

theorem Row.exists_lastSpan (row : Row) {all : List Token} (hstop : row.stop ∈ all)
    (h : row.tokens ⊆ all) : ∃ token ∈ all, row.lastSpan = token.span := by
  unfold Row.lastSpan
  split
  · exact ⟨row.stop, hstop, rfl⟩
  · have hlast : row.tokens.getLastD row.stop ∈ row.stop :: row.tokens := List.getLastD_mem_cons
    rcases List.mem_cons.1 hlast with hlast | hlast
    · rw [hlast]
      exact ⟨row.stop, hstop, rfl⟩
    · exact ⟨_, h hlast, rfl⟩

section Lines

variable {tokens comments : List Token} {outer : Span} (ht : InOrder tokens)
  (htokens : ∀ token ∈ tokens, token.span.Inside outer)
  (hcomments : ∀ comment ∈ comments, comment.span.Inside outer)
  (hstops : ∀ row ∈ rows tokens, row.stop ∈ tokens) (horigin : outer.start = .origin)

include ht htokens hcomments hstops horigin

theorem Row.margin_inside {row : Row} (hrow : row ∈ rows tokens) {content : Option Span}
    (hcontent : ∀ span ∈ content, span.Inside outer) {comment : Option Token}
    (hcomment : row.start.Takes comments comment) :
    (row.start.margin content comment).span.Inside outer := by
  have hfirst : peek row.stop row.tokens ∈ tokens :=
    StaysAmong.peek_mem (hstops row hrow) (rows_sublist tokens row hrow).subset
  have hbegin : (⟨row.number, 0⟩ : Position) ≤ (peek row.stop row.tokens).span.start :=
    Position.le_iff.2 (.inr ⟨rfl, Nat.zero_le _⟩)
  have hend := Position.le_trans (ht.proper _ hfirst) (htokens _ hfirst).stop
  refine Span.coverOr_inside_of_default ⟨?_, Position.le_trans hbegin hend⟩ ?_
  · rw [horigin]
    exact Position.origin_le _
  · intro part hpart
    simp only [List.mem_append, Option.mem_toList, Option.map_eq_some_iff] at hpart
    rcases hpart with (⟨label, hlabel, rfl⟩ | hpart) | ⟨c, hc, rfl⟩
    · exact ((Row.madeOf_of_mem_rows hrow).1 label hlabel).inside htokens
    · exact hcontent part hpart
    · exact hcomments c (hcomment c hc).1

theorem Line.From.inside {line : Line}
    (h : line.From (fun role => role.row ∈ rows tokens) comments) : line.span.Inside outer := by
  have hmade {row : Row} {content : Content} (hrow : row ∈ rows tokens)
      (hread : row.read.2.1 = content) : content.MadeOf tokens :=
    hread ▸ (Row.madeOf_of_mem_rows hrow).2
  -- A block is a line over its keyword and its parts.
  have hblock {row : Row} {keyword : Token} {parts : List Span} {span : Span}
      {comment : Option Token} (hrow : row ∈ rows tokens)
      (hcomment : row.start.Takes comments comment) (hkeyword : keyword ∈ tokens)
      (hparts : ∀ part ∈ parts, part.Inside outer)
      (hspan : span = parts.foldl Span.union keyword.span) :
      (row.start.margin (some span) comment).span.Inside outer := by
    refine Row.margin_inside ht htokens hcomments hstops horigin hrow ?_ hcomment
    rintro _ ⟨⟩
    exact hspan ▸ Span.foldl_union_inside (htokens keyword hkeyword) hparts
  have hending {last : Option EndRow} (hlast : ∀ ending ∈ last, ending.row ∈ rows tokens) :
      ∀ token ∈ word last, token.span.Inside outer := by
    intro token htoken
    obtain ⟨ending, hending, rfl⟩ := Option.map_eq_some_iff.1 htoken
    exact htokens _ ((rows_sublist tokens _ (hlast ending hending)).subset
      (Row.head?_subset ending.head List.mem_cons_self))
  have hvalue {value : Option Expr} (hvalue : ∀ e ∈ value, e.MadeOf tokens) :
      ∀ e ∈ value, e.span.Inside outer :=
    fun e he => (hvalue e he).inside ht htokens
  induction h with
  | command hrow hread hcomment =>
      refine Row.margin_inside ht htokens hcomments hstops horigin hrow ?_ hcomment
      intro span hspan
      obtain ⟨c, rfl, rfl⟩ := Option.map_eq_some_iff.1 hspan
      exact (hmade hrow hread c rfl).inside ht htokens (htokens _ (hstops _ hrow))
        (Row.command_span hread) (ht.proper _ (hstops _ hrow))
  | @macroBlock row keyword name comment span passed last body hrow hread hcomment hpassed hlast
      hspan =>
      obtain ⟨hkeyword, hname⟩ := hmade hrow hread
      refine hblock hrow hcomment hkeyword ?_ hspan
      simp only [List.forall_mem_append, List.forall_mem_map, Option.mem_toList]
      refine ⟨⟨fun token htoken => htokens token (hname token htoken), ?_⟩, hending hlast⟩
      intro span hspan
      obtain ⟨last, hlast, rfl⟩ := Option.map_eq_some_iff.1 hspan
      have hmem := hpassed last (List.mem_of_mem_getLast? hlast)
      obtain ⟨token, htoken, heq⟩ :=
        last.exists_lastSpan (hstops last hmem) (rows_sublist tokens last hmem).subset
      exact heq ▸ htokens token htoken
  | conditional hrow hread hcomment _ hdivider _ hlast hspan ihthen ihelse =>
      obtain ⟨hkeyword, hcondition⟩ := hmade hrow hread
      refine hblock hrow hcomment hkeyword ?_ hspan
      simp only [List.forall_mem_append, List.forall_mem_map, Option.mem_toList]
      refine ⟨⟨⟨hvalue hcondition, ihthen⟩, ihelse⟩, fun token htoken => ?_⟩
      rcases Option.or_eq_some_iff.1 htoken with htoken | ⟨-, htoken⟩
      · exact hending hlast token htoken
      · exact hending hdivider token htoken
  | repetition hrow hread hcomment _ hlast hspan ih =>
      obtain ⟨hkeyword, hcount⟩ := hmade hrow hread
      refine hblock hrow hcomment hkeyword ?_ hspan
      simp only [List.forall_mem_append, List.forall_mem_map, Option.mem_toList]
      exact ⟨⟨hvalue hcount, ih⟩, hending hlast⟩

end Lines

end Concrete

/-! ## Documents -/

theorem ConcreteFile.span_inside (text : String) :
    (ofTokens (tokenize text).tokens (tokenize text).comments text).span.Inside
      (textSpan text) := by
  have hstops := Concrete.stop_mem_of_mem_rows (exists_eof_mem_tokenize text)
  refine Span.coverOr_inside_of_default ⟨Std.le_refl _, Position.origin_le _⟩ ?_
  intro span hspan
  obtain ⟨line, hline, rfl⟩ := List.mem_map.1 hspan
  exact (ofTokens_from _ _ text line hline).inside (Concrete.tokenize_inOrder text)
    (token_inside text) (comment_inside text) hstops rfl

/-- A place in a text that has a name. -/
structure Location.StandsIn (uri : Uri) (text : String) (location : Location) : Prop where
  uri_eq : location.uri = uri
  proper : location.span.Proper
  inside : location.span.Inside (textSpan text)

namespace Location.StandsIn

variable {uri : Uri} {text : String}

theorem union {a b : Location} (ha : a.StandsIn uri text) (hb : b.StandsIn uri text) :
    (a.union b).StandsIn uri text where
  uri_eq := ha.uri_eq
  proper := ha.proper.of_inside (Span.inside_union_left a.span b.span)
  inside := Span.union_inside ha.inside hb.inside

end Location.StandsIn

theorem Document.standsIn_of_reaches {text : String} {uri : Uri} {node : Node}
    (h : (Node.file (ofText text uri).file).Reaches node) : node.location.StandsIn uri text := by
  have hfile := nested_file text uri
  have hinside : node.location.span.Inside (textSpan text) := by
    induction h with
    | refl => exact ConcreteFile.span_inside text
    | step hparent hchild ih =>
        cases hfile.of_reaches hparent with
        | intro _ _ _ hparts => exact (hparts _ hchild).trans ih
  cases hfile.of_reaches h with
  | intro huri hproper => exact ⟨huri, hproper, hinside⟩

theorem Document.errors_standIn (text : String) (uri : Uri) :
    ∀ error ∈ (ofText text uri).errors, Location.StandsIn uri text ⟨uri, error.span⟩ := by
  intro error herror
  rcases List.mem_append.1 herror with herror | herror
  · obtain ⟨fault, hfault, rfl⟩ := List.mem_map.1 herror
    obtain ⟨hproper, hinside⟩ := lexError_inside text fault (List.mem_filter.1 hfault).1
    exact ⟨rfl, hproper, hinside⟩
  · obtain ⟨fault, hfault, rfl⟩ := List.mem_map.1 herror
    have htoken := ConcreteFile.token_mem_of_errors (exists_eof_mem_tokenize text) _ _ fault hfault
    exact ⟨rfl, (Concrete.tokenize_inOrder text).proper _ htoken, token_inside text _ htoken⟩

end Asm6502
