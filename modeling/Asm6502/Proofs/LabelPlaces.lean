import Asm6502.Proofs.LabelScopes
import Asm6502.Proofs.SpanOrder
import Asm6502.Proofs.UndefinedLabels

/-!
# Where labels are named

In a document that was read, the name of a label is spelled by the tokens at its place, but for
commas and white space between them.  So two labels that are named at one place have one name,
whether they are defined or used there and whatever the lines are.
-/

namespace Asm6502

/-- A token that does more than stand between others is not empty. -/
theorem tokenize_start_lt_stop {source : String} {token : Token}
    (htoken : token ∈ (tokenize source).tokens)
    (hkind : Concrete.isSeparating token.kind = false) : token.span.start < token.span.stop := by
  have htiles := Lexeme.scan_tiles none .origin source.toList
  rcases List.mem_append.1 htoken with htoken | htoken
  · obtain ⟨lexeme, hmem, hlexeme⟩ := List.mem_filterMap.1 htoken
    obtain ⟨i, hstands⟩ := htiles.exists_standsAt lexeme hmem
    have hshape : lexeme.shape ≠ .token .newline := by
      intro hshape
      rw [Lexeme.token?, hshape] at hlexeme
      cases hlexeme
      cases hkind
    rw [Lexeme.span_of_token? hlexeme, Lexeme.span_eq, if_neg hshape]
    exact hstands.start_lt_stop
  · rw [List.mem_singleton.1 htoken] at hkind
    cases hkind

namespace Concrete

/-! ## Tokens inside a span -/

/-- Of tokens in order, those inside the least span around some that stand side by side are these
ones. -/
theorem Tight.filter_eq {all taken : List Token} {span : Span} (h : Tight taken span)
    (hall : InOrder all) (hwide : ∀ token ∈ all, token.span.start < token.span.stop)
    (hbeside : taken <:+: all) :
    all.filter (fun token => span.containsSpan token.span) = taken := by
  obtain ⟨front, back, rfl⟩ := hbeside
  obtain ⟨hfront, -, hbehind⟩ := List.pairwise_append.1 hall.ordered
  obtain ⟨-, -, hbefore⟩ := List.pairwise_append.1 hfront
  have hnot (token : Token) (htoken : token ∈ front ++ taken ++ back) :
      ¬ token.span.stop ≤ token.span.start := by
    have hlt := hwide token htoken
    rw [Position.lt_iff] at hlt
    rw [Position.le_iff]
    omega
  have hinside : taken.filter (fun token => span.containsSpan token.span) = taken :=
    List.filter_eq_self.2 fun token htoken => Span.containsSpan_iff.2 (h.inside token htoken)
  have hnone_front : front.filter (fun token => span.containsSpan token.span) = [] := by
    refine List.filter_eq_nil_iff.2 fun token htoken hcontains => ?_
    have hspan : span.Inside ⟨token.span.stop, span.stop⟩ :=
      h.least _ fun t ht => ⟨hbefore token htoken t ht, (h.inside t ht).stop⟩
    apply hnot token (by simp [htoken])
    exact Position.le_trans hspan.start (Span.containsSpan_iff.1 hcontains).start
  have hnone_back : back.filter (fun token => span.containsSpan token.span) = [] := by
    refine List.filter_eq_nil_iff.2 fun token htoken hcontains => ?_
    have hspan : span.Inside ⟨span.start, token.span.start⟩ :=
      h.least _ fun t ht => ⟨(h.inside t ht).start,
        hbehind t (List.mem_append_right front ht) token htoken⟩
    apply hnot token (by simp [htoken])
    exact Position.le_trans (Span.containsSpan_iff.1 hcontains).stop hspan.stop
  rw [List.filter_append, List.filter_append, hnone_front, hinside, hnone_back]
  simp

theorem asFragment_inside (token : Token) : (asFragment token).span.Inside token.span := by
  unfold asFragment
  split
  · exact ⟨Position.le_iff.2 (.inr ⟨rfl, Nat.le_succ _⟩), Std.le_refl _⟩
  · exact .refl _

theorem asFragment_stop (token : Token) : (asFragment token).span.stop = token.span.stop := by
  unfold asFragment
  split <;> rfl

/-! ## Names at spans -/

def fragmentsName (fragments : List Token) : String := ",".intercalate (fragments.map Token.literal)

def fragmentsSpan (fragments : List Token) : Span := .coverOr .origin (fragments.map Token.span)

/-- The tokens of a text that stand side by side at a span make a name. -/
def NamedAt (tokens : List Token) (key : String) (span : Span) : Prop :=
  ∃ taken, taken <:+: meaningful tokens ∧ Tight taken span ∧
    key = fragmentsName (taken.map asFragment)

theorem tight_fragmentsSpan {first : Token} {rest : List Token} (h : InOrder (first :: rest))
    (hfirst : asFragment first = first) :
    Tight (first :: rest) (fragmentsSpan ((first :: rest).map asFragment)) := by
  have hcover : ∀ token ∈ first :: rest,
      (asFragment token).span.Inside (fragmentsSpan ((first :: rest).map asFragment)) :=
    fun token htoken =>
      Span.inside_coverOr (List.mem_map_of_mem (List.mem_map_of_mem htoken)) .origin
  refine ⟨List.cons_ne_nil _ _, fun token htoken => ⟨?_, ?_⟩, fun outer houter => ?_⟩
  · have hstart := (hcover first List.mem_cons_self).start
    rw [hfirst] at hstart
    rcases List.mem_cons.1 htoken with rfl | htoken
    · exact hstart
    · have hfirst_le := h.proper first List.mem_cons_self
      have hnext := (List.pairwise_cons.1 h.ordered).1 token htoken
      exact Position.le_trans hstart (Position.le_trans hfirst_le hnext)
  · rw [← asFragment_stop]
    exact (hcover token htoken).stop
  · refine Span.coverOr_inside (by simp) (fun part hpart => ?_) .origin
    obtain ⟨fragment, hfragment, rfl⟩ := List.mem_map.1 hpart
    obtain ⟨token, htoken, rfl⟩ := List.mem_map.1 hfragment
    exact (asFragment_inside token).trans (houter token htoken)

section Names

variable {tokens : List Token} (htokens : InOrder tokens)

include htokens

theorem namedAt_fragments {first : Token} {rest : List Token}
    (hbeside : first :: rest <:+: meaningful tokens) (hfirst : asFragment first = first) :
    NamedAt tokens (fragmentsName ((first :: rest).map asFragment))
      (fragmentsSpan ((first :: rest).map asFragment)) := by
  have horder : InOrder (first :: rest) :=
    htokens.sublist (hbeside.sublist.trans List.filter_sublist)
  exact ⟨_, hbeside, tight_fragmentsSpan horder hfirst, rfl⟩

theorem NamedAt.unique {a b : String} {span : Span} (ha : NamedAt tokens a span)
    (hb : NamedAt tokens b span)
    (hwide : ∀ token ∈ meaningful tokens, token.span.start < token.span.stop) : a = b := by
  have horder : InOrder (meaningful tokens) := htokens.sublist List.filter_sublist
  obtain ⟨first, hfirst, htight, rfl⟩ := ha
  obtain ⟨second, hsecond, htight', rfl⟩ := hb
  rw [← htight.filter_eq horder hwide hfirst, ← htight'.filter_eq horder hwide hsecond]

end Names

end Concrete

/-! ## Names in expressions and labels -/

namespace Expr

theorem mentions_identifier {id : Identifier} (h : id.programCounter = false) :
    (Expr.identifier id).mentions = [.labelUse id.name false id.location] := by
  simp [mentions, parts, h]

theorem mentions_dynamicLabel (label : DynamicLabel) :
    (Expr.dynamicLabel label).mentions = [.labelUse label.key true label.location] := by
  simp [mentions, parts]

theorem mentions_unary (op : UnaryOp) (operand : Expr) (location : Location) :
    (Expr.unary op operand location).mentions = operand.mentions := by
  simp [mentions, parts]

theorem mentions_binary (op : BinaryOp) (left right : Expr) (location : Location) :
    (Expr.binary op left right location).mentions = left.mentions ++ right.mentions := by
  simp [mentions, parts]

theorem mentions_brackets (kind : BracketKind) (inner : Expr) (location : Location) :
    (Expr.brackets kind inner location).mentions = inner.mentions := by
  simp [mentions, parts]

end Expr

namespace Concrete

variable {uri : Uri}

/-- The single tokens of an expression are no labels. -/
theorem mentions_ofAtom {token : Token} (h : isAtom token.kind = true) :
    (ofAtom uri token).mentions = [] := by
  unfold ofAtom
  dsimp only
  split
  · rfl
  · split
    · rfl
    · split
      · rfl
      · next hnumber hstring hchar =>
        have hcounter : (toIdentifier uri token).programCounter = true := by
          unfold toIdentifier
          dsimp only
          revert h hnumber hstring hchar
          cases token.kind <;> simp [isAtom, Token.Kind.isNumber]
        simp [Asm6502.Expr.mentions, Asm6502.Expr.parts, hcounter]

/-- A label that words make where it is used. -/
def UsedAs (uri : Uri) (words : List Token) (m : Mention) : Prop :=
  m.occurrence? = some ⟨.usage, fragmentsName words, ⟨uri, fragmentsSpan words⟩⟩

theorem fragmentsName_singleton (token : Token) : fragmentsName [token] = token.literal := by
  simp [fragmentsName]

theorem key_toDynamicLabel (fragments : List Token) :
    (toDynamicLabel uri fragments).key = fragmentsName fragments := by
  simp [DynamicLabel.key, toDynamicLabel, fragmentsName, toIdentifier, Function.comp_def]

theorem Expr.Joined.isWord {words tokens : List Token} (h : Joined words tokens) :
    ∀ word ∈ words, word.kind.isWord = true := by
  induction h with
  | nil => simp
  | cons _ hword _ ih => exact List.forall_mem_cons.2 ⟨hword, ih⟩

/-- The labels that a value uses are made of words of its expression. -/
theorem Expr.Spells.mentions_lower {e : Expr} {tokens : List Token} (h : e.Spells tokens) :
    ∀ m ∈ (e.lower uri).mentions, ∃ first others,
      (∀ word ∈ first :: others, word.kind.isWord = true) ∧ first :: others <:+: e.tokens ∧
        UsedAs uri (first :: others) m := by
  induction h with
  | @atom token h =>
      rw [Expr.lower, mentions_ofAtom h]
      simp
  | @label first others tokens hfirst hjoined =>
      intro m hm
      refine ⟨first, others, List.forall_mem_cons.2 ⟨hfirst, hjoined.isWord⟩, List.infix_refl _, ?_⟩
      cases others with
      | nil =>
          have hcounter : (toIdentifier uri first).programCounter = false := by
            unfold toIdentifier
            dsimp only
            revert hfirst
            cases first.kind <;> decide
          rw [Expr.lower, Asm6502.Expr.mentions_identifier hcounter, List.mem_singleton] at hm
          rw [hm, UsedAs, fragmentsName_singleton]
          rfl
      | cons second others =>
          rw [Expr.lower, Asm6502.Expr.mentions_dynamicLabel, List.mem_singleton] at hm
          · rw [hm, UsedAs, key_toDynamicLabel]
            rfl
          · simp
  | macroArgument => simp [Expr.lower, Asm6502.Expr.mentions, Asm6502.Expr.parts]
  | @unary operator operand tokens _ ih =>
      intro m hm
      have hoperand : m ∈ (operand.lower uri).mentions := by
        rw [Expr.lower] at hm
        split at hm
        · rwa [Asm6502.Expr.mentions_unary] at hm
        · exact hm
      obtain ⟨first, others, hwords, hbeside, hused⟩ := ih m hoperand
      exact ⟨first, others, hwords, List.infix_cons hbeside, hused⟩
  | @binary left right operator front back _ _ ihleft ihright =>
      intro m hm
      have hside : m ∈ (left.lower uri).mentions ∨ m ∈ (right.lower uri).mentions := by
        rw [Expr.lower] at hm
        split at hm
        · rwa [Asm6502.Expr.mentions_binary, List.mem_append] at hm
        · exact .inl hm
      rcases hside with hm | hm
      · obtain ⟨first, others, hwords, hbeside, hused⟩ := ihleft m hm
        exact ⟨first, others, hwords, hbeside.trans (List.prefix_append _ _).isInfix, hused⟩
      · obtain ⟨first, others, hwords, hbeside, hused⟩ := ihright m hm
        exact ⟨first, others, hwords,
          (List.infix_cons hbeside).trans (List.suffix_append _ _).isInfix, hused⟩
  | @round opening closing inner tokens _ _ _ ih | @square opening closing inner tokens _ _ _ ih =>
      intro m hm
      rw [Expr.lower, Asm6502.Expr.mentions_brackets] at hm
      obtain ⟨first, others, hwords, hbeside, hused⟩ := ih m hm
      exact ⟨first, others, hwords,
        hbeside.trans (List.infix_append [opening] inner.tokens [closing]), hused⟩

theorem mentions_toLabel {c : Label} {kind : DefinitionKind} {value : Option Asm6502.Expr}
    {m : Mention} (h : m ∈ (toLabel uri c).mentions kind value) :
    m.occurrence? =
      some ⟨.definition, fragmentsName c.fragments, ⟨uri, fragmentsSpan c.fragments⟩⟩ := by
  obtain ⟨first, others, colon⟩ := c
  cases others with
  | nil =>
      cases hcounter : (toIdentifier uri first).programCounter with
      | true => simp [toLabel, Asm6502.Label.mentions, hcounter] at h
      | false =>
          simp only [toLabel, Asm6502.Label.mentions, hcounter, Bool.false_eq_true, if_false,
            List.mem_singleton] at h
          rw [h, Label.fragments, fragmentsName_singleton]
          rfl
  | cons second others =>
      simp only [toLabel, Asm6502.Label.mentions, List.mem_singleton] at h
      rw [h, key_toDynamicLabel]
      rfl

theorem map_asFragment_of_isWord {words : List Token}
    (h : ∀ word ∈ words, word.kind.isWord = true) : words.map asFragment = words :=
  (List.map_congr_left fun word hword => asFragment_of_isWord (h word hword)).trans (List.map_id _)

end Concrete

/-! ## Names on lines -/

theorem Line.Shows.namedAt {uri : Uri} {parts : List Concrete.Part} {line : Line}
    (h : line.Shows uri parts) {tokens : List Token}
    (hparts : ∀ part ∈ parts, part.StandsIn tokens) (htokens : Concrete.InOrder tokens)
    {o : Occurrence} (ho : o ∈ line.occurrences) :
    o.location.uri = uri ∧ Concrete.NamedAt tokens o.key o.location.span := by
  obtain ⟨m, hm, hoccurs⟩ := List.mem_filterMap.1 ho
  rcases (Line.mem_mentions (Mention.isLabel_of_occurrence? hoccurs)).1 hm with
    ⟨label, hlabel, hm⟩ | ⟨e, hevaluates, hm⟩
  · obtain ⟨c, hc, rfl⟩ := h.label label hlabel
    obtain ⟨hmade, taken, hothers, hbeside⟩ := hparts _ hc
    rw [Concrete.mentions_toLabel hm] at hoccurs
    cases hoccurs
    have hfirst : Concrete.asFragment c.first = c.first := by
      rcases hmade.first_kind with hkind | hkind <;> simp [Concrete.asFragment, hkind]
    have hfragments : c.fragments = (c.first :: taken).map Concrete.asFragment := by
      rw [List.map_cons, hfirst, ← hothers]
      rfl
    rw [hfragments]
    exact ⟨rfl, Concrete.namedAt_fragments htokens hbeside hfirst⟩
  · obtain ⟨c, hc, rfl⟩ := h.expressions e hevaluates.mem_expressions
    obtain ⟨⟨taken, -, hspells⟩, hexpr⟩ := hparts _ hc
    obtain ⟨first, others, hwords, hbeside, hused⟩ := hspells.mentions_lower m hm
    rw [hused] at hoccurs
    cases hoccurs
    rw [← Concrete.map_asFragment_of_isWord hwords]
    exact ⟨rfl, Concrete.namedAt_fragments htokens (hbeside.trans hexpr)
      (Concrete.asFragment_of_isWord (hwords first List.mem_cons_self))⟩

namespace Document

variable {text : String} {uri : Uri}

/-- A label stands in its document, where the text spells its name. -/
theorem namedAt_of_mem_occurrences {line : Line} (hline : line ∈ (ofText text uri).allLines)
    {o : Occurrence} (ho : o ∈ line.occurrences) :
    o.location.uri = uri ∧
      Concrete.NamedAt (tokenize text).tokens o.key o.location.span := by
  obtain ⟨parts, hparts, hshows⟩ := exists_shows_of_mem_walkAll text uri
  exact (hshows line hline).namedAt hparts (Concrete.tokenize_inOrder text) ho

theorem key_eq_of_location_eq {first second : Line} (hfirst : first ∈ (ofText text uri).allLines)
    (hsecond : second ∈ (ofText text uri).allLines) {a b : Occurrence}
    (ha : a ∈ first.occurrences) (hb : b ∈ second.occurrences) (h : a.location = b.location) :
    a.key = b.key := by
  have hnamed := (namedAt_of_mem_occurrences hfirst ha).2
  rw [h] at hnamed
  refine hnamed.unique (Concrete.tokenize_inOrder text) (namedAt_of_mem_occurrences hsecond hb).2 ?_
  intro token htoken
  obtain ⟨hmem, hkind⟩ := List.mem_filter.1 htoken
  exact tokenize_start_lt_stop hmem (by simpa using hkind)

end Document

/-- In a program whose documents were read, the labels at one place have one name. -/
theorem Document.expansion_key_eq {cache : DocumentCache} (files : FileSource)
    (hcache : cache.OfTexts) (text : String) (uri : Uri) {first second : Line}
    (hfirst : first ∈ (ofText text uri).expansion files cache)
    (hsecond : second ∈ (ofText text uri).expansion files cache) {a b : Occurrence}
    (ha : a ∈ first.occurrences) (hb : b ∈ second.occurrences) (h : a.location = b.location) :
    a.key = b.key := by
  have hdocument {line : Line} (hline : line ∈ (ofText text uri).expansion files cache) :
      ∃ d ∈ ((ofText text uri).walk files cache).documents, line ∈ d.allLines ∧
        ∃ source, d = ofText source d.uri := by
    rw [← lines_walk] at hline
    obtain ⟨d, hd, hline⟩ := (mem_walk_lines _ files cache).1 hline
    exact ⟨d, hd, hline, ((ofText text uri).walk_enters files cache d hd).exists_text hcache⟩
  obtain ⟨d, hd, hd_line, source, hsource⟩ := hdocument hfirst
  obtain ⟨d', hd', hd_line', source', hsource'⟩ := hdocument hsecond
  have huri : d.uri = d'.uri := by
    rw [hsource] at hd_line
    rw [hsource'] at hd_line'
    rw [← (namedAt_of_mem_occurrences hd_line ha).1, h,
      (namedAt_of_mem_occurrences hd_line' hb).1]
  have hsame : d = d' := (walk_enters _ files cache d hd).eq (walk_enters _ files cache d' hd') huri
  subst hsame
  rw [hsource] at hd_line hd_line'
  exact key_eq_of_location_eq hd_line hd_line' ha hb h

end Asm6502
