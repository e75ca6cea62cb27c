import Asm6502.Proofs.RowLayout

/-!
# Parts of a row in order

The label, the command and the arguments of a row are read from parts of its tokens that stand one
behind the other.  Each of them has the least span around its tokens, so their spans do not overlap,
stay on the lines of the row and have no end inside a comment.
-/

namespace Asm6502

theorem Position.le_antisymm {a b : Position} (hab : a ≤ b) (hba : b ≤ a) : a = b := by
  obtain ⟨line, column⟩ := a
  obtain ⟨line', column'⟩ := b
  rw [le_iff] at hab hba
  dsimp only at hab hba
  rw [Position.mk.injEq]
  omega

namespace Concrete

/-! ## Ends of tight spans -/

namespace Tight

variable {tokens : List Token} {span : Span} (h : Tight tokens span)

include h

theorem endsAmong : span.EndsAmong (tokens.map Token.span) := by
  have hne : tokens.map Token.span ≠ [] := by simpa using h.nonempty
  have hhull : (Span.coverOr .origin (tokens.map Token.span)).Inside span := by
    refine Span.coverOr_inside hne ?_ _
    intro part hpart
    obtain ⟨token, htoken, rfl⟩ := List.mem_map.1 hpart
    exact h.inside token htoken
  have hspan : span.Inside (Span.coverOr .origin (tokens.map Token.span)) :=
    h.least _ fun token htoken => Span.inside_coverOr (List.mem_map_of_mem htoken) _
  have hstart := Position.le_antisymm hhull.start hspan.start
  have hstop := Position.le_antisymm hspan.stop hhull.stop
  obtain ⟨⟨a, ha, hfirst⟩, b, hb, hlast⟩ := Span.coverOr_ends hne .origin
  exact ⟨⟨a, ha, hstart.trans hfirst⟩, ⟨b, hb, hstop.trans hlast⟩⟩

theorem avoids {other : Span} (htokens : ∀ token ∈ tokens, other.Avoids token.span) :
    other.Avoids span :=
  h.endsAmong.avoids (List.forall_mem_map.2 htokens)

theorem onRows {first next : Nat} (ht : InOrder tokens)
    (htokens : ∀ token ∈ tokens, token.span.OnRows first next) : span.OnRows first next :=
  h.endsAmong.onRows (List.forall_mem_map.2 htokens) (h.proper ht)

/-- Of two parts of tokens in order the first ends before the second starts. -/
theorem stop_le {back : List Token} {other : Span} (hother : Tight back other)
    (ht : InOrder (tokens ++ back)) : span.stop ≤ other.start := by
  obtain ⟨_, hmem, hstop⟩ := h.endsAmong.stop
  obtain ⟨_, hmem', hstart⟩ := hother.endsAmong.start
  obtain ⟨last, hlast, rfl⟩ := List.mem_map.1 hmem
  obtain ⟨first, hfirst, rfl⟩ := List.mem_map.1 hmem'
  rw [hstop, hstart]
  exact (List.pairwise_append.1 ht.ordered).2.2 last hlast first hfirst

end Tight

/-! ## Consecutive parts -/

/-- Spans of parts of some tokens, one behind the other. -/
inductive Segments : List Span -> List Token -> Prop where
  | nil : Segments [] []
  | cons {span : Span} {spans : List Span} {front back : List Token} (head : Tight front span)
      (tail : Segments spans back) : Segments (span :: spans) (front ++ back)

namespace Segments

variable {spans : List Span} {tokens : List Token}

theorem single {span : Span} (h : Tight tokens span) : Segments [span] tokens := by
  have hnil := cons h .nil
  rwa [List.append_nil] at hnil

theorem append {more : List Span} {back : List Token} (h : Segments spans tokens)
    (hmore : Segments more back) : Segments (spans ++ more) (tokens ++ back) := by
  induction h with
  | nil => exact hmore
  | cons head _ ih =>
      rw [List.append_assoc]
      exact .cons head ih

theorem token (token : Option Token) : Segments (token.toList.map Token.span) token.toList := by
  cases token with
  | none => exact .nil
  | some token => exact .single (.single token)

theorem exists_tight (h : Segments spans tokens) :
    ∀ span ∈ spans, ∃ taken, taken.Sublist tokens ∧ Tight taken span := by
  induction h with
  | nil => simp
  | @cons span spans front back head _ ih =>
      refine List.forall_mem_cons.2 ⟨⟨front, List.sublist_append_left front back, head⟩, ?_⟩
      intro other hother
      obtain ⟨taken, hsub, htight⟩ := ih other hother
      exact ⟨taken, hsub.trans (List.sublist_append_right front back), htight⟩

theorem pairwise (h : Segments spans tokens) (ht : InOrder tokens) :
    spans.Pairwise fun a b => a.stop ≤ b.start := by
  induction h with
  | nil => exact .nil
  | @cons span spans front back head tail ih =>
      refine List.pairwise_cons.2 ⟨?_, ih (ht.sublist (List.sublist_append_right front back))⟩
      intro other hother
      obtain ⟨taken, hsub, htight⟩ := tail.exists_tight other hother
      exact head.stop_le htight (ht.sublist (List.Sublist.append (.refl front) hsub))

end Segments

/-! ## Labels -/

def Label.nameSpan (label : Label) : Span := Span.coverOr .origin (label.fragments.map Token.span)

theorem Label.location_toLabel (uri : Uri) (label : Label) :
    (toLabel uri label).location = ⟨uri, label.nameSpan⟩ := by
  unfold toLabel Label.nameSpan Label.fragments
  cases label.others <;> rfl

theorem asFragment_span (token : Token) :
    token.span.start ≤ (asFragment token).span.start ∧
      (asFragment token).span.stop = token.span.stop := by
  unfold asFragment
  split
  · exact ⟨Position.le_iff.2 (.inr ⟨rfl, Nat.le_succ _⟩), rfl⟩
  · exact ⟨Std.le_refl _, rfl⟩

theorem Label.nameSpan_tight {label : Label} {taken : List Token}
    (hkind : label.first.kind = .identifier ∨ label.first.kind = .dot)
    (hothers : label.others = taken.map asFragment) (ht : InOrder (label.first :: taken)) :
    Tight (label.first :: taken) label.nameSpan := by
  have hfirst : asFragment label.first = label.first := by
    rcases hkind with hkind | hkind <;> simp [asFragment, hkind]
  have hfragments : label.fragments = (label.first :: taken).map asFragment := by
    rw [List.map_cons, hfirst, ← hothers]
    rfl
  have hpart : ∀ token ∈ label.first :: taken, (asFragment token).span.Inside label.nameSpan := by
    intro token htoken
    refine Span.inside_coverOr (List.mem_map_of_mem ?_) _
    rw [hfragments]
    exact List.mem_map_of_mem htoken
  refine ⟨List.cons_ne_nil _ _, ?_, ?_⟩
  · intro token htoken
    have hstart : label.nameSpan.start ≤ label.first.span.start := by
      rw [← hfirst]
      exact (hpart label.first List.mem_cons_self).start
    have hproper := ht.proper label.first List.mem_cons_self
    refine ⟨?_, ?_⟩
    · rcases List.mem_cons.1 htoken with rfl | hmem
      · exact hstart
      · have hbefore := (List.pairwise_cons.1 ht.ordered).1 token hmem
        exact Position.le_trans hstart (Position.le_trans hproper hbefore)
    · rw [← (asFragment_span token).2]
      exact (hpart token htoken).stop
  · intro outer houter
    have hne : label.fragments.map Token.span ≠ [] := by simp [Label.fragments]
    refine Span.coverOr_inside hne ?_ _
    intro part hmem
    rw [hfragments, List.map_map] at hmem
    obtain ⟨token, htoken, rfl⟩ := List.mem_map.1 hmem
    obtain ⟨hstart, hstop⟩ := asFragment_span token
    have hinside := houter token htoken
    refine ⟨Position.le_trans hinside.start hstart, ?_⟩
    rw [Function.comp_apply, hstop]
    exact hinside.stop

theorem readLabel?_segments {tokens : List Token} (ht : InOrder tokens) :
    ∃ front taken, tokens = front ++ (readLabel? tokens).2 ∧ taken.Sublist front ∧
      Segments ((readLabel? tokens).1.toList.map Label.nameSpan) taken := by
  obtain ⟨hmade, front, hfront⟩ := readLabel?_spec tokens
  obtain ⟨named, hnamed, hmeaningful⟩ := readLabel?_meaningful tokens
  cases hread : (readLabel? tokens).1 with
  | none => exact ⟨front, [], hfront.symm, List.nil_sublist _, .nil⟩
  | some label =>
      -- The tokens of the label are those in front of the rest, but for white space and commas.
      have hsub : named.Sublist front := by
        have hsplit : meaningful front ++ meaningful (readLabel? tokens).2 =
            named ++ meaningful (readLabel? tokens).2 := by
          rw [← meaningful_append, hfront, hmeaningful]
        rw [← List.append_cancel_right hsplit]
        exact List.filter_sublist
      rw [hread] at hnamed
      have hheld : StandsFor (.whole label.first ::
          (label.others.map .fragment ++ label.colon.toList.map .whole)) named := by
        simpa [Label.held] using hnamed
      cases hheld with
      | whole _ h =>
          obtain ⟨taken, hothers, htaken⟩ := h.exists_fragments
          have htaken := (((List.prefix_cons_inj label.first).2 htaken).sublist).trans hsub
          have hfrontOrder : InOrder front := by
            rw [← hfront] at ht
            exact ht.sublist (List.sublist_append_left _ _)
          have htight := Label.nameSpan_tight (hmade label hread).first_kind hothers
            (hfrontOrder.sublist htaken)
          exact ⟨front, _, hfront.symm, htaken, .single htight⟩

/-! ## Commands and heads of blocks -/

theorem readArguments_segments (stop : Token) (afterName isFirst : Bool) {tokens : List Token}
    (ht : InOrder tokens) :
    ∃ taken, taken.Sublist tokens ∧
      Segments ((readArguments stop afterName isFirst tokens).1.map Argument.span) taken := by
  fun_induction readArguments stop afterName isFirst tokens with
  | case1 | case2 | case3 => exact ⟨[], List.nil_sublist _, .nil⟩
  | case4 isFirst tokens _ start hseparator argument rest hargument arguments error heq ih =>
      rw [heq] at ih
      have hstart : start.Sublist tokens := (readSeparator_suffix hseparator).sublist
      obtain ⟨front, htakes, hspells⟩ := readArgument_spells hargument
      have htight := hspells.tight (ht.sublist (htakes.sublist.trans hstart))
      obtain ⟨passed, hpassed, hfront⟩ := htakes
      obtain ⟨taken, hsub, hsegments⟩ :=
        ih (ht.sublist ((hpassed ▸ List.sublist_append_right passed rest).trans hstart))
      refine ⟨front ++ taken, ?_, .cons htight hsegments⟩
      refine List.Sublist.trans ?_ hstart
      rw [hpassed, ← hfront]
      exact List.filter_sublist.append hsub

def Command.spans (command : Command) : List Span :=
  command.name.toList.map Token.span ++ command.extension.toList.map Token.span ++
    command.arguments.map Argument.span

/-- The spans of the parts of what a row holds behind its label. -/
def Content.spans : Content -> List Span
  | .command content => content.elim [] Command.spans
  | .conditional keyword condition => keyword.span :: condition.toList.map Expr.span
  | .repetition keyword count => keyword.span :: count.toList.map Expr.span
  | .macroBlock keyword name => keyword.span :: name.toList.map Token.span

/-- A content whose parts stand in some tokens one behind the other. -/
def Content.InTokens (tokens : List Token) (content : Content) : Prop :=
  ∃ taken, taken.Sublist tokens ∧ Segments content.spans taken

theorem Content.InTokens.mono {content : Content} {tokens more : List Token}
    (h : content.InTokens tokens) (hsub : tokens.Sublist more) : content.InTokens more := by
  obtain ⟨taken, htaken, hsegments⟩ := h
  exact ⟨taken, htaken.trans hsub, hsegments⟩

theorem readExtension?_sublist (name : Token) (tokens : List Token) :
    ((readExtension? name tokens).1.toList ++ (readExtension? name tokens).2).Sublist tokens := by
  unfold readExtension?
  split
  · exact .refl _
  · split <;> exact .refl _

theorem readCommandTail_inTokens (stop : Token) (name : Option Token) {tokens : List Token}
    (ht : InOrder tokens) :
    Content.InTokens (name.toList ++ tokens)
      (.command (some (readCommandTail stop name tokens).1)) := by
  have hfound (found : Option Token × List Token)
      (hsub : (found.1.toList ++ found.2).Sublist tokens) :
      ∃ taken, taken.Sublist (name.toList ++ tokens) ∧
        Segments (name.toList.map Token.span ++ found.1.toList.map Token.span ++
          (readArguments stop name.isSome true found.2).1.map Argument.span) taken := by
    have hrest : found.2.Sublist tokens := (List.sublist_append_right _ _).trans hsub
    obtain ⟨taken, htaken, hsegments⟩ :=
      readArguments_segments stop name.isSome true (ht.sublist hrest)
    refine ⟨name.toList ++ found.1.toList ++ taken, ?_,
      ((Segments.token name).append (.token found.1)).append hsegments⟩
    rw [List.append_assoc]
    exact (List.Sublist.refl _).append (((List.Sublist.refl _).append htaken).trans hsub)
  cases name with
  | none => exact hfound (none, tokens) (.refl _)
  | some name => exact hfound _ (readExtension?_sublist name tokens)

theorem readHeadExpr_segments (stop : Token) (expected : Expected) {tokens : List Token}
    (ht : InOrder tokens) :
    ∃ taken, taken.Sublist tokens ∧
      Segments ((readHeadExpr stop expected tokens).1.toList.map Expr.span) taken := by
  cases hread : (readHeadExpr stop expected tokens).1 with
  | none => exact ⟨[], List.nil_sublist _, .nil⟩
  | some e =>
      obtain ⟨taken, hsub, hspells⟩ := readHeadExpr_madeOf stop expected tokens e hread
      exact ⟨taken, hsub, .single (hspells.tight (ht.sublist hsub))⟩

theorem readContent_inTokens (stop : Token) {first : Token} {tokens : List Token}
    (ht : InOrder (first :: tokens)) :
    (readContent stop first tokens).1.InTokens (first :: tokens) := by
  have hrest : InOrder tokens := ht.sublist (List.sublist_cons_self first tokens)
  have hhead {spans : List Span} (h : ∃ taken, taken.Sublist tokens ∧ Segments spans taken) :
      ∃ taken, taken.Sublist (first :: tokens) ∧ Segments (first.span :: spans) taken := by
    obtain ⟨taken, hsub, hsegments⟩ := h
    exact ⟨first :: taken, hsub.cons_cons first, .cons (.single first) hsegments⟩
  unfold readContent
  split
  case h_1 | h_2 | h_3 => exact hhead (readHeadExpr_segments stop .condition hrest)
  case h_4 => exact hhead (readHeadExpr_segments stop .repeatCount hrest)
  case h_5 =>
    refine hhead ⟨(readMacroName stop tokens).1.toList, ?_, .token _⟩
    cases hname : (readMacroName stop tokens).1 with
    | none => exact List.nil_sublist _
    | some name => exact List.singleton_sublist.2 (readMacroName_mem stop tokens name hname)
  case h_6 | h_7 => exact readCommandTail_inTokens stop (some first) hrest
  case h_8 =>
    split
    · exact readCommandTail_inTokens stop none ht
    · exact ⟨[], List.nil_sublist _, .nil⟩

theorem readBehindLabel_inTokens (stop : Token) (hasLabel : Bool) {tokens : List Token}
    (ht : InOrder tokens) : (readBehindLabel stop hasLabel tokens).1.InTokens tokens := by
  have hnone : Content.InTokens tokens (.command none) := ⟨[], List.nil_sublist _, .nil⟩
  unfold readBehindLabel
  split
  · exact hnone
  · next first rest =>
    split
    · split
      · exact hnone
      · next second after heq =>
        have hafter : (second :: after).Sublist (first :: rest) := by
          rw [← heq]
          exact ((skipBlanks_suffix rest).trans (List.suffix_cons first rest)).sublist
        exact (readContent_inTokens stop (ht.sublist hafter)).mono hafter
    · split
      · exact hnone
      · exact readContent_inTokens stop ht

/-- The name of the label of a row and the parts of its content stand one behind the other. -/
theorem Row.segments (row : Row) (ht : InOrder row.tokens) :
    ∃ taken, taken.Sublist row.tokens ∧
      Segments (row.read.1.toList.map Label.nameSpan ++ row.read.2.1.spans) taken := by
  obtain ⟨front, named, hfront, hnamed, hlabel⟩ := readLabel?_segments ht
  have hrest : InOrder (readLabel? row.tokens).2 := by
    rw [hfront] at ht
    exact ht.sublist (List.sublist_append_right _ _)
  obtain ⟨taken, htaken, hcontent⟩ :=
    readBehindLabel_inTokens row.stop (readLabel? row.tokens).1.isSome hrest
  refine ⟨named ++ taken, ?_, hlabel.append hcontent⟩
  rw [hfront]
  exact hnamed.append htaken

end Concrete

end Asm6502
