import Asm6502.Proofs.NodeOrder

/-!
# Lines in order

The lines of a text and of each of its blocks stand one behind the other.  The rows of a text have
lines of their own, and with them what is built from the rows: a block stands on rows behind those
of the lines before it, and the lines of the block stand behind the row that opens it.
-/

namespace Asm6502

namespace Concrete

/-! ## The start of a line -/

/-- A line start on some lines of a text, with parts behind its label.  Neither the label nor a part
ends inside a comment that the line can take. -/
structure LineStart.Placed (uri : Uri) (comments : List Token) (first next : Nat)
    (start : LineStart) (parts : List Span) : Prop where
  number : first ≤ start.number ∧ start.number < next
  label_inOrder : ∀ label ∈ start.label,
    (Node.label (toLabel uri label)).Throughout Node.PartsInOrder
  label_onRows : ∀ label ∈ start.label,
    label.span.OnRows first next ∧ label.nameSpan.OnRows first next
  parts_onRows : ∀ part ∈ parts, part.OnRows first next
  label_before : ∀ label ∈ start.label, ∀ part ∈ parts, label.nameSpan.stop ≤ part.start
  comment_onRows : ∀ comment ∈ comments, start.onRow comment -> comment.span.OnRows first next
  comment_label : ∀ comment ∈ comments, start.onRow comment ->
    ∀ label ∈ start.label, comment.span.Avoids label.nameSpan
  comment_part : ∀ comment ∈ comments, start.onRow comment ->
    ∀ part ∈ parts, comment.span.Avoids part

variable {uri : Uri} {comments : List Token} {first middle next : Nat}

namespace LineStart.Placed

variable {start : LineStart} {parts : List Span}

theorem of_ends (h : start.Placed uri comments first next parts) {span : Span}
    (hends : span.EndsAmong parts) (hproper : span.Proper) :
    start.Placed uri comments first next [span] := by
  refine ⟨h.number, h.label_inOrder, h.label_onRows, ?_, ?_, h.comment_onRows, h.comment_label, ?_⟩
  · exact List.forall_mem_singleton.2 (hends.onRows h.parts_onRows hproper)
  · obtain ⟨part, hpart, hstart⟩ := hends.start
    intro label hlabel
    rw [List.forall_mem_singleton, hstart]
    exact h.label_before label hlabel part hpart
  · intro comment hcomment hrow
    exact List.forall_mem_singleton.2 (hends.avoids (h.comment_part comment hcomment hrow))

theorem subset (h : start.Placed uri comments first next parts) {fewer : List Span}
    (hsub : fewer ⊆ parts) : start.Placed uri comments first next fewer where
  number := h.number
  label_inOrder := h.label_inOrder
  label_onRows := h.label_onRows
  parts_onRows := fun part hpart => h.parts_onRows part (hsub hpart)
  label_before := fun label hlabel part hpart => h.label_before label hlabel part (hsub hpart)
  comment_onRows := h.comment_onRows
  comment_label := h.comment_label
  comment_part := fun comment hcomment hrow part hpart =>
    h.comment_part comment hcomment hrow part (hsub hpart)

theorem grow (h : start.Placed uri comments first middle parts) (hnext : middle ≤ next)
    {later : List Span} (hlater : ∀ part ∈ later, part.OnRows middle next) :
    start.Placed uri comments first next (parts ++ later) := by
  have hfirst : first ≤ middle := Nat.le_of_lt (Nat.lt_of_le_of_lt h.number.1 h.number.2)
  have hearlier {span : Span} (hspan : span.OnRows first middle) : span.OnRows first next :=
    hspan.mono (Nat.le_refl _) hnext
  refine ⟨⟨h.number.1, Nat.lt_of_lt_of_le h.number.2 hnext⟩, h.label_inOrder, ?_, ?_, ?_, ?_,
    h.comment_label, ?_⟩
  · exact fun label hlabel => (h.label_onRows label hlabel).imp hearlier hearlier
  · refine List.forall_mem_append.2 ⟨fun part hpart => hearlier (h.parts_onRows part hpart), ?_⟩
    exact fun part hpart => (hlater part hpart).mono hfirst (Nat.le_refl _)
  · intro label hlabel
    refine List.forall_mem_append.2 ⟨h.label_before label hlabel, ?_⟩
    exact fun part hpart => (h.label_onRows label hlabel).2.stop_le (hlater part hpart)
  · exact fun comment hcomment hrow => hearlier (h.comment_onRows comment hcomment hrow)
  · intro comment hcomment hrow
    refine List.forall_mem_append.2 ⟨h.comment_part comment hcomment hrow, ?_⟩
    exact fun part hpart => (h.comment_onRows comment hcomment hrow).avoids (hlater part hpart)

/-- The union of parts, some of them on later lines, can stand in their place. -/
theorem cover {base : Span} (h : start.Placed uri comments first middle (base :: parts))
    (hnext : middle ≤ next) {later : List Span} (hlater : ∀ part ∈ later, part.OnRows middle next) :
    start.Placed uri comments first next [(parts ++ later).foldl Span.union base] := by
  have hgrown := h.grow hnext hlater
  exact hgrown.of_ends (Span.foldl_union_ends _ _)
    (Span.foldl_union_onRows hgrown.parts_onRows).proper

theorem coverOr {default : Span} (h : start.Placed uri comments first next (parts ++ [default])) :
    start.Placed uri comments first next [Span.coverOr default parts] := by
  cases parts with
  | nil => exact h
  | cons base parts =>
      have hparts := h.subset (List.subset_append_left (base :: parts) [default])
      exact hparts.of_ends (Span.foldl_union_ends _ _)
        (Span.foldl_union_onRows hparts.parts_onRows).proper

end LineStart.Placed

theorem Label.MadeOf.onRows {label : Label} {tokens : List Token} (h : label.MadeOf tokens)
    (ht : InOrder tokens) (hregular : ∀ token ∈ tokens, token.Regular)
    (htokens : ∀ token ∈ tokens, token.span.OnRows first next) : label.span.OnRows first next := by
  obtain ⟨taken, hsub, -⟩ := h.others
  have hfirst := htokens label.first (hsub.subset List.mem_cons_self)
  have hall : (Span.coverOr label.first.span (tokens.map Token.span)).OnRows first next := by
    refine Span.coverOr_onRows hfirst fun part hpart => ?_
    obtain ⟨token, htoken, rfl⟩ := List.mem_map.1 hpart
    exact htokens token htoken
  have hinside : label.span.Inside (Span.coverOr label.first.span (tokens.map Token.span)) :=
    h.inside fun token htoken => Span.inside_coverOr (List.mem_map_of_mem htoken) _
  obtain ⟨hnested, hname⟩ := h.held (default : Uri) ht hregular
  obtain ⟨-, hproper, -, -⟩ := hnested
  exact hall.of_inside hinside (hproper.of_inside hname)

theorem Row.placed (uri : Uri) {row : Row} (h : row.OnRows comments first next) :
    row.start.Placed uri comments first next
      (row.read.2.1.spans ++ [.empty row.stop.span.start]) := by
  have hsub : row.tokens.Sublist (row.tokens ++ [row.stop]) := List.sublist_append_left _ _
  have ht : InOrder row.tokens := h.arranged.order.sublist hsub
  have hmem : row.stop ∈ row.tokens ++ [row.stop] := by simp
  obtain ⟨taken, htaken, hsegments⟩ := row.segments ht
  obtain ⟨hlabel, -⟩ := row.read_spec
  -- What holds of the span of each part holds by the tokens at its ends.
  have hspan : ∀ span ∈ row.read.1.toList.map Label.nameSpan ++ row.read.2.1.spans,
      span.OnRows first next ∧ span.stop ≤ row.stop.span.start ∧
        ∀ comment ∈ comments, comment.span.Avoids span := by
    intro span hspan
    obtain ⟨part, hpart, htight⟩ := hsegments.exists_tight span hspan
    have hpart : part.Sublist row.tokens := hpart.trans htaken
    refine ⟨htight.onRows (ht.sublist hpart) ?_, ?_, ?_⟩
    · exact fun token htoken => h.tokens token (hsub.subset (hpart.subset htoken))
    · refine htight.stop_le (.single row.stop) (h.arranged.order.sublist ?_)
      exact hpart.append (.refl _)
    · intro comment hcomment
      refine htight.avoids fun token htoken => ?_
      have htoken := hsub.subset (hpart.subset htoken)
      exact Span.avoids_of_apart (h.arranged.order.proper token htoken)
        (h.arranged.apart token htoken comment hcomment)
  obtain ⟨hname, hparts⟩ := List.forall_mem_append.1 hspan
  have hname : ∀ label ∈ row.read.1, label.nameSpan.OnRows first next ∧
      label.nameSpan.stop ≤ row.stop.span.start ∧
      ∀ comment ∈ comments, comment.span.Avoids label.nameSpan :=
    fun label hlabel => hname _ (List.mem_map_of_mem (Option.mem_toList.2 hlabel))
  have hstop := h.tokens row.stop hmem
  refine ⟨?_, ?_, ?_, ?_, ?_, ?_, ?_, ?_⟩
  · have hpeek := h.tokens _ row.peek_mem
    exact ⟨hpeek.start, Nat.lt_of_le_of_lt hpeek.proper.line_le hpeek.stop⟩
  · exact fun label hl => (hlabel label hl).inOrder uri ht
      fun token htoken => h.arranged.regular token (hsub.subset htoken)
  · intro label hl
    refine ⟨(hlabel label hl).onRows ht ?_ ?_, (hname label hl).1⟩
    · exact fun token htoken => h.arranged.regular token (hsub.subset htoken)
    · exact fun token htoken => h.tokens token (hsub.subset htoken)
  · refine List.forall_mem_append.2 ⟨fun part hpart => (hparts part hpart).1, ?_⟩
    refine List.forall_mem_singleton.2 ⟨hstop.start, ?_, Span.proper_empty _⟩
    exact Nat.lt_of_le_of_lt hstop.proper.line_le hstop.stop
  · intro label hl
    refine List.forall_mem_append.2 ⟨?_, List.forall_mem_singleton.2 (hname label hl).2.1⟩
    intro part hpart
    refine (List.pairwise_append.1 (hsegments.pairwise (ht.sublist htaken))).2.2 _ ?_ part hpart
    exact List.mem_map_of_mem (Option.mem_toList.2 hl)
  · intro comment hcomment hrow
    exact h.comments comment hcomment (beq_iff_eq.1 hrow)
  · exact fun comment hcomment _ label hl => (hname label hl).2.2 comment hcomment
  · intro comment hcomment _
    refine List.forall_mem_append.2 ⟨fun part hpart => (hparts part hpart).2.2 comment hcomment, ?_⟩
    refine List.forall_mem_singleton.2 (Span.avoids_of_apart (Span.proper_empty _) ?_)
    exact (h.arranged.apart row.stop hmem comment hcomment).imp id
      (Position.le_trans hstop.proper)

/-! ## Lines -/

structure Line.Placed (uri : Uri) (first next : Nat) (line : Line) : Prop where
  inOrder : (Node.line (line.lower uri)).Throughout Node.PartsInOrder
  onRows : line.span.OnRows first next

theorem Line.Placed.mono {line : Line} (h : line.Placed uri first next) {first' next' : Nat}
    (hfirst : first' ≤ first) (hnext : next ≤ next') : line.Placed uri first' next' :=
  ⟨h.inOrder, h.onRows.mono hfirst hnext⟩

/-- Lines that stand one behind the other. -/
structure LinesOn (uri : Uri) (first next : Nat) (lines : List Line) : Prop where
  placed : ∀ line ∈ lines, line.Placed uri first next
  ordered : lines.Pairwise fun a b => a.span.stop ≤ b.span.start

namespace LinesOn

variable {lines : List Line}

theorem nil : LinesOn uri first next [] := ⟨by simp, .nil⟩

theorem single {line : Line} (h : line.Placed uri first next) : LinesOn uri first next [line] :=
  ⟨List.forall_mem_singleton.2 h, List.pairwise_singleton _ _⟩

theorem append {more : List Line} (h : LinesOn uri first middle lines)
    (hmore : LinesOn uri middle next more) (hfirst : first ≤ middle) (hnext : middle ≤ next) :
    LinesOn uri first next (lines ++ more) where
  placed := List.forall_mem_append.2
    ⟨fun line hline => (h.placed line hline).mono (Nat.le_refl _) hnext,
      fun line hline => (hmore.placed line hline).mono hfirst (Nat.le_refl _)⟩
  ordered := List.pairwise_append.2 ⟨h.ordered, hmore.ordered, fun a ha b hb =>
    (h.placed a ha).onRows.stop_le (hmore.placed b hb).onRows⟩

theorem mono (h : LinesOn uri first next lines) {first' next' : Nat} (hfirst : first' ≤ first)
    (hnext : next ≤ next') : LinesOn uri first' next' lines :=
  ⟨fun line hline => (h.placed line hline).mono hfirst hnext, h.ordered⟩

theorem spans (h : LinesOn uri first next lines) :
    ∀ span ∈ lines.map Line.span, span.OnRows first next := by
  intro span hspan
  obtain ⟨line, hline, rfl⟩ := List.mem_map.1 hspan
  exact (h.placed line hline).onRows

theorem nodes (h : LinesOn uri first next lines) :
    ((lowerAll uri lines).map Node.line).Pairwise Node.Before := by
  rw [lowerAll_eq_map, List.map_map]
  refine List.pairwise_map.2 (h.ordered.imp ?_)
  intro a b hab
  rw [Node.Before, Function.comp_apply, Function.comp_apply, Line.location_lower,
    Line.location_lower]
  exact hab

theorem exists_line (h : LinesOn uri first next lines) {node : Node}
    (hnode : node ∈ (lowerAll uri lines).map Node.line) :
    node.Throughout Node.PartsInOrder ∧ node.location.span.OnRows first next := by
  rw [lowerAll_eq_map, List.map_map] at hnode
  obtain ⟨line, hline, rfl⟩ := List.mem_map.1 hnode
  have hplaced := h.placed line hline
  refine ⟨hplaced.inOrder, ?_⟩
  rw [Function.comp_apply, Line.location_lower]
  exact hplaced.onRows

end LinesOn

section Lines

variable (hregular : ∀ comment ∈ comments, comment.RegularComment)

include hregular

/-- A line is in order once its content is and the lines inside it stand behind its comment. -/
theorem Line.placed_of_content {line : Line} {start : LineStart} {content : Option Span}
    {comment : Option Token} (hmargin : line.margin = start.margin content comment)
    (hcomment : start.Takes comments comment)
    (hstart : start.Placed uri comments first next content.toList)
    (hcontent : ∀ node ∈ Node.ofContent (line.lower uri),
      (∃ span ∈ content, node.location = ⟨uri, span⟩) ∧ node.Throughout Node.PartsInOrder ∧
        ∀ c ∈ comment, ∀ inner, .line inner ∈ node.children ->
          c.span.stop ≤ inner.location.span.start) : line.Placed uri first next := by
  have hlower : (line.lower uri).margin = (start.margin content comment).lower uri := by
    rw [Line.margin_lower, hmargin]
  have hlabel : ∀ label ∈ (line.lower uri).margin.label,
      ∃ l ∈ start.label, label = toLabel uri l := by
    intro label hmem
    rw [hlower] at hmem
    obtain ⟨l, hl, rfl⟩ := Option.map_eq_some_iff.1 hmem
    exact ⟨l, hl, rfl⟩
  have hmark : ∀ mark ∈ (line.lower uri).margin.comment, ∃ c ∈ comment, c ∈ comments ∧
      start.onRow c ∧ mark.location.span.Inside c.span := by
    intro mark hmem
    rw [hlower] at hmem
    obtain ⟨c, hc, rfl⟩ := Option.map_eq_some_iff.1 hmem
    obtain ⟨hin, hrow⟩ := hcomment c hc
    exact ⟨c, hc, hin, hrow, (toComment_held uri (hregular c hin)).inside⟩
  refine ⟨Node.throughout_of_children ⟨?_, ?_, ?_, ?_⟩ ?_, ?_⟩
  · intro label hmem node hnode
    obtain ⟨l, hl, rfl⟩ := hlabel label hmem
    obtain ⟨⟨span, hspan, hlocation⟩, -, -⟩ := hcontent node hnode
    rw [Label.location_toLabel, hlocation]
    exact hstart.label_before l hl span (Option.mem_toList.2 hspan)
  · intro mark hmem label hlabelMem
    obtain ⟨l, hl, rfl⟩ := hlabel label hlabelMem
    obtain ⟨c, hc, hin, hrow, hinside⟩ := hmark mark hmem
    rw [Label.location_toLabel]
    exact (hstart.comment_label c hin hrow l hl).of_inside hinside
  · intro mark hmem node hnode
    obtain ⟨⟨span, hspan, hlocation⟩, -, -⟩ := hcontent node hnode
    obtain ⟨c, hc, hin, hrow, hinside⟩ := hmark mark hmem
    rw [hlocation]
    exact (hstart.comment_part c hin hrow span (Option.mem_toList.2 hspan)).of_inside hinside
  · intro mark hmem node hnode inner hinner
    obtain ⟨c, hc, -, -, hinside⟩ := hmark mark hmem
    exact Position.le_trans hinside.stop ((hcontent node hnode).2.2 c hc inner hinner)
  · intro child hchild
    simp only [Node.children, List.mem_append, Option.mem_toList, Option.map_eq_some_iff] at hchild
    rcases hchild with (⟨label, hmem, rfl⟩ | hnode) | ⟨mark, -, rfl⟩
    · obtain ⟨l, hl, rfl⟩ := hlabel label hmem
      exact hstart.label_inOrder l hl
    · exact (hcontent child hnode).2.1
    · exact Node.throughout_of_children .nil (by simp [Node.children])
  · have hspan : line.span = Span.coverOr (.empty ⟨start.number, 0⟩)
        ((start.label.map Label.span).toList ++ content.toList ++
          (comment.map Token.span).toList) := by
      unfold Line.span
      rw [hmargin]
      rfl
    rw [hspan]
    refine Span.coverOr_onRows ⟨hstart.number.1, hstart.number.2, Span.proper_empty _⟩ ?_
    intro part hmem
    simp only [List.mem_append, Option.mem_toList, Option.map_eq_some_iff] at hmem
    rcases hmem with (⟨label, hmem, rfl⟩ | hmem) | ⟨c, hc, rfl⟩
    · exact (hstart.label_onRows label hmem).1
    · exact hstart.parts_onRows part (Option.mem_toList.2 hmem)
    · exact hstart.comment_onRows c (hcomment c hc).1 (hcomment c hc).2

end Lines

/-! ## Blocks -/

/-- The row that opens a block with a value. -/
structure HeadPlaced (uri : Uri) (comments : List Token) (first next : Nat) (start : LineStart)
    (keyword : Token) (value : Option Expr) : Prop where
  start : start.Placed uri comments first next (keyword.span :: value.toList.map Expr.span)
  value_inOrder : ∀ e ∈ value, (Node.expression (e.lower uri)).Throughout Node.PartsInOrder
  value_held : ∀ e ∈ value, (Node.expression (e.lower uri)).Held uri e.span

section Blocks

variable (hregular : ∀ comment ∈ comments, comment.RegularComment)

include hregular

/-- A block with a value becomes a line in order when its lines and its end stand behind the row
that opens it. -/
theorem Line.placed_of_block {line : Line} {node : Node} {start : LineStart} {keyword : Token}
    {value : Option Expr} {comment : Option Token} {inner : List Line} {later : List Span}
    (hhead : HeadPlaced uri comments first middle start keyword value) (hnext : middle ≤ next)
    (hinner : LinesOn uri middle next inner) (hlater : ∀ span ∈ later, span.OnRows middle next)
    (hmargin : line.margin = start.margin
      (some ((value.toList.map Expr.span ++ later).foldl Span.union keyword.span)) comment)
    (hcomment : start.Takes comments comment)
    (hnode : Node.ofContent (line.lower uri) = some node)
    (hlocation : node.location =
      ⟨uri, (value.toList.map Expr.span ++ later).foldl Span.union keyword.span⟩)
    (hchildren : node.children = ((value.map (Expr.lower uri)).map Node.expression).toList ++
      (lowerAll uri inner).map Node.line)
    (hparts : node.children.Pairwise Node.Before -> node.PartsInOrder) :
    line.Placed uri first next := by
  have hvalue : ∀ child ∈ ((value.map (Expr.lower uri)).map Node.expression).toList,
      child.Throughout Node.PartsInOrder ∧ child.location.span.OnRows first middle ∧
        child.kind = .expression := by
    intro child hchild
    simp only [Option.map_map, Option.mem_toList, Option.map_eq_some_iff,
      Function.comp_apply] at hchild
    obtain ⟨e, he, rfl⟩ := hchild
    have hheld := hhead.value_held e he
    obtain ⟨-, hproper, -, -⟩ := hheld.nested
    have honRows := hhead.start.parts_onRows e.span
      (List.mem_cons_of_mem _ (List.mem_map_of_mem (Option.mem_toList.2 he)))
    exact ⟨hhead.value_inOrder e he, honRows.of_inside hheld.inside hproper, rfl⟩
  refine Line.placed_of_content hregular hmargin hcomment (hhead.start.cover hnext hlater) ?_
  intro other hother
  rw [hnode] at hother
  cases hother
  refine ⟨⟨_, rfl, hlocation⟩, Node.throughout_of_children (hparts ?_) ?_, ?_⟩
  · rw [hchildren]
    refine List.pairwise_append.2 ⟨?_, hinner.nodes, ?_⟩
    · cases value with
      | none => exact .nil
      | some e => exact List.pairwise_singleton _ _
    · intro a ha b hb
      exact (hvalue a ha).2.1.stop_le (hinner.exists_line hb).2
  · rw [hchildren]
    refine List.forall_mem_append.2 ⟨fun child hchild => (hvalue child hchild).1, ?_⟩
    exact fun child hchild => (hinner.exists_line hchild).1
  · -- The comment is on the row of the keyword, and the lines inside are behind that row.
    intro c hc line hline
    rw [hchildren] at hline
    rcases List.mem_append.1 hline with hline | hline
    · have hkind := (hvalue _ hline).2.2
      cases hkind
    · obtain ⟨hmem, hrow⟩ := hcomment c hc
      exact (hhead.start.comment_onRows c hmem hrow).stop_le (hinner.exists_line hline).2

theorem Line.placed_of_macro {start : LineStart} {block : MacroBlock} {comment : Option Token}
    {span : Span} (hspan : block.span = span)
    (hstart : start.Placed uri comments first next [span])
    (hcomment : start.Takes comments comment) :
    (Line.macroBlock (start.margin (some span) comment) block).Placed uri first next := by
  subst hspan
  refine Line.placed_of_content hregular rfl hcomment hstart ?_
  intro node hnode
  cases hnode
  have hname : ∀ child ∈ (Node.macroBlock (block.lower uri)).children,
      ∃ identifier, child = .identifier identifier := by
    intro child hchild
    simp only [Node.children, Option.mem_toList, Option.map_eq_some_iff] at hchild
    obtain ⟨identifier, -, rfl⟩ := hchild
    exact ⟨identifier, rfl⟩
  refine ⟨⟨_, rfl, rfl⟩, Node.throughout_of_children ?_ ?_, ?_⟩
  · change (((block.lower uri).name.map Node.identifier).toList).Pairwise Node.Before
    cases (block.lower uri).name with
    | none => exact .nil
    | some name => exact List.pairwise_singleton _ _
  · intro child hchild
    obtain ⟨identifier, rfl⟩ := hname child hchild
    exact Node.identifier_inOrder identifier
  · intro c _ line hline
    obtain ⟨identifier, heq⟩ := hname _ hline
    cases heq

theorem Row.command_placed {row : Row} (h : row.OnRows comments first next)
    {content : Option Command} (hread : row.read.2.1 = .command content) {comment : Option Token}
    (hcomment : row.start.Takes comments comment) :
    (Line.command (row.start.margin (content.map Command.span) comment) content).Placed uri first
      next := by
  have hstart := Row.placed uri h
  have ht : InOrder row.tokens := h.arranged.order.sublist (List.sublist_append_left _ _)
  have hmade := row.read_spec.2.madeOf
  obtain ⟨taken, htaken, hsegments⟩ := row.segments ht
  have hordered := (List.pairwise_append.1 (hsegments.pairwise (ht.sublist htaken))).2.1
  rw [hread] at hstart hmade hordered
  cases content with
  | none =>
      exact Line.placed_of_content hregular rfl hcomment (hstart.subset (List.nil_subset _))
        (by simp [Line.lower, Node.ofContent])
  | some command =>
      refine Line.placed_of_content hregular rfl hcomment ?_ ?_
      · change LineStart.Placed _ _ _ _ _ [command.span]
        rw [Row.command_span hread]
        exact hstart.coverOr
      · intro node hnode
        cases hnode
        refine ⟨⟨_, rfl, rfl⟩, (hmade command rfl).inOrder uri ht hordered, ?_⟩
        intro c _ line hline
        simp [Node.children] at hline

omit hregular in
theorem Row.headPlaced {row : Row} (h : row.OnRows comments first next) {keyword : Token}
    {value : Option Expr} {content : Content} (hread : row.read.2.1 = content)
    (hspans : content.spans = keyword.span :: value.toList.map Expr.span)
    (hvalue : content.MadeOf row.tokens -> ∀ e ∈ value, e.MadeOf row.tokens) :
    HeadPlaced uri comments first next row.start keyword value := by
  have hstart := Row.placed uri h
  have ht : InOrder row.tokens := h.arranged.order.sublist (List.sublist_append_left _ _)
  have hmade := row.read_spec.2.madeOf
  rw [hread] at hstart hmade
  rw [hspans] at hstart
  exact ⟨hstart.subset (List.subset_append_left _ _),
    fun e he => (hvalue hmade e he).inOrder uri ht, fun e he => (hvalue hmade e he).held uri ht⟩

omit hregular in
theorem RowsOn.word_onRows {last : Option EndRow}
    (h : RowsOn comments first next ((closing last).map Role.row)) :
    ∀ span ∈ (word last).toList.map Token.span, span.OnRows first next := by
  intro span hspan
  obtain ⟨token, htoken, rfl⟩ := List.mem_map.1 hspan
  obtain ⟨ending, hending, rfl⟩ := Option.map_eq_some_iff.1 (Option.mem_toList.1 htoken)
  refine h.onRows ending.row (by simp [closing, Option.mem_def.1 hending, Role.row]) _ ?_
  exact List.mem_append_left _ (Row.head?_subset ending.head List.mem_cons_self)

theorem Built.linesOn {source : List (List Char)} {roles : List Role} {lines : List Line}
    {bodies : List (Nat × Nat)} {unclosed : List ParseError}
    (h : Built comments source roles lines bodies unclosed)
    (hrows : RowsOn comments first next (roles.map Role.row)) : LinesOn uri first next lines := by
  -- A line stands behind the lines before it once its own rows do.
  have hline {first middle inside next : Nat} {lines : List Line} {line : Line}
      {before rest : List Row} {row : Row} (hbefore : RowsOn comments first middle before)
      (hrow : row.OnRows comments middle inside) (hrest : RowsOn comments inside next rest)
      (hlines : LinesOn uri first middle lines) (hplaced : line.Placed uri middle next) :
      LinesOn uri first next (lines ++ [line]) :=
    hlines.append (.single hplaced) hbefore.le (Nat.le_trans (Nat.le_of_lt hrow.lt) hrest.le)
  induction h generalizing first next with
  | nil => exact .nil
  | command _ hread hcomment ih =>
      rw [List.map_append, List.map_singleton] at hrows
      obtain ⟨middle, inside, hbefore, hrow, hrest⟩ := hrows.exists_of_append_cons
      refine hline hbefore hrow hrest (ih hbefore) ?_
      exact (Row.command_placed hregular hrow hread hcomment).mono (Nat.le_refl _) hrest.le
  | macroBlock passed last _ hread hcomment _ _ hspan _ _ ih =>
      simp only [List.map_append, List.map_cons, List.cons_append] at hrows
      obtain ⟨middle, inside, hbefore, hrow, hrest⟩ := hrows.exists_of_append_cons
      obtain ⟨stop, hpassed, hlast, -⟩ := hrest.exists_of_append
      refine hline hbefore hrow hrest (ih hbefore) (Line.placed_of_macro hregular rfl ?_ hcomment)
      have hstart := Row.placed uri hrow
      rw [show (Role.read _).row.read.2.1 = _ from hread] at hstart
      rw [hspan, List.append_assoc]
      refine (hstart.subset (List.subset_append_left _ _)).cover hrest.le
        (List.forall_mem_append.2 ⟨fun span hmem => ?_, fun span hmem => ?_⟩)
      · obtain ⟨row, hgetLast, rfl⟩ := Option.map_eq_some_iff.1 (Option.mem_toList.1 hmem)
        obtain ⟨token, htoken, hspan⟩ := row.exists_lastSpan (by simp)
          (List.subset_append_left row.tokens [row.stop])
        rw [hspan]
        refine (hpassed.onRows row ?_ token htoken).mono (Nat.le_refl _) hlast.le
        simpa [Role.row] using List.mem_of_mem_getLast? hgetLast
      · exact (hlast.word_onRows span hmem).mono hpassed.le (Nat.le_refl _)
  | conditional divider last _ hread hcomment _ _ _ _ _ _ _ hspan ih ihthen ihelse =>
      simp only [List.map_append, List.map_cons, List.cons_append, List.append_assoc] at hrows
      obtain ⟨middle, inside, hbefore, hrow, hrest⟩ := hrows.exists_of_append_cons
      obtain ⟨a, hthen, hbehind, -⟩ := hrest.exists_of_append
      obtain ⟨b, hdivider, hsecond, -⟩ := hbehind.exists_of_append
      obtain ⟨c, helse, hlast, -⟩ := hsecond.exists_of_append
      refine hline hbefore hrow hrest (ih hbefore) ?_
      have hboth := (ihthen hthen).append ((ihelse helse).mono hdivider.le hlast.le) hthen.le
        hbehind.le
      have hend : ∀ span ∈ ((word last).or (word divider)).toList.map Token.span,
          span.OnRows inside next := by
        intro span hmem
        cases last with
        | none => exact (hdivider.word_onRows span hmem).mono hthen.le hsecond.le
        | some ending =>
            refine (hlast.word_onRows span hmem).mono ?_ (Nat.le_refl _)
            exact Nat.le_trans hthen.le (Nat.le_trans hdivider.le helse.le)
      subst hspan
      simp only [List.append_assoc]
      refine Line.placed_of_block hregular (Row.headPlaced hrow hread rfl fun hmade => hmade.2)
        hrest.le hboth ?_ rfl hcomment rfl rfl ?_ id
      · rw [← List.append_assoc, ← List.map_append]
        exact List.forall_mem_append.2 ⟨hboth.spans, hend⟩
      · simp [Node.children, lowerAll_eq_map]
  | repetition last _ hread hcomment _ _ _ hspan ih ihbody =>
      simp only [List.map_append, List.map_cons, List.cons_append] at hrows
      obtain ⟨middle, inside, hbefore, hrow, hrest⟩ := hrows.exists_of_append_cons
      obtain ⟨stop, hbody, hlast, -⟩ := hrest.exists_of_append
      refine hline hbefore hrow hrest (ih hbefore) ?_
      have hinner := (ihbody hbody).mono (Nat.le_refl _) hlast.le
      subst hspan
      simp only [List.append_assoc]
      refine Line.placed_of_block hregular (Row.headPlaced hrow hread rfl fun hmade => hmade.2)
        hrest.le hinner (List.forall_mem_append.2 ⟨hinner.spans, ?_⟩) rfl hcomment rfl rfl rfl id
      exact fun span hmem => (hlast.word_onRows span hmem).mono hbody.le (Nat.le_refl _)

end Blocks

end Concrete

/-! ## Documents -/

theorem ConcreteFile.linesOn (text : String) (uri : Uri) :
    ∃ first next, Concrete.LinesOn uri first next
      (ofTokens (tokenize text).tokens (tokenize text).comments text).lines := by
  obtain ⟨roles, unclosed, hroles, hbuilt, -⟩ :=
    ofTokens_built (tokenize text).tokens (tokenize text).comments text
  obtain ⟨next, hrows⟩ := Concrete.tokenize_rowsOn text
  rw [← hroles] at hrows
  exact ⟨0, next, hbuilt.linesOn (tokenize_regular text).2 hrows⟩

theorem Document.file_inOrder (text : String) (uri : Uri) :
    (Node.file (ofText text uri).file).Throughout Node.PartsInOrder := by
  obtain ⟨first, next, hlines⟩ := ConcreteFile.linesOn text uri
  exact Node.throughout_of_children hlines.nodes fun child hchild => (hlines.exists_line hchild).1

end Asm6502
