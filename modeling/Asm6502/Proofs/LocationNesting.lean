import Asm6502.Node
import Asm6502.Proofs.SpanOrder

/-!
# Locations nest

Every node of a document that was read lies inside the node that it is a part of, in the same
document.  Going down from the file to a part that contains a position therefore never passes by the
innermost one.
-/

namespace Asm6502

namespace Node

/-- A node with a proper span in a document, whose parts lie inside it, and their parts in them. -/
inductive Nested (uri : Uri) : Node -> Prop where
  | intro {node : Node} (uri_eq : node.location.uri = uri) (proper : node.location.span.Proper)
      (children : ∀ child ∈ node.children, Nested uri child)
      (inside : ∀ child ∈ node.children, child.location.span.Inside node.location.span) :
      Nested uri node

structure Held (uri : Uri) (outer : Span) (node : Node) : Prop where
  nested : node.Nested uri
  inside : node.location.span.Inside outer

variable {node : Node}

theorem Held.mono {uri : Uri} {inner outer : Span} (h : node.Held uri inner)
    (hinside : inner.Inside outer) : node.Held uri outer :=
  ⟨h.nested, h.inside.trans hinside⟩

theorem nested_of_held {uri : Uri} {span : Span} (hnode : node.location = ⟨uri, span⟩)
    (hproper : span.Proper) (h : ∀ child ∈ node.children, child.Held uri span) :
    node.Nested uri := by
  refine .intro ?_ ?_ (fun child hchild => (h child hchild).nested) ?_
  · rw [hnode]
  · rw [hnode]
    exact hproper
  · intro child hchild
    rw [hnode]
    exact (h child hchild).inside

theorem held_of_children {uri : Uri} {span outer : Span} (hnode : node.location = ⟨uri, span⟩)
    (hproper : span.Proper) (hinside : span.Inside outer)
    (h : ∀ child ∈ node.children, child.Held uri span) : node.Held uri outer := by
  refine ⟨nested_of_held hnode hproper h, ?_⟩
  rw [hnode]
  exact hinside

/-- The nodes that are reached by going from a node to its parts again and again. -/
inductive Reaches (node : Node) : Node -> Prop where
  | refl : Reaches node node
  | step {parent child : Node} (h : Reaches node parent) (hchild : child ∈ parent.children) :
      Reaches node child

theorem Nested.of_reaches {uri : Uri} {other : Node} (h : node.Nested uri)
    (hreaches : node.Reaches other) : other.Nested uri := by
  induction hreaches with
  | refl => exact h
  | step _ hchild ih =>
      obtain ⟨-, -, hchildren, -⟩ := ih
      exact hchildren _ hchild

end Node

namespace Concrete

variable (uri : Uri)

/-! ## Names and expressions -/

variable {outer : Span} {fragments : List Token}

theorem toIdentifier_held {token : Token} (hproper : token.span.Proper)
    (hinside : token.span.Inside outer) :
    (Node.identifier (toIdentifier uri token)).Held uri outer :=
  Node.held_of_children rfl hproper hinside (by simp [Node.children])

/-- Fragments in order make a name that holds each of them. -/
theorem toDynamicLabel_held (h : InOrder fragments) :
    ∀ child ∈ (toDynamicLabel uri fragments).fragments.map Node.identifier,
      child.Held uri (toDynamicLabel uri fragments).location.span := by
  intro child hchild
  simp only [toDynamicLabel, List.map_map, List.mem_map, Function.comp_apply] at hchild
  obtain ⟨fragment, hmem, rfl⟩ := hchild
  exact toIdentifier_held uri (h.proper fragment hmem)
    (Span.inside_coverOr (List.mem_map_of_mem hmem) .origin)

theorem toDynamicLabel_proper (h : InOrder fragments) :
    (toDynamicLabel uri fragments).location.span.Proper := by
  refine Span.coverOr_proper (Span.proper_empty _) fun part hpart => ?_
  obtain ⟨fragment, hmem, rfl⟩ := List.mem_map.1 hpart
  exact h.proper fragment hmem

theorem toDynamicLabel_inside (hne : fragments ≠ [])
    (h : ∀ fragment ∈ fragments, fragment.span.Inside outer) :
    (toDynamicLabel uri fragments).location.span.Inside outer := by
  refine Span.coverOr_inside (by simpa using hne) (fun part hpart => ?_) .origin
  obtain ⟨fragment, hmem, rfl⟩ := List.mem_map.1 hpart
  exact h fragment hmem

theorem ofAtom_held {token : Token} (hproper : token.span.Proper) :
    (Node.expression (ofAtom uri token)).Held uri token.span := by
  have hleaf : (ofAtom uri token).location = ⟨uri, token.span⟩ ∧
      (Node.expression (ofAtom uri token)).children = [] := by
    unfold ofAtom
    dsimp only
    split
    · exact ⟨rfl, rfl⟩
    · split
      · exact ⟨rfl, rfl⟩
      · split <;> exact ⟨rfl, rfl⟩
  refine Node.held_of_children hleaf.1 hproper (.refl _) ?_
  rw [hleaf.2]
  simp

/-- One fragment names a label by itself, several make a dynamic one. -/
theorem lower_label_held (hne : fragments ≠ []) (h : InOrder fragments)
    (hinside : ∀ fragment ∈ fragments, fragment.span.Inside outer) :
    (Node.expression ((Expr.label fragments).lower uri)).Held uri outer := by
  cases fragments with
  | nil => exact absurd rfl hne
  | cons first rest =>
      cases rest with
      | nil =>
          exact Node.held_of_children rfl (h.proper first List.mem_cons_self)
            (hinside first List.mem_cons_self) (by simp [Expr.lower, Node.children, Expr.children])
      | cons second rest =>
          exact Node.held_of_children rfl (toDynamicLabel_proper uri h)
            (toDynamicLabel_inside uri hne hinside) (toDynamicLabel_held uri h)

theorem brackets_held {opening closing : Token} {inner : Expr} {inside : List Token}
    {kind : BracketKind} (hinner : inner.Spells inside)
    (ht : InOrder (opening :: inside ++ [closing]))
    (h : (Node.expression (inner.lower uri)).Held uri inner.span) :
    (Node.expression (.brackets kind (inner.lower uri)
      ⟨uri, opening.span.union closing.span⟩)).Held uri (opening.span.union closing.span) := by
  have hsub : inside.Sublist (opening :: inside ++ [closing]) :=
    (List.sublist_append_left inside [closing]).cons opening
  have htight : Tight (opening :: inside ++ [closing]) (opening.span.union closing.span) :=
    Tight.union (.single opening) (.single closing) ht
  have hspan := (hinner.tight (ht.sublist hsub)).inside_of_sublist htight hsub
  refine Node.held_of_children rfl (htight.proper ht) (.refl _) ?_
  intro child hchild
  rw [show child = .expression (inner.lower uri) from List.mem_singleton.1 hchild]
  exact h.mono hspan

theorem Expr.Spells.held {e : Expr} {tokens : List Token} (h : e.Spells tokens)
    (ht : InOrder tokens) : (Node.expression (e.lower uri)).Held uri e.span := by
  have htight := h.tight ht
  induction h with
  | @atom token _ => exact ofAtom_held uri (ht.proper token List.mem_cons_self)
  | @label first others tokens _ hjoined =>
      have hsub : (first :: others).Sublist (first :: tokens) := hjoined.sublist.cons_cons first
      exact lower_label_held uri (List.cons_ne_nil first others) (ht.sublist hsub)
        fun fragment hmem => htight.inside fragment (hsub.subset hmem)
  | @macroArgument opening number closing =>
      exact Node.held_of_children rfl (htight.proper ht) (.refl _)
        (by simp [Expr.lower, Node.children, Expr.children])
  | @unary operator operand tokens hoperand ih =>
      have hsub : tokens.Sublist (operator :: tokens) := List.sublist_cons_self operator tokens
      have hinner := hoperand.tight (ht.sublist hsub)
      have hheld := (ih (ht.sublist hsub) hinner).mono (hinner.inside_of_sublist htight hsub)
      simp only [Expr.lower]
      split
      · refine Node.held_of_children rfl (htight.proper ht) (.refl _) ?_
        intro child hchild
        rw [show child = .expression (operand.lower uri) from List.mem_singleton.1 hchild]
        exact hheld
      · exact hheld
  | @binary left right operator front back hl hr ihleft ihright =>
      have hfront : front.Sublist (front ++ operator :: back) := List.sublist_append_left front _
      have hback : back.Sublist (front ++ operator :: back) :=
        (List.sublist_cons_self operator back).trans (List.sublist_append_right front _)
      have hleft := hl.tight (ht.sublist hfront)
      have hright := hr.tight (ht.sublist hback)
      have hheldLeft := (ihleft (ht.sublist hfront) hleft).mono
        (hleft.inside_of_sublist htight hfront)
      have hheldRight := (ihright (ht.sublist hback) hright).mono
        (hright.inside_of_sublist htight hback)
      simp only [Expr.lower]
      split
      · refine Node.held_of_children rfl (htight.proper ht) (.refl _) ?_
        intro child hchild
        have hchild : child = .expression (left.lower uri) ∨
            child = .expression (right.lower uri) := by
          simpa [Node.children, Expr.children] using hchild
        rcases hchild with rfl | rfl
        · exact hheldLeft
        · exact hheldRight
      · exact hheldLeft
  | @round opening closing inner tokens _ hinner _ ih =>
      have hsub : tokens.Sublist (opening :: tokens ++ [closing]) :=
        (List.sublist_append_left tokens [closing]).cons opening
      exact brackets_held uri hinner ht (ih (ht.sublist hsub) (hinner.tight (ht.sublist hsub)))
  | @square opening closing inner tokens _ hinner _ ih =>
      have hsub : tokens.Sublist (opening :: tokens ++ [closing]) :=
        (List.sublist_append_left tokens [closing]).cons opening
      exact brackets_held uri hinner ht (ih (ht.sublist hsub) (hinner.tight (ht.sublist hsub)))

/-! ## Arguments, commands and labels -/

section

variable {tokens comments : List Token} (ht : InOrder tokens)

include ht

theorem Expr.MadeOf.held {e : Expr} (h : e.MadeOf tokens) :
    (Node.expression (e.lower uri)).Held uri e.span := by
  obtain ⟨taken, hsub, hspells⟩ := h
  exact hspells.held uri (ht.sublist hsub)

theorem Argument.MadeOf.held {argument : Argument} (h : argument.MadeOf tokens) :
    (Node.argument (argument.lower uri)).Held uri argument.span := by
  obtain ⟨taken, hsub, hspells⟩ := h
  have htaken := ht.sublist hsub
  have htight := hspells.tight htaken
  obtain ⟨part, hpart, hvalue⟩ := hspells.value
  have hinside := (hvalue.tight (htaken.sublist hpart)).inside_of_sublist htight hpart
  refine Node.held_of_children rfl (htight.proper htaken) (.refl _) ?_
  intro child hchild
  rw [show child = .expression (argument.value.lower uri) from List.mem_singleton.1 hchild]
  exact (hvalue.held uri (htaken.sublist hpart)).mono hinside

theorem Command.MadeOf.held {command : Command} (h : command.MadeOf tokens) :
    (Node.command (command.lower uri)).Held uri command.span := by
  obtain ⟨stop, hspan⟩ := h.span
  have hpart {part : Span} (hmem : part ∈ command.name.toList.map Token.span ++
      command.extension.toList.map Token.span ++ command.arguments.map Argument.span) :
      part.Inside command.span := by
    rw [hspan]
    exact Span.inside_coverOr hmem _
  have hargument : ∀ argument ∈ command.arguments,
      (Node.argument (argument.lower uri)).Held uri argument.span :=
    fun argument hmem => (h.arguments argument hmem).held uri ht
  have hproper : command.span.Proper := by
    rw [hspan]
    refine Span.coverOr_proper (Span.proper_empty _) ?_
    intro part hmem
    rcases List.mem_append.1 hmem with hmem | hmem
    · have htoken : ∃ token ∈ tokens, token.span = part := by
        rcases List.mem_append.1 hmem with hmem | hmem
        · obtain ⟨token, htoken, rfl⟩ := List.mem_map.1 hmem
          exact ⟨token, h.name token (by simpa using htoken), rfl⟩
        · obtain ⟨token, htoken, rfl⟩ := List.mem_map.1 hmem
          exact ⟨token, h.extension token (by simpa using htoken), rfl⟩
      obtain ⟨token, htoken, rfl⟩ := htoken
      exact ht.proper token htoken
    · obtain ⟨argument, hargument', rfl⟩ := List.mem_map.1 hmem
      obtain ⟨-, hproper, -, -⟩ := (hargument argument hargument').nested
      exact hproper
  refine Node.held_of_children rfl hproper (.refl _) ?_
  intro child hchild
  simp only [Node.children, Command.lower, List.mem_append, Option.mem_toList,
    Option.map_eq_some_iff, List.mem_map] at hchild
  rcases hchild with ⟨_, ⟨name, hname, rfl⟩, rfl⟩ | ⟨_, ⟨argument, hmem, rfl⟩, rfl⟩
  · refine toIdentifier_held uri (ht.proper name (h.name name hname)) (hpart ?_)
    simp [hname]
  · refine (hargument argument hmem).mono (hpart ?_)
    exact List.mem_append_right _ (List.mem_map_of_mem hmem)

theorem Label.MadeOf.held {label : Label} (hregular : ∀ token ∈ tokens, token.Regular)
    (h : label.MadeOf tokens) : (Node.label (toLabel uri label)).Held uri label.span := by
  have horder := h.fragments_inOrder ht hregular
  have hnamed := (Tight.ends horder).inside
  have hspan : (label.first.span.union (label.others.getLastD label.first).span).Inside
      label.span := by
    unfold Label.span
    dsimp only
    split
    · exact Span.inside_union_left _ _
    · exact .refl _
  have hinside : ∀ fragment ∈ label.fragments, fragment.span.Inside label.span :=
    fun fragment hmem => (hnamed fragment hmem).trans hspan
  have hfirst : label.first ∈ label.fragments := List.mem_cons_self
  unfold toLabel
  split
  · refine Node.held_of_children rfl (horder.proper _ hfirst) (hinside _ hfirst) ?_
    intro child hchild
    rw [show child = .identifier (toIdentifier uri label.first) from List.mem_singleton.1 hchild]
    exact toIdentifier_held uri (horder.proper _ hfirst) (.refl _)
  · exact Node.held_of_children rfl (toDynamicLabel_proper uri horder)
      (toDynamicLabel_inside uri (List.cons_ne_nil _ _) hinside) (toDynamicLabel_held uri horder)

end

/-! ## Comments -/

theorem length_trim_le (text : List Char) :
    (text.takeWhile isBlank).length + (trim text).length ≤ text.length := by
  have hright : (trim text).length ≤ (text.dropWhile isBlank).length := by
    unfold trim trimRight
    rw [List.length_reverse]
    have hlength := (List.dropWhile_suffix isBlank
      (l := (text.dropWhile isBlank).reverse)).length_le
    rwa [List.length_reverse] at hlength
  have hsplit :
      (text.takeWhile isBlank).length + (text.dropWhile isBlank).length = text.length := by
    rw [← List.length_append, List.takeWhile_append_dropWhile]
  omega

theorem toComment_held {comment : Token} (h : comment.RegularComment) :
    (Node.comment (toComment uri comment)).Held uri comment.span := by
  have hleaf (c : Comment) :
      ∀ child ∈ (Node.comment c).children, child.Held uri c.location.span := by
    simp [Node.children]
  unfold toComment
  split
  · next rest hliteral =>
    -- The text of the comment stands behind its mark and the blanks after it, on the same row.
    have hstop := h.onRow (by rw [hliteral]; rfl)
    have hlength := length_trim_le rest
    rw [hliteral, List.length_cons] at hstop
    refine Node.held_of_children rfl ?_ ⟨?_, ?_⟩ (hleaf _)
    · exact Position.le_iff.2 (.inr ⟨rfl, Nat.le_add_right _ _⟩)
    · refine Position.le_iff.2 (.inr ⟨rfl, ?_⟩)
      dsimp only
      omega
    · rw [hstop]
      refine Position.le_iff.2 (.inr ⟨rfl, ?_⟩)
      dsimp only
      omega
  · exact Node.held_of_children rfl h.proper (.refl _) (hleaf _)

/-! ## Lines -/

theorem Line.location_lower (line : Line) :
    (Node.line (line.lower uri)).location = ⟨uri, line.span⟩ := by
  change (line.lower uri).margin.location = _
  rw [Line.margin_lower]
  rfl

theorem foldl_union_spec {keyword : Token} {parts : List Span} {span : Span}
    (h : span = parts.foldl Span.union keyword.span) (hkeyword : keyword.span.Proper) :
    span.Proper ∧ ∀ part ∈ parts, part.Inside span := by
  obtain ⟨hbase, hparts⟩ := Span.inside_foldl_union parts keyword.span
  exact h ▸ ⟨hkeyword.of_inside hbase, hparts⟩

theorem lowerAll_held {lines : List Line} {outer : Span}
    (h : ∀ line ∈ lines, (Node.line (line.lower uri)).Nested uri)
    (hinside : ∀ line ∈ lines, line.span.Inside outer) :
    ∀ child ∈ (lowerAll uri lines).map Node.line, child.Held uri outer := by
  intro child hchild
  rw [lowerAll_eq_map, List.map_map] at hchild
  obtain ⟨line, hmem, rfl⟩ := List.mem_map.1 hchild
  refine ⟨h line hmem, ?_⟩
  rw [Function.comp_apply, Line.location_lower]
  exact hinside line hmem

theorem condition_held {tokens : List Token} (ht : InOrder tokens) {condition : Option Expr}
    {outer : Span} (hmade : ∀ e ∈ condition, e.MadeOf tokens)
    (hinside : ∀ e ∈ condition, e.span.Inside outer) :
    ∀ child ∈ ((condition.map (Expr.lower uri)).map Node.expression).toList,
      child.Held uri outer := by
  intro child hchild
  simp only [Option.map_map, Option.mem_toList, Option.map_eq_some_iff,
    Function.comp_apply] at hchild
  obtain ⟨e, he, rfl⟩ := hchild
  exact ((hmade e he).held uri ht).mono (hinside e he)

section

variable {tokens comments : List Token} (ht : InOrder tokens)
  (hregular : ∀ token ∈ tokens, token.Regular)
  (hcomments : ∀ comment ∈ comments, comment.RegularComment)

include ht hregular hcomments

theorem Line.nested_of_content {line : Line} {row : Row} {content : Option Span}
    {comment : Option Token} (hrow : row ∈ rows tokens)
    (hcomment : row.start.Takes comments comment)
    (hmargin : line.margin = row.start.margin content comment)
    (hcontent : ∀ node ∈ Node.ofContent (line.lower uri), ∃ span ∈ content, node.Held uri span)
    (hproper : ∀ span ∈ content, span.Proper) : (Node.line (line.lower uri)).Nested uri := by
  have hspan : line.span = Span.coverOr (.empty ⟨row.number, 0⟩)
      ((row.start.label.map Label.span).toList ++ content.toList ++
        (comment.map Token.span).toList) := by
    unfold Line.span
    rw [hmargin]
    rfl
  have hheldLabel : ∀ label ∈ row.start.label,
      (Node.label (toLabel uri label)).Held uri label.span :=
    fun label hmem => ((Row.madeOf_of_mem_rows hrow).1 label hmem).held uri ht hregular
  have hpart {part : Span} (hmem : part ∈ (row.start.label.map Label.span).toList ++
      content.toList ++ (comment.map Token.span).toList) : part.Inside line.span := by
    rw [hspan]
    exact Span.inside_coverOr hmem _
  refine Node.nested_of_held (Line.location_lower uri line) ?_ ?_
  · rw [hspan]
    refine Span.coverOr_proper (Span.proper_empty _) ?_
    intro part hmem
    simp only [List.mem_append, Option.mem_toList, Option.map_eq_some_iff] at hmem
    rcases hmem with (⟨label, hmem, rfl⟩ | hmem) | ⟨c, hc, rfl⟩
    · obtain ⟨hnested, hinside⟩ := hheldLabel label hmem
      obtain ⟨-, hproper, -, -⟩ := hnested
      exact hproper.of_inside hinside
    · exact hproper part hmem
    · exact (hcomments c (hcomment c hc).1).proper
  · intro child hchild
    simp only [Node.children, Line.margin_lower, hmargin, Margin.lower, LineStart.margin,
      Option.map_map, List.mem_append, Option.mem_toList, Option.map_eq_some_iff,
      Function.comp_apply] at hchild
    rcases hchild with (⟨label, hmem, rfl⟩ | hmem) | ⟨c, hc, rfl⟩
    · refine (hheldLabel label hmem).mono (hpart ?_)
      simp [hmem]
    · obtain ⟨span, hmem, hheld⟩ := hcontent child hmem
      refine hheld.mono (hpart ?_)
      exact List.mem_append_left _ (List.mem_append_right _ (Option.mem_toList.2 hmem))
    · refine (toComment_held uri (hcomments c (hcomment c hc).1)).mono (hpart ?_)
      simp [hc]

theorem Line.nested_of_block {line : Line} {row : Row} {node : Node} {span : Span}
    {comment : Option Token} (hrow : row ∈ rows tokens)
    (hcomment : row.start.Takes comments comment)
    (hmargin : line.margin = row.start.margin (some span) comment)
    (hnode : Node.ofContent (line.lower uri) = some node) (hlocation : node.location = ⟨uri, span⟩)
    (hproper : span.Proper) (hchildren : ∀ child ∈ node.children, child.Held uri span) :
    (Node.line (line.lower uri)).Nested uri := by
  have hheld : node.Held uri span := Node.held_of_children hlocation hproper (.refl _) hchildren
  refine Line.nested_of_content uri ht hregular hcomments hrow hcomment hmargin ?_ ?_
  · intro other hother
    rw [hnode] at hother
    cases hother
    exact ⟨span, rfl, hheld⟩
  · intro other hother
    cases hother
    exact hproper

theorem Line.From.nested {line : Line}
    (h : line.From (fun role => role.row ∈ rows tokens) comments) :
    (Node.line (line.lower uri)).Nested uri := by
  have hmade {row : Row} {content : Content} (hrow : row ∈ rows tokens)
      (hread : row.read.2.1 = content) : content.MadeOf tokens :=
    hread ▸ (Row.madeOf_of_mem_rows hrow).2
  induction h with
  | @command row content _ hrow hread hcomment =>
      have hheld : ∀ c ∈ content, (Node.command (c.lower uri)).Held uri c.span :=
        fun c hc => (hmade hrow hread c hc).held uri ht
      refine Line.nested_of_content uri ht hregular hcomments hrow hcomment rfl ?_ ?_
      · intro node hnode
        simp only [Line.lower, Node.ofContent, Option.map_map, Option.mem_def,
          Option.map_eq_some_iff, Function.comp_apply] at hnode
        obtain ⟨c, hc, rfl⟩ := hnode
        exact ⟨c.span, by simp [hc], hheld c hc⟩
      · intro span hspan
        obtain ⟨c, hc, rfl⟩ := Option.map_eq_some_iff.1 hspan
        obtain ⟨-, hproper, -, -⟩ := (hheld c hc).nested
        exact hproper
  | macroBlock _ hrow hread hcomment _ _ hspan =>
      obtain ⟨hkeyword, hname⟩ := hmade hrow hread
      obtain ⟨hproper, hparts⟩ := foldl_union_spec hspan (ht.proper _ hkeyword)
      refine Line.nested_of_block uri ht hregular hcomments hrow hcomment rfl rfl rfl hproper ?_
      intro child hchild
      simp only [Node.children, MacroBlock.lower, Option.map_map, Option.mem_toList,
        Option.map_eq_some_iff, Function.comp_apply] at hchild
      obtain ⟨name, hmem, rfl⟩ := hchild
      refine toIdentifier_held uri (ht.proper name (hname name hmem)) (hparts _ ?_)
      simp [hmem]
  | conditional hrow hread hcomment _ _ _ _ hspan ihthen ihelse =>
      obtain ⟨hkeyword, hcondition⟩ := hmade hrow hread
      obtain ⟨hproper, hparts⟩ := foldl_union_spec hspan (ht.proper _ hkeyword)
      simp only [List.mem_append, List.mem_map, Option.mem_toList] at hparts
      refine Line.nested_of_block uri ht hregular hcomments hrow hcomment rfl rfl rfl hproper ?_
      intro child hchild
      rcases List.mem_append.1 hchild with hchild | hchild
      · rcases List.mem_append.1 hchild with hchild | hchild
        · exact condition_held uri ht hcondition
            (fun e he => hparts _ (.inl (.inl (.inl ⟨e, he, rfl⟩)))) child hchild
        · exact lowerAll_held uri ihthen
            (fun l hl => hparts _ (.inl (.inl (.inr ⟨l, hl, rfl⟩)))) child hchild
      · exact lowerAll_held uri ihelse
          (fun l hl => hparts _ (.inl (.inr ⟨l, hl, rfl⟩))) child hchild
  | repetition hrow hread hcomment _ _ hspan ih =>
      obtain ⟨hkeyword, hcount⟩ := hmade hrow hread
      obtain ⟨hproper, hparts⟩ := foldl_union_spec hspan (ht.proper _ hkeyword)
      simp only [List.mem_append, List.mem_map, Option.mem_toList] at hparts
      refine Line.nested_of_block uri ht hregular hcomments hrow hcomment rfl rfl rfl hproper ?_
      intro child hchild
      rcases List.mem_append.1 hchild with hchild | hchild
      · exact condition_held uri ht hcount
          (fun e he => hparts _ (.inl (.inl ⟨e, he, rfl⟩))) child hchild
      · exact lowerAll_held uri ih (fun l hl => hparts _ (.inl (.inr ⟨l, hl, rfl⟩))) child hchild

end

end Concrete

/-! ## Files -/

theorem ConcreteFile.nested_lower (uri : Uri) {file : ConcreteFile}
    (h : ∀ line ∈ file.lines, (Node.line (line.lower uri)).Nested uri) :
    (Node.file (file.lower uri)).Nested uri := by
  have hproper : file.span.Proper := by
    refine Span.coverOr_proper (Span.proper_empty _) ?_
    intro part hpart
    obtain ⟨line, hmem, rfl⟩ := List.mem_map.1 hpart
    obtain ⟨-, hproper, -, -⟩ := h line hmem
    rwa [Concrete.Line.location_lower] at hproper
  refine Node.nested_of_held rfl hproper ?_
  intro child hchild
  simp only [Node.children, ConcreteFile.lower, Concrete.lowerAll_eq_map, List.map_map,
    List.mem_map, Function.comp_apply] at hchild
  obtain ⟨line, hmem, rfl⟩ := hchild
  refine ⟨h line hmem, ?_⟩
  rw [Concrete.Line.location_lower]
  have hpart : line.span ∈ file.lines.map Concrete.Line.span := List.mem_map_of_mem hmem
  exact Span.inside_coverOr hpart .origin

theorem Document.nested_file (text : String) (uri : Uri) :
    (Node.file (ofText text uri).file).Nested uri := by
  obtain ⟨hregular, hcomments⟩ := tokenize_regular text
  refine ConcreteFile.nested_lower uri fun line hline => ?_
  have hmade := ConcreteFile.ofTokens_from _ _ _ line hline
  exact hmade.nested uri (Concrete.tokenize_inOrder text) hregular hcomments

/-- Each part of a node of a document that was read stands in the same document, ends no earlier
than it starts, and lies inside the node, whatever was wrong with the text. -/
theorem Document.locations_nest (text : String) (uri : Uri) {node child : Node}
    (hnode : (Node.file (ofText text uri).file).Reaches node) (hchild : child ∈ node.children) :
    child.location.uri = node.location.uri ∧
      child.location.span.start ≤ child.location.span.stop ∧
      node.location.span.containsSpan child.location.span = true := by
  obtain ⟨huri, -, hchildren, hinside⟩ := (nested_file text uri).of_reaches hnode
  obtain ⟨hchildUri, hproper, -, -⟩ := hchildren child hchild
  exact ⟨hchildUri.trans huri.symm, hproper, Span.containsSpan_iff.2 (hinside child hchild)⟩

/-- In an unclosed block with an unclosed bracket, a name that is put together from an index ending
lies inside its label. -/
theorem Document.locations_nest_unclosed :
    ∃ label fragment : Node,
      (Node.file (ofText " IF 1\nn,X: LDA [a" default).file).Reaches label ∧
      label.kind = .label ∧ fragment ∈ label.children ∧
      fragment.location.uri = label.location.uri ∧
      fragment.location.span.start ≤ fragment.location.span.stop ∧
      label.location.span.containsSpan fragment.location.span = true := by
  have hpath : ∃ line ∈ (Node.file (ofText " IF 1\nn,X: LDA [a" default).file).children,
      ∃ block ∈ line.children, ∃ inner ∈ block.children, ∃ label ∈ inner.children,
        label.kind = .label ∧ label.children ≠ [] := by
    decide +kernel
  obtain ⟨line, hline, block, hblock, inner, hinner, label, hlabel, hkind, hfragments⟩ := hpath
  obtain ⟨fragment, hfragment⟩ := List.exists_mem_of_ne_nil _ hfragments
  have hreaches := (((Node.Reaches.refl.step hline).step hblock).step hinner).step hlabel
  exact ⟨label, fragment, hreaches, hkind, hfragment, locations_nest _ _ hreaches hfragment⟩

end Asm6502
