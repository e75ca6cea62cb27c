import Asm6502.Proofs.RowOrder

/-!
# Nodes in order

The parts of every node of a document stand one behind the other, with one exception: the comment of
a line can stand inside its label or inside its content.  No comment sticks out of a label or a
content, and the comment of a line with a block ends before the lines of the block start.
-/

namespace Asm6502

namespace Node

def Before (a b : Node) : Prop := a.location.span.stop ≤ b.location.span.start

end Node

/-- The label of a line ends before its content starts.  Neither of the two ends inside the comment,
and the lines inside the content start behind it. -/
structure Line.PartsInOrder (line : Line) : Prop where
  label : ∀ label ∈ line.margin.label, ∀ content ∈ Node.ofContent line,
    label.location.span.stop ≤ content.location.span.start
  commentLabel : ∀ comment ∈ line.margin.comment, ∀ label ∈ line.margin.label,
    comment.location.span.Avoids label.location.span
  commentContent : ∀ comment ∈ line.margin.comment, ∀ content ∈ Node.ofContent line,
    comment.location.span.Avoids content.location.span
  commentInner : ∀ comment ∈ line.margin.comment, ∀ content ∈ Node.ofContent line,
    ∀ inner, .line inner ∈ content.children ->
      comment.location.span.stop ≤ inner.location.span.start

namespace Node

/-- The parts of a node stand in order, as far as a line allows for it. -/
def PartsInOrder : Node -> Prop
  | .line node => node.PartsInOrder
  | node => node.children.Pairwise Before

theorem pairwise_before {nodes : List Node} : nodes.Pairwise Before ↔
    (nodes.map fun node => node.location.span).Pairwise fun a b => a.stop ≤ b.start := by
  rw [List.pairwise_map]
  rfl

/-- A property of a node and of all nodes inside it. -/
def Throughout (P : Node -> Prop) (node : Node) : Prop := ∀ other, node.Reaches other -> P other

theorem Reaches.cases {node other : Node} (h : node.Reaches other) :
    other = node ∨ ∃ child ∈ node.children, child.Reaches other := by
  induction h with
  | refl => exact .inl rfl
  | step _ hchild ih =>
      right
      rcases ih with rfl | ⟨first, hfirst, hreaches⟩
      · exact ⟨_, hchild, .refl⟩
      · exact ⟨first, hfirst, hreaches.step hchild⟩

theorem throughout_of_children {P : Node -> Prop} {node : Node} (h : P node)
    (hchildren : ∀ child ∈ node.children, child.Throughout P) : node.Throughout P := by
  intro other hreaches
  rcases hreaches.cases with rfl | ⟨child, hchild, hreaches⟩
  · exact h
  · exact hchildren child hchild other hreaches

theorem identifier_inOrder (identifier : Identifier) :
    (Node.identifier identifier).Throughout PartsInOrder :=
  throughout_of_children .nil (by simp [children])

end Node

namespace Concrete

variable (uri : Uri)

/-! ## Expressions -/

variable {tokens : List Token}

theorem toDynamicLabel_inOrder {fragments : List Token} (h : InOrder fragments) :
    ((toDynamicLabel uri fragments).fragments.map Node.identifier).Pairwise Node.Before := by
  rw [toDynamicLabel, List.map_map]
  exact List.pairwise_map.2 h.ordered

theorem identifiers_inOrder (identifiers : List Identifier) :
    ∀ child ∈ identifiers.map Node.identifier, child.Throughout Node.PartsInOrder := by
  intro child hchild
  obtain ⟨identifier, -, rfl⟩ := List.mem_map.1 hchild
  exact Node.identifier_inOrder identifier

theorem leaf_inOrder {e : Asm6502.Expr} (h : (Node.expression e).children = []) :
    (Node.expression e).Throughout Node.PartsInOrder := by
  refine Node.throughout_of_children ?_ (by simp [h])
  show (Node.expression e).children.Pairwise Node.Before
  rw [h]
  exact .nil

theorem wrapped_inOrder {e inner : Asm6502.Expr}
    (h : (Node.expression e).children = [.expression inner])
    (hinner : (Node.expression inner).Throughout Node.PartsInOrder) :
    (Node.expression e).Throughout Node.PartsInOrder := by
  refine Node.throughout_of_children ?_ (by simpa [h] using hinner)
  show (Node.expression e).children.Pairwise Node.Before
  rw [h]
  exact List.pairwise_singleton _ _

theorem ofAtom_inOrder (token : Token) :
    (Node.expression (ofAtom uri token)).Throughout Node.PartsInOrder := by
  refine leaf_inOrder ?_
  unfold ofAtom
  dsimp only
  split
  · rfl
  · split
    · rfl
    · split <;> rfl

theorem lower_label_inOrder {fragments : List Token} (h : InOrder fragments) :
    (Node.expression ((Expr.label fragments).lower uri)).Throughout Node.PartsInOrder := by
  match fragments, h with
  | [token], _ => exact leaf_inOrder rfl
  | [], h | _ :: _ :: _, h =>
      exact Node.throughout_of_children (toDynamicLabel_inOrder uri h) (identifiers_inOrder _)

theorem Expr.Spells.inOrder {e : Expr} (h : e.Spells tokens) (ht : InOrder tokens) :
    (Node.expression (e.lower uri)).Throughout Node.PartsInOrder := by
  induction h with
  | @atom token _ => exact ofAtom_inOrder uri token
  | @label first others tokens _ hjoined =>
      exact lower_label_inOrder uri (ht.sublist (hjoined.sublist.cons_cons first))
  | macroArgument => exact leaf_inOrder rfl
  | @unary operator operand tokens _ ih =>
      have hoperand := ih (ht.sublist (List.sublist_cons_self operator tokens))
      simp only [Expr.lower]
      split
      · exact wrapped_inOrder rfl hoperand
      · exact hoperand
  | @binary left right operator front back hl hr ihleft ihright =>
      have hfront : front.Sublist (front ++ operator :: back) := List.sublist_append_left front _
      have hback : back.Sublist (front ++ operator :: back) :=
        (List.sublist_cons_self operator back).trans (List.sublist_append_right front _)
      have hleft := ihleft (ht.sublist hfront)
      have hright := ihright (ht.sublist hback)
      simp only [Expr.lower]
      split
      · have hbefore : left.span.stop ≤ right.span.start := by
          refine (hl.tight (ht.sublist hfront)).stop_le (hr.tight (ht.sublist hback)) ?_
          refine ht.sublist ?_
          exact (List.Sublist.refl front).append (List.sublist_cons_self operator back)
        have hheldLeft := (hl.held uri (ht.sublist hfront)).inside
        have hheldRight := (hr.held uri (ht.sublist hback)).inside
        refine Node.throughout_of_children ?_ ?_
        · refine List.pairwise_pair.2 ?_
          exact Position.le_trans hheldLeft.stop (Position.le_trans hbefore hheldRight.start)
        · simpa [Node.children, Expr.children] using ⟨hleft, hright⟩
      · exact hleft
  | @round opening closing inner tokens _ _ _ ih =>
      have hsub : tokens.Sublist (opening :: tokens ++ [closing]) :=
        (List.sublist_append_left tokens [closing]).cons opening
      exact wrapped_inOrder rfl (ih (ht.sublist hsub))
  | @square opening closing inner tokens _ _ _ ih =>
      have hsub : tokens.Sublist (opening :: tokens ++ [closing]) :=
        (List.sublist_append_left tokens [closing]).cons opening
      exact wrapped_inOrder rfl (ih (ht.sublist hsub))

/-! ## Labels and commands -/

theorem Expr.MadeOf.inOrder {e : Expr} (h : e.MadeOf tokens) (ht : InOrder tokens) :
    (Node.expression (e.lower uri)).Throughout Node.PartsInOrder := by
  obtain ⟨taken, hsub, hspells⟩ := h
  exact hspells.inOrder uri (ht.sublist hsub)

theorem Argument.MadeOf.inOrder {argument : Argument} (h : argument.MadeOf tokens)
    (ht : InOrder tokens) : (Node.argument (argument.lower uri)).Throughout Node.PartsInOrder := by
  obtain ⟨taken, hsub, hspells⟩ := h
  obtain ⟨part, hpart, hvalue⟩ := hspells.value
  refine Node.throughout_of_children (List.pairwise_singleton _ _) ?_
  intro child hchild
  rw [show child = .expression (argument.value.lower uri) from List.mem_singleton.1 hchild]
  exact hvalue.inOrder uri ((ht.sublist hsub).sublist hpart)

theorem Label.MadeOf.inOrder {label : Label} (h : label.MadeOf tokens) (ht : InOrder tokens)
    (hregular : ∀ token ∈ tokens, token.Regular) :
    (Node.label (toLabel uri label)).Throughout Node.PartsInOrder := by
  have horder := h.fragments_inOrder ht hregular
  unfold toLabel
  split
  · refine Node.throughout_of_children (List.pairwise_singleton _ _) ?_
    exact identifiers_inOrder [toIdentifier uri label.first]
  · exact Node.throughout_of_children (toDynamicLabel_inOrder uri horder) (identifiers_inOrder _)

/-- A command whose parts stand one behind the other. -/
theorem Command.MadeOf.inOrder {command : Command} (h : command.MadeOf tokens) (ht : InOrder tokens)
    (hspans : command.spans.Pairwise fun a b => a.stop ≤ b.start) :
    (Node.command (command.lower uri)).Throughout Node.PartsInOrder := by
  refine Node.throughout_of_children ?_ ?_
  · -- The extension has no node of its own.
    have hparts : (command.name.toList.map Token.span ++
        command.arguments.map Argument.span).Pairwise fun a b => a.stop ≤ b.start := by
      refine hspans.sublist ?_
      exact (List.sublist_append_left _ _).append (.refl _)
    have hchildren : ((Node.command (command.lower uri)).children.map
        fun node => node.location.span) =
        command.name.toList.map Token.span ++ command.arguments.map Argument.span := by
      cases hname : command.name <;>
        simp [Node.children, Command.lower, hname, Node.location, toIdentifier, Argument.lower]
    rw [← hchildren] at hparts
    exact Node.pairwise_before.2 hparts
  · intro child hchild
    simp only [Node.children, Command.lower, List.mem_append, Option.mem_toList,
      Option.map_eq_some_iff, List.mem_map] at hchild
    rcases hchild with ⟨_, ⟨name, hname, rfl⟩, rfl⟩ | ⟨_, ⟨argument, hmem, rfl⟩, rfl⟩
    · exact Node.identifier_inOrder _
    · exact (h.arguments argument hmem).inOrder uri ht

end Concrete

end Asm6502
