import Asm6502.Proofs.RowNumbers

/-!
# Rows of held tokens

The lines of a text, those inside blocks included, hold tokens of the rows that were read and of the
rows that end a block, and a line takes its comment from the row where it starts.  So whatever is
said of the places of these rows goes over to all tokens that the lines hold.
-/

namespace Asm6502

namespace Concrete

/-! ## Tokens of a row -/

theorem Expr.Spells.tokens_sublist {e : Expr} {tokens : List Token} (h : e.Spells tokens) :
    e.tokens.Sublist tokens := by
  induction h with
  | atom _ => exact .refl _
  | label _ h => exact h.sublist.cons_cons _
  | macroArgument _ _ _ => exact .refl _
  | unary _ ih => exact ih.cons_cons _
  | binary _ _ ihleft ihright => exact ihleft.append (ihright.cons_cons _)
  | round _ _ _ ih | square _ _ _ ih => exact (ih.append (.refl _)).cons_cons _

theorem Expr.MadeOf.tokens_subset {e : Expr} {tokens : List Token} (h : e.MadeOf tokens) :
    e.tokens ⊆ tokens := by
  obtain ⟨taken, hsub, hspells⟩ := h
  exact (hspells.tokens_sublist.trans hsub).subset

theorem Argument.MadeOf.tokens_subset {argument : Argument} {tokens : List Token}
    (h : argument.MadeOf tokens) : argument.tokens ⊆ tokens := by
  obtain ⟨taken, hsub, hspells⟩ := h
  have htaken : argument.tokens.Sublist taken := by
    cases hspells with
    | immediate h => exact h.tokens_sublist.cons_cons _
    | address h => simpa [Argument.tokens] using h.tokens_sublist
    | indexed h => exact h.tokens_sublist.append (.refl _)
    | indirect h => exact (h.tokens_sublist.append (.refl _)).cons_cons _
  exact (htaken.trans hsub).subset

theorem Command.MadeOf.tokens_subset {command : Command} {tokens : List Token}
    (h : command.MadeOf tokens) : command.tokens ⊆ tokens := by
  intro token htoken
  rcases List.mem_append.1 htoken with htoken | htoken
  · rcases List.mem_append.1 htoken with htoken | htoken
    · exact h.name token (Option.mem_toList.1 htoken)
    · exact h.extension token (Option.mem_toList.1 htoken)
  · obtain ⟨argument, hargument, htoken⟩ := List.mem_flatMap.1 htoken
    exact (h.arguments argument hargument).tokens_subset htoken

theorem Content.MadeOf.tokens_subset {content : Content} {tokens : List Token}
    (h : content.MadeOf tokens) : content.tokens ⊆ tokens := by
  have hvalue {value : Option Expr} (hvalue : ∀ e ∈ value, e.MadeOf tokens) :
      value.toList.flatMap Expr.tokens ⊆ tokens := by
    intro token htoken
    obtain ⟨e, he, htoken⟩ := List.mem_flatMap.1 htoken
    exact (hvalue e (Option.mem_toList.1 he)).tokens_subset htoken
  cases content with
  | command command =>
      intro token htoken
      obtain ⟨c, hc, htoken⟩ := List.mem_flatMap.1 htoken
      exact (h c (Option.mem_toList.1 hc)).tokens_subset htoken
  | conditional keyword condition => exact List.cons_subset.2 ⟨h.1, hvalue h.2⟩
  | repetition keyword count => exact List.cons_subset.2 ⟨h.1, hvalue h.2⟩
  | macroBlock keyword name =>
      exact List.cons_subset.2 ⟨h.1, fun token htoken => h.2 token (Option.mem_toList.1 htoken)⟩

/-- The fragments of a label and its colon. -/
def Label.tokens (label : Label) : List Token := label.fragments ++ label.colon.toList

theorem asFragment_line (token : Token) :
    (asFragment token).span.start.line = token.span.start.line := by
  unfold asFragment
  split <;> rfl

theorem Label.MadeOf.lines {label : Label} {tokens : List Token} (h : label.MadeOf tokens)
    {allowed : Nat -> Prop} (htokens : ∀ token ∈ tokens, allowed token.span.start.line) :
    ∀ token ∈ label.tokens, allowed token.span.start.line := by
  obtain ⟨taken, hsub, hothers⟩ := h.others
  intro token htoken
  rcases List.mem_append.1 htoken with htoken | htoken
  · rcases List.mem_cons.1 htoken with rfl | htoken
    · exact htokens _ (hsub.subset List.mem_cons_self)
    · rw [hothers] at htoken
      obtain ⟨other, hother, rfl⟩ := List.mem_map.1 htoken
      rw [asFragment_line]
      exact htokens other (hsub.subset (List.mem_cons_of_mem _ hother))
  · exact htokens token (h.colon token (Option.mem_toList.1 htoken))

/-! ## Lines inside lines -/

mutual

def Line.nested : Line -> List Line
  | .command margin content => [.command margin content]
  | .macroBlock margin block => [.macroBlock margin block]
  | .conditional margin keyword condition thenLines elseKeyword elseLines ending span =>
      .conditional margin keyword condition thenLines elseKeyword elseLines ending span ::
        (Line.nestedAll thenLines ++ Line.nestedAll elseLines)
  | .repetition margin keyword count body ending span =>
      .repetition margin keyword count body ending span :: Line.nestedAll body

def Line.nestedAll : List Line -> List Line
  | [] => []
  | line :: lines => line.nested ++ Line.nestedAll lines

end

theorem Line.nestedAll_eq_flatMap (lines : List Line) : nestedAll lines = lines.flatMap nested := by
  induction lines with
  | nil => rfl
  | cons line lines ih => rw [nestedAll, ih, List.flatMap_cons]

def Line.macroBlock? : Line -> Option MacroBlock
  | .macroBlock _ block => some block
  | _ => none

def Line.macros (lines : List Line) : List MacroBlock := (nestedAll lines).filterMap macroBlock?

def Margin.tokens (margin : Margin) : List Token :=
  margin.label.toList.flatMap Label.tokens ++ margin.comment.toList

/-- The tokens of a line itself, without those of the lines inside it. -/
def Line.ownTokens : Line -> List Token
  | .command margin content => margin.tokens ++ content.toList.flatMap Command.tokens
  | .macroBlock margin block =>
      margin.tokens ++ (block.keyword :: block.name.toList ++ block.ending.toList)
  | .conditional margin keyword condition _ elseKeyword _ ending _ =>
      margin.tokens ++ (keyword :: condition.toList.flatMap Expr.tokens ++ elseKeyword.toList ++
        ending.toList)
  | .repetition margin keyword count _ ending _ =>
      margin.tokens ++ (keyword :: count.toList.flatMap Expr.tokens ++ ending.toList)

def Line.tokensAll (lines : List Line) : List Token := (nestedAll lines).flatMap ownTokens

/-! ## Rows of what is held -/

section Held

variable {plays : Role -> Prop} {comments : List Token} {allowed : Nat -> Prop}
  (hreads : ∀ row, plays (.read row) ->
    ∀ token ∈ row.tokens ++ [row.stop], allowed token.span.start.line)
  (hends : ∀ ending, plays (.ends ending) ->
    ∀ token ∈ ending.row.tokens ++ [ending.row.stop], allowed token.span.start.line)

include hreads

theorem Row.held_lines {row : Row} (hrow : plays (.read row)) {content : Content}
    (hread : row.read.2.1 = content) {comment : Option Token}
    (hcomment : row.start.Takes comments comment) (span : Option Span) :
    ∀ token ∈ (row.start.margin span comment).tokens ++ content.tokens,
      allowed token.span.start.line := by
  have htokens : ∀ token ∈ row.tokens, allowed token.span.start.line :=
    fun token htoken => hreads row hrow token (List.mem_append_left _ htoken)
  obtain ⟨hlabel, hcontent⟩ := row.read_spec
  refine List.forall_mem_append.2 ⟨List.forall_mem_append.2 ⟨fun token htoken => ?_,
    fun token htoken => ?_⟩, fun token htoken => ?_⟩
  · obtain ⟨label, hmem, htoken⟩ := List.mem_flatMap.1 htoken
    exact (hlabel label (Option.mem_toList.1 hmem)).lines htokens token htoken
  · have honRow : token.span.start.line = row.number :=
      beq_iff_eq.1 (hcomment token (Option.mem_toList.1 htoken)).2
    rw [honRow]
    exact hreads row hrow _ row.peek_mem
  · subst hread
    exact htokens token (hcontent.madeOf.tokens_subset htoken)

include hends

theorem Line.From.held_lines {line : Line} (h : line.From plays comments) :
    ∀ inner ∈ line.nested, ∀ token ∈ inner.ownTokens, allowed token.span.start.line := by
  have hlines {lines : List Line} (ih : ∀ line ∈ lines, ∀ inner ∈ line.nested,
      ∀ token ∈ inner.ownTokens, allowed token.span.start.line) :
      ∀ inner ∈ nestedAll lines, ∀ token ∈ inner.ownTokens, allowed token.span.start.line := by
    simpa [nestedAll_eq_flatMap] using fun inner line hline => ih line hline inner
  have hending {last : Option EndRow} (hlast : ∀ ending ∈ last, plays (.ends ending)) :
      ∀ token ∈ (word last).toList, allowed token.span.start.line := by
    intro token htoken
    obtain ⟨ending, hending, rfl⟩ := Option.map_eq_some_iff.1 (Option.mem_toList.1 htoken)
    exact hends ending (hlast ending hending) _
      (List.mem_append_left _ (Row.head?_subset ending.head List.mem_cons_self))
  induction h with
  | command hrow hread hcomment =>
      exact List.forall_mem_singleton.2 (Row.held_lines hreads hrow hread hcomment _)
  | macroBlock body hrow hread hcomment _ hlast =>
      refine List.forall_mem_singleton.2 ?_
      rw [ownTokens, ← List.append_assoc]
      exact List.forall_mem_append.2
        ⟨Row.held_lines hreads hrow hread hcomment _, hending hlast⟩
  | conditional hrow hread hcomment _ hdivider _ hlast _ ihthen ihelse =>
      refine List.forall_mem_cons.2 ⟨?_, List.forall_mem_append.2 ⟨hlines ihthen, hlines ihelse⟩⟩
      rw [ownTokens, ← List.append_assoc, ← List.append_assoc]
      exact List.forall_mem_append.2 ⟨List.forall_mem_append.2
        ⟨Row.held_lines hreads hrow hread hcomment _, hending hdivider⟩, hending hlast⟩
  | repetition hrow hread hcomment _ hlast _ ih =>
      refine List.forall_mem_cons.2 ⟨?_, hlines ih⟩
      rw [ownTokens, ← List.append_assoc]
      exact List.forall_mem_append.2
        ⟨Row.held_lines hreads hrow hread hcomment _, hending hlast⟩

end Held

end Concrete

end Asm6502
