import Asm6502.Proofs.LexemeCharacters
import Asm6502.Proofs.LineParts

/-!
# Spans of ordered tokens

Where tokens stand in order, the union of the spans of two parts takes in all that stands between
them.  So every expression, argument and label has the least span around its tokens, although it is
computed from the first and the last part only.
-/

namespace Asm6502

/-! ## Spans inside spans -/

instance : Std.IsLinearPreorder Position where
  le_refl _ := Position.le_iff.2 (.inr ⟨rfl, Nat.le_refl _⟩)
  le_trans _ _ _ := Position.le_trans
  le_total a b := by
    rw [Position.le_iff, Position.le_iff]
    omega

instance : Std.LawfulOrderSup Position where
  max_le_iff a b c := by
    change (if a ≤ b then b else a) ≤ c ↔ _
    simp only [Position.le_iff]
    split <;> omega

namespace Span

variable {outer a b : Span} {parts : List Span}

/-- A span that ends no earlier than it starts. -/
def Proper (span : Span) : Prop := span.start ≤ span.stop

structure Inside (inner outer : Span) : Prop where
  start : outer.start ≤ inner.start
  stop : inner.stop ≤ outer.stop

theorem containsSpan_iff {inner : Span} : outer.containsSpan inner = true ↔ inner.Inside outer := by
  refine ⟨fun h => ?_, fun h => decide_eq_true ⟨h.start, h.stop⟩⟩
  obtain ⟨hstart, hstop⟩ := of_decide_eq_true h
  exact ⟨hstart, hstop⟩

theorem Inside.refl (span : Span) : span.Inside span :=
  ⟨Std.le_refl _, Std.le_refl _⟩

theorem Inside.trans {c : Span} (hab : a.Inside b) (hbc : b.Inside c) : a.Inside c :=
  ⟨Position.le_trans hbc.start hab.start, Position.le_trans hab.stop hbc.stop⟩

theorem inside_union_left (a b : Span) : a.Inside (a.union b) :=
  ⟨Std.min_le_left, Std.left_le_max⟩

theorem inside_union_right (a b : Span) : b.Inside (a.union b) :=
  ⟨Std.min_le_right, Std.right_le_max⟩

theorem union_inside (ha : a.Inside outer) (hb : b.Inside outer) : (a.union b).Inside outer :=
  ⟨Std.le_min_iff.2 ⟨ha.start, hb.start⟩, Std.max_le_iff.2 ⟨ha.stop, hb.stop⟩⟩

theorem Proper.of_inside {inner : Span} (h : inner.Proper) (hinside : inner.Inside outer) :
    outer.Proper :=
  Position.le_trans hinside.start (Position.le_trans h hinside.stop)

theorem eq_of_inside (h : a.Inside b) (h' : b.Inside a) : a = b := by
  obtain ⟨start, stop⟩ := a
  obtain ⟨start', stop'⟩ := b
  have hstart : start = start' := Position.eq_of_le_of_le h'.start h.start
  have hstop : stop = stop' := Position.eq_of_le_of_le h.stop h'.stop
  rw [hstart, hstop]

theorem proper_empty (p : Position) : (empty p).Proper := Std.le_refl p

theorem inside_foldl_union (parts : List Span) (base : Span) :
    base.Inside (parts.foldl union base) ∧
      ∀ part ∈ parts, part.Inside (parts.foldl union base) := by
  induction parts generalizing base with
  | nil => exact ⟨.refl base, by simp⟩
  | cons first rest ih =>
      obtain ⟨hbase, hrest⟩ := ih (base.union first)
      refine ⟨(inside_union_left base first).trans hbase, ?_⟩
      intro part hpart
      rcases List.mem_cons.1 hpart with rfl | hpart
      · exact (inside_union_right base part).trans hbase
      · exact hrest part hpart

theorem foldl_union_inside {base : Span} (hbase : base.Inside outer)
    (hparts : ∀ part ∈ parts, part.Inside outer) : (parts.foldl union base).Inside outer := by
  induction parts generalizing base with
  | nil => exact hbase
  | cons first rest ih =>
      have hfirst := union_inside hbase (hparts first List.mem_cons_self)
      exact ih hfirst fun part hpart => hparts part (List.mem_cons_of_mem first hpart)

def coverOr (default : Span) (parts : List Span) : Span := (cover? parts).getD default

theorem inside_coverOr {part : Span} (h : part ∈ parts) (default : Span) :
    part.Inside (coverOr default parts) := by
  cases parts with
  | nil => cases h
  | cons first rest =>
      obtain ⟨hfirst, hrest⟩ := inside_foldl_union rest first
      rcases List.mem_cons.1 h with rfl | h
      · exact hfirst
      · exact hrest part h

theorem coverOr_inside (hne : parts ≠ []) (h : ∀ part ∈ parts, part.Inside outer) (default : Span) :
    (coverOr default parts).Inside outer := by
  cases parts with
  | nil => exact absurd rfl hne
  | cons first rest =>
      exact foldl_union_inside (h first List.mem_cons_self)
        fun part hpart => h part (List.mem_cons_of_mem first hpart)

theorem coverOr_proper {default : Span} (hdefault : default.Proper)
    (h : ∀ part ∈ parts, part.Proper) : (coverOr default parts).Proper := by
  cases parts with
  | nil => exact hdefault
  | cons first rest =>
      exact (h first List.mem_cons_self).of_inside (inside_coverOr List.mem_cons_self default)

end Span

namespace Concrete

/-! ## Tokens in order -/

/-- Tokens with proper spans, each of which ends before the next one starts. -/
structure InOrder (tokens : List Token) : Prop where
  proper : ∀ token ∈ tokens, token.span.Proper
  ordered : tokens.Pairwise fun a b => a.span.stop ≤ b.span.start

theorem InOrder.sublist {tokens more : List Token} (h : InOrder more)
    (hsub : tokens.Sublist more) : InOrder tokens :=
  ⟨fun token htoken => h.proper token (hsub.subset htoken), h.ordered.sublist hsub⟩

theorem InOrder.between {front back : List Token} {first token last : Token} {outer : Span}
    (h : InOrder (front ++ token :: back)) (hfirst : first ∈ front) (hlast : last ∈ back)
    (hfirst' : first.span.Inside outer) (hlast' : last.span.Inside outer) :
    token.span.Inside outer := by
  obtain ⟨-, hback, hbefore⟩ := List.pairwise_append.1 h.ordered
  have hstart := hbefore first hfirst token List.mem_cons_self
  have hstop := (List.pairwise_cons.1 hback).1 last hlast
  have hproper : ∀ t ∈ front ++ token :: back, t.span.Proper := h.proper
  refine ⟨?_, ?_⟩
  · calc outer.start ≤ first.span.start := hfirst'.start
      _ ≤ first.span.stop := hproper first (List.mem_append_left _ hfirst)
      _ ≤ token.span.start := hstart
  · calc token.span.stop ≤ last.span.start := hstop
      _ ≤ last.span.stop :=
          hproper last (List.mem_append_right _ (List.mem_cons_of_mem token hlast))
      _ ≤ outer.stop := hlast'.stop

theorem tokenize_inOrder (source : String) : InOrder (tokenize source).tokens := by
  refine ⟨fun token htoken => ((tokenize_regular source).1 token htoken).proper, ?_⟩
  exact (tokenize_ordered source).imp fun h => h.1

structure Tight (tokens : List Token) (span : Span) : Prop where
  nonempty : tokens ≠ []
  inside : ∀ token ∈ tokens, token.span.Inside span
  least : ∀ outer, (∀ token ∈ tokens, token.span.Inside outer) -> span.Inside outer

namespace Tight

theorem single (token : Token) : Tight [token] token.span where
  nonempty := List.cons_ne_nil token []
  inside := by
    intro t ht
    rw [List.mem_singleton.1 ht]
    exact .refl token.span
  least := fun outer h => h token List.mem_cons_self

theorem proper {tokens : List Token} {span : Span} (h : Tight tokens span) (ht : InOrder tokens) :
    span.Proper := by
  obtain ⟨token, htoken⟩ := List.exists_mem_of_ne_nil tokens h.nonempty
  exact Span.Proper.of_inside (ht.proper token htoken) (h.inside token htoken)

theorem inside_of_sublist {tokens more : List Token} {span outer : Span} (h : Tight tokens span)
    (houter : Tight more outer) (hsub : tokens.Sublist more) : span.Inside outer :=
  h.least outer fun token htoken => houter.inside token (hsub.subset htoken)

/-- Two parts and all that stands between them have the union of the spans of the two. -/
theorem union {front middle back : List Token} {a b : Span} (ha : Tight front a)
    (hb : Tight back b) (h : InOrder (front ++ middle ++ back)) :
    Tight (front ++ middle ++ back) (a.union b) := by
  have hfront : ∀ token ∈ front, token.span.Inside (a.union b) :=
    fun token htoken => (ha.inside token htoken).trans (Span.inside_union_left a b)
  have hback : ∀ token ∈ back, token.span.Inside (a.union b) :=
    fun token htoken => (hb.inside token htoken).trans (Span.inside_union_right a b)
  obtain ⟨first, hfirst⟩ := List.exists_mem_of_ne_nil front ha.nonempty
  obtain ⟨last, hlast⟩ := List.exists_mem_of_ne_nil back hb.nonempty
  refine ⟨by simp [ha.nonempty], ?_, ?_⟩
  · intro token htoken
    rcases List.mem_append.1 htoken with htoken | htoken
    · rcases List.mem_append.1 htoken with htoken | htoken
      · exact hfront token htoken
      · -- A token in the middle stands after some token in front and before some token behind.
        obtain ⟨before, after, rfl⟩ := List.append_of_mem htoken
        have hsplit : InOrder ((front ++ before) ++ token :: (after ++ back)) := by
          simpa using h
        exact hsplit.between (List.mem_append_left before hfirst)
          (List.mem_append_right after hlast) (hfront first hfirst) (hback last hlast)
    · exact hback token htoken
  · intro outer houter
    refine Span.union_inside (ha.least outer fun token htoken => ?_)
      (hb.least outer fun token htoken => ?_)
    · exact houter token (List.mem_append_left back (List.mem_append_left middle htoken))
    · exact houter token (List.mem_append_right (front ++ middle) htoken)

theorem ends {first : Token} {rest : List Token} (h : InOrder (first :: rest)) :
    Tight (first :: rest) (first.span.union (rest.getLastD first).span) := by
  rcases List.eq_nil_or_concat rest with rfl | ⟨middle, last, rfl⟩
  · have hsingle := single first
    refine ⟨hsingle.nonempty, ?_, ?_⟩
    · exact fun token htoken => (hsingle.inside token htoken).trans (Span.inside_union_left _ _)
    · intro outer houter
      have hfirst := houter first List.mem_cons_self
      exact Span.union_inside hfirst hfirst
  · rw [List.concat_eq_append] at h ⊢
    rw [List.getLastD_concat]
    exact union (single first) (single last) h

end Tight

/-! ## Spans of expressions, arguments and labels -/

variable {tokens : List Token}

theorem Expr.Joined.getLastD_eq {words : List Token} (h : Joined words tokens) (default : Token) :
    tokens.getLastD default = words.getLastD default := by
  induction h generalizing default with
  | nil => rfl
  | @cons comma word _ _ _ _ _ ih =>
      rw [List.getLastD_cons, List.getLastD_cons, List.getLastD_cons]
      exact ih word

theorem Expr.Joined.sublist {words : List Token} (h : Joined words tokens) :
    words.Sublist tokens := by
  induction h with
  | nil => exact .slnil
  | cons _ _ _ ih => exact (ih.cons_cons _).cons _

theorem Expr.Spells.tight {e : Expr} (h : e.Spells tokens) (ht : InOrder tokens) :
    Tight tokens e.span := by
  have hclosed {opening closing : Token} {inside : List Token}
      (ht : InOrder (opening :: inside ++ [closing])) :
      Tight (opening :: inside ++ [closing]) (opening.span.union closing.span) :=
    Tight.union (.single opening) (.single closing) ht
  induction h with
  | @atom token _ => exact .single token
  | @label first others tokens _ hjoined =>
      have hspan : (Expr.label (first :: others)).span =
          first.span.union (tokens.getLastD first).span := by
        rw [hjoined.getLastD_eq]
        cases others <;> rfl
      rw [hspan]
      exact .ends ht
  | @macroArgument opening number closing =>
      have ht' : InOrder (opening :: [number] ++ [closing]) := ht
      exact hclosed ht'
  | @unary operator operand tokens h ih =>
      have hoperand := ih (ht.sublist (List.sublist_cons_self operator tokens))
      have ht' : InOrder ([operator] ++ [] ++ tokens) := ht
      exact (Tight.single operator).union hoperand ht'
  | @binary left right operator front back _ _ ihleft ihright =>
      have hleft := ihleft (ht.sublist (List.sublist_append_left front _))
      have hright := ihright (ht.sublist
        ((List.sublist_cons_self operator back).trans (List.sublist_append_right front _)))
      rw [List.append_cons] at ht ⊢
      exact hleft.union hright ht
  | round => exact hclosed ht
  | square => exact hclosed ht

theorem Argument.Spells.tight {argument : Argument} (h : argument.Spells tokens)
    (ht : InOrder tokens) : Tight tokens argument.span := by
  cases h with
  | @immediate hash value tokens h =>
      have hvalue := h.tight (ht.sublist (List.sublist_cons_self hash tokens))
      have ht' : InOrder ([hash] ++ [] ++ tokens) := ht
      exact (Tight.single hash).union hvalue ht'
  | address h => exact h.tight ht
  | @indexed value ending tokens h =>
      have hvalue := h.tight (ht.sublist (List.sublist_append_left tokens [ending]))
      rw [← List.append_nil tokens] at ht ⊢
      exact hvalue.union (.single ending) ht
  | @indirect opening closing value tokens h =>
      exact Tight.union (.single opening) (.single closing) ht

theorem InOrder.map_asFragment (h : InOrder tokens) (hregular : ∀ token ∈ tokens, token.Regular) :
    InOrder (tokens.map asFragment) := by
  have hfragment : ∀ token ∈ tokens, (asFragment token).span.Proper ∧
      token.span.start ≤ (asFragment token).span.start ∧
      (asFragment token).span.stop = token.span.stop := by
    intro token htoken
    unfold asFragment
    split
    · next hkind =>
      exact ⟨(hregular token htoken).ending hkind,
        Position.le_iff.2 (.inr ⟨rfl, Nat.le_succ _⟩), rfl⟩
    · exact ⟨h.proper token htoken, Std.le_refl _, rfl⟩
  refine ⟨?_, List.pairwise_map.2 (h.ordered.imp_of_mem ?_)⟩
  · intro fragment hmem
    obtain ⟨token, htoken, rfl⟩ := List.mem_map.1 hmem
    exact (hfragment token htoken).1
  · intro a b ha hb hab
    rw [(hfragment a ha).2.2]
    exact Position.le_trans hab (hfragment b hb).2.1

theorem Label.MadeOf.fragments_inOrder {label : Label} (h : label.MadeOf tokens)
    (ht : InOrder tokens) (hregular : ∀ token ∈ tokens, token.Regular) :
    InOrder label.fragments := by
  obtain ⟨taken, hsub, hothers⟩ := h.others
  have hfirst : asFragment label.first = label.first := by
    rcases h.first_kind with hkind | hkind <;> simp [asFragment, hkind]
  have hmap : label.fragments = (label.first :: taken).map asFragment := by
    rw [List.map_cons, hfirst, ← hothers]
    rfl
  rw [hmap]
  exact (ht.sublist hsub).map_asFragment fun token htoken => hregular token (hsub.subset htoken)

end Concrete

end Asm6502
