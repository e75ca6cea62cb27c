import Asm6502.Proofs.Rewording
import Asm6502.Proofs.RowReading

/-!
# Tokens laid out in another way

Tokens can be reworded, and a run of blanks can give way to another run.  The readers skip runs of
blanks as a whole, so what they read is reworded and nothing else, the tokens behind it are laid out
in the other way, and their faults are about tokens that stand in each other's place.
-/

namespace Asm6502

namespace Concrete

/-- A rewording of tokens, and the tokens that faults may be about in each other's place. -/
structure Layout extends Rewording where
  Same : Token -> Token -> Prop
  same_token : ∀ t, Same t (token t)

/-! ## Blanks -/

theorem kind_of_skipBlanks {tokens rest : List Token} {token : Token}
    (h : skipBlanks tokens = token :: rest) : token.kind ≠ .whitespace := by
  have hhead := List.head?_dropWhile_not (fun token : Token => token.kind == .whitespace) tokens
  rw [← skipBlanks, h] at hhead
  simpa using hhead

theorem skipBlanks_skipBlanks (tokens : List Token) :
    skipBlanks (skipBlanks tokens) = skipBlanks tokens := by
  cases hskip : skipBlanks tokens with
  | nil => rfl
  | cons token rest => exact skipBlanks_cons (kind_of_skipBlanks hskip) rest

namespace Layout

variable (w : Layout)

/-- Tokens and the ones in their place: each token is reworded, and a run of blanks stands where a
run of blanks stood. -/
inductive Laid : List Token -> List Token -> Prop where
  | nil : Laid [] []
  | solid {t : Token} {rest rest' : List Token} (ht : t.kind ≠ .whitespace) (h : Laid rest rest') :
      Laid (t :: rest) (w.token t :: rest')
  | blank {b b' : Token} {rest rest' : List Token} (hb : b.kind = .whitespace)
      (hb' : b'.kind = .whitespace) (hsame : w.Same b b') (hstart : b'.span.start = b.span.start)
      (h : Laid (skipBlanks rest) (skipBlanks rest')) : Laid (b :: rest) (b' :: rest')

/-- A fault and the one in its place. -/
inductive ErrorLike : ParseError -> ParseError -> Prop where
  | unexpectedToken (expected : Expected) {t t' : Token} (h : w.Same t t') :
      ErrorLike (.unexpectedToken expected t) (.unexpectedToken expected t')
  | unterminatedBlock (expected : Terminator) (t : Token) :
      ErrorLike (.unterminatedBlock expected t) (.unterminatedBlock expected (w.token t))
  | unknownExtension {t t' : Token} (h : w.Same t t') :
      ErrorLike (.unknownExtension t) (.unknownExtension t')
  | nestingTooDeep {t t' : Token} (h : w.Same t t') :
      ErrorLike (.nestingTooDeep t) (.nestingTooDeep t')

/-- The answers of a reader to tokens and to the ones in their place. -/
inductive Agree {α : Type} (value : α -> α) :
    Except ParseError (α × List Token) -> Except ParseError (α × List Token) -> Prop where
  | error {e e' : ParseError} (h : w.ErrorLike e e') : Agree value (.error e) (.error e')
  | ok (a : α) {rest rest' : List Token} (h : w.Laid rest rest') :
      Agree value (.ok (a, rest)) (.ok (value a, rest'))

variable {w}

/-- Readers one after the other. -/
theorem Agree.bind {α β : Type} {value : α -> α} {value' : β -> β}
    {read read' : Except ParseError (α × List Token)}
    {next next' : α × List Token -> Except ParseError (β × List Token)}
    (h : w.Agree value read read')
    (hnext : ∀ a {rest rest'}, w.Laid rest rest' ->
      w.Agree value' (next (a, rest)) (next' (value a, rest'))) :
    w.Agree value' (read >>= next) (read' >>= next') := by
  cases h with
  | error h => exact .error h
  | ok a h => exact hnext a h

namespace Laid

variable {l l' : List Token}

/-- Behind the blanks nothing is left, or the same token stands in front. -/
theorem skip_cases (h : w.Laid l l') :
    (skipBlanks l = [] ∧ skipBlanks l' = []) ∨
      ∃ t rest rest', t.kind ≠ .whitespace ∧ skipBlanks l = t :: rest ∧
        skipBlanks l' = w.token t :: rest' ∧ w.Laid rest rest' := by
  induction h with
  | nil => exact .inl ⟨rfl, rfl⟩
  | @solid t rest rest' ht h =>
      refine .inr ⟨t, rest, rest', ht, skipBlanks_cons ht rest, skipBlanks_cons ?_ rest', h⟩
      rwa [w.kind_token]
  | blank hb hb' _ _ _ ih =>
      rw [skipBlanks_skipBlanks, skipBlanks_skipBlanks] at ih
      rwa [skipBlanks_blank hb, skipBlanks_blank hb']

theorem skip (h : w.Laid l l') : w.Laid (skipBlanks l) (skipBlanks l') := by
  obtain ⟨hl, hl'⟩ | ⟨t, rest, rest', ht, hl, hl', hrest⟩ := h.skip_cases
  · rw [hl, hl']
    exact .nil
  · rw [hl, hl']
    exact .solid ht hrest

theorem skipIn (h : w.Laid l l') (inBrackets : Bool) :
    w.Laid (skipBlanksIn inBrackets l) (skipBlanksIn inBrackets l') := by
  cases inBrackets with
  | true => exact h.skip
  | false => exact h

theorem isEmpty (h : w.Laid l l') : l'.isEmpty = l.isEmpty := by
  cases h <;> rfl

/-- A token in front that is no blank is a reworded one. -/
theorem of_cons {t' : Token} {rest' : List Token} (h : w.Laid l (t' :: rest'))
    (ht' : t'.kind ≠ .whitespace) :
    ∃ t rest, l = t :: rest ∧ t' = w.token t ∧ w.Laid rest rest' := by
  cases h with
  | solid _ h => exact ⟨_, _, rfl, rfl, h⟩
  | blank _ hb' => exact absurd hb' ht'

/-- Two tokens in front that satisfy conditions which no blank satisfies are reworded ones. -/
theorem of_pair {a' b' : Token} {rest' : List Token} (h : w.Laid l (a' :: b' :: rest'))
    (ha : a'.kind ≠ .whitespace) (hb : b'.kind ≠ .whitespace) :
    ∃ a b rest, l = a :: b :: rest ∧ a' = w.token a ∧ b' = w.token b ∧ w.Laid rest rest' := by
  obtain ⟨a, behind, rfl, rfl, hbehind⟩ := h.of_cons ha
  obtain ⟨b, rest, rfl, rfl, hrest⟩ := hbehind.of_cons hb
  exact ⟨a, b, rest, rfl, rfl, rfl, hrest⟩

theorem peek (h : w.Laid l l') (stop : Token) :
    w.Same (peek stop l) (peek (w.token stop) l') := by
  cases h with
  | nil | solid => exact w.same_token _
  | blank _ _ hsame => exact hsame

theorem kind_peek (h : w.Laid l l') (stop : Token) :
    (Concrete.peek (w.token stop) l').kind = (Concrete.peek stop l).kind := by
  cases h with
  | nil | solid => exact w.kind_token _
  | blank hb hb' => exact hb'.trans hb.symm

theorem start_peek (h : w.Laid l l') (stop : Token) :
    (Concrete.peek (w.token stop) l').span.start = (Concrete.peek stop l).span.start := by
  cases h with
  | nil | solid => exact w.start_token _
  | blank _ _ _ hstart => exact hstart

theorem unexpected (h : w.Laid l l') (stop : Token) (expected : Expected) :
    w.ErrorLike (unexpected stop l expected) (unexpected (w.token stop) l' expected) :=
  .unexpectedToken expected (h.peek stop)

theorem readKind (h : w.Laid l l') (stop : Token) {kind : Token.Kind} (hkind : kind ≠ .whitespace)
    (expected : Expected) :
    w.Agree w.token (readKind stop kind expected l) (readKind (w.token stop) kind expected l') := by
  have herror := h.unexpected stop expected
  cases h with
  | nil => exact .error herror
  | solid _ h =>
      simp only [Concrete.readKind, w.kind_token]
      split
      · exact .ok _ h
      · exact .error herror
  | blank hb hb' =>
      simp only [Concrete.readKind, hb, hb', hkind.symm, if_false]
      exact .error herror

end Laid

theorem readFragments_none {tokens : List Token}
    (h : ∀ comma word rest, tokens = comma :: word :: rest ->
      ¬ (comma.kind = .comma ∧ word.kind.isWord = true)) :
    readFragments tokens = ([], tokens) := by
  unfold readFragments
  split
  · rw [if_neg (h _ _ _ rfl)]
  · rfl

theorem Laid.of_joined {l rest' : List Token} {comma' word' : Token}
    (h : w.Laid l (comma' :: word' :: rest'))
    (hjoins : comma'.kind = .comma ∧ word'.kind.isWord = true) :
    ∃ comma word rest, l = comma :: word :: rest ∧ comma.kind = .comma ∧
      word.kind.isWord = true := by
  obtain ⟨comma, word, rest, rfl, rfl, rfl, -⟩ := h.of_pair (by simp [hjoins])
    (ne_of_class rfl hjoins.2)
  rw [w.kind_token, w.kind_token] at hjoins
  exact ⟨comma, word, rest, rfl, hjoins⟩

theorem Laid.readFragments {l l' : List Token} (h : w.Laid l l') :
    (readFragments l').1 = (readFragments l).1.map w.token ∧
      w.Laid (readFragments l).2 (readFragments l').2 := by
  fun_induction Concrete.readFragments l generalizing l' with
  | case1 comma word rest hjoins fragments after heq ih =>
      obtain _ | ⟨-, _ | ⟨-, h⟩ | ⟨hb, -⟩⟩ | ⟨hb, -⟩ := h
      · rw [heq] at ih
        obtain ⟨hfragments, hafter⟩ := ih h
        rw [Concrete.readFragments, if_pos (by simpa only [w.kind_token] using hjoins)]
        exact ⟨by simp [hfragments], hafter⟩
      · exact absurd hb (ne_of_class rfl hjoins.2)
      · simp [hb] at hjoins
  | case2 comma word rest hjoins =>
      rw [readFragments_none fun comma' word' rest' hsame hjoins' => ?_]
      · exact ⟨rfl, h⟩
      · subst hsame
        obtain ⟨_, _, _, hl, hjoined⟩ := h.of_joined hjoins'
        cases hl
        exact hjoins hjoined
  | case3 tokens hshort =>
      rw [readFragments_none fun comma' word' rest' hsame hjoins' => ?_]
      · exact ⟨rfl, h⟩
      · subst hsame
        obtain ⟨_, _, _, hl, -⟩ := h.of_joined hjoins'
        exact hshort _ _ _ hl

/-! ## Expressions -/

variable (w) in
/-- What the readers of expressions make of tokens laid out in another way. -/
structure Reads (stop : Token) (levels : Nat) : Prop where
  operand : ∀ (inBrackets : Bool) {l l' : List Token}, w.Laid l l' ->
    w.Agree w.expr (readOperand stop levels inBrackets l)
      (readOperand (w.token stop) levels inBrackets l')
  chain : ∀ (inBrackets : Bool) (left : Expr) {l l' : List Token}, w.Laid l l' ->
    w.Agree w.expr (readChain stop levels inBrackets left l)
      (readChain (w.token stop) levels inBrackets (w.expr left) l')

namespace Reads

variable {stop : Token} {levels : Nat} {l l' : List Token}

theorem expr (h : w.Reads stop levels) (inBrackets : Bool) (hlaid : w.Laid l l') :
    w.Agree w.expr (readFrom stop levels inBrackets l)
      (readFrom (w.token stop) levels inBrackets l') :=
  (h.operand inBrackets hlaid).bind fun left _ _ hrest => h.chain inBrackets left hrest

theorem closed (h : w.Reads stop levels) {closing : Token.Kind} (hclosing : closing ≠ .whitespace)
    (expected : Expected) {build build' : Expr -> Token -> Expr}
    (hbuild : ∀ inner token, build' (w.expr inner) (w.token token) = w.expr (build inner token))
    (hlaid : w.Laid l l') :
    w.Agree w.expr (readClosed stop levels closing expected build l)
      (readClosed (w.token stop) levels closing expected build' l') := by
  refine (h.expr true hlaid.skip).bind fun inner _ _ hrest => ?_
  refine (hrest.skip.readKind stop hclosing expected).bind fun token _ _ hrest => ?_
  simp only [hbuild]
  exact .ok _ hrest

theorem operand_succ (h : w.Reads stop levels) (inBrackets : Bool) (hlaid : w.Laid l l') :
    w.Agree w.expr (readOperand stop (levels + 1) inBrackets l)
      (readOperand (w.token stop) (levels + 1) inBrackets l') := by
  have herror := hlaid.unexpected stop .expression
  cases hlaid with
  | nil => exact .error herror
  | blank hb hb' =>
      rw [readOperand_cons, readOperand_cons]
      simp only [hb, hb', reduceCtorEq, if_false, Token.Kind.isUnarySign, isAtom,
        Token.Kind.isNumber, Token.Kind.isWord, Token.Kind.isKeyword]
      exact .error herror
  | @solid t rest rest' _ hrest =>
      rw [readOperand_cons, readOperand_cons]
      simp only [w.kind_token]
      split
      · exact h.closed (by simp) _ (fun _ _ => rfl) hrest
      split
      · exact h.closed (by simp) _ (fun _ _ => rfl) hrest
      split
      · refine (hrest.readKind stop (by simp) _).bind fun number _ _ hrest => ?_
        exact (hrest.readKind stop (by simp) _).bind fun closing _ _ hrest => .ok _ hrest
      split
      · exact (h.operand inBrackets hrest).bind fun operand _ _ hrest => .ok _ hrest
      split
      · exact .ok _ hrest
      split
      · cases inBrackets with
        | true =>
            obtain ⟨hfragments, hafter⟩ := hrest.readFragments
            have hok : w.Agree w.expr _ _ := .ok (Expr.label (t :: (readFragments rest).1)) hafter
            rw [Rewording.expr, List.map_cons, ← hfragments] at hok
            exact hok
        | false => exact .ok _ hrest
      · exact .error herror

end Reads

theorem readChain_agree {stop : Token} {levels : Nat}
    (hlower : ∀ fewer, levels = fewer + 1 -> w.Reads stop fewer) (inBrackets : Bool) (left : Expr)
    {l l' : List Token} (h : w.Laid l l') :
    w.Agree w.expr (readChain stop levels inBrackets left l)
      (readChain (w.token stop) levels inBrackets (w.expr left) l') := by
  unfold readChain
  have hskip := h.skipIn inBrackets
  generalize skipBlanksIn inBrackets l = front at hskip ⊢
  generalize skipBlanksIn inBrackets l' = front' at hskip ⊢
  have hok : w.Agree w.expr (.ok (left, front)) (.ok (w.expr left, front')) := .ok left hskip
  cases hskip with
  | nil => exact hok
  | blank hb hb' =>
      simp only [hb, hb', Token.Kind.isBinarySign, Bool.false_eq_true, if_false]
      exact hok
  | solid _ hrest =>
      have hrest := hrest.skipIn inBrackets
      simp only [w.kind_token]
      split
      · cases levels with
        | zero => exact .error (.nestingTooDeep (hrest.peek stop))
        | succ fewer =>
            have hfewer := hlower fewer rfl
            exact (hfewer.operand inBrackets hrest).bind fun right _ _ hrest =>
              hfewer.chain inBrackets (.binary left _ right) hrest
      · exact hok

variable (w) in
theorem reads (stop : Token) (levels : Nat) : w.Reads stop levels := by
  induction levels with
  | zero =>
      refine ⟨fun inBrackets _ _ h => ?_, readChain_agree (by simp)⟩
      exact .error (.nestingTooDeep (h.peek stop))
  | succ levels ih =>
      refine ⟨fun inBrackets _ _ h => ih.operand_succ inBrackets h, readChain_agree ?_⟩
      intro fewer hfewer
      cases hfewer
      exact ih

theorem Laid.readExpr {l l' : List Token} (h : w.Laid l l') (stop : Token) (inBrackets : Bool) :
    w.Agree w.expr (readExpr stop inBrackets l) (readExpr (w.token stop) inBrackets l') :=
  (w.reads stop nestingLimit).expr inBrackets h

end Layout

end Concrete

end Asm6502
