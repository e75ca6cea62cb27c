import Asm6502.Proofs.RewordedLines

/-!
# Runs of blanks

Several blanks can follow each other, and each run of them can be merged into one.  Merged tokens
are the tokens laid out in another way.  Of a blank that a fault is about only the start is seen.  A
row must not hide its label: a label is looked for behind exactly one blank.
-/

namespace Asm6502

namespace Concrete

/-! ## Views of faults -/

/-- A way to look at positions that keeps their rows and their order. -/
structure View where
  position : Position -> Position
  line_position : ∀ p, (position p).line = p.line
  position_first : ∀ line, position ⟨line, 0⟩ = ⟨line, 0⟩
  position_mono : ∀ {p q}, p ≤ q -> position p ≤ position q
  position_next : ∀ {p q}, position p = position q -> position p.nextColumn = position q.nextColumn

namespace View

/-- The view that leaves nothing out. -/
def exact : View where
  position p := p
  line_position _ := rfl
  position_first _ := rfl
  position_mono h := h
  position_next h := h ▸ rfl

variable (v : View)

def span (span : Span) : Span := ⟨v.position span.start, v.position span.stop⟩

def token (token : Token) : Token := { token with span := v.span token.span }

/-- A token that something else was expected for.  Of white space only the start is seen. -/
def found (token : Token) : Token :=
  if token.kind = .whitespace then ⟨.whitespace, "", .empty (v.position token.span.start)⟩
  else v.token token

def error : ParseError -> ParseError
  | .unexpectedToken expected found => .unexpectedToken expected (v.found found)
  | .unterminatedBlock expected opened => .unterminatedBlock expected (v.token opened)
  | .unknownExtension token => .unknownExtension (v.found token)
  | .nestingTooDeep token => .nestingTooDeep (v.found token)

theorem kind_found (t : Token) : (v.found t).kind = t.kind := by
  unfold found
  split
  · next h => exact h.symm
  · rfl

end View

/-! ## Merging -/

/-- Tokens with each run of blanks merged into one that spans the run. -/
def mergeBlanks : List Token -> List Token
  | [] => []
  | token :: rest =>
      match mergeBlanks rest with
      | [] => [token]
      | next :: others =>
          if token.kind = .whitespace ∧ next.kind = .whitespace then
            ⟨.whitespace, token.literal ++ next.literal, ⟨token.span.start, next.span.stop⟩⟩ ::
              others
          else token :: next :: others

theorem mergeBlanks_solid {token : Token} (h : token.kind ≠ .whitespace) (rest : List Token) :
    mergeBlanks (token :: rest) = token :: mergeBlanks rest := by
  rw [mergeBlanks]
  cases mergeBlanks rest with
  | nil => rfl
  | cons next others => simp [h]

/-- The blank in front stands for its whole run. -/
theorem mergeBlanks_blank {blank : Token} (h : blank.kind = .whitespace) (rest : List Token) :
    ∃ merged : Token, merged.kind = .whitespace ∧ merged.span.start = blank.span.start ∧
      mergeBlanks (blank :: rest) = merged :: mergeBlanks (skipBlanks rest) := by
  induction rest generalizing blank with
  | nil => exact ⟨blank, h, rfl, rfl⟩
  | cons next rest ih =>
      by_cases hnext : next.kind = .whitespace
      · obtain ⟨merged, hmerged, -, heq⟩ := ih hnext
        refine ⟨⟨.whitespace, blank.literal ++ merged.literal,
          ⟨blank.span.start, merged.span.stop⟩⟩, rfl, rfl, ?_⟩
        rw [mergeBlanks, heq, skipBlanks_blank hnext]
        simp only [h, hmerged, and_self, if_true]
      · refine ⟨blank, h, rfl, ?_⟩
        rw [mergeBlanks, skipBlanks_cons hnext, mergeBlanks_solid hnext]
        simp only [hnext, and_false, if_false]

theorem found_of_blank {b b' : Token} (hb : b.kind = .whitespace) (hb' : b'.kind = .whitespace)
    (h : b'.span.start = b.span.start) : View.exact.found b = View.exact.found b' := by
  unfold View.found
  rw [if_pos hb, if_pos hb', h]

/-- The layout in which blanks may be merged and all other tokens stay as they are. -/
def blankLayout : Layout where
  toRewording := .inPlace id id (fun _ => rfl) (fun _ => rfl) (fun _ _ => .rfl) (fun _ _ => rfl)
    fun _ _ => rfl
  Same t t' := View.exact.found t = View.exact.found t'
  same_token _ := rfl

theorem laid_mergeBlanks (tokens : List Token) : blankLayout.Laid tokens (mergeBlanks tokens) := by
  induction hlength : tokens.length using Nat.strongRecOn generalizing tokens with
  | ind n ih =>
    cases tokens with
    | nil => exact .nil
    | cons token rest =>
        rw [List.length_cons] at hlength
        by_cases htoken : token.kind = .whitespace
        · obtain ⟨merged, hmerged, hstart, heq⟩ := mergeBlanks_blank htoken rest
          have hfewer := length_skipBlanks_le rest
          have hrest := (ih _ (by omega) (skipBlanks rest) rfl).skip
          rw [skipBlanks_skipBlanks] at hrest
          rw [heq]
          exact .blank htoken hmerged (found_of_blank htoken hmerged hstart) hstart hrest
        · rw [mergeBlanks_solid htoken]
          exact .solid htoken (ih _ (by omega) rest rfl)

/-! ## Labels -/

/-- Several blanks stand in front of a name and a colon, so that the label is not seen. -/
def hidesLabel : List Token -> Bool
  | first :: second :: rest =>
      first.kind == .whitespace && second.kind == .whitespace &&
        match skipBlanks rest with
        | name :: colon :: _ => name.kind == .identifier && colon.kind == .colon
        | _ => false
  | _ => false

theorem kind_of_skipBlanks_ne {first : Token} {rest : List Token}
    (h : skipBlanks (first :: rest) ≠ first :: rest) : first.kind = .whitespace := by
  by_cases hblank : first.kind = .whitespace
  · exact hblank
  · exact absurd (skipBlanks_cons hblank rest) h

theorem labelInFront?_of_blanks {tokens : List Token} (h : skipBlanks tokens ≠ tokens) :
    labelInFront? tokens = none := by
  cases tokens with
  | nil => rfl
  | cons first rest =>
      cases rest with
      | nil => rfl
      | cons second rest => simp [labelInFront?, kind_of_skipBlanks_ne h]

theorem hidesLabel_blank {blank : Token} (hblank : blank.kind = .whitespace) {rest : List Token}
    (h : skipBlanks rest ≠ rest) :
    hidesLabel (blank :: rest) = (labelInFront? (skipBlanks rest)).isSome := by
  cases rest with
  | nil => exact absurd rfl h
  | cons second rest =>
      have hsecond := kind_of_skipBlanks_ne h
      rw [skipBlanks_blank hsecond]
      simp only [hidesLabel, hblank, hsecond, beq_self_eq_true, Bool.true_and]
      rcases skipBlanks rest with _ | ⟨name, _ | ⟨colon, tail⟩⟩
      · rfl
      · rfl
      · by_cases hlabel : name.kind = .identifier ∧ colon.kind = .colon
        · simp [labelInFront?, hlabel]
        · simp only [labelInFront?, if_neg hlabel]
          simpa using hlabel

theorem isSome_labelInFront?_mergeBlanks (tokens : List Token) :
    (labelInFront? (mergeBlanks tokens)).isSome = (labelInFront? tokens).isSome := by
  have hlaid := laid_mergeBlanks tokens
  rw [Bool.eq_iff_iff, Option.isSome_iff_exists, Option.isSome_iff_exists]
  constructor
  · rintro ⟨⟨name, behind⟩, hlabel⟩
    obtain ⟨colon, rest, hmerged, -, hname, hcolon⟩ := labelInFront?_eq_some_iff.1 hlabel
    rw [hmerged] at hlaid
    obtain ⟨_, _, rest, rfl, rfl, rfl, -⟩ := hlaid.of_pair (by simp [hname]) (by simp [hcolon])
    exact ⟨_, labelInFront?_eq_some_iff.2 ⟨_, rest, rfl, rfl, hname, hcolon⟩⟩
  · rintro ⟨⟨name, behind⟩, hlabel⟩
    obtain ⟨colon, rest, rfl, -, hname, hcolon⟩ := labelInFront?_eq_some_iff.1 hlabel
    rw [mergeBlanks_solid (by simp [hname]), mergeBlanks_solid (by simp [hcolon])]
    exact ⟨_, labelInFront?_eq_some_iff.2 ⟨colon, _, rfl, rfl, hname, hcolon⟩⟩

theorem showsLabel_mergeBlanks {tokens : List Token} (hseen : hidesLabel tokens = false) :
    showsLabel (mergeBlanks tokens) = showsLabel tokens := by
  cases tokens with
  | nil => rfl
  | cons first rest =>
      by_cases hfirst : first.kind = .whitespace
      · obtain ⟨merged, hmerged, -, heq⟩ := mergeBlanks_blank hfirst rest
        simp only [heq, showsLabel, hmerged, hfirst, isSome_labelInFront?_mergeBlanks]
        by_cases hone : skipBlanks rest = rest
        · rw [hone]
        · rw [hidesLabel_blank hfirst hone] at hseen
          rw [hseen, labelInFront?_of_blanks hone]
          rfl
      · rw [mergeBlanks_solid hfirst, showsLabel, showsLabel, beq_eq_false_iff_ne.2 hfirst]
        rfl

/-! ## Lines that stay as they are -/

namespace BlankLayout

@[simp] theorem token_eq : blankLayout.token = id := rfl

@[simp] theorem body_eq : blankLayout.body = id := rfl

@[simp] theorem alike_iff {a b : Span} : blankLayout.Alike a b ↔ a = b := .rfl

@[simp] theorem expr_eq : blankLayout.expr = id := by
  funext e
  induction e with
  | atom | macroArgument => rfl
  | label fragments => simp [Rewording.expr]
  | unary operator operand ih => simp [Rewording.expr, ih]
  | binary left operator right ihleft ihright => simp [Rewording.expr, ihleft, ihright]
  | round _ inner _ ih | square _ inner _ ih => simp [Rewording.expr, ih]

@[simp] theorem argument_eq : blankLayout.argument = id := by
  funext a
  cases a <;> simp [Rewording.argument]

@[simp] theorem label_eq : blankLayout.label = id := by
  funext l
  simp [Rewording.label]

theorem eq_of_commandLike {a b : Command} (h : blankLayout.CommandLike a b) : b = a := by
  obtain ⟨hname, hextension, harguments, hspan⟩ := h
  cases a
  cases b
  simp_all

theorem eq_of_marginLike {a b : Margin} (h : blankLayout.MarginLike a b) : b = a := by
  obtain ⟨hlabel, hcomment, hspan⟩ := h
  cases a
  cases b
  simp_all

theorem eq_of_macroLike {a b : MacroBlock} (h : blankLayout.MacroLike a b) : b = a := by
  obtain ⟨hkeyword, hname, hbody, hending, hspan⟩ := h
  cases a
  cases b
  simp_all

mutual

theorem eq_of_lineLike {a b : Line} (h : blankLayout.LineLike a b) : b = a := by
  cases h with
  | bare hmargin => rw [eq_of_marginLike hmargin]
  | command hmargin hcommand => rw [eq_of_marginLike hmargin, eq_of_commandLike hcommand]
  | macroBlock hmargin hblock => rw [eq_of_marginLike hmargin, eq_of_macroLike hblock]
  | conditional hmargin hthen helse hspan =>
      rw [eq_of_marginLike hmargin, eq_of_linesLike hthen, eq_of_linesLike helse,
        ← alike_iff.1 hspan]
      simp
  | repetition hmargin hbody hspan =>
      rw [eq_of_marginLike hmargin, eq_of_linesLike hbody, ← alike_iff.1 hspan]
      simp

theorem eq_of_linesLike {a b : List Line} (h : blankLayout.LinesLike a b) : b = a := by
  cases h with
  | nil => rfl
  | cons hline hlines => rw [eq_of_lineLike hline, eq_of_linesLike hlines]

end

theorem error_of_errorLike {errors errors' : List ParseError}
    (h : List.Forall₂ blankLayout.ErrorLike errors errors') :
    errors'.map View.exact.error = errors.map View.exact.error := by
  induction h with
  | nil => rfl
  | cons herror _ ih =>
      rw [List.map_cons, List.map_cons, ih]
      congr 1
      cases herror with
      | unterminatedBlock => rfl
      | unexpectedToken _ h | unknownExtension h | nestingTooDeep h =>
          simp only [View.error, show View.exact.found _ = View.exact.found _ from h]

end BlankLayout

end Concrete

end Asm6502
