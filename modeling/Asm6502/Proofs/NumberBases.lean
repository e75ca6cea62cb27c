import Asm6502.Proofs.NumberValues
import Asm6502.Proofs.TextSpans

/-!
# Bases of number tokens

The kind of a number token names a base, and its first character names one when its value is read.
The two agree unless a second zero behind the first hides from the lexer that a number is octal:
such a token is of the decimal kind and its value is read in base eight.  The ordinals of macro
arguments are read in base ten whatever their first digit is, so they differ from the same number
as a value in the same cases.
-/

namespace Asm6502

open NumberForm

def Token.Kind.form? : Token.Kind -> Option NumberForm
  | .binary => some .binary
  | .octal => some .octal
  | .decimal => some .decimal
  | .hex => some .hex
  | _ => none

/-- A number of the decimal kind that starts with a zero, with a value that takes two digits in base
eight. -/
def Token.HidesOctal (token : Token) (value : Int64) : Prop :=
  token.kind = .decimal ∧ token.literal.toList.head? = some '0' ∧ 8 ≤ value.toInt

/-! ## One base for the digits of another -/

theorem IsFigure.mono {base more digit : Nat} {c : Char} (h : IsFigure base c digit)
    (hle : base ≤ more) : IsFigure more c digit :=
  ⟨Nat.lt_of_lt_of_le h.1 hle, h.2⟩

/-- Octal digits also denote a decimal number, and it is the same one if and only if only the last
of them counts. -/
theorem Denotes.exists_decimal {value : Nat} {digits : List Char} (h : Denotes 8 digits value) :
    ∃ read, Denotes 10 digits read ∧ value ≤ read ∧ (read = value ↔ value < 8) := by
  induction digits generalizing value with
  | nil =>
      rw [denotes_nil] at h
      exact ⟨0, denotes_nil.2 rfl, by omega, by omega⟩
  | cons c rest ih =>
      obtain ⟨digit, octal, hdigit, hoctal, rfl⟩ := denotes_cons.1 h
      obtain ⟨read, hread, hle, hsame⟩ := ih hoctal
      have hless := hdigit.1
      refine ⟨_, denotes_cons.2 ⟨digit, read, hdigit.mono (by decide), hread, rfl⟩, ?_⟩
      rcases Nat.eq_zero_or_pos digit with rfl | hpos
      · simpa using ⟨hle, hsame⟩
      · cases rest with
        | nil =>
            rw [denotes_nil] at hread hoctal
            subst hread hoctal
            simpa using hless
        | cons next others =>
            -- A digit that counts with another behind it counts for more in base ten.
            have hplaces : 8 ^ (next :: others).length < 10 ^ (next :: others).length :=
              Nat.pow_lt_pow_left (by decide) (Nat.succ_ne_zero _)
            have height : 8 ≤ 8 ^ (next :: others).length :=
              Nat.le_self_pow (Nat.succ_ne_zero _) 8
            have hdigits := Nat.mul_lt_mul_of_pos_left hplaces hpos
            have hlarge := Nat.mul_le_mul hpos height
            omega

/-! ## Number tokens -/

/-- A number is read in the form that its kind names, unless it is of the decimal kind and starts
with a zero. -/
theorem Token.Kind.Writes.ofFirst {kind : Token.Kind} {taken : List Char} {form : NumberForm}
    (h : kind.Writes taken) (hform : kind.form? = some form) :
    ofFirst taken.head? = form ∨ kind = .decimal ∧ taken.head? = some '0' := by
  cases kind with
  | binary =>
      cases hform
      rw [h.binary rfl]
      exact .inl rfl
  | octal =>
      cases hform
      rw [h.octal rfl]
      exact .inl rfl
  | hex =>
      cases hform
      rw [h.hex rfl]
      exact .inl rfl
  | decimal =>
      cases hform
      obtain ⟨c, hfirst, hdigit⟩ := h.decimal rfl
      rw [hfirst]
      by_cases hzero : c = '0'
      · exact .inr ⟨rfl, congrArg some hzero⟩
      · refine .inl ?_
        unfold NumberForm.ofFirst
        split
        · next hc => exact absurd hdigit (by rw [Option.some.inj hc]; decide)
        · next hc => exact absurd hdigit (by rw [Option.some.inj hc]; decide)
        · next hc => exact absurd (Option.some.inj hc) hzero
        · rfl
  | _ => cases hform

theorem Token.exists_denotes {token : Token} {form : NumberForm} {value : Int64}
    (hwrites : token.kind.Writes token.literal.toList) (hform : token.kind.form? = some form)
    (hvalue : numberValue? token.literal = some value) :
    ∃ number read : Nat, value.toInt = number ∧
      Denotes form.base (form.digits token.literal.toList) read ∧
      (read = number ↔ ¬ token.HidesOctal value) := by
  obtain ⟨-, number, hnumber, -, hdenotes⟩ := numberValue?_toInt_eq_some_iff.1 (congrArg _ hvalue)
  refine ⟨number, ?_⟩
  rcases hwrites.ofFirst hform with hfirst | ⟨hkind, hzero⟩
  · refine ⟨number, hnumber, hfirst ▸ hdenotes, iff_of_true rfl ?_⟩
    rintro ⟨hkind, hzero, -⟩
    rw [hkind] at hform
    rw [hzero] at hfirst
    cases hform
    cases hfirst
  · rw [hzero] at hdenotes
    obtain ⟨read, hread, hle, hsame⟩ := Denotes.exists_decimal hdenotes
    have hdecimal : form = .decimal := by
      rw [hkind] at hform
      exact (Option.some.inj hform).symm
    subst hdecimal
    refine ⟨read, hnumber, hread, ?_⟩
    simp only [HidesOctal, hkind, hzero, true_and]
    omega

/-- Digits are an ordinal if they stay below 2 to the power of 64. -/
theorem ordinalValue_of_denotes {text : String} {read : Nat}
    (hdenotes : Denotes 10 text.toList read)
    (hne : text.toList ≠ []) : ordinalValue text = if read < 2 ^ 64 then read else 0 := by
  obtain ⟨c, rest, htext⟩ := List.exists_cons_of_ne_nil hne
  rw [htext] at hdenotes
  obtain ⟨digit, hc⟩ := hdenotes.isFigure c List.mem_cons_self
  have hplus : c ≠ '+' := by
    rintro rfl
    exact hc.plain.2 List.mem_cons_self
  rw [denotes_iff_readDigits?] at hdenotes
  unfold ordinalValue
  rw [htext]
  split
  · next hcons => exact absurd (List.cons.inj hcons).1 hplus
  · dsimp only
    rw [hdenotes]
    simp only [List.isEmpty_cons, Bool.false_eq_true, if_false, Option.filter_some,
      decide_eq_true_eq]
    have hpow : Nat.pow 2 64 = 2 ^ 64 := rfl
    rw [hpow]
    split <;> rfl

/-- A number of the decimal kind is the same as an ordinal and as a value, unless it hides that it
is octal. -/
theorem Token.ordinalValue_eq_iff {token : Token} {value : Int64}
    (hwrites : token.kind.Writes token.literal.toList) (hkind : token.kind = .decimal)
    (hvalue : numberValue? token.literal = some value) :
    (ordinalValue token.literal : Int) = value.toInt ↔ ¬ token.HidesOctal value := by
  obtain ⟨number, read, hnumber, hread, hsame⟩ :=
    token.exists_denotes hwrites (congrArg _ hkind) hvalue
  obtain ⟨c, hfirst, -⟩ := hwrites.decimal hkind
  have hne : token.literal.toList ≠ [] := by
    intro hnil
    rw [hnil] at hfirst
    cases hfirst
  have hlimit : value.toInt < 2 ^ 63 := value.toInt_lt
  rw [ordinalValue_of_denotes hread hne]
  split
  · rw [← hsame]
    omega
  · next hlarge =>
    -- Neither the digits nor the default is the value.
    have hhides : token.HidesOctal value := by
      by_contra hplain
      have := hsame.2 hplain
      omega
    have hcounts := hhides.2.2
    refine iff_of_false ?_ (not_not_intro hhides)
    omega

/-! ## Macro arguments -/

namespace Concrete

/-- A decimal number in braces among some tokens, which writes a macro argument. -/
structure Braced (tokens : List Token) (opening number closing : Token) : Prop where
  sublist : [opening, number, closing].Sublist tokens
  opening : opening.kind = .braceLeft
  number : number.kind = .decimal
  closing : closing.kind = .braceRight

theorem Braced.mono {tokens more : List Token} {opening number closing : Token}
    (h : Braced tokens opening number closing) (hsub : tokens.Sublist more) :
    Braced more opening number closing :=
  ⟨h.sublist.trans hsub, h.opening, h.number, h.closing⟩

theorem Expr.Spells.exists_braced {uri : Uri} {e : Expr} {tokens : List Token}
    (h : e.Spells tokens) {ordinal : Nat} {location : Location}
    (hpart : Asm6502.Expr.macroArgument ordinal location ∈ (e.lower uri).parts) :
    ∃ opening number closing, Braced tokens opening number closing ∧
      ordinal = ordinalValue number.literal ∧
      location = ⟨uri, opening.span.union closing.span⟩ := by
  induction h with
  | atom h =>
      exfalso
      revert hpart
      unfold Expr.lower ofAtom
      dsimp only
      split
      · simp [Asm6502.Expr.parts]
      · split
        · simp [Asm6502.Expr.parts]
        · split <;> simp [Asm6502.Expr.parts]
  | @label first others tokens hfirst hjoined =>
      cases others <;> simp [Expr.lower, Asm6502.Expr.parts] at hpart
  | @macroArgument opening number closing hopening hnumber hclosing =>
      simp only [Expr.lower, Asm6502.Expr.parts, List.mem_singleton,
        Asm6502.Expr.macroArgument.injEq] at hpart
      exact ⟨opening, number, closing, ⟨.refl _, hopening, hnumber, hclosing⟩, hpart⟩
  | @unary operator operand tokens _ ih =>
      have hoperand : .macroArgument ordinal location ∈ (operand.lower uri).parts := by
        rw [Expr.lower] at hpart
        split at hpart
        · simpa [Asm6502.Expr.parts] using hpart
        · exact hpart
      obtain ⟨opening, number, closing, hbraced, hwritten⟩ := ih hoperand
      exact ⟨opening, number, closing, hbraced.mono (List.sublist_cons_self operator tokens),
        hwritten⟩
  | @binary left right operator front back _ _ ihleft ihright =>
      have hfront : front.Sublist (front ++ operator :: back) := List.sublist_append_left front _
      have hback : back.Sublist (front ++ operator :: back) :=
        (List.sublist_cons_self operator back).trans (List.sublist_append_right front _)
      have hoperand : .macroArgument ordinal location ∈ (left.lower uri).parts ∨
          .macroArgument ordinal location ∈ (right.lower uri).parts := by
        rw [Expr.lower] at hpart
        split at hpart
        · simpa [Asm6502.Expr.parts] using hpart
        · exact .inl hpart
      rcases hoperand with hoperand | hoperand
      · obtain ⟨opening, number, closing, hbraced, hwritten⟩ := ihleft hoperand
        exact ⟨opening, number, closing, hbraced.mono hfront, hwritten⟩
      · obtain ⟨opening, number, closing, hbraced, hwritten⟩ := ihright hoperand
        exact ⟨opening, number, closing, hbraced.mono hback, hwritten⟩
  | @round first last inner tokens _ _ _ ih | @square first last inner tokens _ _ _ ih =>
      have hsub : tokens.Sublist (first :: tokens ++ [last]) :=
        (List.sublist_append_left tokens [last]).cons first
      have hinner : .macroArgument ordinal location ∈ (inner.lower uri).parts := by
        simpa [Expr.lower, Asm6502.Expr.parts] using hpart
      obtain ⟨opening, number, closing, hbraced, hwritten⟩ := ih hinner
      exact ⟨opening, number, closing, hbraced.mono hsub, hwritten⟩

end Concrete

/-- The kind of a number token and the value of its literal agree on the base of its digits, unless
the number hides that it is octal.  The same holds of a macro argument, which is written with a
decimal number in braces: its ordinal is the value of that number unless the number is such a one.
-/
theorem tokenize_numberBases (text : String) :
    (∀ token ∈ (tokenize text).tokens, ∀ form, token.kind.form? = some form ->
      ∀ value, numberValue? token.literal = some value ->
        (Denotes form.base (form.digits token.literal.toList) value.toInt.toNat ↔
          ¬ token.HidesOctal value)) ∧
    ∀ uri, ∀ line ∈ (Document.ofText text uri).allLines, ∀ e ∈ line.expressions,
      ∀ (ordinal : Nat) (location : Location), .macroArgument ordinal location ∈ e.parts ->
        ∃ opening number closing, Concrete.Braced (tokenize text).tokens opening number closing ∧
          location = ⟨uri, opening.span.union closing.span⟩ ∧
          ∀ value, numberValue? number.literal = some value ->
            ((ordinal : Int) = value.toInt ↔ ¬ number.HidesOctal value) := by
  have hwrites {token : Token} {form : NumberForm} (htoken : token ∈ (tokenize text).tokens)
      (hform : token.kind.form? = some form) : token.kind.Writes token.literal.toList := by
    rcases tokenize_writes text token htoken with hstring | hwrites
    · rw [hstring] at hform
      cases hform
    · exact hwrites
  constructor
  · intro token htoken form hform value hvalue
    obtain ⟨number, read, hnumber, hread, hsame⟩ :=
      token.exists_denotes (hwrites htoken hform) hform hvalue
    rw [← hsame, hnumber, Int.toNat_natCast]
    exact ⟨hread.unique, fun h => h ▸ hread⟩
  · intro uri line hline e he ordinal location hpart
    obtain ⟨c, ⟨taken, hsub, hspells⟩, rfl⟩ :=
      Document.exists_madeOf_of_mem_expressions hline he
    obtain ⟨opening, number, closing, hbraced, rfl, hlocation⟩ := hspells.exists_braced hpart
    refine ⟨opening, number, closing, hbraced.mono hsub, hlocation, fun value hvalue => ?_⟩
    have hnumber : number ∈ (tokenize text).tokens :=
      (hbraced.mono hsub).sublist.subset (by simp)
    exact number.ordinalValue_eq_iff (hwrites hnumber (congrArg _ hbraced.number)) hbraced.number
      hvalue

/-- A number with two zeros in front, as a value and as the ordinal of a macro argument. -/
def leadingZeros : String := "  DC.W 0010,\x7b0010\x7d\n"

theorem tokenize_numberBases_leadingZeros :
    let number : Token := ⟨.decimal, "0010", ⟨⟨0, 7⟩, ⟨0, 11⟩⟩⟩
    number ∈ (tokenize leadingZeros).tokens ∧ number.kind.form? = some .decimal ∧
      numberValue? number.literal = some 8 ∧
      (Denotes 10 number.literal.toList (8 : Int64).toInt.toNat ↔ ¬ number.HidesOctal 8) ∧
    ∃ line ∈ (Document.ofText leadingZeros default).allLines, ∃ e ∈ line.expressions,
      .macroArgument 10 ⟨default, ⟨⟨0, 12⟩, ⟨0, 18⟩⟩⟩ ∈ e.parts ∧
        ∃ opening number closing,
          Concrete.Braced (tokenize leadingZeros).tokens opening number closing ∧
          (⟨default, ⟨⟨0, 12⟩, ⟨0, 18⟩⟩⟩ : Location) =
            ⟨default, opening.span.union closing.span⟩ ∧
          ∀ value, numberValue? number.literal = some value ->
            (((10 : Nat) : Int) = value.toInt ↔ ¬ number.HidesOctal value) := by
  intro number
  obtain ⟨hnumbers, harguments⟩ := tokenize_numberBases leadingZeros
  have hnumber : number ∈ (tokenize leadingZeros).tokens := by decide +kernel
  have hvalue : numberValue? number.literal = some 8 := by decide +kernel
  have hargument : ∃ line ∈ (Document.ofText leadingZeros default).allLines,
      ∃ e ∈ line.expressions, .macroArgument 10 ⟨default, ⟨⟨0, 12⟩, ⟨0, 18⟩⟩⟩ ∈ e.parts := by
    decide +kernel
  obtain ⟨line, hline, e, he, hpart⟩ := hargument
  exact ⟨hnumber, rfl, hvalue, hnumbers number hnumber .decimal rfl 8 hvalue, line, hline, e, he,
    hpart, harguments default line hline e he 10 _ hpart⟩

/-- The number is of the decimal kind and its digits are those of ten, which is what the ordinal is,
but its value is eight. -/
theorem leadingZeros_disagree :
    (⟨.decimal, "0010", ⟨⟨0, 7⟩, ⟨0, 11⟩⟩⟩ : Token) ∈ (tokenize leadingZeros).tokens ∧
      Denotes 10 "0010".toList 10 ∧
      (Document.ofText leadingZeros default).errors = [] ∧
      (Document.ofText leadingZeros default).allLines.flatMap Line.expressions =
        [.number "0010" (some 8) ⟨default, ⟨⟨0, 7⟩, ⟨0, 11⟩⟩⟩,
          .macroArgument 10 ⟨default, ⟨⟨0, 12⟩, ⟨0, 18⟩⟩⟩] := by
  rw [denotes_iff_readDigits?]
  decide +kernel

end Asm6502
