import Asm6502.Token.Number
import Mathlib.Data.List.Forall2
import Mathlib.Data.Nat.Digits.Defs
import Mathlib.Tactic.IntervalCases

/-!
# Number literals and their values

Which texts are number literals, and which numbers they stand for.  A literal has one of four forms,
which its first character decides.  Its digits are figures of the base of the form, and they stand
for a number by their places.
-/

namespace Asm6502

/-! ## Figures and places -/

/-- A character stands for a digit of a base.  The figures above nine are letters of either case. -/
def IsFigure (base : Nat) (c : Char) (digit : Nat) : Prop :=
  digit < base ∧
    ("0123456789abcdef".toList[digit]? = some c ∨ "0123456789ABCDEF".toList[digit]? = some c)

/-- Digits that stand for a number by their places, the last one for the ones. -/
def Denotes (base : Nat) (digits : List Char) (value : Nat) : Prop :=
  ∃ places, List.Forall₂ (IsFigure base) digits places ∧ value = Nat.ofDigits base places.reverse

theorem IsFigure.lt_sixteen {base digit : Nat} {c : Char} (h : IsFigure base c digit) :
    digit < 16 := by
  by_contra hlarge
  obtain ⟨-, h⟩ := h
  rw [List.getElem?_eq_none (by simpa using hlarge),
    List.getElem?_eq_none (by simpa using hlarge)] at h
  rcases h with h | h <;> cases h

theorem digitValue?_eq_some_iff {base digit : Nat} {c : Char} :
    digitValue? base c = some digit ↔ IsFigure base c digit := by
  have hle {a b : Char} : a ≤ b ↔ a.toNat ≤ b.toNat := Iff.rfl
  simp only [digitValue?, Option.filter_eq_some_iff, decide_eq_true_eq, hle, Char.reduceToNat]
  constructor
  · rintro ⟨h, hbase⟩
    have hrange : 48 ≤ c.toNat ∧ c.toNat ≤ 57 ∧ digit = c.toNat - 48 ∨
        97 ≤ c.toNat ∧ c.toNat ≤ 102 ∧ digit = c.toNat - 87 ∨
        65 ≤ c.toNat ∧ c.toNat ≤ 70 ∧ digit = c.toNat - 55 := by
      grind
    refine ⟨hbase, ?_⟩
    rw [← Char.ofNat_toNat c]
    generalize c.toNat = code at hrange
    rcases hrange with ⟨hlow, hhigh, rfl⟩ | ⟨hlow, hhigh, rfl⟩ | ⟨hlow, hhigh, rfl⟩ <;>
      interval_cases code <;> decide
  · intro h
    have hdigit := h.lt_sixteen
    obtain ⟨hbase, h⟩ := h
    refine ⟨?_, hbase⟩
    rcases h with h | h <;> interval_cases digit <;> cases h <;> rfl

theorem denotes_nil {base value : Nat} : Denotes base [] value ↔ value = 0 := by
  simp [Denotes]

theorem denotes_cons {base value : Nat} {c : Char} {rest : List Char} :
    Denotes base (c :: rest) value ↔ ∃ digit read, IsFigure base c digit ∧ Denotes base rest read ∧
      value = digit * base ^ rest.length + read := by
  constructor
  · rintro ⟨places, hplaces, rfl⟩
    obtain ⟨digit, others, hdigit, hothers, rfl⟩ := List.forall₂_cons_left_iff.1 hplaces
    refine ⟨digit, _, hdigit, ⟨others, hothers, rfl⟩, ?_⟩
    rw [List.reverse_cons, Nat.ofDigits_append, Nat.ofDigits_singleton, List.length_reverse,
      ← hothers.length_eq, Nat.add_comm, Nat.mul_comm]
  · rintro ⟨digit, -, hdigit, ⟨others, hothers, rfl⟩, rfl⟩
    refine ⟨digit :: others, .cons hdigit hothers, ?_⟩
    rw [List.reverse_cons, Nat.ofDigits_append, Nat.ofDigits_singleton, List.length_reverse,
      ← hothers.length_eq, Nat.add_comm, Nat.mul_comm]

theorem Denotes.snoc {base value digit : Nat} {c : Char} {digits : List Char}
    (h : Denotes base digits value) (hdigit : IsFigure base c digit) :
    Denotes base (digits ++ [c]) (base * value + digit) := by
  obtain ⟨places, hplaces, rfl⟩ := h
  refine ⟨places ++ [digit], List.rel_append hplaces (.cons hdigit .nil), ?_⟩
  rw [List.reverse_append, List.reverse_singleton, List.singleton_append, Nat.ofDigits_cons,
    Nat.add_comm]

/-- Reading on from a number moves it up by as many places as there are digits. -/
theorem readDigits?_eq_some_iff {base start value : Nat} {digits : List Char} :
    readDigits? base start digits = some value ↔
      ∃ read, Denotes base digits read ∧ value = start * base ^ digits.length + read := by
  induction digits generalizing start with
  | nil => simp [readDigits?, denotes_nil, eq_comm]
  | cons c rest ih =>
      have hplaces (digit read : Nat) : (start * base + digit) * base ^ rest.length + read =
          start * base ^ (rest.length + 1) + (digit * base ^ rest.length + read) := by ring
      simp only [readDigits?, Option.bind_eq_bind, Option.bind_eq_some_iff,
        digitValue?_eq_some_iff, ih, hplaces, denotes_cons, List.length_cons]
      constructor
      · rintro ⟨digit, hdigit, read, hread, rfl⟩
        exact ⟨_, ⟨digit, read, hdigit, hread, rfl⟩, rfl⟩
      · rintro ⟨-, ⟨digit, read, hdigit, hread, rfl⟩, rfl⟩
        exact ⟨digit, hdigit, read, hread, rfl⟩

theorem denotes_iff_readDigits? {base value : Nat} {digits : List Char} :
    Denotes base digits value ↔ readDigits? base 0 digits = some value := by
  simp [readDigits?_eq_some_iff]

theorem Denotes.unique {base value other : Nat} {digits : List Char}
    (h : Denotes base digits value) (hother : Denotes base digits other) : value = other :=
  Option.some.inj ((denotes_iff_readDigits?.1 h).symm.trans (denotes_iff_readDigits?.1 hother))

/-! ## Writing numbers -/

theorem isFigure_digitChar {base digit : Nat} (hbase : base ≤ 16) (hdigit : digit < base) :
    IsFigure base digit.digitChar digit := by
  refine ⟨hdigit, .inl ?_⟩
  have hsmall : digit < 16 := by omega
  interval_cases digit <;> rfl

theorem denotes_toDigits {base : Nat} (htwo : 1 < base) (hbase : base ≤ 16) (value : Nat) :
    Denotes base (Nat.toDigits base value) value := by
  induction value using Nat.strongRecOn with
  | ind value ih =>
      rw [Nat.toDigits_eq_if htwo]
      split
      · next hsmall =>
        have h := (denotes_nil.2 rfl).snoc (isFigure_digitChar hbase hsmall)
        rwa [List.nil_append, Nat.mul_zero, Nat.zero_add] at h
      · next hlarge =>
        have hless : value / base < value := Nat.div_lt_self (by omega) htwo
        have h := (ih _ hless).snoc (isFigure_digitChar hbase (Nat.mod_lt value (by omega)))
        rwa [Nat.div_add_mod] at h

/-- No number but zero is written with a zero in front. -/
theorem head?_toDigits_ne {base value : Nat} (htwo : 1 < base) (hbase : base ≤ 16)
    (hvalue : 0 < value) :
    (Nat.toDigits base value).head? ≠ some '0' := by
  induction value using Nat.strongRecOn with
  | ind value ih =>
      rw [Nat.toDigits_eq_if htwo]
      split
      · next hsmall =>
        have hdigit : value < 16 := by omega
        interval_cases value <;> decide
      · next hlarge =>
        have hless : value / base < value := Nat.div_lt_self hvalue htwo
        have hpos : 0 < value / base := Nat.div_pos (by omega) (by omega)
        rw [List.head?_append_of_ne_nil _ Nat.toDigits_ne_nil]
        exact ih _ hless hpos

/-! ## Forms of literals -/

inductive NumberForm where
  | binary
  | octal
  | decimal
  | hex
deriving DecidableEq, Repr

namespace NumberForm

def base : NumberForm -> Nat
  | binary => 2
  | octal => 8
  | decimal => 10
  | hex => 16

def sign : NumberForm -> List Char
  | binary => ['%']
  | octal => ['0']
  | decimal => []
  | hex => ['$']

/-- The digits of a literal.  The zero that makes a number octal is one of them. -/
def digits : NumberForm -> List Char -> List Char
  | binary, text | hex, text => text.drop 1
  | octal, text | decimal, text => text

def ofFirst : Option Char -> NumberForm
  | some '%' => binary
  | some '$' => hex
  | some '0' => octal
  | _ => decimal

/-- A number as written in a form, without needless zeros. -/
def write (form : NumberForm) (value : Nat) : String :=
  String.ofList (form.sign ++ Nat.toDigits form.base value)

theorem one_lt_base (form : NumberForm) : 1 < form.base := by
  cases form <;> decide

theorem base_le_sixteen (form : NumberForm) : form.base ≤ 16 := by
  cases form <;> decide

theorem baseAndDigits_eq (text : List Char) :
    baseAndDigits text = ((ofFirst text.head?).base, (ofFirst text.head?).digits text) := by
  unfold baseAndDigits
  split
  · rfl
  · rfl
  · rfl
  · next hbinary hhex hoctal =>
    have hdecimal : ofFirst text.head? = decimal := by
      unfold ofFirst
      split
      · next h =>
        obtain ⟨rest, rfl⟩ := List.head?_eq_some_iff.1 h
        exact absurd rfl (hbinary rest)
      · next h =>
        obtain ⟨rest, rfl⟩ := List.head?_eq_some_iff.1 h
        exact absurd rfl (hhex rest)
      · next h =>
        obtain ⟨rest, rfl⟩ := List.head?_eq_some_iff.1 h
        exact absurd rfl (hoctal rest)
      · rfl
    rw [hdecimal]
    rfl

end NumberForm

open NumberForm

/-- A literal has a value if its digits denote a number that fits into 64 bits with a sign. -/
theorem numberValue?_toInt_eq_some_iff {text : String} {value : Int} :
    (numberValue? text).map Int64.toInt = some value ↔
      (ofFirst text.toList.head?).digits text.toList ≠ [] ∧
      ∃ number : Nat, value = number ∧ number ≤ 2 ^ 63 - 1 ∧
        Denotes (ofFirst text.toList.head?).base
          ((ofFirst text.toList.head?).digits text.toList) number := by
  simp only [numberValue?, baseAndDigits_eq, denotes_iff_readDigits?]
  generalize (ofFirst text.toList.head?).digits text.toList = digits
  generalize readDigits? _ 0 digits = read
  have hpow : Nat.pow 2 63 = 2 ^ 63 := rfl
  cases digits with
  | nil => simp
  | cons c rest =>
      simp only [List.isEmpty_cons, Bool.false_eq_true, if_false, ne_eq, reduceCtorEq,
        not_false_eq_true, true_and, hpow]
      cases read with
      | none => simp
      | some number =>
          dsimp only
          constructor
          · intro h
            split at h
            · next hfits =>
              rw [Option.map_some, Int64.toInt_ofNat_of_lt hfits, Option.some.injEq] at h
              exact ⟨number, h.symm, by omega, rfl⟩
            · cases h
          · rintro ⟨read, rfl, hfits, hread⟩
            have hless : number < 2 ^ 63 := by
              rw [Option.some.inj hread]
              omega
            rw [if_pos hless, Option.map_some, Int64.toInt_ofNat_of_lt hless, Option.some.inj hread]

/-! ## Characters of literals -/

/-- A figure is a letter or a numeral. -/
theorem IsFigure.plain {base digit : Nat} {c : Char} (h : IsFigure base c digit) :
    c.toNat < 128 ∧ c ∉ ['+', '-', '_', '%', '$'] := by
  have hdigit := h.lt_sixteen
  obtain ⟨-, h⟩ := h
  rcases h with h | h <;> interval_cases digit <;> cases h <;> decide

theorem Denotes.isFigure {base value : Nat} {digits : List Char} (h : Denotes base digits value) :
    ∀ c ∈ digits, ∃ digit, IsFigure base c digit := by
  obtain ⟨places, hplaces, -⟩ := h
  intro c hc
  obtain ⟨i, hi, rfl⟩ := List.getElem_of_mem hc
  exact ⟨_, hplaces.get hi (hplaces.length_eq ▸ hi)⟩

namespace NumberForm

/-- Only the sign in front of a literal is not a digit. -/
theorem mem_of_ofFirst {text : List Char} {c : Char} (h : c ∈ text) :
    c ∈ ['%', '$'] ∨ c ∈ (ofFirst text.head?).digits text := by
  cases text with
  | nil => cases h
  | cons first rest =>
      rcases List.mem_cons.1 h with rfl | h
      · unfold ofFirst
        split
        · next hfirst => exact .inl (by rw [Option.some.inj hfirst]; decide)
        · next hfirst => exact .inl (by rw [Option.some.inj hfirst]; decide)
        · exact .inr List.mem_cons_self
        · exact .inr List.mem_cons_self
      · cases ofFirst (first :: rest).head? with
        | binary | hex => exact .inr h
        | octal | decimal => exact .inr (List.mem_cons_of_mem _ h)

theorem ofFirst_eq_decimal {base digit : Nat} {c : Char} (h : IsFigure base c digit)
    (hzero : c ≠ '0') : ofFirst (some c) = decimal := by
  have hplain := h.plain.2
  unfold ofFirst
  split
  · next hc => exact absurd hplain (by rw [Option.some.inj hc]; decide)
  · next hc => exact absurd hplain (by rw [Option.some.inj hc]; decide)
  · next hc => exact absurd (Option.some.inj hc) hzero
  · rfl

/-- Digits behind the sign of their form are read in that form, except for zero, which reads alike
in every form. -/
theorem denotes_write (form : NumberForm) (value : Nat) :
    (ofFirst (form.write value).toList.head?).digits (form.write value).toList ≠ [] ∧
      Denotes (ofFirst (form.write value).toList.head?).base
        ((ofFirst (form.write value).toList.head?).digits (form.write value).toList) value := by
  have hdigits := denotes_toDigits form.one_lt_base form.base_le_sixteen value
  have hne : Nat.toDigits form.base value ≠ [] := Nat.toDigits_ne_nil
  rw [write, String.toList_ofList]
  cases form with
  | binary | hex => exact ⟨hne, hdigits⟩
  | octal =>
      have hzero : IsFigure 8 '0' 0 := ⟨by decide, .inl rfl⟩
      refine ⟨List.cons_ne_nil _ _, denotes_cons.2 ⟨0, value, hzero, hdigits, ?_⟩⟩
      rw [Nat.zero_mul, Nat.zero_add]
  | decimal =>
      rcases Nat.eq_zero_or_pos value with rfl | hpos
      · exact ⟨by decide, denotes_iff_readDigits?.2 (by decide)⟩
      · obtain ⟨c, rest, hcons⟩ := List.exists_cons_of_ne_nil hne
        have hfirst := head?_toDigits_ne decimal.one_lt_base decimal.base_le_sixteen hpos
        rw [hcons] at hdigits hfirst
        obtain ⟨digit, hc⟩ := hdigits.isFigure c List.mem_cons_self
        have hform : ofFirst (c :: rest).head? = decimal :=
          ofFirst_eq_decimal hc fun hzero => hfirst (congrArg some hzero)
        rw [hcons, sign, List.nil_append, hform]
        exact ⟨List.cons_ne_nil _ _, hdigits⟩

end NumberForm

/-- A text is a number literal if and only if its digits, which are figures of the base that its
first character names, denote a number that fits.  So no literal has a sign in front, a digit of
another script or a line between its digits, none is negative, and a number is read as it was
written in any form. -/
theorem numberValue?_reads_literals :
    (∀ (text : String) (value : Int), (numberValue? text).map Int64.toInt = some value ↔
      (ofFirst text.toList.head?).digits text.toList ≠ [] ∧
      ∃ number : Nat, value = number ∧ number ≤ 2 ^ 63 - 1 ∧
        Denotes (ofFirst text.toList.head?).base
          ((ofFirst text.toList.head?).digits text.toList) number) ∧
    (∀ text value, numberValue? text = some value -> 0 ≤ value.toInt ∧
      ∀ c ∈ text.toList, c.toNat < 128 ∧ c ∉ ['+', '-', '_']) ∧
    ∀ (form : NumberForm) (number : Nat), number ≤ 2 ^ 63 - 1 ->
      (numberValue? (form.write number)).map Int64.toInt = some (number : Int) := by
  refine ⟨fun text value => numberValue?_toInt_eq_some_iff, fun text value h => ?_,
    fun form number h => ?_⟩
  · obtain ⟨-, number, hvalue, -, hdigits⟩ := numberValue?_toInt_eq_some_iff.1 (congrArg _ h)
    refine ⟨by omega, fun c hc => ?_⟩
    rcases mem_of_ofFirst hc with hc | hc
    · have hsigns : ∀ c ∈ ['%', '$'], c.toNat < 128 ∧ c ∉ ['+', '-', '_'] := by simp
      exact hsigns c hc
    · obtain ⟨digit, hfigure⟩ := hdigits.isFigure c hc
      obtain ⟨hcode, hplain⟩ := hfigure.plain
      exact ⟨hcode, fun hsign => hplain (List.mem_append_left ['%', '$'] hsign)⟩
  · obtain ⟨hdigits, hwritten⟩ := form.denotes_write number
    exact numberValue?_toInt_eq_some_iff.2 ⟨hdigits, number, rfl, h, hwritten⟩

theorem numberValue?_reads_largest :
    (numberValue? "$fF" = some 255 ∧ 0 ≤ (255 : Int64).toInt ∧
      ∀ c ∈ "$fF".toList, c.toNat < 128 ∧ c ∉ ['+', '-', '_']) ∧
    2 ^ 63 - 1 ≤ 2 ^ 63 - 1 ∧
      (numberValue? (NumberForm.octal.write (2 ^ 63 - 1))).map Int64.toInt =
        some ((2 ^ 63 - 1 : Nat) : Int) :=
  have hliteral : numberValue? "$fF" = some 255 := by decide
  ⟨⟨hliteral, numberValue?_reads_literals.2.1 "$fF" 255 hliteral⟩, Nat.le_refl _,
    numberValue?_reads_literals.2.2 .octal (2 ^ 63 - 1) (Nat.le_refl _)⟩

end Asm6502
