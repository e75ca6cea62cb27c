import Asm6502.Check
import Asm6502.Proofs.WordArithmetic

/-!
# Exact values of expressions

What an expression is worth in the integers, by rules on its operators and on the constants that it
names.  Its value in words is found exactly when every part that it needs, also through constants,
has a value that fits into a word.  It is then the exact value, unless some shift to the left does
not fit: such a shift is not given up but loses bits.
-/

namespace Asm6502.Program

/-! ## The rules -/

/-- A name that stands for a constant, and the expression that its first definition gives it. -/
structure NamesConstant (program : Program) (id : Identifier) (value : Expr) : Prop where
  no_counter : id.programCounter = false
  label : ∃ label, program.symbols.labelAt? id.location = some label ∧ label.isConstant = true ∧
    label.isVariable = false ∧ label.value = some value

/-- The integer that an expression is worth, with a given meaning of the operators between two
values. -/
inductive Worth (program : Program) (between : BinaryOp -> Int -> Int -> Option Int) :
    Expr -> Int -> Prop where
  | number {text : String} {v : Int64} {location : Location} :
      Worth program between (.number text (some v) location) v.toInt
  | char {c : Char} {location : Location} : Worth program between (.char c location) c.toNat
  | constant {id : Identifier} {value : Expr} {n : Int} (hname : program.NamesConstant id value)
      (h : Worth program between value n) : Worth program between (.identifier id) n
  | brackets {kind : BracketKind} {inner : Expr} {location : Location} {n : Int}
      (h : Worth program between inner n) :
      Worth program between (.brackets kind inner location) n
  | unary {op : UnaryOp} {operand : Expr} {location : Location} {a : Int}
      (h : Worth program between operand a) :
      Worth program between (.unary op operand location) (op.onInts a)
  | binary {op : BinaryOp} {left right : Expr} {location : Location} {a b n : Int}
      (hleft : Worth program between left a) (hright : Worth program between right b)
      (h : between op a b = some n) : Worth program between (.binary op left right location) n

/-- The expressions on which the value of an expression rests, each with the number of constants
through which it is reached. -/
inductive Needs (program : Program) : Expr -> Nat -> Expr -> Prop where
  | refl (e : Expr) : Needs program e 0 e
  | constant {id : Identifier} {value part : Expr} {depth : Nat}
      (hname : program.NamesConstant id value) (h : Needs program value depth part) :
      Needs program (.identifier id) (depth + 1) part
  | brackets {kind : BracketKind} {inner part : Expr} {location : Location} {depth : Nat}
      (h : Needs program inner depth part) :
      Needs program (.brackets kind inner location) depth part
  | operand {op : UnaryOp} {operand part : Expr} {location : Location} {depth : Nat}
      (h : Needs program operand depth part) :
      Needs program (.unary op operand location) depth part
  | left {op : BinaryOp} {left right part : Expr} {location : Location} {depth : Nat}
      (h : Needs program left depth part) :
      Needs program (.binary op left right location) depth part
  | right {op : BinaryOp} {left right part : Expr} {location : Location} {depth : Nat}
      (h : Needs program right depth part) :
      Needs program (.binary op left right location) depth part

variable {program : Program} {between : BinaryOp -> Int -> Int -> Option Int}

theorem constant?_eq_some_iff {id : Identifier} {value : Expr} :
    program.constant? id = some value ↔ program.NamesConstant id value := by
  constructor
  · intro h
    unfold constant? at h
    split at h
    next => cases h
    next hcounter =>
      obtain ⟨label, hlabel, hvalue⟩ := Option.bind_eq_some_iff.1 h
      split at hvalue
      next hkind =>
        rw [Bool.and_eq_true, Bool.not_eq_true'] at hkind
        exact ⟨Bool.not_eq_true _ ▸ hcounter, label, hlabel, hkind.1, hkind.2, hvalue⟩
      next => cases hvalue
  · rintro ⟨hcounter, label, hlabel, hconstant, hvariable, hvalue⟩
    simp [constant?, hcounter, hlabel, hconstant, hvariable, hvalue]

theorem NamesConstant.unique {id : Identifier} {value other : Expr}
    (h : program.NamesConstant id value) (hother : program.NamesConstant id other) :
    value = other :=
  Option.some.inj ((constant?_eq_some_iff.2 h).symm.trans (constant?_eq_some_iff.2 hother))

/-- An expression is worth one integer at most. -/
theorem Worth.unique {e : Expr} {n m : Int} (h : program.Worth between e n)
    (hother : program.Worth between e m) : n = m := by
  induction h generalizing m with
  | number => cases hother; rfl
  | char => cases hother; rfl
  | constant hname _ ih =>
      cases hother with
      | constant hname' h' =>
          rw [← hname.unique hname'] at h'
          exact ih h'
  | brackets _ ih =>
      cases hother with
      | brackets h' => exact ih h'
  | unary _ ih =>
      cases hother with
      | unary h' => rw [ih h']
  | binary _ _ h ihleft ihright =>
      cases hother with
      | binary hleft' hright' h' =>
          rw [ihleft hleft', ihright hright', h'] at h
          exact (Option.some.inj h).symm

theorem Needs.trans {e part inner : Expr} {depth more : Nat} (h : program.Needs e depth part)
    (hinner : program.Needs part more inner) : program.Needs e (depth + more) inner := by
  induction h with
  | refl => rwa [Nat.zero_add]
  | @constant _ _ _ depth hname _ ih =>
      rw [Nat.add_right_comm]
      exact .constant hname (ih hinner)
  | brackets _ ih => exact .brackets (ih hinner)
  | operand _ ih => exact .operand (ih hinner)
  | left _ ih => exact .left (ih hinner)
  | right _ ih => exact .right (ih hinner)

/-! ## Values that fit -/

/-- An expression with a value whose parts, as far as they are needed, all fit into words and are
reached on so many levels. -/
structure FitsOn (program : Program) (levels : Nat) (e : Expr) (n : Int) : Prop where
  worth : program.Worth BinaryOp.onWords? e n
  parts : ∀ depth part, program.Needs e depth part ->
    depth < levels ∧ ∃ m, program.Worth BinaryOp.onWords? part m ∧ InWord m

namespace FitsOn

variable {levels : Nat} {e : Expr} {n : Int}

theorem inWord (h : program.FitsOn levels e n) : InWord n := by
  obtain ⟨-, m, hworth, hm⟩ := h.parts 0 e (.refl e)
  rwa [h.worth.unique hworth]

theorem levels_pos (h : program.FitsOn levels e n) : 0 < levels :=
  (h.parts 0 e (.refl e)).1

theorem exists_word (h : program.FitsOn levels e n) : ∃ v : Int64, v.toInt = n :=
  ⟨Int64.ofInt n, toInt_ofInt h.inWord⟩

/-- An expression fits if its value does and all that it needs besides itself. -/
theorem of_parts (hworth : program.Worth BinaryOp.onWords? e n) (hn : InWord n)
    (hlevels : 0 < levels)
    (hparts : ∀ depth part, program.Needs e depth part -> (depth = 0 ∧ part = e) ∨
      depth < levels ∧ ∃ m, program.Worth BinaryOp.onWords? part m ∧ InWord m) :
    program.FitsOn levels e n := by
  refine ⟨hworth, fun depth part hneeds => ?_⟩
  rcases hparts depth part hneeds with ⟨rfl, rfl⟩ | hpart
  · exact ⟨hlevels, n, hworth, hn⟩
  · exact hpart

end FitsOn

section Rules

variable {levels : Nat} {n : Int}

variable {location : Location}

theorem inWord_char (c : Char) : InWord c.toNat := by
  have hsize : c.toNat < 2 ^ 32 := c.val.toNat_lt
  unfold InWord
  omega

theorem fitsOn_number_iff {text : String} {v : Int64} :
    program.FitsOn (levels + 1) (.number text (some v) location) n ↔ v.toInt = n := by
  constructor
  · rintro ⟨hworth, -⟩
    cases hworth
    rfl
  · rintro rfl
    refine .of_parts .number (inWord_toInt v) levels.succ_pos fun depth part hneeds => ?_
    cases hneeds
    exact .inl ⟨rfl, rfl⟩

theorem fitsOn_char_iff {c : Char} :
    program.FitsOn (levels + 1) (.char c location) n ↔ (c.toNat : Int) = n := by
  constructor
  · rintro ⟨hworth, -⟩
    cases hworth
    rfl
  · rintro rfl
    refine .of_parts .char (inWord_char c) levels.succ_pos fun depth part hneeds => ?_
    cases hneeds
    exact .inl ⟨rfl, rfl⟩

theorem fitsOn_identifier_iff {id : Identifier} :
    program.FitsOn (levels + 1) (.identifier id) n ↔
      ∃ value, program.NamesConstant id value ∧ program.FitsOn levels value n := by
  constructor
  · rintro ⟨hworth, hparts⟩
    cases hworth with
    | constant hname h =>
        refine ⟨_, hname, h, fun depth part hneeds => ?_⟩
        obtain ⟨hdepth, hpart⟩ := hparts _ _ (.constant hname hneeds)
        exact ⟨Nat.lt_of_succ_lt_succ hdepth, hpart⟩
  · rintro ⟨value, hname, hfits⟩
    refine .of_parts (.constant hname hfits.worth) hfits.inWord levels.succ_pos
      fun depth part hneeds => ?_
    cases hneeds with
    | refl => exact .inl ⟨rfl, rfl⟩
    | constant hname' hneeds =>
        rw [← hname.unique hname'] at hneeds
        obtain ⟨hdepth, hpart⟩ := hfits.parts _ _ hneeds
        exact .inr ⟨Nat.succ_lt_succ hdepth, hpart⟩

theorem fitsOn_brackets_iff {kind : BracketKind} {inner : Expr} :
    program.FitsOn levels (.brackets kind inner location) n ↔ program.FitsOn levels inner n := by
  constructor
  · rintro ⟨hworth, hparts⟩
    cases hworth with
    | brackets h => exact ⟨h, fun depth part hneeds => hparts _ _ (.brackets hneeds)⟩
  · intro hfits
    refine .of_parts (.brackets hfits.worth) hfits.inWord hfits.levels_pos
      fun depth part hneeds => ?_
    cases hneeds with
    | refl => exact .inl ⟨rfl, rfl⟩
    | brackets hneeds => exact .inr (hfits.parts _ _ hneeds)

theorem fitsOn_unary_iff {op : UnaryOp} {operand : Expr} :
    program.FitsOn levels (.unary op operand location) n ↔
      ∃ a, program.FitsOn levels operand a ∧ op.onInts a = n ∧ InWord n := by
  constructor
  · intro hfits
    have hn := hfits.inWord
    obtain ⟨hworth, hparts⟩ := hfits
    cases hworth with
    | unary h => exact ⟨_, ⟨h, fun depth part hneeds => hparts _ _ (.operand hneeds)⟩, rfl, hn⟩
  · rintro ⟨a, hfits, rfl, hn⟩
    refine .of_parts (.unary hfits.worth) hn hfits.levels_pos fun depth part hneeds => ?_
    cases hneeds with
    | refl => exact .inl ⟨rfl, rfl⟩
    | operand hneeds => exact .inr (hfits.parts _ _ hneeds)

theorem fitsOn_binary_iff {op : BinaryOp} {left right : Expr} :
    program.FitsOn levels (.binary op left right location) n ↔
      ∃ a b, program.FitsOn levels left a ∧ program.FitsOn levels right b ∧
        op.onWords? a b = some n ∧ InWord n := by
  constructor
  · intro hfits
    have hn := hfits.inWord
    obtain ⟨hworth, hparts⟩ := hfits
    cases hworth with
    | binary hleft hright h =>
        exact ⟨_, _, ⟨hleft, fun depth part hneeds => hparts _ _ (.left hneeds)⟩,
          ⟨hright, fun depth part hneeds => hparts _ _ (.right hneeds)⟩, h, hn⟩
  · rintro ⟨a, b, hleft, hright, h, hn⟩
    refine .of_parts (.binary hleft.worth hright.worth h) hn hleft.levels_pos
      fun depth part hneeds => ?_
    cases hneeds with
    | refl => exact .inl ⟨rfl, rfl⟩
    | left hneeds => exact .inr (hleft.parts _ _ hneeds)
    | right hneeds => exact .inr (hright.parts _ _ hneeds)

end Rules

/-! ## Values that are found -/

section Equations

variable {levels : Nat}

theorem valueOn?_identifier (id : Identifier) :
    program.valueOn? (levels + 1) (.identifier id) =
      (program.constant? id).bind fun value => program.valueOn? levels value :=
  rfl

theorem valueOn?_brackets (kind : BracketKind) (inner : Expr) (location : Location) :
    program.valueOn? (levels + 1) (.brackets kind inner location) =
      program.valueOn? (levels + 1) inner :=
  rfl

theorem valueOn?_unary (op : UnaryOp) (operand : Expr) (location : Location) :
    program.valueOn? (levels + 1) (.unary op operand location) =
      (program.valueOn? (levels + 1) operand).bind op.apply? :=
  rfl

theorem valueOn?_binary (op : BinaryOp) (left right : Expr) (location : Location) :
    program.valueOn? (levels + 1) (.binary op left right location) =
      (program.valueOn? (levels + 1) left).bind fun a =>
        (program.valueOn? (levels + 1) right).bind fun b => op.apply? a b :=
  rfl

end Equations

theorem valueOn?_eq_some_iff {levels : Nat} {e : Expr} {v : Int64} :
    program.valueOn? levels e = some v ↔ program.FitsOn levels e v.toInt := by
  induction levels generalizing e v with
  | zero => exact ⟨nofun, fun h => absurd h.levels_pos (Nat.lt_irrefl 0)⟩
  | succ levels ih =>
      induction e generalizing v with
      | number text value location =>
          cases value with
          | none => exact ⟨nofun, fun h => nomatch h.worth⟩
          | some w =>
              rw [fitsOn_number_iff, Int64.toInt_inj]
              exact Option.some_inj
      | char c location =>
          have hvalue : fit? c.toNat = some (Int64.ofNat c.toNat) := by
            rw [fit?_eq, if_pos (inWord_char c)]
            rfl
          rw [fitsOn_char_iff, @eq_comm Int, ← fit?_eq_some_iff, hvalue]
          rfl
      | identifier id =>
          rw [valueOn?_identifier, fitsOn_identifier_iff, Option.bind_eq_some_iff]
          simp only [constant?_eq_some_iff, ih]
      | brackets kind inner location ihinner =>
          rw [valueOn?_brackets, fitsOn_brackets_iff, ihinner]
      | unary op operand location ihoperand =>
          rw [valueOn?_unary, fitsOn_unary_iff, Option.bind_eq_some_iff]
          simp only [ihoperand, UnaryOp.value_eq, fit?_eq_some_iff]
          constructor
          · rintro ⟨a, ha, hv⟩
            exact ⟨a.toInt, ha, hv.symm, inWord_toInt v⟩
          · rintro ⟨_, ha, hv, -⟩
            obtain ⟨a, rfl⟩ := ha.exists_word
            exact ⟨a, ha, hv.symm⟩
      | binary op left right location ihleft ihright =>
          rw [valueOn?_binary, fitsOn_binary_iff, Option.bind_eq_some_iff]
          simp only [Option.bind_eq_some_iff, ihleft, ihright, BinaryOp.value_eq,
            fit?_eq_some_iff]
          constructor
          · rintro ⟨a, ha, b, hb, n, hn, rfl⟩
            exact ⟨a.toInt, b.toInt, ha, hb, hn, inWord_toInt v⟩
          · rintro ⟨_, _, ha, hb, hn, -⟩
            obtain ⟨a, rfl⟩ := ha.exists_word
            obtain ⟨b, rfl⟩ := hb.exists_word
            exact ⟨a, ha, b, hb, _, hn, rfl⟩
      | dynamicLabel | string | macroArgument =>
          exact ⟨nofun, fun h => nomatch h.worth⟩

/-! ## Shifts that fit -/

/-- No shift to the left on which an expression rests leaves the word. -/
def ShiftsFit (program : Program) (e : Expr) : Prop :=
  ∀ depth left right location, program.Needs e depth (.binary .shiftLeft left right location) ->
    ∀ a b n, program.Worth BinaryOp.onInts? left a -> program.Worth BinaryOp.onInts? right b ->
      BinaryOp.shiftLeft.onInts? a b = some n -> InWord n

theorem ShiftsFit.of_needs {e part : Expr} {depth : Nat} (h : program.ShiftsFit e)
    (hneeds : program.Needs e depth part) : program.ShiftsFit part :=
  fun _ left right location hshift => h _ left right location (hneeds.trans hshift)

/-- Without shifts that lose bits, words give the exact value. -/
theorem Worth.exact {e : Expr} {n : Int} (h : program.Worth BinaryOp.onWords? e n)
    (hshifts : program.ShiftsFit e) : program.Worth BinaryOp.onInts? e n := by
  induction h with
  | number => exact .number
  | char => exact .char
  | constant hname _ ih =>
      exact .constant hname (ih (hshifts.of_needs (.constant hname (.refl _))))
  | brackets _ ih => exact .brackets (ih (hshifts.of_needs (.brackets (.refl _))))
  | unary _ ih => exact .unary (ih (hshifts.of_needs (.operand (.refl _))))
  | @binary op left right location a b n _ _ h ihleft ihright =>
      have hleft := ihleft (hshifts.of_needs (.left (.refl _)))
      have hright := ihright (hshifts.of_needs (.right (.refl _)))
      refine .binary hleft hright (BinaryOp.onInts?_of_onWords? h ?_)
      rintro rfl m hm
      exact hshifts 0 left right location (.refl _) a b m hleft hright hm

/-! ## The value of an expression -/

/-- An operation that has no value by the rules, or one that does not fit, leaves every expression
that rests on it without a value. -/
theorem value?_eq_none_of_needs {e part : Expr} {depth : Nat} (hneeds : program.Needs e depth part)
    (hpart : ∀ n, program.Worth BinaryOp.onWords? part n -> ¬ InWord n) :
    program.value? e = none := by
  rw [Option.eq_none_iff_forall_ne_some]
  intro v hv
  obtain ⟨-, n, hworth, hn⟩ := (valueOn?_eq_some_iff.1 hv).parts depth part hneeds
  exact hpart n hworth hn

/-- The value of an expression is found exactly when its value by the rules of words, and that of
every part it rests on, fits into a word.  Where no shift to the left leaves the word, these are the
exact values.  Any other operation that has no exact value, or one that does not fit, leaves the
expression without a value. -/
theorem value?_exact (program : Program) (e : Expr) :
    (∀ v, program.value? e = some v ↔ program.FitsOn constantLevels e v.toInt) ∧
    (∀ v, program.value? e = some v -> program.ShiftsFit e ->
      program.Worth BinaryOp.onInts? e v.toInt ∧ ∀ depth part, program.Needs e depth part ->
        ∃ n, program.Worth BinaryOp.onInts? part n ∧ InWord n) ∧
    (∀ depth op operand location a, program.Needs e depth (.unary op operand location) ->
      program.Worth BinaryOp.onWords? operand a -> ¬ InWord (op.onInts a) ->
      program.value? e = none) ∧
    ∀ depth op left right location a b, program.Needs e depth (.binary op left right location) ->
      program.Worth BinaryOp.onWords? left a -> program.Worth BinaryOp.onWords? right b ->
      (∀ n, op.onInts? a b = some n -> op ≠ .shiftLeft ∧ ¬ InWord n) ->
      program.value? e = none := by
  refine ⟨fun v => valueOn?_eq_some_iff, fun v hv hshifts => ?_, ?_, ?_⟩
  · obtain ⟨hworth, hparts⟩ := valueOn?_eq_some_iff.1 hv
    refine ⟨hworth.exact hshifts, fun depth part hneeds => ?_⟩
    obtain ⟨-, n, hpart, hn⟩ := hparts depth part hneeds
    exact ⟨n, hpart.exact (hshifts.of_needs hneeds), hn⟩
  · intro depth op operand location a hneeds hoperand hout
    refine value?_eq_none_of_needs hneeds fun n hworth => ?_
    rwa [hworth.unique (.unary hoperand)]
  · intro depth op left right location a b hneeds hleft hright hout
    refine value?_eq_none_of_needs hneeds fun n hworth => ?_
    cases hworth with
    | binary hleft' hright' h =>
        rw [hleft'.unique hleft, hright'.unique hright] at h
        have hexact := BinaryOp.onInts?_of_onWords? h fun hop m hm => absurd hop (hout m hm).1
        exact (hout n hexact).2

/-- Just below the end of the word: a constant of `1<<62` less one, and the constant once more. -/
theorem value?_exact_topmost :
    let document := Document.ofText "TOP = 1<<62\n  LDA TOP-1+TOP\n" default
    let program := (resolve document default MemoryFiles.empty.source .empty).1
    ∃ e, (document.commands.flatMap Command.arguments).getLast?.map Argument.value = some e ∧
      program.value? e = some Int64.maxValue ∧ program.ShiftsFit e ∧
      program.Worth BinaryOp.onInts? e Int64.maxValue.toInt := by
  intro document program
  let place (row first stop : Nat) : Location := ⟨default, ⟨⟨row, first⟩, ⟨row, stop⟩⟩⟩
  let top : Expr := .binary .shiftLeft (.number "1" (some 1) (place 0 6 7))
    (.number "62" (some 62) (place 0 9 11)) (place 0 6 11)
  let first : Identifier := ⟨"TOP", false, place 1 6 9⟩
  let second : Identifier := ⟨"TOP", false, place 1 12 15⟩
  let e : Expr := .binary .add (.binary .subtract (.identifier first)
    (.number "1" (some 1) (place 1 10 11)) (place 1 6 11)) (.identifier second) (place 1 6 15)
  have hargument : (document.commands.flatMap Command.arguments).getLast?.map Argument.value =
      some e := by
    decide +kernel
  have hvalue : program.value? e = some Int64.maxValue := by decide +kernel
  have hfirst : program.constant? first = some top := by decide +kernel
  have hsecond : program.constant? second = some top := by decide +kernel
  -- The only shift that is needed is the one behind the constant.
  have htop : program.ShiftsFit top := by
    intro depth left right location hneeds a b n hleft hright hn
    dsimp only [top] at hneeds
    cases hneeds with
    | refl =>
        cases hleft
        cases hright
        cases hn
        decide
    | left h => cases h
    | right h => cases h
  have hconstant {id : Identifier} (h : program.constant? id = some top) :
      program.ShiftsFit (.identifier id) := by
    intro depth left right location hneeds
    cases hneeds with
    | constant hname h' =>
        rw [← (constant?_eq_some_iff.1 h).unique hname] at h'
        exact htop _ left right location h'
  have hshifts : program.ShiftsFit e := by
    intro depth left right location hneeds
    dsimp only [e] at hneeds
    cases hneeds with
    | left h =>
        cases h with
        | left h => exact hconstant hfirst _ left right location h
        | right h => cases h
    | right h => exact hconstant hsecond _ left right location h
  exact ⟨e, hargument, hvalue, hshifts, ((value?_exact program e).2.1 _ hvalue hshifts).1⟩

/-- Two shifted to the left by 63 bits is nothing: its only bit is lost. -/
theorem value?_loses_shifted_bits :
    let document := Document.ofText "  LDA 2<<63\n" default
    let program := (resolve document default MemoryFiles.empty.source .empty).1
    ∃ e, (document.commands.flatMap Command.arguments).map Argument.value = [e] ∧
      program.value? e = some 0 ∧ program.Worth BinaryOp.onInts? e (2 ^ 64) ∧
      ¬ program.Worth BinaryOp.onInts? e 0 ∧ ¬ InWord (2 ^ 64) := by
  intro document program
  have harguments : (document.commands.flatMap Command.arguments).map Argument.value =
      [.binary .shiftLeft (.number "2" (some 2) ⟨default, ⟨⟨0, 6⟩, ⟨0, 7⟩⟩⟩)
        (.number "63" (some 63) ⟨default, ⟨⟨0, 9⟩, ⟨0, 11⟩⟩⟩) ⟨default, ⟨⟨0, 6⟩, ⟨0, 11⟩⟩⟩] := by
    decide +kernel
  have hexact (location other around : Location) : program.Worth BinaryOp.onInts?
      (.binary .shiftLeft (.number "2" (some 2) location) (.number "63" (some 63) other) around)
      (2 ^ 64) :=
    .binary .number .number rfl
  refine ⟨_, harguments, rfl, hexact .., fun h => ?_, by decide⟩
  exact absurd (h.unique (hexact ..)) (by decide)

end Asm6502.Program
