import Asm6502.Proofs.ExactValues

/-!
# Chains of constants

Constants can be defined through each other in any way, also in a circle.  Looking one up always
comes to an end, because only so many constants are followed.  Following fewer of them can cost an
answer but never change it, and an expression that leads into a circle has no value, however many
constants are followed.
-/

namespace Asm6502

/-- The places of the names in an expression: of plain names, of dynamic labels and of their
fragments. -/
def Expr.namePlaces (e : Expr) : List Location :=
  e.parts.flatMap fun
    | .identifier id => [id.location]
    | .dynamicLabel label => label.location :: label.fragments.map Identifier.location
    | _ => []

namespace Program

/-! ## Looking up behind constants -/

variable {depth : Nat}

/-- The value of an expression that is met behind so many constants. -/
def valueBehind? (program : Program) (depth : Nat) (e : Expr) : Option Int64 :=
  program.valueOn? (constantLevels - depth) e

/-- The rules by which an expression that is met behind so many constants gets its answer.  A rule
asks for the answers of other expressions, and nothing in the rules says that this ends. -/
inductive Answers (program : Program) : Nat -> Expr -> Option Int64 -> Prop where
  | tooDeep {depth : Nat} {e : Expr} (hdepth : constantLevels ≤ depth) :
      Answers program depth e none
  | number {depth : Nat} {text : String} {value : Option Int64} {location : Location}
      (hdepth : depth < constantLevels) :
      Answers program depth (.number text value location) value
  | char {depth : Nat} {c : Char} {location : Location} (hdepth : depth < constantLevels) :
      Answers program depth (.char c location) (some (Int64.ofNat c.toNat))
  | constant {depth : Nat} {id : Identifier} {value : Expr} {answer : Option Int64}
      (hdepth : depth < constantLevels) (hname : program.NamesConstant id value)
      (h : Answers program (depth + 1) value answer) :
      Answers program depth (.identifier id) answer
  | noConstant {depth : Nat} {id : Identifier} (hdepth : depth < constantLevels)
      (hname : ∀ value, ¬ program.NamesConstant id value) :
      Answers program depth (.identifier id) none
  | brackets {depth : Nat} {kind : BracketKind} {inner : Expr} {location : Location}
      {answer : Option Int64} (hdepth : depth < constantLevels)
      (h : Answers program depth inner answer) :
      Answers program depth (.brackets kind inner location) answer
  | unary {depth : Nat} {op : UnaryOp} {operand : Expr} {location : Location}
      {answer : Option Int64} (hdepth : depth < constantLevels)
      (h : Answers program depth operand answer) :
      Answers program depth (.unary op operand location) (answer.bind op.apply?)
  | binary {depth : Nat} {op : BinaryOp} {left right : Expr} {location : Location}
      {first second : Option Int64} (hdepth : depth < constantLevels)
      (hleft : Answers program depth left first) (hright : Answers program depth right second) :
      Answers program depth (.binary op left right location)
        (first.bind fun a => second.bind fun b => op.apply? a b)
  | dynamicLabel {depth : Nat} {label : DynamicLabel} (hdepth : depth < constantLevels) :
      Answers program depth (.dynamicLabel label) none
  | string {depth : Nat} {value : String} {location : Location}
      (hdepth : depth < constantLevels) : Answers program depth (.string value location) none
  | macroArgument {depth : Nat} {ordinal : Nat} {location : Location}
      (hdepth : depth < constantLevels) :
      Answers program depth (.macroArgument ordinal location) none

variable {program : Program}

theorem valueBehind?_of_le (h : constantLevels ≤ depth) (e : Expr) :
    program.valueBehind? depth e = none := by
  have hlevels : constantLevels - depth = 0 := by omega
  rw [valueBehind?, hlevels]
  rfl

/-- As long as constants are followed, one level is left for the expression itself. -/
theorem valueBehind?_eq (h : depth < constantLevels) (e : Expr) :
    program.valueBehind? depth e =
      e.valueWith? fun id =>
        (program.constant? id).bind fun value => program.valueBehind? (depth + 1) value := by
  have hlevels : constantLevels - depth = constantLevels - (depth + 1) + 1 := by omega
  rw [valueBehind?, hlevels]
  rfl

/-- What the rules answer is what is looked up. -/
theorem Answers.valueBehind?_eq {e : Expr} {answer : Option Int64}
    (h : program.Answers depth e answer) : program.valueBehind? depth e = answer := by
  induction h with
  | tooDeep hdepth => exact valueBehind?_of_le hdepth _
  | constant hdepth hname _ ih =>
      rw [Program.valueBehind?_eq hdepth, Expr.valueWith?, constant?_eq_some_iff.2 hname]
      exact ih
  | @noConstant depth id hdepth hname =>
      have hnone : program.constant? id = none := by
        rw [Option.eq_none_iff_forall_ne_some]
        intro value hvalue
        exact hname value (constant?_eq_some_iff.1 hvalue)
      rw [Program.valueBehind?_eq hdepth, Expr.valueWith?, hnone]
      rfl
  | brackets hdepth _ ih =>
      rw [← ih, Program.valueBehind?_eq hdepth, Program.valueBehind?_eq hdepth]
      rfl
  | unary hdepth _ ih =>
      rw [← ih, Program.valueBehind?_eq hdepth, Program.valueBehind?_eq hdepth]
      rfl
  | binary hdepth _ _ ihleft ihright =>
      rw [← ihleft, ← ihright, Program.valueBehind?_eq hdepth, Program.valueBehind?_eq hdepth,
        Program.valueBehind?_eq hdepth]
      rfl
  | number hdepth | char hdepth | dynamicLabel hdepth | string hdepth | macroArgument hdepth =>
      rw [Program.valueBehind?_eq hdepth]
      rfl

/-- However the constants refer to each other, every expression gets an answer.  The recursion goes
to the parts of the expression, or to another constant with one level less to follow. -/
theorem exists_answers (program : Program) (depth : Nat) (e : Expr) :
    ∃ answer, program.Answers depth e answer := by
  induction hlevels : constantLevels - depth generalizing depth e with
  | zero => exact ⟨none, .tooDeep (by omega)⟩
  | succ levels ih =>
      have hdepth : depth < constantLevels := by omega
      induction e with
      | number text value location => exact ⟨value, .number hdepth⟩
      | char c location => exact ⟨_, .char hdepth⟩
      | identifier id =>
          cases hconstant : program.constant? id with
          | some value =>
              obtain ⟨answer, h⟩ := ih (depth + 1) value (by omega)
              exact ⟨answer, .constant hdepth (constant?_eq_some_iff.1 hconstant) h⟩
          | none =>
              refine ⟨none, .noConstant hdepth fun value hname => ?_⟩
              rw [constant?_eq_some_iff.2 hname] at hconstant
              cases hconstant
      | brackets kind inner location ihinner =>
          obtain ⟨answer, h⟩ := ihinner
          exact ⟨answer, .brackets hdepth h⟩
      | unary op operand location ihoperand =>
          obtain ⟨answer, h⟩ := ihoperand
          exact ⟨_, .unary hdepth h⟩
      | binary op left right location ihleft ihright =>
          obtain ⟨first, hleft⟩ := ihleft
          obtain ⟨second, hright⟩ := ihright
          exact ⟨_, .binary hdepth hleft hright⟩
      | dynamicLabel label => exact ⟨none, .dynamicLabel hdepth⟩
      | string value location => exact ⟨none, .string hdepth⟩
      | macroArgument ordinal location => exact ⟨none, .macroArgument hdepth⟩

theorem answers_iff {e : Expr} {answer : Option Int64} :
    program.Answers depth e answer ↔ program.valueBehind? depth e = answer := by
  constructor
  · exact Answers.valueBehind?_eq
  · intro h
    obtain ⟨found, hfound⟩ := exists_answers program depth e
    rwa [← h, hfound.valueBehind?_eq]

/-! ## More levels -/

namespace FitsOn

variable {levels : Nat} {e : Expr} {n : Int}

theorem mono (h : program.FitsOn levels e n) {more : Nat} (hmore : levels ≤ more) :
    program.FitsOn more e n := by
  refine ⟨h.worth, fun depth part hneeds => ?_⟩
  obtain ⟨hdepth, hpart⟩ := h.parts depth part hneeds
  exact ⟨Nat.lt_of_lt_of_le hdepth hmore, hpart⟩

theorem of_needs (h : program.FitsOn levels e n) {depth : Nat} {part : Expr}
    (hneeds : program.Needs e depth part) : ∃ m, program.FitsOn (levels - depth) part m := by
  obtain ⟨-, m, hworth, -⟩ := h.parts depth part hneeds
  refine ⟨m, hworth, fun more inner hinner => ?_⟩
  obtain ⟨hdepth, hpart⟩ := h.parts (depth + more) inner (hneeds.trans hinner)
  exact ⟨by omega, hpart⟩

/-- An expression that fits does not rest on itself: every time around takes a level. -/
theorem not_needs_self (h : program.FitsOn levels e n) (depth : Nat) :
    ¬ program.Needs e (depth + 1) e := by
  intro hneeds
  induction levels using Nat.strongRecOn generalizing n with
  | ind levels ih =>
      have hpos := h.levels_pos
      obtain ⟨m, hagain⟩ := h.of_needs hneeds
      exact ih (levels - (depth + 1)) (by omega) hagain

end FitsOn

theorem valueOn?_mono {levels more : Nat} {e : Expr} {v : Int64} (hmore : levels ≤ more)
    (h : program.valueOn? levels e = some v) : program.valueOn? more e = some v :=
  valueOn?_eq_some_iff.2 ((valueOn?_eq_some_iff.1 h).mono hmore)

/-! ## Circles -/

def NamesLabel (program : Program) (e : Expr) (ref : LabelRef) : Prop :=
  ∃ location ∈ e.namePlaces, program.symbols.labelRefs.find? location = some ref

/-- A label that some definition makes a constant, with the expression that is kept for it. -/
def KeepsConstant (program : Program) (ref : LabelRef) (value : Expr) : Prop :=
  ∃ label, program.symbols.label? ref = some label ∧ label.isConstant = true ∧
    label.value = some value

/-- Constants of which the first is named in an expression and each other one in the expression of
the constant before it. -/
inductive ConstantChain (program : Program) : Expr -> List LabelRef -> Prop where
  | nil (e : Expr) : ConstantChain program e []
  | cons {e value : Expr} {ref : LabelRef} {refs : List LabelRef} (hname : program.NamesLabel e ref)
      (hconstant : program.KeepsConstant ref value) (rest : ConstantChain program value refs) :
      ConstantChain program e (ref :: refs)

theorem needs_of_mem_parts {e part : Expr} (h : part ∈ e.parts) : program.Needs e 0 part := by
  induction e with
  | unary op operand location ih =>
      rcases List.mem_cons.1 h with rfl | h
      · exact .refl _
      · exact .operand (ih h)
  | binary op left right location ihleft ihright =>
      rcases List.mem_cons.1 h with rfl | h
      · exact .refl _
      · rcases List.mem_append.1 h with h | h
        · exact .left (ihleft h)
        · exact .right (ihright h)
  | brackets kind inner location ih =>
      rcases List.mem_cons.1 h with rfl | h
      · exact .refl _
      · exact .brackets (ih h)
  | number | char | identifier | dynamicLabel | string | macroArgument =>
      rw [List.mem_singleton.1 h]
      exact .refl _

/-- The expression of a constant that is named in an expression with a value is needed for that
value.  All other names leave the expression without one. -/
theorem FitsOn.needs_constant {levels : Nat} {e value : Expr} {n : Int} {ref : LabelRef}
    (h : program.FitsOn levels e n) (hname : program.NamesLabel e ref)
    (hconstant : program.KeepsConstant ref value) : program.Needs e 1 value := by
  obtain ⟨location, hplace, href⟩ := hname
  obtain ⟨part, hpart, hplace⟩ := List.mem_flatMap.1 hplace
  have hneeds : program.Needs e 0 part := needs_of_mem_parts hpart
  obtain ⟨-, m, hworth, -⟩ := h.parts 0 part hneeds
  cases hworth with
  | @constant id other m hnames _ =>
      have hlocation : location = id.location := List.mem_singleton.1 hplace
      obtain ⟨label, hlabel, -, -, hvalue⟩ := hnames.label
      obtain ⟨kept, hkept, -, hkeptValue⟩ := hconstant
      have hsame : program.symbols.labelAt? id.location = some kept := by
        rw [Symbols.labelAt?, ← hlocation, href]
        exact hkept
      have hother : other = value := by
        rw [hsame] at hlabel
        cases hlabel
        rw [hkeptValue] at hvalue
        exact (Option.some.inj hvalue).symm
      rw [← hother]
      exact hneeds.trans (.constant hnames (.refl other))
  | number | char | brackets | unary | binary => cases hplace

theorem ConstantChain.needs {levels : Nat} {e : Expr} {n : Int} {refs : List LabelRef}
    (h : program.ConstantChain e refs) (hfits : program.FitsOn levels e n) {ref : LabelRef}
    (hmem : ref ∈ refs) {value : Expr} (hconstant : program.KeepsConstant ref value) :
    ∃ depth, program.Needs e (depth + 1) value := by
  induction h generalizing levels n with
  | nil => cases hmem
  | cons hname hfirst _ ih =>
      have hneeds := hfits.needs_constant hname hfirst
      rcases List.mem_cons.1 hmem with rfl | hmem
      · exact ⟨0, hfits.needs_constant hname hconstant⟩
      · obtain ⟨m, hrest⟩ := hfits.of_needs hneeds
        obtain ⟨depth, hdeeper⟩ := ih hrest hmem
        refine ⟨depth + 1, ?_⟩
        have hall := hneeds.trans hdeeper
        rwa [Nat.add_comm 1] at hall

/-- An expression with a value leads into no circle. -/
theorem ConstantChain.nodup {levels : Nat} {e : Expr} {n : Int} {refs : List LabelRef}
    (h : program.ConstantChain e refs) (hfits : program.FitsOn levels e n) : refs.Nodup := by
  induction h generalizing levels n with
  | nil => exact List.nodup_nil
  | cons hname hconstant hrest ih =>
      obtain ⟨m, hvalue⟩ := hfits.of_needs (hfits.needs_constant hname hconstant)
      refine List.nodup_cons.2 ⟨fun hmem => ?_, ih hvalue⟩
      obtain ⟨depth, hagain⟩ := hrest.needs hvalue hmem hconstant
      exact hvalue.not_needs_self depth hagain

/-- Looking up constants comes to an end in every program: the rules give each expression one
answer, which is the one that is looked up.  An answer that is found behind some constants is also
found behind fewer of them.  An expression from which a chain of constants comes back to a label of
the chain has no value, behind however many constants it is met. -/
theorem value?_follows_constants (program : Program) (e : Expr) :
    (∀ depth answer, program.Answers depth e answer ↔ program.valueBehind? depth e = answer) ∧
    program.Answers 0 e (program.value? e) ∧
    (∀ depth fewer v, fewer ≤ depth -> program.valueBehind? depth e = some v ->
      program.valueBehind? fewer e = some v) ∧
    ∀ refs, program.ConstantChain e refs -> ¬ refs.Nodup ->
      program.value? e = none ∧ ∀ levels, program.valueOn? levels e = none := by
  refine ⟨fun depth answer => answers_iff, answers_iff.2 rfl, ?_, ?_⟩
  · intro depth fewer v hfewer h
    exact valueOn?_mono (by omega) h
  · intro refs hchain hcircle
    have hnone : ∀ levels, program.valueOn? levels e = none := by
      intro levels
      rw [Option.eq_none_iff_forall_ne_some]
      intro v hv
      exact hcircle (hchain.nodup (valueOn?_eq_some_iff.1 hv))
    exact ⟨hnone constantLevels, hnone⟩

/-- Two constants in a circle, one behind a sign and one in brackets. -/
theorem value?_follows_constants_circle :
    let document := Document.ofText "ONE = -TWO\nTWO = [1+ONE]\n  LDA <ONE\n" default
    let program := (resolve document default MemoryFiles.empty.source .empty).1
    let one : LabelRef := ⟨.program, "ONE"⟩
    let two : LabelRef := ⟨.program, "TWO"⟩
    ∃ e, (document.commands.flatMap Command.arguments).getLast?.map Argument.value = some e ∧
      program.ConstantChain e [one, two, one] ∧ program.value? e = none := by
  intro document program one two
  let place (row first stop : Nat) : Location := ⟨default, ⟨⟨row, first⟩, ⟨row, stop⟩⟩⟩
  let negated : Expr := .unary .negate (.identifier ⟨"TWO", false, place 0 7 10⟩) (place 0 6 10)
  let boxed : Expr := .brackets .square (.binary .add (.number "1" (some 1) (place 1 7 8))
    (.identifier ⟨"ONE", false, place 1 9 12⟩) (place 1 7 12)) (place 1 6 13)
  let e : Expr := .unary .lowByte (.identifier ⟨"ONE", false, place 2 7 10⟩) (place 2 6 10)
  have hargument : (document.commands.flatMap Command.arguments).getLast?.map Argument.value =
      some e := by
    decide +kernel
  have hkeeps {ref : LabelRef} {value : Expr} (h : (program.symbols.label? ref).map (fun label =>
      (label.isConstant, label.value)) = some (true, some value)) :
      program.KeepsConstant ref value := by
    obtain ⟨label, hlabel, hkept⟩ := Option.map_eq_some_iff.1 h
    exact ⟨label, hlabel, congrArg Prod.fst hkept, congrArg Prod.snd hkept⟩
  have hone : program.KeepsConstant one negated := hkeeps (by decide +kernel)
  have htwo : program.KeepsConstant two boxed := hkeeps (by decide +kernel)
  have hchain : program.ConstantChain e [one, two, one] := by
    refine .cons ⟨place 2 7 10, List.mem_cons_self, by decide +kernel⟩ hone ?_
    refine .cons ⟨place 0 7 10, List.mem_cons_self, by decide +kernel⟩ htwo ?_
    exact .cons ⟨place 1 9 12, List.mem_cons_self, by decide +kernel⟩ hone (.nil negated)
  have hcircle : ¬ [one, two, one].Nodup := by decide
  exact ⟨e, hargument, hchain, ((value?_follows_constants program e).2.2.2 _ hchain hcircle).1⟩

end Program

end Asm6502
