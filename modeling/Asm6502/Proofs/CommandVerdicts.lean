import Asm6502.Check.Command
import Asm6502.Proofs.LetterCase

/-!
# Verdicts on commands

Which commands the instruction set allows, and what is wrong with each of the others, stated by
rules on the table of addressing modes.  The check decides exactly these rules: it takes short cuts
for branches and for the accumulator, which are right because of what the table holds.
-/

namespace Asm6502

/-! ## The table of modes -/

namespace Mnemonic

theorem hasMode_iff {mnemonic : Mnemonic} {mode : AddressingMode} :
    mnemonic.hasMode mode = true ↔ mode ∈ mnemonic.modes :=
  List.contains_iff_mem

/-- Every instruction has a mode, so that none is refused for the lack of any. -/
theorem encodings_ne_nil (mnemonic : Mnemonic) : mnemonic.encodings ≠ [] := by
  cases mnemonic <;> exact List.cons_ne_nil _ _

theorem isBranch_iff (mnemonic : Mnemonic) :
    mnemonic.isBranch = true ↔ .relative ∈ mnemonic.modes := by
  cases mnemonic <;> decide

theorem onlyImplied_iff (mnemonic : Mnemonic) :
    mnemonic.onlyImplied = true ↔
      ∀ mode ∈ mnemonic.modes, mode = .implied ∨ mode = .accumulator := by
  have hne : mnemonic.modes ≠ [] := by simpa [modes] using mnemonic.encodings_ne_nil
  have hmode (mode : AddressingMode) :
      mode.isImpliedLike = true ↔ mode = .implied ∨ mode = .accumulator := by
    cases mode <;> decide
  simp [onlyImplied, hne, hmode]

end Mnemonic

/-! ## Arguments -/

theorem toUpper_eq_A_iff {c : Char} : c.toUpper = 'A' ↔ c = 'A' ∨ c = 'a' := by
  constructor
  · intro h
    by_cases hsmall : 97 ≤ c.toNat ∧ c.toNat ≤ 122
    · have hcode : 65 = c.toNat - 32 := by rw [← toNat_toUpper hsmall, h]; rfl
      have hc : c.toNat = 97 := by omega
      rw [← Char.ofNat_toNat c, hc]
      exact .inr rfl
    · rw [toUpper_of_not_small hsmall] at h
      exact .inl h
  · rintro (rfl | rfl) <;> rfl

/-- An expression that is the letter of the accumulator, large or small, and nothing else. -/
inductive Expr.NamesAccumulator : Expr -> Prop where
  | intro {name : String} {location : Location} (h : name = "A" ∨ name = "a") :
      NamesAccumulator (.identifier ⟨name, false, location⟩)

theorem upcase_eq_A_iff {name : String} : upcase name = "A" ↔ name = "A" ∨ name = "a" := by
  have htext (text : List Char) : capitals text = ['A'] ↔ text = ['A'] ∨ text = ['a'] := by
    rcases text with _ | ⟨c, _ | ⟨d, rest⟩⟩ <;> simp [capitals, toUpper_eq_A_iff]
  simp only [← String.toList_inj, toList_upcase]
  exact htext name.toList

theorem Expr.isAccumulator_iff (e : Expr) : e.isAccumulator = true ↔ e.NamesAccumulator := by
  constructor
  · intro h
    cases e with
    | identifier id =>
        obtain ⟨name, programCounter, location⟩ := id
        simp only [isAccumulator, Bool.and_eq_true, Bool.not_eq_true', beq_iff_eq,
          upcase_eq_A_iff] at h
        obtain ⟨rfl, hname⟩ := h
        exact .intro hname
    | _ => cases h
  · rintro ⟨hname⟩
    simp [isAccumulator, upcase_eq_A_iff, hname]

/-- The addressing modes in which an argument can be encoded. -/
inductive Argument.Matches (program : Program) (extension : Option Extension) :
    Argument -> AddressingMode -> Prop where
  | immediate {value : Expr} {location : Location} :
      Matches program extension ⟨.immediate, value, location⟩ .immediate
  | indirect {value : Expr} {location : Location} :
      Matches program extension ⟨.indirect, value, location⟩ .indirect
  | indirectX {value : Expr} {location : Location} :
      Matches program extension ⟨.indirectX, value, location⟩ .indirectIndexedX
  | indirectY {value : Expr} {location : Location} :
      Matches program extension ⟨.indirectY, value, location⟩ .indirectIndexedY
  | zeroPage {value : Expr} {location : Location}
      (h : program.addressWidth extension value = .zeroPage) :
      Matches program extension ⟨.address, value, location⟩ .zeroPage
  | absolute {value : Expr} {location : Location}
      (h : program.addressWidth extension value = .absolute) :
      Matches program extension ⟨.address, value, location⟩ .absolute
  | relative {value : Expr} {location : Location} :
      Matches program extension ⟨.address, value, location⟩ .relative
  | accumulator {value : Expr} {location : Location} (h : value.NamesAccumulator) :
      Matches program extension ⟨.address, value, location⟩ .accumulator
  | zeroPageX {value : Expr} {location : Location}
      (h : program.addressWidth extension value = .zeroPage) :
      Matches program extension ⟨.addressX, value, location⟩ .zeroPageX
  | absoluteX {value : Expr} {location : Location}
      (h : program.addressWidth extension value = .absolute) :
      Matches program extension ⟨.addressX, value, location⟩ .absoluteX
  | zeroPageY {value : Expr} {location : Location}
      (h : program.addressWidth extension value = .zeroPage) :
      Matches program extension ⟨.addressY, value, location⟩ .zeroPageY
  | absoluteY {value : Expr} {location : Location}
      (h : program.addressWidth extension value = .absolute) :
      Matches program extension ⟨.addressY, value, location⟩ .absoluteY

namespace Program

theorem fits_iff (program : Program) (mnemonic : Mnemonic) (extension : Option Extension)
    (argument : Argument) :
    program.fits mnemonic extension argument = true ↔
      ∃ mode ∈ mnemonic.modes, argument.Matches program extension mode := by
  obtain ⟨shape, value, location⟩ := argument
  -- One direction turns the short cuts into modes of the table, the other goes by the rules.
  constructor
  · intro h
    cases shape with
    | immediate => exact ⟨_, Mnemonic.hasMode_iff.1 h, .immediate⟩
    | indirect => exact ⟨_, Mnemonic.hasMode_iff.1 h, .indirect⟩
    | indirectX => exact ⟨_, Mnemonic.hasMode_iff.1 h, .indirectX⟩
    | indirectY => exact ⟨_, Mnemonic.hasMode_iff.1 h, .indirectY⟩
    | address =>
        simp only [fits, Bool.or_eq_true, Bool.and_eq_true, Mnemonic.isBranch_iff,
          Mnemonic.hasMode_iff, Expr.isAccumulator_iff] at h
        rcases h with (hmode | ⟨hvalue, hmode⟩) | hmode
        · exact ⟨_, hmode, .relative⟩
        · exact ⟨_, hmode, .accumulator hvalue⟩
        · cases hwidth : program.addressWidth extension value <;> rw [hwidth] at hmode
          · exact ⟨_, hmode, .zeroPage hwidth⟩
          · exact ⟨_, hmode, .absolute hwidth⟩
    | addressX =>
        have hmode := Mnemonic.hasMode_iff.1 h
        cases hwidth : program.addressWidth extension value <;> rw [hwidth] at hmode
        · exact ⟨_, hmode, .zeroPageX hwidth⟩
        · exact ⟨_, hmode, .absoluteX hwidth⟩
    | addressY =>
        have hmode := Mnemonic.hasMode_iff.1 h
        cases hwidth : program.addressWidth extension value <;> rw [hwidth] at hmode
        · exact ⟨_, hmode, .zeroPageY hwidth⟩
        · exact ⟨_, hmode, .absoluteY hwidth⟩
  · rintro ⟨mode, hmode, hmatches⟩
    cases hmatches with
    | immediate | indirect | indirectX | indirectY => exact Mnemonic.hasMode_iff.2 hmode
    | relative => simp [fits, mnemonic.isBranch_iff, hmode]
    | accumulator hvalue =>
        simp [fits, value.isAccumulator_iff, hvalue, Mnemonic.hasMode_iff, hmode]
    | zeroPage hwidth | absolute hwidth | zeroPageX hwidth | absoluteX hwidth | zeroPageY hwidth
    | absoluteY hwidth =>
        simp [fits, hwidth, AddressingMode.ofAddress, Mnemonic.hasMode_iff, hmode]

/-! ## Commands -/

/-- A command that names an instruction, and no directive. -/
structure Instructs (command : Command) (name : Identifier) (mnemonic : Mnemonic) : Prop where
  name_eq : command.name = some name
  no_directive : Directive.ofCommandName? name.name = none
  mnemonic_eq : Mnemonic.ofName? name.name = some mnemonic

inductive Accepts (program : Program) (command : Command) : Prop where
  | directive {name : Identifier} {directive : Directive} (hname : command.name = some name)
      (hdirective : Directive.ofCommandName? name.name = some directive)
  | macroUse {name : Identifier} (hname : command.name = some name)
      (hmnemonic : Mnemonic.ofName? name.name = none)
      (hdefined : program.symbols.definesMacro (unifiedName name.name) = true)
  /-- An instruction without an operand. -/
  | bare {name : Identifier} {mnemonic : Mnemonic} (hname : command.name = some name)
      (hmnemonic : Mnemonic.ofName? name.name = some mnemonic) (harguments : command.arguments = [])
      (hmode : .implied ∈ mnemonic.modes ∨ .accumulator ∈ mnemonic.modes)
  /-- An instruction with an operand in one of its modes. -/
  | operand {name : Identifier} {mnemonic : Mnemonic} {argument : Argument} {mode : AddressingMode}
      (hname : command.name = some name) (hmnemonic : Mnemonic.ofName? name.name = some mnemonic)
      (harguments : command.arguments = [argument]) (hmode : mode ∈ mnemonic.modes)
      (hmatches : argument.Matches program command.extension mode)

/-- The commands that are not allowed in a program, each with what is wrong with it. -/
inductive Rejects (program : Program) (command : Command) : Diagnostic -> Prop where
  | nameless (hname : command.name = none) :
      Rejects program command (.of .missingCommandName command.location)
  | unknown {name : Identifier} (hname : command.name = some name)
      (hdirective : Directive.ofCommandName? name.name = none)
      (hmnemonic : Mnemonic.ofName? name.name = none)
      (hundefined : program.symbols.definesMacro (unifiedName name.name) = false) :
      Rejects program command (.of (.unknownOpcode name.name) name.location)
  | operandMissing {name : Identifier} {mnemonic : Mnemonic} (h : Instructs command name mnemonic)
      (harguments : command.arguments = []) (himplied : .implied ∉ mnemonic.modes)
      (haccumulator : .accumulator ∉ mnemonic.modes) :
      Rejects program command (.of (.impliedModeUnavailable name.name) name.location)
  /-- All operands behind the first are too many. -/
  | operandsLeft {name : Identifier} {mnemonic : Mnemonic} {first second : Argument}
      {rest : List Argument} (h : Instructs command name mnemonic)
      (harguments : command.arguments = first :: second :: rest) :
      Rejects program command
        (.of .tooManyArguments (second.location.union
          ((second :: rest).getLast (List.cons_ne_nil second rest)).location))
  | immediate {name : Identifier} {mnemonic : Mnemonic} {argument : Argument}
      (h : Instructs command name mnemonic) (harguments : command.arguments = [argument])
      (hmisfit : ∀ mode ∈ mnemonic.modes, ¬ argument.Matches program command.extension mode)
      (hshape : argument.mode = .immediate) :
      Rejects program command (.of (.immediateModeUnavailable name.name) argument.location)
  | operandUnused {name : Identifier} {mnemonic : Mnemonic} {argument : Argument}
      (h : Instructs command name mnemonic) (harguments : command.arguments = [argument])
      (hmisfit : ∀ mode ∈ mnemonic.modes, ¬ argument.Matches program command.extension mode)
      (hshape : argument.mode ≠ .immediate)
      (hmodes : ∀ mode ∈ mnemonic.modes, mode = .implied ∨ mode = .accumulator) :
      Rejects program command (.of (.impliedModeOnly name.name) argument.location)
  | wrongMode {name : Identifier} {mnemonic : Mnemonic} {argument : Argument}
      (h : Instructs command name mnemonic) (harguments : command.arguments = [argument])
      (hmisfit : ∀ mode ∈ mnemonic.modes, ¬ argument.Matches program command.extension mode)
      (hshape : argument.mode ≠ .immediate)
      (hmodes : ¬ ∀ mode ∈ mnemonic.modes, mode = .implied ∨ mode = .accumulator) :
      Rejects program command (.of (.wrongAddressingMode name.name) argument.location)

/-- What the check on a command may answer. -/
def Allows (program : Program) (command : Command) : Option Diagnostic -> Prop
  | none => program.Accepts command
  | some finding => program.Rejects command finding

section Instructions

variable {program : Program} {command : Command} {name : Identifier} {mnemonic : Mnemonic}

/-- No instruction lacks modes, so that the check looks at the operands and at nothing else. -/
theorem instructionFinding?_eq (program : Program) (mnemonic : Mnemonic) (name : Identifier)
    (command : Command) :
    program.instructionFinding? mnemonic name command =
      match command.arguments with
      | [] =>
          if .implied ∈ mnemonic.modes ∨ .accumulator ∈ mnemonic.modes then none
          else some (.of (.impliedModeUnavailable name.name) name.location)
      | [argument] =>
          if program.fits mnemonic command.extension argument then none
          else some (.of (misfit mnemonic name.name argument.mode) argument.location)
      | _ :: second :: rest =>
          some (.of .tooManyArguments (second.location.union
            ((second :: rest).getLast (List.cons_ne_nil second rest)).location)) := by
  have hencodings : mnemonic.encodings.isEmpty = false := by
    simpa using mnemonic.encodings_ne_nil
  rw [instructionFinding?, if_neg (by simp [hencodings])]
  rcases command.arguments with _ | ⟨first, _ | ⟨second, rest⟩⟩
  · simp [Mnemonic.hasMode_iff]
  · rfl
  · dsimp only
    rw [List.getLast_eq_getLastD, List.getLastD_eq_getLast?]

/-- An operand that fits no mode is refused by its own shape or by the modes of the instruction. -/
theorem rejects_misfit (h : Instructs command name mnemonic) {argument : Argument}
    (harguments : command.arguments = [argument])
    (hmisfit : ∀ mode ∈ mnemonic.modes, ¬ argument.Matches program command.extension mode) :
    program.Rejects command
      (.of (misfit mnemonic name.name argument.mode) argument.location) := by
  unfold misfit
  split
  next hshape => exact .immediate h harguments hmisfit hshape
  next hshape =>
    split
    next hmodes =>
      exact .operandUnused h harguments hmisfit hshape (mnemonic.onlyImplied_iff.1 hmodes)
    next hmodes =>
      exact .wrongMode h harguments hmisfit hshape (mt mnemonic.onlyImplied_iff.2 hmodes)

theorem allows_instructionFinding? (h : Instructs command name mnemonic) :
    program.Allows command (program.instructionFinding? mnemonic name command) := by
  rw [instructionFinding?_eq]
  split
  next harguments =>
    split
    next hmode => exact .bare h.name_eq h.mnemonic_eq harguments hmode
    next hmode =>
      obtain ⟨himplied, haccumulator⟩ := not_or.1 hmode
      exact .operandMissing h harguments himplied haccumulator
  next argument harguments =>
    split
    next hfits =>
      obtain ⟨mode, hmode, hmatches⟩ := (fits_iff ..).1 hfits
      exact .operand h.name_eq h.mnemonic_eq harguments hmode hmatches
    next hfits =>
      refine rejects_misfit h harguments fun mode hmode hmatches => hfits ?_
      exact (fits_iff ..).2 ⟨mode, hmode, hmatches⟩
  next harguments => exact .operandsLeft h harguments

/-- What the check on a command answers is what the rules say about it. -/
theorem allows_commandFinding? (program : Program) (command : Command) :
    program.Allows command (program.commandFinding? command) := by
  unfold commandFinding?
  split
  next hname => exact .nameless hname
  next name hname =>
    split
    next hdirective =>
      obtain ⟨directive, hdirective⟩ := Option.isSome_iff_exists.1 hdirective
      exact .directive hname hdirective
    next hdirective =>
      rw [Option.not_isSome_iff_eq_none] at hdirective
      split
      next mnemonic hmnemonic =>
        exact allows_instructionFinding? ⟨hname, hdirective, hmnemonic⟩
      next hmnemonic =>
        split
        next hdefined => exact .macroUse hname hmnemonic hdefined
        next hundefined =>
          exact .unknown hname hdirective hmnemonic (Bool.not_eq_true _ ▸ hundefined)

theorem commandFinding?_of_accepts (h : program.Accepts command) :
    program.commandFinding? command = none := by
  cases h with
  | directive hname hdirective => simp [commandFinding?, hname, hdirective]
  | macroUse hname hmnemonic hdefined => simp [commandFinding?, hname, hmnemonic, hdefined]
  | bare hname hmnemonic harguments hmode =>
      simp [commandFinding?, hname, hmnemonic, instructionFinding?_eq, harguments, hmode]
  | operand hname hmnemonic harguments hmode hmatches =>
      simp [commandFinding?, hname, hmnemonic, instructionFinding?_eq, harguments,
        (fits_iff ..).2 ⟨_, hmode, hmatches⟩]

/-- The check on an instruction whose only operand fits no mode. -/
theorem commandFinding?_of_misfit (h : Instructs command name mnemonic) {argument : Argument}
    (harguments : command.arguments = [argument])
    (hmisfit : ∀ mode ∈ mnemonic.modes, ¬ argument.Matches program command.extension mode) :
    program.commandFinding? command =
      some (.of (misfit mnemonic name.name argument.mode) argument.location) := by
  have hfits : ¬ program.fits mnemonic command.extension argument = true := by
    rw [fits_iff]
    rintro ⟨mode, hmode, hmatches⟩
    exact hmisfit mode hmode hmatches
  simp [commandFinding?, h.name_eq, h.no_directive, h.mnemonic_eq, instructionFinding?_eq,
    harguments, hfits]

theorem commandFinding?_of_rejects {finding : Diagnostic} (h : program.Rejects command finding) :
    program.commandFinding? command = some finding := by
  cases h with
  | nameless hname => simp [commandFinding?, hname]
  | unknown hname hdirective hmnemonic hundefined =>
      simp [commandFinding?, hname, hdirective, hmnemonic, hundefined]
  | operandMissing h harguments himplied haccumulator =>
      simp [commandFinding?, h.name_eq, h.no_directive, h.mnemonic_eq, instructionFinding?_eq,
        harguments, himplied, haccumulator]
  | operandsLeft h harguments =>
      simp [commandFinding?, h.name_eq, h.no_directive, h.mnemonic_eq, instructionFinding?_eq,
        harguments]
  | immediate h harguments hmisfit hshape =>
      rw [commandFinding?_of_misfit h harguments hmisfit, misfit, if_pos hshape]
  | operandUnused h harguments hmisfit hshape hmodes =>
      rw [commandFinding?_of_misfit h harguments hmisfit, misfit, if_neg hshape,
        if_pos (Mnemonic.onlyImplied_iff _ |>.2 hmodes)]
  | wrongMode h harguments hmisfit hshape hmodes =>
      rw [commandFinding?_of_misfit h harguments hmisfit, misfit, if_neg hshape,
        if_neg (mt (Mnemonic.onlyImplied_iff _).1 hmodes)]

end Instructions

/-- A command passes the check exactly when the rules allow it.  Otherwise the check has one
finding, which is the one that the rules give for the command. -/
theorem commandFinding?_exact (program : Program) (command : Command) :
    (program.commandFinding? command = none ↔ program.Accepts command) ∧
      ∀ finding, program.commandFinding? command = some finding ↔
        program.Rejects command finding := by
  have hallows := allows_commandFinding? program command
  refine ⟨⟨fun h => ?_, commandFinding?_of_accepts⟩,
    fun finding => ⟨fun h => ?_, commandFinding?_of_rejects⟩⟩
  · rwa [h] at hallows
  · rwa [h] at hallows

end Program

end Asm6502
