import Asm6502.Proofs.KeptTokens

/-!
# Parts of rows

The labels and expressions of the lines of a text, those of lines in blocks included, are the ones
that were read from its rows.  The tokens of each stand side by side in the text but for commas and
white space.
-/

namespace Asm6502

namespace Concrete

/-! ## Parts of lines -/

/-- A label in front of a line, or an expression on it. -/
inductive Part where
  | label (label : Label)
  | value (value : Expr)

def labelParts (label : Option Label) : List Part := label.toList.map .label

def valueParts (value : Option Expr) : List Part := value.toList.map .value

def Command.parts (command : Command) : List Part :=
  command.arguments.map fun argument => .value argument.value

mutual

def Line.parts : Line -> List Part
  | .command margin c => labelParts margin.label ++ c.toList.flatMap Command.parts
  | .macroBlock margin _ => labelParts margin.label
  | .conditional margin _ condition thenLines _ elseLines _ _ =>
      labelParts margin.label ++ valueParts condition ++
        (Line.partsAll thenLines ++ Line.partsAll elseLines)
  | .repetition margin _ count body _ _ =>
      labelParts margin.label ++ valueParts count ++ Line.partsAll body

def Line.partsAll : List Line -> List Part
  | [] => []
  | line :: lines => line.parts ++ Line.partsAll lines

end

theorem Line.partsAll_eq_flatMap (lines : List Line) : partsAll lines = lines.flatMap parts := by
  induction lines with
  | nil => rfl
  | cons line lines ih => rw [partsAll, ih, List.flatMap_cons]

/-! ## Parts of rows -/

def Content.parts : Content -> List Part
  | .command c => c.toList.flatMap Command.parts
  | .conditional _ condition => valueParts condition
  | .repetition _ count => valueParts count
  | .macroBlock _ _ => []

def Row.parts (row : Row) : List Part := labelParts row.read.1 ++ row.read.2.1.parts

variable {tokens : List Token} {e : Expr} {content : Content}

theorem Line.From.exists_row {plays : Role -> Prop} {comments : List Token} {line : Line}
    (h : line.From plays comments) :
    ∀ part ∈ line.parts, ∃ row, plays (.read row) ∧ part ∈ row.parts := by
  have hlines {lines : List Line} (ih : ∀ line ∈ lines, ∀ part ∈ line.parts,
      ∃ row, plays (.read row) ∧ part ∈ row.parts) :
      ∀ part ∈ Line.partsAll lines, ∃ row, plays (.read row) ∧ part ∈ row.parts := by
    simpa [Line.partsAll_eq_flatMap] using fun part line hline => ih line hline part
  -- The margin and the head of a line are read from one row.
  have hhead {row : Row} {content : Content} (hrow : plays (.read row))
      (hread : row.read.2.1 = content) : ∀ part ∈ labelParts row.start.label ++ content.parts,
        ∃ row, plays (.read row) ∧ part ∈ row.parts :=
    fun part hpart => ⟨row, hrow, by rwa [Row.parts, hread]⟩
  induction h with
  | command hrow hread => exact hhead hrow hread
  | macroBlock body hrow hread =>
      intro part hpart
      exact hhead hrow hread part (List.mem_append_left _ hpart)
  | conditional hrow hread _ _ _ _ _ _ ihthen ihelse =>
      exact List.forall_mem_append.2 ⟨hhead hrow hread,
        List.forall_mem_append.2 ⟨hlines ihthen, hlines ihelse⟩⟩
  | repetition hrow hread _ _ _ _ ih =>
      exact List.forall_mem_append.2 ⟨hhead hrow hread, hlines ih⟩

theorem exists_row_of_mem_parts {comments : List Token} {source : String} {part : Part}
    (h : part ∈ Line.partsAll (ConcreteFile.ofTokens tokens comments source).lines) :
    ∃ row ∈ rows tokens, part ∈ row.parts := by
  rw [Line.partsAll_eq_flatMap, List.mem_flatMap] at h
  obtain ⟨line, hline, hpart⟩ := h
  exact (ConcreteFile.ofTokens_from tokens comments source line hline).exists_row part hpart

/-! ## Tokens side by side -/

theorem Argument.value_tokens_isInfix (argument : Argument) :
    argument.value.tokens <:+: argument.tokens := by
  cases argument with
  | immediate hash value => exact (List.suffix_cons hash value.tokens).isInfix
  | address value ending => exact (List.prefix_append value.tokens ending.toList).isInfix
  | indirect opening value closing => exact List.infix_append [opening] value.tokens [closing]

theorem Command.tokens_isInfix {command : Command} (h : .value e ∈ command.parts) :
    e.tokens <:+: command.tokens := by
  obtain ⟨argument, hargument, heq⟩ := List.mem_map.1 h
  cases heq
  have harguments : argument.tokens <:+: command.arguments.flatMap Argument.tokens := by
    rw [List.flatMap_def]
    exact List.infix_of_mem_flatten (List.mem_map_of_mem hargument)
  exact (argument.value_tokens_isInfix.trans harguments).trans
    (List.suffix_append _ _).isInfix

theorem mem_valueParts {value : Option Expr} : .value e ∈ valueParts value ↔ value = some e := by
  cases value <;> simp [valueParts, eq_comm]

theorem Content.label_not_mem_parts (content : Content) (c : Label) :
    .label c ∉ content.parts := by
  cases content <;> simp [Content.parts, valueParts, Command.parts]

theorem Content.tokens_isInfix (h : .value e ∈ content.parts) : e.tokens <:+: content.tokens := by
  have hhead (keyword : Token) : e.tokens <:+: keyword :: (some e).toList.flatMap Expr.tokens := by
    simpa using (List.suffix_cons keyword e.tokens).isInfix
  cases content with
  | command command =>
      cases command with
      | none => cases h
      | some command =>
          have hcommand : .value e ∈ command.parts := by simpa [Content.parts] using h
          simpa [Content.tokens] using Command.tokens_isInfix hcommand
  | conditional keyword condition =>
      rw [Content.parts, mem_valueParts] at h
      rw [h]
      exact hhead keyword
  | repetition keyword count =>
      rw [Content.parts, mem_valueParts] at h
      rw [h]
      exact hhead keyword
  | macroBlock keyword name => cases h

theorem Content.MadeOf.value (h : content.MadeOf tokens) (he : .value e ∈ content.parts) :
    e.MadeOf tokens := by
  cases content with
  | command command =>
      obtain ⟨c, hc, he⟩ := List.mem_flatMap.1 he
      obtain ⟨argument, hargument, heq⟩ := List.mem_map.1 he
      cases heq
      obtain ⟨taken, hsub, hspells⟩ := (h c (Option.mem_toList.1 hc)).arguments argument hargument
      obtain ⟨part, hpart, hvalue⟩ := hspells.value
      exact ⟨part, hpart.trans hsub, hvalue⟩
  | conditional keyword condition => exact h.2 e (mem_valueParts.1 he)
  | repetition keyword count => exact h.2 e (mem_valueParts.1 he)
  | macroBlock keyword name => cases he

theorem Accounts.value_isInfix {faults : List ParseError}
    (h : Accounts tokens content.tokens faults) (he : .value e ∈ content.parts) :
    e.tokens <:+: meaningful tokens := by
  obtain ⟨left, hleft, -⟩ := h
  rw [hleft]
  exact (Content.tokens_isInfix he).trans (List.prefix_append _ left).isInfix

theorem readContent_isInfix {stop first : Token}
    (h : .value e ∈ (readContent stop first tokens).1.parts) :
    e.tokens <:+: meaningful (first :: tokens) := by
  by_cases hfirst : first.kind = .macWord
  · have hparts : (readContent stop first tokens).1.parts = [] := by
      simp [readContent, hfirst, Content.parts]
    rw [hparts] at h
    cases h
  · exact (readContent_accounts stop hfirst tokens).tokens.value_isInfix h

theorem readBehindLabel_isInfix {stop : Token} {hasLabel : Bool}
    (h : .value e ∈ (readBehindLabel stop hasLabel tokens).1.parts) :
    e.tokens <:+: meaningful tokens := by
  unfold readBehindLabel at h
  split at h
  · cases h
  · next first rest =>
    split at h
    · next hblank =>
      have hrest : meaningful (first :: rest) = meaningful rest :=
        meaningful_cons_of_separating (by rw [hblank]; rfl) rest
      split at h
      · cases h
      · next second after hskip =>
        rw [hrest, meaningful_of_skipBlanks hskip]
        exact readContent_isInfix h
    · split at h
      · cases h
      · exact readContent_isInfix h

/-- The fragments of a label are the first of what its row holds. -/
theorem StandsFor.exists_fragments {others : List Token} {more : List Held}
    (h : StandsFor (others.map .fragment ++ more) tokens) :
    ∃ taken, others = taken.map asFragment ∧ taken <+: tokens := by
  induction others generalizing tokens with
  | nil => exact ⟨[], rfl, List.nil_prefix⟩
  | cons fragment others ih =>
      cases h with
      | fragment token h =>
          obtain ⟨taken, rfl, htaken⟩ := ih h
          exact ⟨token :: taken, rfl, List.prefix_cons_inj token |>.2 htaken⟩

/-- A part whose tokens stand side by side in a text, but for what only stands between tokens. -/
def Part.StandsIn (tokens : List Token) : Part -> Prop
  | .label c => c.MadeOf tokens ∧ ∃ taken, c.others = taken.map asFragment ∧
      c.first :: taken <:+: meaningful tokens
  | .value e => e.MadeOf tokens ∧ e.tokens <:+: meaningful tokens

theorem Row.parts_standIn (row : Row) : ∀ part ∈ row.parts, part.StandsIn row.tokens := by
  obtain ⟨hlabel, hcontent⟩ := row.read_spec
  obtain ⟨named, hnamed, htokens⟩ := readLabel?_meaningful row.tokens
  intro part hpart
  rcases List.mem_append.1 hpart with hpart | hpart
  · obtain ⟨label, hmem, rfl⟩ := List.mem_map.1 hpart
    have hread : (readLabel? row.tokens).1 = some label := Option.mem_toList.1 hmem
    refine ⟨hlabel label hread, ?_⟩
    rw [hread] at hnamed
    rw [htokens]
    have hheld : StandsFor (.whole label.first ::
        (label.others.map .fragment ++ label.colon.toList.map .whole)) named := by
      simpa [Label.held] using hnamed
    cases hheld with
    | whole _ h =>
        obtain ⟨taken, hothers, htaken⟩ := h.exists_fragments
        have hfirst := (List.prefix_cons_inj label.first).2 htaken
        exact ⟨taken, hothers, (hfirst.trans (List.prefix_append _ _)).isInfix⟩
  · cases part with
    | label c => exact absurd hpart (Content.label_not_mem_parts row.read.2.1 c)
    | value e =>
        refine ⟨hcontent.madeOf.value hpart, ?_⟩
        rw [htokens]
        exact (readBehindLabel_isInfix hpart).trans (List.suffix_append named _).isInfix

theorem rows_isInfix (tokens : List Token) :
    ∀ row ∈ rows tokens, meaningful row.tokens <:+: meaningful tokens := by
  intro row hrow
  rw [← meaningful_taken]
  exact (taken_isInfix hrow).filter _

theorem Part.StandsIn.mono {part : Part} {more : List Token} (h : part.StandsIn tokens)
    (hsub : tokens.Sublist more) (hbeside : meaningful tokens <:+: meaningful more) :
    part.StandsIn more := by
  cases part with
  | label label =>
      obtain ⟨hmade, taken, hothers, htaken⟩ := h
      exact ⟨hmade.mono hsub, taken, hothers, htaken.trans hbeside⟩
  | value e => exact ⟨h.1.mono hsub, h.2.trans hbeside⟩

theorem ofTokens_parts_standIn (tokens comments : List Token) (source : String) :
    ∀ part ∈ Line.partsAll (ConcreteFile.ofTokens tokens comments source).lines,
      part.StandsIn tokens := by
  intro part hpart
  obtain ⟨row, hrow, hpart⟩ := exists_row_of_mem_parts hpart
  exact (row.parts_standIn part hpart).mono (rows_sublist tokens row hrow)
    (rows_isInfix tokens row hrow)

end Concrete

/-! ## Lines of documents -/

structure Line.Shows (uri : Uri) (parts : List Concrete.Part) (line : Line) : Prop where
  label : ∀ label ∈ line.label, ∃ c, .label c ∈ parts ∧ label = Concrete.toLabel uri c
  expressions : ∀ e ∈ line.expressions, ∃ c, .value c ∈ parts ∧ e = c.lower uri

theorem Line.Shows.mono {uri : Uri} {parts more : List Concrete.Part} {line : Line}
    (h : line.Shows uri parts) (hsub : parts ⊆ more) : line.Shows uri more where
  label label hlabel := by
    obtain ⟨c, hc, rfl⟩ := h.label label hlabel
    exact ⟨c, hsub hc, rfl⟩
  expressions e he := by
    obtain ⟨c, hc, rfl⟩ := h.expressions e he
    exact ⟨c, hsub hc, rfl⟩

namespace Concrete

variable {uri : Uri}

theorem exists_part_of_label {margin : Margin} {label : Asm6502.Label}
    (h : label ∈ (margin.lower uri).label) :
    ∃ c, .label c ∈ labelParts margin.label ∧ label = toLabel uri c := by
  obtain ⟨c, hc, rfl⟩ := Option.map_eq_some_iff.1 h
  exact ⟨c, List.mem_map_of_mem (Option.mem_toList.2 hc), rfl⟩

theorem exists_part_of_value {value : Option Expr} {e : Asm6502.Expr}
    (h : e ∈ (value.map (Expr.lower uri)).toList) :
    ∃ c, .value c ∈ valueParts value ∧ e = c.lower uri := by
  obtain ⟨c, hc, rfl⟩ := Option.map_eq_some_iff.1 (Option.mem_toList.1 h)
  exact ⟨c, mem_valueParts.2 hc, rfl⟩

theorem Line.shows_of_mem_walk {plays : Role -> Prop} {comments : List Token} {line : Line}
    (h : line.From plays comments) :
    ∀ inner ∈ Asm6502.Line.walk (line.lower uri), inner.Shows uri line.parts := by
  have hlines {lines : List Line}
      (ih : ∀ line ∈ lines, ∀ inner ∈ Asm6502.Line.walk (line.lower uri),
        inner.Shows uri line.parts) :
      ∀ inner ∈ Asm6502.Line.walkAll (lowerAll uri lines), inner.Shows uri (partsAll lines) := by
    intro inner hinner
    obtain ⟨line, hline, hinner⟩ := mem_walkAll_lowerAll.1 hinner
    rw [partsAll_eq_flatMap]
    exact (ih line hline inner hinner).mono fun part h => List.mem_flatMap.2 ⟨line, hline, h⟩
  -- The margin and the head of a block stand in front of the lines of the block.
  have hhead {margin : Margin} {value : Option Expr} {line : Asm6502.Line} {inside : List Part}
      (hlabel : line.label = (margin.lower uri).label)
      (hvalue : line.expressions = (value.map (Expr.lower uri)).toList) :
      line.Shows uri (labelParts margin.label ++ valueParts value ++ inside) := by
    refine ⟨fun label h => ?_, fun e h => ?_⟩
    · obtain ⟨c, hc, heq⟩ := exists_part_of_label (hlabel ▸ h)
      exact ⟨c, List.mem_append_left _ (List.mem_append_left _ hc), heq⟩
    · obtain ⟨c, hc, heq⟩ := exists_part_of_value (hvalue ▸ h)
      exact ⟨c, List.mem_append_left _ (List.mem_append_right _ hc), heq⟩
  induction h with
  | @command row content =>
      intro inner hinner
      rw [Line.lower, Asm6502.Line.walk, List.mem_singleton] at hinner
      subst hinner
      refine ⟨fun label h => ?_, fun e h => ?_⟩
      · obtain ⟨c, hc, heq⟩ := exists_part_of_label h
        exact ⟨c, List.mem_append_left _ hc, heq⟩
      · cases content with
        | none => simp [Asm6502.Line.expressions] at h
        | some command =>
            simp only [Option.map_some, Asm6502.Line.expressions, Command.lower, List.map_map,
              List.mem_map, Function.comp_apply] at h
            obtain ⟨argument, hargument, rfl⟩ := h
            refine ⟨argument.value, List.mem_append_right _ ?_, rfl⟩
            exact List.mem_flatMap.2 ⟨command, by simp, List.mem_map.2 ⟨argument, hargument, rfl⟩⟩
  | macroBlock =>
      intro inner hinner
      rw [Line.lower, Asm6502.Line.walk, List.mem_singleton] at hinner
      subst hinner
      exact ⟨fun label h => exists_part_of_label h, by simp [Asm6502.Line.expressions]⟩
  | conditional _ _ _ _ _ _ _ _ ihthen ihelse =>
      intro inner hinner
      rw [Line.lower, Asm6502.Line.walk, List.mem_cons, List.mem_append] at hinner
      rw [Line.parts]
      rcases hinner with rfl | hinner | hinner
      · exact hhead rfl rfl
      · exact (hlines ihthen inner hinner).mono fun part h =>
          List.mem_append_right _ (List.mem_append_left _ h)
      · exact (hlines ihelse inner hinner).mono fun part h =>
          List.mem_append_right _ (List.mem_append_right _ h)
  | repetition _ _ _ _ _ _ ih =>
      intro inner hinner
      rw [Line.lower, Asm6502.Line.walk, List.mem_cons] at hinner
      rw [Line.parts]
      rcases hinner with rfl | hinner
      · exact hhead rfl rfl
      · exact (hlines ih inner hinner).mono fun part h => List.mem_append_right _ h

end Concrete

theorem Document.shows_of_mem_walkAll (text : String) (uri : Uri) {line : Line}
    (hline : line ∈ Line.walkAll (ofText text uri).file.lines) :
    line.Shows uri (Concrete.Line.partsAll (ConcreteFile.ofTokens (tokenize text).tokens
      (tokenize text).comments text).lines) := by
  obtain ⟨outer, houter, hline⟩ := Concrete.mem_walkAll_lowerAll.1 hline
  have hfrom := ConcreteFile.ofTokens_from _ _ _ outer houter
  rw [Concrete.Line.partsAll_eq_flatMap]
  exact (Concrete.Line.shows_of_mem_walk hfrom line hline).mono
    fun part h => List.mem_flatMap.2 ⟨outer, houter, h⟩

theorem Document.exists_madeOf_of_mem_expressions {text : String} {uri : Uri} {line : Line}
    (hline : line ∈ Line.walkAll (ofText text uri).file.lines) {e : Expr}
    (he : e ∈ line.expressions) :
    ∃ c : Concrete.Expr, c.MadeOf (tokenize text).tokens ∧ e = c.lower uri := by
  obtain ⟨c, hc, heq⟩ := (shows_of_mem_walkAll text uri hline).expressions e he
  exact ⟨c, (Concrete.ofTokens_parts_standIn _ _ text _ hc).1, heq⟩

theorem Document.exists_shows_of_mem_walkAll (text : String) (uri : Uri) :
    ∃ parts : List Concrete.Part, (∀ part ∈ parts, part.StandsIn (tokenize text).tokens) ∧
      ∀ line ∈ Line.walkAll (ofText text uri).file.lines, line.Shows uri parts :=
  ⟨_, Concrete.ofTokens_parts_standIn _ (tokenize text).comments text,
    fun _ hline => shows_of_mem_walkAll text uri hline⟩

end Asm6502
