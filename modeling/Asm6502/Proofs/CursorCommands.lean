import Asm6502.Proofs.CursorExprs

/-!
# Commands by position

Labels, arguments, commands and the heads of blocks are read by position as they are read from the
tokens that are left on a row.  A command and the head of a block give up the rest of a broken row,
so that the place comes to the end of the row in any case, and with the row finished it stands
behind the line break.
-/

namespace Asm6502

namespace Concrete

namespace Cursor

variable {c : Cursor} {p q : Nat} {stop token : Token} {index : Nat} {row rest : List Token}

/-- Outside brackets and expressions both counters are zero. -/
structure Idle (c : Cursor) : Prop where
  depth : c.depth = 0
  nesting : c.nesting = 0

theorem Stands.expression (h : Stands c.tokens p stop index row) (hidle : c.Idle) :
    Gives c stop index (readExpr stop false row) (c.goto p).expression := by
  have hread := (follows nestingLimit).expression h (by rw [hidle.nesting, Nat.zero_add])
  rw [hidle.depth] at hread
  exact hread

/-! ## Labels -/

theorem Stands.labelFragments (h : Stands c.tokens p stop index row) (found : List Token) :
    ∃ q, (c.goto p).labelFragments found =
        some (found ++ (readLabelFragments row).1, c.goto q) ∧
      Stands c.tokens q stop index (readLabelFragments row).2 := by
  have hends {p : Nat} {row found : List Token} (h : Stands c.tokens p stop index row)
      (hno : ¬ Joins row)
      (hending : ¬ ((peek stop row).kind = .commaX ∨ (peek stop row).kind = .commaY)) :
      (c.goto p).labelFragments found = some (found ++ [], c.goto p) := by
    rw [Cursor.labelFragments, if_neg fun hjoins => hno (h.joins_iff.1 hjoins),
      if_neg (h.kind_eq ▸ hending), List.append_nil]
  have hending {p : Nat} {ending : Token} {rest found : List Token}
      (h : Stands c.tokens p stop index (ending :: rest))
      (hkind : ending.kind = .commaX ∨ ending.kind = .commaY) :
      (c.goto p).labelFragments found =
        (c.goto (p + 1)).labelFragments (found ++ [endingFragment ending]) := by
    have hno : ¬ Joins (ending :: rest) := by
      intro hjoins
      rw [hjoins.kind_eq] at hkind
      simp at hkind
    have hpeek : (c.goto p).kind = .commaX ∨ (c.goto p).kind = .commaY := h.kind_eq ▸ hkind
    have hcurrent : (c.goto p).current = ending := h.current_eq
    rw [Cursor.labelFragments, if_neg fun hjoins => hno (h.joins_iff.1 hjoins), if_pos hpeek,
      h.next_eq.1, hcurrent]
  fun_induction readLabelFragments row generalizing p found with
  | case1 =>
      have hx : stop.kind ≠ .commaX := ne_of_class rfl h.ends
      have hy : stop.kind ≠ .commaY := ne_of_class rfl h.ends
      exact ⟨p, hends h id (by simp [peek, hx, hy]), h⟩
  | case2 ending hkind =>
      have hrest := h.next_eq.2
      have hx : stop.kind ≠ .commaX := ne_of_class rfl h.ends
      have hy : stop.kind ≠ .commaY := ne_of_class rfl h.ends
      refine ⟨p + 1, ?_, hrest⟩
      rw [hending h hkind, hends hrest id (by simp [peek, hx, hy]), List.append_nil]
  | case3 ending hkind => exact ⟨p, hends h id hkind, h⟩
  | case4 first second rest hkind fragments after heq ih =>
      obtain ⟨q, hread, hafter⟩ := ih h.next_eq.2 (found ++ [endingFragment first])
      rw [heq] at hread hafter
      refine ⟨q, ?_, hafter⟩
      rw [hending h hkind, hread, List.append_assoc]
      rfl
  | case5 first second rest hkind hjoins fragments after heq ih =>
      obtain ⟨hnext, hword⟩ := h.next_eq
      obtain ⟨hnext', hrest⟩ := hword.next_eq
      have hcurrent : (c.goto (p + 1)).current = second := hword.current_eq
      obtain ⟨q, hread, hafter⟩ := ih hrest (found ++ [second])
      rw [heq] at hread hafter
      refine ⟨q, ?_, hafter⟩
      rw [Cursor.labelFragments, if_pos (h.joins_iff.2 hjoins), hnext, hcurrent, hnext', hread,
        List.append_assoc]
      rfl
  | case6 first second rest hkind hjoins => exact ⟨p, hends h hjoins hkind, h⟩

def readLabelEnding (first : Token) (others : List Token) : List Token -> Label × List Token
  | [] => (⟨first, others, none⟩, [])
  | colon :: tail =>
      if colon.kind = .colon then (⟨first, others, some colon⟩, tail)
      else (⟨first, others, none⟩, colon :: tail)

theorem Stands.labelEnding (h : Stands c.tokens p stop index row) (first : Token)
    (others : List Token) :
    ∃ q, (c.goto p).labelEnding first others = ((readLabelEnding first others row).1, c.goto q) ∧
      Stands c.tokens q stop index (readLabelEnding first others row).2 := by
  unfold Cursor.labelEnding
  rw [h.kind_eq, h.current_eq]
  cases row with
  | nil =>
      have hcolon : (peek stop []).kind ≠ .colon := ne_of_class rfl h.ends
      rw [if_neg hcolon]
      exact ⟨p, rfl, h⟩
  | cons colon tail =>
      obtain ⟨hnext, htail⟩ := h.next_eq
      have hpeek : peek stop (colon :: tail) = colon := rfl
      rw [hnext, hpeek, readLabelEnding]
      split
      · exact ⟨p + 1, rfl, htail⟩
      · exact ⟨p, rfl, h⟩

variable {first : Token} {keyword : Token}

theorem Stands.label (h : Stands c.tokens p stop index (first :: row)) :
    ∃ q, (c.goto p).label = some ((readLabel first row).1, c.goto q) ∧
      Stands c.tokens q stop index (readLabel first row).2 := by
  obtain ⟨hnext, hrow⟩ := h.next_eq
  have hcurrent : (c.goto p).current = first := h.current_eq
  have hread : readLabel first row =
      if first.kind = .identifier then
        readLabelEnding first (readLabelFragments row).1 (readLabelFragments row).2
      else readLabelEnding first [] row := by
    by_cases hname : first.kind = .identifier
    · simp only [readLabel, hname, if_true]
      rfl
    · simp only [readLabel, hname, if_false]
      rfl
  unfold Cursor.label
  rw [hread, hcurrent, hnext]
  dsimp only
  split
  · obtain ⟨q, hothers, hrest⟩ := hrow.labelFragments []
    obtain ⟨r, hending, hafter⟩ := hrest.labelEnding first (readLabelFragments row).1
    refine ⟨r, ?_, hafter⟩
    rw [hothers]
    exact congrArg some hending
  · obtain ⟨r, hending, hafter⟩ := hrow.labelEnding first []
    exact ⟨r, congrArg some hending, hafter⟩

/-- A name and a colon stand behind the white space at the front of a row. -/
theorem Stands.indented_iff (h : Stands c.tokens p stop index (first :: rest)) :
    ((c.goto p).ahead 1).kind = .identifier ∧ ((c.goto p).ahead 2).kind = .colon ↔
      ∃ name colon tail, rest = name :: colon :: tail ∧ name.kind = .identifier ∧
        colon.kind = .colon := by
  match rest, h with
  | [], h =>
      have hahead : (c.goto p).ahead 1 = stop := h.ahead_eq (Nat.le_refl 1)
      have hname : stop.kind ≠ .identifier := ne_of_class rfl h.ends
      simp [hahead, hname]
  | [name], h =>
      have hahead : (c.goto p).ahead 2 = stop := h.ahead_eq (Nat.le_refl 2)
      have hcolon : stop.kind ≠ .colon := ne_of_class rfl h.ends
      simp [hahead, hcolon]
  | name :: colon :: tail, h =>
      have hname : (c.goto p).ahead 1 = name := h.ahead_eq (by simp)
      have hcolon : (c.goto p).ahead 2 = colon := h.ahead_eq (by simp)
      rw [hname, hcolon]
      constructor
      · intro hkinds
        exact ⟨name, colon, tail, rfl, hkinds⟩
      · rintro ⟨name, colon, tail, hrest, hkinds⟩
        cases hrest
        exact hkinds

theorem Stands.label? (h : Stands c.tokens p stop index row) :
    ∃ q, (c.goto p).label? = some ((readLabel? row).1, c.goto q) ∧
      Stands c.tokens q stop index (readLabel? row).2 := by
  unfold Cursor.label?
  rw [h.kind_eq, h.current_eq]
  cases row with
  | nil =>
      have hpeek : peek stop [] = stop := rfl
      rw [hpeek]
      rcases kind_of_isLineEnd h.ends with hkind | hkind
      all_goals
        simp only [hkind]
        exact ⟨p, rfl, h⟩
  | cons first rest =>
      have hpeek : peek stop (first :: rest) = first := rfl
      rw [hpeek]
      by_cases hfront : (first.kind = .identifier ∨ first.kind = .dot) ∧
          first.span.start.column = 0
      · obtain ⟨q, hlabel, hrest⟩ := h.label
        have hread : readLabel? (first :: rest) =
            (some (readLabel first rest).1, (readLabel first rest).2) := by
          simp [readLabel?, hfront]
        rw [if_pos hfront, hlabel, hread]
        exact ⟨q, rfl, hrest⟩
      rw [if_neg hfront]
      by_cases hindented : first.kind = .whitespace ∧ ∃ name colon tail,
          rest = name :: colon :: tail ∧ name.kind = .identifier ∧ colon.kind = .colon
      · obtain ⟨hblank, name, colon, tail, rfl, hname, hcolon⟩ := hindented
        obtain ⟨r, hskip, hrest⟩ := h.skipSpace
        rw [skipBlanks_blank hblank, skipBlanks_cons (by simp [hname])] at hrest
        obtain ⟨q, hlabel, hafter⟩ := hrest.label
        have hread : readLabel? (first :: name :: colon :: tail) =
            (some (readLabel name (colon :: tail)).1, (readLabel name (colon :: tail)).2) := by
          simp [readLabel?, hblank, hname, hcolon]
        rw [if_pos ⟨hblank, h.indented_iff.2 ⟨name, colon, tail, rfl, hname, hcolon⟩⟩, hskip, hread]
        refine ⟨q, ?_, hafter⟩
        simp [hlabel]
      · have hread : readLabel? (first :: rest) = (none, first :: rest) := by
          simp only [readLabel?, hfront, if_false]
          split
          · next hblank =>
            split
            · next name colon tail =>
              have hkinds : ¬ (name.kind = .identifier ∧ colon.kind = .colon) :=
                fun hkinds => hindented ⟨hblank, name, colon, tail, rfl, hkinds⟩
              rw [if_neg hkinds]
            · rfl
          · rfl
        rw [if_neg fun hkinds => hindented ⟨hkinds.1, h.indented_iff.1 hkinds.2⟩, hread]
        exact ⟨p, rfl, h⟩

/-! ## Arguments -/

theorem Stands.address (h : Stands c.tokens p stop index row) (value : Expr) :
    Gives c stop index (.ok (readAddressEnding value row)) (some ((c.goto p).address value)) := by
  unfold Cursor.address
  rw [h.kind_eq]
  cases row with
  | nil =>
      have hx : (peek stop []).kind ≠ .commaX := ne_of_class rfl h.ends
      have hy : (peek stop []).kind ≠ .commaY := ne_of_class rfl h.ends
      rw [if_neg (by simp [hx, hy])]
      exact ⟨p, rfl, h⟩
  | cons ending rest =>
      obtain ⟨hnext, hrest⟩ := h.next_eq
      have hpeek : peek stop (ending :: rest) = ending := rfl
      rw [h.current_eq, hnext, hpeek, readAddressEnding]
      split
      · exact ⟨p + 1, rfl, hrest⟩
      · exact ⟨p, rfl, h⟩

def readIndirectEnding (stop opening : Token) (value : Expr) (tokens : List Token) :
    Except ParseError (Argument × List Token) :=
  match tokens with
  | [] => .error (unexpected stop [] .indirectEnding)
  | closing :: rest =>
      if closing.kind = .parenRight then
        let next := peek stop rest
        if next.kind.isBinarySign ∨ next.kind = .commaX then do
          let (value, rest) <- readChain stop nestingLimit false (.round opening value closing) rest
          return readAddressEnding value rest
        else return (.indirect opening value closing, rest)
      else if closing.kind = .commaXParen ∨ closing.kind = .parenCommaY then
        return (.indirect opening value closing, rest)
      else .error (unexpected stop (closing :: rest) .indirectEnding)

theorem Stands.indirectEnding (h : Stands c.tokens p stop index row) (hidle : c.Idle)
    (opening : Token) (value : Expr) :
    Gives c stop index (readIndirectEnding stop opening value row)
      ((c.goto p).indirectEnding opening value) := by
  unfold Cursor.indirectEnding
  rw [h.current_eq, h.expected_eq]
  cases row with
  | nil =>
      have hpeek : peek stop [] = stop := rfl
      rw [hpeek]
      rcases kind_of_isLineEnd h.ends with hkind | hkind
      all_goals
        simp only [hkind]
        exact ⟨p, [], rfl, h⟩
  | cons closing rest =>
      obtain ⟨hnext, hrest⟩ := h.next_eq
      have hpeek : peek stop (closing :: rest) = closing := rfl
      rw [hnext, hpeek, readIndirectEnding]
      dsimp only
      rw [hrest.kind_eq]
      split
      · split
        · have htail := (follows nestingLimit).tail hrest
            (by rw [hidle.nesting, Nat.zero_add]) (.round opening value closing)
          rw [hidle.depth] at htail
          refine htail.bind (fun _ => rfl) ?_
          intro value after q hafter
          exact hafter.address value
        · exact ⟨p + 1, rfl, hrest⟩
      split
      · exact ⟨p + 1, rfl, hrest⟩
      · exact ⟨p, closing :: rest, rfl, h⟩

theorem Stands.indirect {opening : Token} (h : Stands c.tokens p stop index (opening :: row))
    (hidle : c.Idle) :
    Gives c stop index (readIndirect stop opening row) (c.goto p).indirect := by
  have hread : readIndirect stop opening row = readBracketed stop nestingLimit row >>= fun read =>
      readIndirectEnding stop opening read.1 read.2 := by
    unfold readIndirect readBracketed
    rw [readExpr_eq_readFrom]
    cases readFrom stop nestingLimit true (skipBlanks row) <;> rfl
  have hinner := (follows nestingLimit).bracketed h (by rw [hidle.nesting, Nat.zero_add])
  unfold Cursor.indirect
  rw [hread, h.current_eq]
  refine hinner.bind (fun _ => rfl) ?_
  intro value rest q hrest
  exact hrest.indirectEnding hidle opening value

theorem Stands.addressArgument (h : Stands c.tokens p stop index row) (hidle : c.Idle) :
    Gives c stop index (readExpr stop false row >>= fun read =>
      .ok (readAddressEnding read.1 read.2)) ((c.goto p).expression >>= fun
        | (none, c) => some (none, c)
        | (some value, c) => some (c.address value)) := by
  refine (h.expression hidle).bind (fun _ => rfl) ?_
  intro value rest q hrest
  exact hrest.address value

theorem Stands.argument (h : Stands c.tokens p stop index row) (hidle : c.Idle) :
    Gives c stop index (readArgument stop row) (c.goto p).argument := by
  unfold Cursor.argument
  rw [h.current_eq]
  cases row with
  | nil =>
      have hhash : (peek stop []).kind ≠ .hash := ne_of_class rfl h.ends
      have hparen : (peek stop []).kind ≠ .parenLeft := ne_of_class rfl h.ends
      simp only [hhash, hparen, if_false]
      exact h.addressArgument hidle
  | cons first rest =>
      obtain ⟨hnext, hrest⟩ := h.next_eq
      have hpeek : peek stop (first :: rest) = first := rfl
      rw [hnext, hpeek, readArgument]
      dsimp only
      split
      · refine (hrest.expression hidle).bind (fun _ => rfl) ?_
        intro value after q hafter
        exact ⟨q, rfl, hafter⟩
      split
      · exact h.indirect hidle
      · exact h.addressArgument hidle

/-- White space was passed over exactly if the first token on the row is white space. -/
theorem Stands.spaced_eq (h : Stands c.tokens p stop index row)
    (hq : Stands c.tokens q stop index (skipBlanks row)) :
    (q != p) = ((peek stop row).kind == .whitespace) := by
  have hp := h.index_eq
  have hq := hq.index_eq
  cases row with
  | nil =>
      have hkind : (peek stop []).kind ≠ .whitespace := ne_of_class rfl h.ends
      have hsame : q = p := hq.trans hp.symm
      simp [hsame, hkind]
  | cons token rest =>
      by_cases hblank : token.kind = .whitespace
      · have hle := length_skipBlanks_le rest
        rw [skipBlanks_blank hblank] at hq
        rw [List.length_cons] at hp
        have hne : q ≠ p := by omega
        simp [peek, hne, hblank]
      · rw [skipBlanks_cons hblank] at hq
        have hsame : q = p := by omega
        simp [peek, hsame, hblank]

/-- Where the next argument starts, given the tokens from which it is read.  If there is none the
place comes to the end of the row. -/
def Separates (c : Cursor) (stop : Token) (index : Nat)
    (answer : Except ParseError (List Token)) (result : Option (Bool × Cursor)) : Prop :=
  match answer with
  | .ok rest => ∃ p, result = some (true, c.goto p) ∧ Stands c.tokens p stop index rest
  | .error error => result = some (false, (c.goto index).fault error)

theorem Stands.separator {tail : List Token}
    (hrow : skipBlanks row = first :: tail) (h : Stands c.tokens p stop index (first :: tail))
    (afterName isFirst : Bool) :
    Separates c stop index (readSeparator stop afterName isFirst row)
      ((c.goto p).separator afterName isFirst ((peek stop row).kind == .whitespace)) := by
  have hkind : (c.goto p).kind = first.kind := h.kind_eq
  obtain ⟨hnext, htail⟩ := h.next_eq
  simp only [readSeparator, Cursor.separator, hrow, hkind]
  split
  · split
    · -- A comma, behind which something has to follow.
      obtain ⟨q, hskip, hrest⟩ := htail.skipSpace
      have hend : (c.goto q).kind.isLineEnd = (skipBlanks tail).isEmpty := hrest.isLineEnd_eq
      rw [hnext, hskip]
      simp only [Option.bind_eq_bind, Option.bind_some, hend]
      cases htokens : skipBlanks tail with
      | nil =>
          rw [htokens] at hrest
          have hindex : q = index := hrest.index_eq
          subst hindex
          exact congrArg (fun last => some (false, last)) (hrest.expected_eq .argument)
      | cons token after =>
          rw [htokens] at hrest
          exact ⟨q, rfl, hrest⟩
    · split
      · have hskip := Stands.skipRow
          (c := c.fault (unexpected stop (first :: tail) .argumentSeparator)) h
        rw [h.expected_eq]
        exact congrArg (· >>= _) hskip.1
      · exact ⟨p, rfl, h⟩
  · exact ⟨p, rfl, h⟩

theorem Stands.nextArgument (h : Stands c.tokens p stop index row)
    (hsome : ¬ (skipBlanks row).isEmpty = true) (afterName : Bool) (found : List Argument) :
    ∃ result, Separates c stop index (readSeparator stop afterName found.isEmpty row) result ∧
      (c.goto p).arguments afterName found = result >>= fun read =>
        if read.1 then
          read.2.argument >>= fun
            | (some argument, c) => c.arguments afterName (found ++ [argument])
            | (none, c) => c.skipRow >>= fun c => some (found, c)
        else some (found, read.2) := by
  obtain ⟨q, hskip, hrow⟩ := h.skipSpace
  have hspaced := h.spaced_eq hrow
  have hend : (c.goto q).kind.isLineEnd = false :=
    hrow.isLineEnd_eq.trans (Bool.eq_false_iff.2 hsome)
  have hq : (c.goto q).position = q := rfl
  have hp : (c.goto p).position = p := rfl
  cases htokens : skipBlanks row with
  | nil => simp [htokens] at hsome
  | cons first tail =>
      rw [htokens] at hrow
      refine ⟨_, hrow.separator htokens afterName found.isEmpty, ?_⟩
      rw [Cursor.arguments, hskip]
      simp only [Option.bind_eq_bind, Option.bind_some, hend, Bool.false_eq_true, if_false, hq, hp,
        hspaced]
      rfl

theorem Stands.arguments (h : Stands c.tokens p stop index row) (hidle : c.Idle)
    (afterName : Bool) (found : List Argument) :
    (c.goto p).arguments afterName found =
      some (found ++ (readArguments stop afterName found.isEmpty row).1,
        (c.goto index).faults (readArguments stop afterName found.isEmpty row).2.toList) := by
  generalize hfirst : found.isEmpty = isFirst
  fun_induction readArguments stop afterName isFirst row generalizing p found with
  | case1 isFirst row hempty =>
      obtain ⟨q, hskip, hrow⟩ := h.skipSpace
      have hend : (c.goto q).kind.isLineEnd = true := hrow.isLineEnd_eq.trans hempty
      rw [List.isEmpty_iff.1 hempty] at hrow
      have hindex : q = index := hrow.index_eq
      subst hindex
      rw [Cursor.arguments, hskip]
      simp [hend, faults]
  | case2 isFirst row hsome error hseparator =>
      obtain ⟨result, hseparates, hunfold⟩ := h.nextArgument hsome afterName found
      rw [hfirst, hseparator] at hseparates
      rw [hunfold, hseparates]
      simp [fault, faults]
  | case3 isFirst row hsome after hseparator error hargument =>
      obtain ⟨result, hseparates, hunfold⟩ := h.nextArgument hsome afterName found
      rw [hfirst, hseparator] at hseparates
      obtain ⟨q, hresult, hafter⟩ := hseparates
      have hread := hafter.argument hidle
      rw [hargument] at hread
      obtain ⟨r, rest, hbroken, hrest⟩ := hread
      have hskip := (Stands.skipRow (c := c.fault error) hrest).1
      simp only [goto_fault] at hskip
      rw [hunfold, hresult]
      simp only [Option.bind_eq_bind, Option.bind_some, if_true, hbroken, hskip, List.append_nil]
      rfl
  | case4 isFirst row hsome after hseparator argument rest hargument arguments error heq ih =>
      obtain ⟨result, hseparates, hunfold⟩ := h.nextArgument hsome afterName found
      rw [hfirst, hseparator] at hseparates
      obtain ⟨q, hresult, hafter⟩ := hseparates
      have hread := hafter.argument hidle
      rw [hargument] at hread
      obtain ⟨r, hvalue, hrest⟩ := hread
      have hmore := ih hrest (found ++ [argument]) (by simp)
      rw [heq] at hmore
      rw [hunfold, hresult]
      simp [hvalue, hmore]

/-! ## Commands and heads of blocks -/

theorem Stands.extension (h : Stands c.tokens p stop index row) (name : Token) :
    ∃ q, (c.goto p).extension name = ((readExtension? name row).1,
        (c.goto q).faults (extensionErrors (readExtension? name row).1)) ∧
      Stands c.tokens q stop index (readExtension? name row).2 := by
  unfold Cursor.extension
  rw [h.current_eq]
  cases row with
  | nil =>
      have hkind : (peek stop []).kind ≠ .identifier := ne_of_class rfl h.ends
      simp only [hkind, false_and, if_false]
      exact ⟨p, by simp [readExtension?, extensionErrors], h⟩
  | cons ext rest =>
      obtain ⟨hnext, hrest⟩ := h.next_eq
      have hpeek : peek stop (ext :: rest) = ext := rfl
      rw [hnext, hpeek, readExtension?]
      dsimp only
      split
      · refine ⟨p + 1, ?_, hrest⟩
        simp only [extensionErrors]
        split
        · rfl
        · rw [faults_nil]
      · exact ⟨p, by simp [extensionErrors], h⟩

theorem Stands.commandTail (h : Stands c.tokens p stop index row) (hidle : c.Idle)
    (name ext : Option Token) :
    let read := readArguments stop name.isSome true row
    (c.goto p).commandTail name ext =
      some (⟨name, ext, read.1, commandSpan stop name ext read.1⟩,
        (c.goto index).faults read.2.toList) := by
  have hcurrent (errors : List ParseError) : ((c.goto index).faults errors).current = stop :=
    h.skipRow.2.current_eq
  unfold Cursor.commandTail
  rw [h.arguments hidle]
  simp only [Option.bind_eq_bind, Option.bind_some, hcurrent]
  rfl

theorem Stands.command (h : Stands c.tokens p stop index (first :: row)) (hidle : c.Idle) :
    let read :=
      if first.kind = .identifier ∨ first.kind = .equals then readCommandTail stop (some first) row
      else readCommandTail stop none (first :: row)
    (c.goto p).command = some (read.1, (c.goto index).faults read.2) := by
  obtain ⟨hnext, hrow⟩ := h.next_eq
  have hcurrent : (c.goto p).current = first := h.current_eq
  have hkind : (c.goto p).kind = first.kind := h.kind_eq
  unfold Cursor.command
  rw [hkind, hcurrent, hnext]
  dsimp only
  split
  · obtain ⟨q, hext, hrest⟩ := hrow.extension first
    rw [hext]
    refine (Stands.commandTail (c := c.faults (extensionErrors (readExtension? first row).1)) hrest
      ⟨hidle.depth, hidle.nesting⟩ (some first) _).trans ?_
    refine congrArg (fun last => some (_, last)) ?_
    exact faults_faults (c.goto index) _ _
  · exact h.commandTail hidle none none

theorem Stands.headExpression (h : Stands c.tokens p stop index row) (hidle : c.Idle)
    (what : Expected) :
    ∃ last, (c.goto p).headExpression what = some ((readHeadExpr stop what row).1, last) ∧
      last.finishRow =
        some ((c.goto (behindRow stop index)).faults (readHeadExpr stop what row).2) := by
  obtain ⟨q, hskip, hrow⟩ := h.skipSpace
  unfold Cursor.headExpression readHeadExpr
  rw [hskip]
  simp only [Option.bind_eq_bind, Option.bind_some, hrow.isLineEnd_eq]
  cases htokens : skipBlanks row with
  | nil =>
      rw [htokens] at hrow
      rw [hrow.expected_eq]
      exact ⟨_, rfl, hrow.finishRow_faults [unexpected stop [] what]⟩
  | cons first rest =>
      rw [htokens] at hrow
      have hread := hrow.expression hidle
      simp only [List.isEmpty_cons, Bool.false_eq_true, if_false]
      cases hanswer : readExpr stop false (first :: rest) with
      | error error =>
          rw [hanswer] at hread
          obtain ⟨r, after, hbroken, hafter⟩ := hread
          obtain ⟨hend, hlast⟩ := Stands.skipRow (c := c.fault error) hafter
          simp only [goto_fault] at hend
          refine ⟨_, ?_, Stands.finishRow_faults (c := c) hlast [error]⟩
          simp only [hbroken, hend, Option.bind_some]
          rfl
      | ok read =>
          rw [hanswer] at hread
          obtain ⟨r, hvalue, hafter⟩ := hread
          exact ⟨_, by simp [hvalue], hafter.finishRow⟩

theorem Stands.macroName (h : Stands c.tokens p stop index row) :
    ∃ last, (c.goto p).macroName = some ((readMacroName stop row).1, last) ∧
      last.finishRow =
        some ((c.goto (behindRow stop index)).faults (readMacroName stop row).2) := by
  obtain ⟨q, hskip, hrow⟩ := h.skipSpace
  unfold Cursor.macroName readMacroName
  rw [hskip]
  simp only [Option.bind_eq_bind, Option.bind_some, hrow.isLineEnd_eq]
  cases htokens : skipBlanks row with
  | nil =>
      rw [htokens] at hrow
      rw [hrow.expected_eq]
      exact ⟨_, rfl, hrow.finishRow_faults [unexpected stop [] .macroName]⟩
  | cons name rest =>
      rw [htokens] at hrow
      obtain ⟨hnext, hrest⟩ := hrow.next_eq
      have hcurrent : (c.goto q).current = name := hrow.current_eq
      rw [hcurrent, hnext]
      exact ⟨_, rfl, hrest.finishRow⟩

/-- The content of a row.  A command is done with its row, and a block goes on behind it. -/
def Enters (c : Cursor) (stop : Token) (index : Nat) (read : Content × List ParseError)
    (result : Option (Body × Cursor)) : Prop :=
  let behind := (c.goto (behindRow stop index)).faults read.2
  match read.1 with
  | .command command =>
      ∃ last, result = some (.ofCommand command, last) ∧ last.finishRow = some behind
  | .conditional keyword condition => result = behind.branches keyword condition
  | .repetition keyword count => result = behind.repeated keyword count
  | .macroBlock keyword name => result = behind.macroBody keyword name

theorem Stands.givenUp (h : Stands c.tokens p stop index row) (error : ParseError) :
    Enters c stop index (.command none, [error])
      (((c.goto p).fault error).skipRow >>= fun last => some (.ofCommand none, last)) := by
  obtain ⟨hskip, hend⟩ := Stands.skipRow (c := c.fault error) h
  refine ⟨_, congrArg (· >>= _) hskip, ?_⟩
  exact Stands.finishRow_faults (c := c) hend [error]

theorem Stands.conditional (h : Stands c.tokens p stop index (keyword :: row)) (hidle : c.Idle) :
    let read := readHeadExpr stop .condition row
    Enters c stop index (.conditional keyword read.1, read.2) (c.goto p).conditional := by
  obtain ⟨hnext, hrow⟩ := h.next_eq
  obtain ⟨last, hhead, hfinish⟩ := hrow.headExpression hidle .condition
  have hcurrent : (c.goto p).current = keyword := h.current_eq
  unfold Enters
  rw [Cursor.conditional, hnext, hcurrent, hhead]
  simp only [Option.bind_eq_bind, Option.bind_some, hfinish]

theorem Stands.repetition (h : Stands c.tokens p stop index (keyword :: row)) (hidle : c.Idle) :
    let read := readHeadExpr stop .repeatCount row
    Enters c stop index (.repetition keyword read.1, read.2) (c.goto p).repetition := by
  obtain ⟨hnext, hrow⟩ := h.next_eq
  obtain ⟨last, hhead, hfinish⟩ := hrow.headExpression hidle .repeatCount
  have hcurrent : (c.goto p).current = keyword := h.current_eq
  unfold Enters
  rw [Cursor.repetition, hnext, hcurrent, hhead]
  simp only [Option.bind_eq_bind, Option.bind_some, hfinish]

theorem Stands.macroBlock (h : Stands c.tokens p stop index (keyword :: row)) :
    let read := readMacroName stop row
    Enters c stop index (.macroBlock keyword read.1, read.2) (c.goto p).macroBlock := by
  obtain ⟨hnext, hrow⟩ := h.next_eq
  obtain ⟨last, hhead, hfinish⟩ := hrow.macroName
  have hcurrent : (c.goto p).current = keyword := h.current_eq
  unfold Enters Cursor.macroBlock
  rw [hnext, hcurrent, hhead]
  simp only [Option.bind_eq_bind, Option.bind_some, hfinish]

theorem Stands.commandBody (h : Stands c.tokens p stop index (first :: row)) (hidle : c.Idle) :
    let starts := first.kind = .identifier ∨ first.kind = .equals
    let read :=
      if starts then readCommandTail stop (some first) row
      else readCommandTail stop none (first :: row)
    Enters c stop index
      (if starts ∨ startsArgument first.kind then (.command (some read.1), read.2)
        else (.command none, [unexpected stop (first :: row) .command]))
      (c.goto p).commandBody := by
  have hkind : (c.goto p).kind = first.kind := h.kind_eq
  unfold Cursor.commandBody
  rw [hkind, h.expected_eq, h.command hidle]
  dsimp only
  by_cases hstarts : first.kind = .identifier ∨ first.kind = .equals ∨ startsArgument first.kind
  · rw [if_pos (or_assoc.2 hstarts), if_pos hstarts]
    refine ⟨_, rfl, ?_⟩
    rw [Stands.finishRow_faults (c := c) h.skipRow.2]
    exact congrArg (fun errors => some (faults _ errors)) (List.append_nil _)
  · rw [if_neg fun hsome => hstarts (or_assoc.1 hsome), if_neg hstarts]
    exact h.givenUp _

theorem Stands.body (h : Stands c.tokens p stop index (first :: row))
    (hidle : c.Idle) : Enters c stop index (readContent stop first row) (c.goto p).body := by
  have hkind : (c.goto p).kind = first.kind := h.kind_eq
  have hcommand := h.commandBody hidle
  rw [Cursor.body, hkind]
  split
  · next hfirst =>
    simp only [readContent, hfirst]
    exact h.conditional hidle
  · next hfirst =>
    simp only [readContent, hfirst]
    exact h.conditional hidle
  · next hfirst =>
    simp only [readContent, hfirst]
    exact h.conditional hidle
  · next hfirst =>
    simp only [readContent, hfirst]
    exact h.repetition hidle
  · next hfirst =>
    simp only [readContent, hfirst]
    exact h.macroBlock
  · next hif hifConst hifNConst hrepeat hmac =>
    unfold readContent
    split
    · next hfirst => exact absurd hfirst hif
    · next hfirst => exact absurd hfirst hifConst
    · next hfirst => exact absurd hfirst hifNConst
    · next hfirst => exact absurd hfirst hrepeat
    · next hfirst => exact absurd hfirst hmac
    · next hfirst => simpa [hfirst] using hcommand
    · next hfirst => simpa [hfirst] using hcommand
    · next hname hequals =>
      have hnone : ¬ (first.kind = .identifier ∨ first.kind = .equals) := by
        rintro (hfirst | hfirst)
        · exact hname hfirst
        · exact hequals hfirst
      simpa only [hnone, false_or, if_false] using hcommand

theorem Stands.behindLabel (h : Stands c.tokens p stop index row) (hidle : c.Idle)
    (hasLabel : Bool) :
    Enters c stop index (readBehindLabel stop hasLabel row) ((c.goto p).behindLabel hasLabel) := by
  rw [Cursor.behindLabel, h.kind_eq, h.expected_eq]
  cases row with
  | nil =>
      have hpeek : peek stop [] = stop := rfl
      have hempty : Enters c stop index (.command none, []) (some (.ofCommand none, c.goto p)) :=
        ⟨_, rfl, h.finishRow⟩
      rw [hpeek]
      rcases kind_of_isLineEnd h.ends with hkind | hkind
      all_goals
        simp only [hkind, reduceCtorEq, and_false, if_false]
        exact hempty
  | cons first rest =>
      have hpeek : peek stop (first :: rest) = first := rfl
      have hinner : first.kind.isLineEnd = false := h.inner first List.mem_cons_self
      rw [hpeek, readBehindLabel]
      by_cases hblank : first.kind = .whitespace
      · obtain ⟨q, hskip, hrest⟩ := h.skipSpace
        rw [skipBlanks_blank hblank] at hrest
        simp only [hblank, reduceCtorEq, and_false, if_false, if_true, hskip,
          Option.bind_eq_bind, Option.bind_some, hrest.isLineEnd_eq]
        cases htokens : skipBlanks rest with
        | nil =>
            rw [htokens] at hrest
            exact ⟨_, rfl, hrest.finishRow⟩
        | cons token after =>
            rw [htokens] at hrest
            exact hrest.body hidle
      · have hbody := h.body hidle
        have hbroken := h.givenUp (unexpected stop (first :: rest) .whitespaceAfterLabel)
        simp only [hblank, hinner, Bool.false_eq_true, if_false]
        cases hasLabel with
        | false => simpa using hbody
        | true =>
            by_cases hequals : first.kind = .equals
            · simpa [hequals] using hbody
            · simpa [hequals] using hbroken

end Cursor

end Concrete

end Asm6502
