import Asm6502.Concrete.Cursor
import Asm6502.Proofs.ExprGrammar

/-!
# Rows by position

A place in a text stands on a row, which has some tokens left up to its line break or to the end of
the text.  Reading by position and reading the tokens that are left come to the same: where the
latter gives a value and the rest of the row, the former gives the value and stands in front of the
rest, and where the latter gives a fault, the former notes it and stays on the row.  In either case
both counters are what they were.
-/

namespace Asm6502

namespace Concrete

namespace Cursor

/-! ## Places on a row -/

/-- At a position some tokens of the row are left in front of the one at which it stops, and that
one has an index. -/
structure Stands (tokens : List Token) (position : Nat) (stop : Token) (index : Nat)
    (row : List Token) : Prop where
  inner : ∀ token ∈ row, token.kind.isLineEnd = false
  ends : stop.kind.isLineEnd = true
  index_eq : position + row.length = index
  split : ∃ more, tokens.drop position = row ++ more ∧ more.headD (behindLast tokens) = stop

theorem kind_of_isLineEnd {kind : Token.Kind} (h : kind.isLineEnd = true) :
    kind = .newline ∨ kind = .eof := by
  revert h
  cases kind <;> decide

theorem kind_behindLast (tokens : List Token) : (behindLast tokens).kind = .eof := by
  unfold behindLast
  split
  · split
    · assumption
    · rfl
  · rfl

theorem exists_stands (tokens : List Token) (position : Nat) :
    ∃ stop index row, Stands tokens position stop index row := by
  refine ⟨_, _, (tokens.drop position).takeWhile fun token => !token.kind.isLineEnd, ?_, ?_, rfl,
    _, List.takeWhile_append_dropWhile.symm, rfl⟩
  · intro token htoken
    simpa using List.all_eq_true.1 List.all_takeWhile token htoken
  · cases hrest : (tokens.drop position).dropWhile fun token => !token.kind.isLineEnd with
    | nil => simp [kind_behindLast, Token.Kind.isLineEnd]
    | cons token rest =>
        have hhead := List.head?_dropWhile_not (fun token : Token => !token.kind.isLineEnd)
          (tokens.drop position)
        rw [hrest] at hhead
        simpa using hhead

@[simp] theorem goto_fault (c : Cursor) (error : ParseError) (p : Nat) :
    (c.fault error).goto p = (c.goto p).fault error := rfl

namespace Stands

variable {c : Cursor} {p : Nat} {stop token : Token} {index : Nat} {row rest : List Token}

theorem ahead_eq (h : Stands c.tokens p stop index row) {count : Nat}
    (hcount : count ≤ row.length) : (c.goto p).ahead count = peek stop (row.drop count) := by
  obtain ⟨more, hsplit, hstop⟩ := h.split
  have hahead : (c.goto p).ahead count =
      (c.tokens.drop p)[count]?.getD (behindLast c.tokens) := by
    rw [List.getElem?_drop]
    rfl
  rw [hahead, hsplit]
  rcases Nat.lt_or_ge count row.length with hlt | hge
  · rw [List.getElem?_append_left hlt, List.drop_eq_getElem_cons hlt, List.getElem?_eq_getElem hlt]
    rfl
  · have hend : count = row.length := by omega
    subst hend
    rw [List.getElem?_append_right (Nat.le_refl _), Nat.sub_self, List.drop_length, ← hstop]
    cases more <;> rfl

theorem current_eq (h : Stands c.tokens p stop index row) : (c.goto p).current = peek stop row :=
  h.ahead_eq (Nat.zero_le _)

theorem kind_eq (h : Stands c.tokens p stop index row) : (c.goto p).kind = (peek stop row).kind :=
  congrArg Token.kind h.current_eq

theorem next_eq (h : Stands c.tokens p stop index (token :: rest)) :
    (c.goto p).next = c.goto (p + 1) ∧ Stands c.tokens (p + 1) stop index rest := by
  obtain ⟨more, hsplit, hstop⟩ := h.split
  have hlength := congrArg List.length hsplit
  have hindex := h.index_eq
  simp only [List.length_drop, List.length_append, List.length_cons] at hlength hindex
  have hlt : p < c.tokens.length := by omega
  refine ⟨if_pos hlt, fun t ht => h.inner t (List.mem_cons_of_mem _ ht), h.ends, by omega,
    more, ?_, hstop⟩
  rw [← List.drop_drop, hsplit]
  rfl

theorem isLineEnd_eq (h : Stands c.tokens p stop index row) :
    (c.goto p).kind.isLineEnd = row.isEmpty := by
  rw [h.kind_eq]
  cases row with
  | nil => exact h.ends
  | cons token rest => exact h.inner token List.mem_cons_self

theorem expected_eq (h : Stands c.tokens p stop index row) (what : Expected) :
    (c.goto p).expected what = (c.goto p).fault (unexpected stop row what) := by
  rw [expected, h.current_eq, unexpected]

theorem skipSpace (h : Stands c.tokens p stop index row) :
    ∃ q, (c.goto p).skipSpace = some (c.goto q) ∧
      Stands c.tokens q stop index (skipBlanks row) := by
  induction row generalizing p with
  | nil =>
      have hkind : (peek stop []).kind ≠ .whitespace := ne_of_class rfl h.ends
      refine ⟨p, ?_, h⟩
      rw [Cursor.skipSpace, if_neg (h.kind_eq ▸ hkind)]
  | cons token rest ih =>
      obtain ⟨hnext, hrest⟩ := h.next_eq
      by_cases hblank : token.kind = .whitespace
      · obtain ⟨q, hskip, hstands⟩ := ih hrest
        refine ⟨q, ?_, ?_⟩
        · rw [Cursor.skipSpace, if_pos (h.kind_eq.trans hblank), hnext, hskip]
        · rwa [skipBlanks_blank hblank]
      · refine ⟨p, ?_, ?_⟩
        · rw [Cursor.skipSpace, if_neg (h.kind_eq ▸ hblank)]
        · rwa [skipBlanks_cons hblank]

theorem skipInside (h : Stands c.tokens p stop index row) :
    ∃ q, (c.goto p).skipInside = some (c.goto q) ∧
      Stands c.tokens q stop index (skipBlanksIn (0 < c.depth) row) := by
  have hdepth : (c.goto p).depth = c.depth := rfl
  unfold Cursor.skipInside skipBlanksIn
  rw [hdepth]
  by_cases hinside : 0 < c.depth
  · simpa only [hinside, if_true, decide_true] using h.skipSpace
  · simp only [hinside, if_false, decide_false, Bool.false_eq_true]
    exact ⟨p, rfl, h⟩

/-- Whoever gives up a row comes to its end. -/
theorem skipRow (h : Stands c.tokens p stop index row) :
    (c.goto p).skipRow = some (c.goto index) ∧ Stands c.tokens index stop index [] := by
  induction row generalizing p with
  | nil =>
      have hindex : p = index := h.index_eq
      subst hindex
      have hend : (c.goto p).kind.isLineEnd = true := h.isLineEnd_eq
      rw [Cursor.skipRow, if_pos hend]
      exact ⟨rfl, h⟩
  | cons token rest ih =>
      obtain ⟨hnext, hrest⟩ := h.next_eq
      rw [Cursor.skipRow, if_neg (by simp [h.isLineEnd_eq]), hnext]
      exact ih hrest

end Stands

variable {c : Cursor} {p : Nat} {stop token : Token} {index : Nat} {row rest : List Token}

/-- The place behind a row, its line break included. -/
def behindRow (stop : Token) (index : Nat) : Nat :=
  if stop.kind = .newline then index + 1 else index

theorem Stands.behindRow_eq (h : Stands c.tokens index stop index []) :
    (if (c.goto index).kind = .newline then (c.goto index).next else c.goto index) =
      c.goto (behindRow stop index) := by
  have hkind : (c.goto index).kind = stop.kind := h.kind_eq
  unfold behindRow
  rw [hkind]
  split
  · next hnewline =>
    obtain ⟨more, hsplit, hstop⟩ := h.split
    have hlt : index < c.tokens.length := by
      apply Nat.lt_of_not_le
      intro hle
      rw [List.drop_of_length_le hle] at hsplit
      cases more with
      | nil =>
          rw [← hstop, List.headD_nil, kind_behindLast] at hnewline
          cases hnewline
      | cons => cases hsplit
    exact if_pos hlt
  · rfl

def faults (c : Cursor) (errors : List ParseError) : Cursor :=
  { c with errors := c.errors ++ errors }

@[simp] theorem faults_nil (c : Cursor) : c.faults [] = c := by
  simp [faults]

theorem faults_faults (c : Cursor) (errors more : List ParseError) :
    (c.faults errors).faults more = c.faults (errors ++ more) := by
  simp [faults]

theorem Stands.finishRow (h : Stands c.tokens p stop index row) :
    (c.goto p).finishRow =
      some ((c.goto (behindRow stop index)).faults (restErrors stop row)) := by
  obtain ⟨q, hskip, hstands⟩ := h.skipSpace
  unfold Cursor.finishRow restErrors
  simp only [hskip, Option.bind_eq_bind, Option.bind_some]
  cases hrow : skipBlanks row with
  | nil =>
      rw [hrow] at hstands
      have hend : (c.goto q).kind.isLineEnd = true := hstands.isLineEnd_eq
      have hindex : q = index := hstands.index_eq
      subst hindex
      simp [hend, hstands.behindRow_eq, faults]
  | cons token rest =>
      rw [hrow] at hstands
      have hend : (c.goto q).kind.isLineEnd = false := hstands.isLineEnd_eq
      obtain ⟨hrest, hlast⟩ := Stands.skipRow
        (c := c.fault (unexpected stop (token :: rest) .endOfLine)) hstands
      have hbehind := Stands.behindRow_eq
        (c := c.fault (unexpected stop (token :: rest) .endOfLine)) hlast
      simp only [goto_fault] at hrest hbehind
      simp only [hend, hstands.expected_eq, hrest, Option.bind_some, Bool.false_eq_true, if_false]
      exact congrArg some hbehind

theorem Stands.finishRow_faults (h : Stands c.tokens p stop index row)
    (errors : List ParseError) :
    ((c.goto p).faults errors).finishRow =
      some ((c.goto (behindRow stop index)).faults (errors ++ restErrors stop row)) := by
  have hfinish := Stands.finishRow (c := c.faults errors) h
  rw [← faults_faults]
  exact hfinish

/-! ## Expressions -/

/-- What is read by position, given what is read from the tokens that are left on the row. -/
def Gives {α : Type} (c : Cursor) (stop : Token) (index : Nat)
    (answer : Except ParseError (α × List Token)) (result : Option (Option α × Cursor)) : Prop :=
  match answer with
  | .ok (value, rest) =>
      ∃ p, result = some (some value, c.goto p) ∧ Stands c.tokens p stop index rest
  | .error error =>
      ∃ p rest, result = some (none, (c.goto p).fault error) ∧ Stands c.tokens p stop index rest

variable {α β : Type} {answer : Except ParseError (α × List Token)}
  {result : Option (Option α × Cursor)}

/-- A reader that goes on behind another, if that one gave a value. -/
theorem Gives.bind (h : Gives c stop index answer result)
    {f : α × List Token -> Except ParseError (β × List Token)}
    {g : Option α × Cursor -> Option (Option β × Cursor)}
    (hnone : ∀ c, g (none, c) = some (none, c))
    (hnext : ∀ value rest p, Stands c.tokens p stop index rest ->
      Gives c stop index (f (value, rest)) (g (some value, c.goto p))) :
    Gives c stop index (answer >>= f) (result >>= g) := by
  cases answer with
  | ok read =>
      obtain ⟨value, rest⟩ := read
      obtain ⟨p, rfl, hstands⟩ := h
      exact hnext value rest p hstands
  | error error =>
      obtain ⟨p, rest, rfl, hstands⟩ := h
      exact ⟨p, rest, hnone _, hstands⟩

/-- A reader that goes on and may leave the levels counted. -/
theorem Gives.bindAtSome (h : Gives c stop index answer result)
    {f : α × List Token -> Except ParseError (β × List Token)}
    {g : Option α × Cursor -> Option (Option β × Cursor)}
    (hnone : ∀ c, g (none, c) = some (none, c))
    (hnext : ∀ value rest p, Stands c.tokens p stop index rest -> ∃ nesting,
      Gives { c with nesting := nesting } stop index (f (value, rest)) (g (some value, c.goto p))) :
    ∃ nesting, Gives { c with nesting := nesting } stop index (answer >>= f) (result >>= g) := by
  cases answer with
  | ok read =>
      obtain ⟨value, rest⟩ := read
      obtain ⟨p, rfl, hstands⟩ := h
      exact hnext value rest p hstands
  | error error =>
      obtain ⟨p, rest, rfl, hstands⟩ := h
      exact ⟨c.nesting, p, rest, hnone _, hstands⟩

/-- A reader that puts a counter back behind another. -/
theorem Gives.putBack {moved : Cursor} (h : Gives moved stop index answer result)
    {g : Option α × Cursor -> Option (Option α × Cursor)} (htokens : moved.tokens = c.tokens)
    (hvalue : ∀ value p, g (some value, moved.goto p) = some (some value, c.goto p))
    (hfault : ∀ error p,
      g (none, (moved.goto p).fault error) = some (none, (c.goto p).fault error)) :
    Gives c stop index answer (result >>= g) := by
  cases answer with
  | ok read =>
      obtain ⟨p, rfl, hstands⟩ := h
      exact ⟨p, hvalue _ p, htokens ▸ hstands⟩
  | error error =>
      obtain ⟨p, rest, rfl, hstands⟩ := h
      exact ⟨p, rest, hfault error p, htokens ▸ hstands⟩

theorem Stands.expect (h : Stands c.tokens p stop index row) {k : Token.Kind}
    (hkind : k.isLineEnd = false) (what : Expected) :
    Gives c stop index (readKind stop k what row) ((c.goto p).expect k what) := by
  unfold Cursor.expect
  rw [h.kind_eq, h.expected_eq]
  cases row with
  | nil =>
      have hends : (peek stop []).kind ≠ k := ne_of_class hkind h.ends
      rw [if_neg hends]
      exact ⟨p, [], rfl, h⟩
  | cons token rest =>
      by_cases htoken : token.kind = k
      · obtain ⟨hnext, hrest⟩ := h.next_eq
        have hpeek : (peek stop (token :: rest)).kind = k := htoken
        rw [if_pos hpeek, readKind_cons stop what rest htoken, h.current_eq, hnext]
        exact ⟨p + 1, rfl, hrest⟩
      · have hpeek : (peek stop (token :: rest)).kind ≠ k := htoken
        have hread : readKind stop k what (token :: rest) =
            .error (unexpected stop (token :: rest) what) := if_neg htoken
        rw [if_neg hpeek, hread]
        exact ⟨p, token :: rest, rfl, h⟩

theorem Stands.macroArgument {opening : Token}
    (h : Stands c.tokens p stop index (opening :: row)) :
    Gives c stop index (do
      let (number, rest) <- readKind stop .decimal .macroArgumentNumber row
      let (closing, rest) <- readKind stop .braceRight .closingBrace rest
      return (.macroArgument opening number closing, rest)) (c.goto p).macroArgument := by
  obtain ⟨hnext, hrow⟩ := h.next_eq
  unfold Cursor.macroArgument
  rw [h.current_eq, hnext]
  refine (hrow.expect (k := .decimal) rfl .macroArgumentNumber).bind (fun _ => rfl) ?_
  intro number rest q hrest
  refine (hrest.expect (k := .braceRight) rfl .closingBrace).bind (fun _ => rfl) ?_
  intro closing after r hafter
  exact ⟨r, rfl, hafter⟩

/-- A comma and a name behind it go on with a label. -/
def Joins : List Token -> Prop
  | comma :: word :: _ => comma.kind = .comma ∧ word.kind.isWord = true
  | _ => False

theorem Joins.kind_eq (h : Joins (token :: rest)) : token.kind = .comma := by
  cases rest with
  | nil => exact h.elim
  | cons => exact h.1

theorem Stands.joins_iff (h : Stands c.tokens p stop index row) :
    (c.goto p).kind = .comma ∧ ((c.goto p).ahead 1).kind.isWord = true ↔ Joins row := by
  rw [h.kind_eq]
  match row, h with
  | [], h =>
      have hstop : stop.kind ≠ .comma := ne_of_class rfl h.ends
      simp [peek, hstop, Joins]
  | [token], h =>
      have hstop : stop.kind.isWord = false := by
        have hends := h.ends
        revert hends
        cases stop.kind <;> decide
      have hahead : (c.goto p).ahead 1 = stop := h.ahead_eq (Nat.le_refl 1)
      simp [hahead, hstop, Joins]
  | comma :: word :: rest, h =>
      have hahead : (c.goto p).ahead 1 = word := h.ahead_eq (by simp)
      rw [hahead]
      rfl

/-- Commas join further names only inside brackets. -/
theorem Stands.joinNames (h : Stands c.tokens p stop index row) (names : List Token) :
    let read := if 0 < c.depth then readFragments row else ([], row)
    ∃ q, (c.goto p).joinNames names = some (names ++ read.1, c.goto q) ∧
      Stands c.tokens q stop index read.2 := by
  by_cases hdepth : 0 < c.depth
  · simp only [if_pos hdepth]
    have hends {p : Nat} {row names : List Token} (h : Stands c.tokens p stop index row)
        (hno : ¬ Joins row) : (c.goto p).joinNames names = some (names ++ [], c.goto p) := by
      rw [Cursor.joinNames, if_neg fun hjoins => hno (h.joins_iff.1 hjoins.2), List.append_nil]
    fun_induction readFragments row generalizing p names with
    | case1 comma word rest hjoins fragments after heq ih =>
        obtain ⟨hnext, hword⟩ := h.next_eq
        obtain ⟨hnext', hrest⟩ := hword.next_eq
        have hcurrent : (c.goto (p + 1)).current = word := hword.current_eq
        obtain ⟨q, hread, hafter⟩ := ih hrest (names ++ [word])
        rw [heq] at hread hafter
        refine ⟨q, ?_, hafter⟩
        rw [Cursor.joinNames, if_pos ⟨hdepth, h.joins_iff.2 hjoins⟩, hnext, hcurrent, hnext', hread,
          List.append_assoc]
        rfl
    | case2 comma word rest hjoins => exact ⟨p, hends h hjoins, h⟩
    | case3 tokens hshort =>
        refine ⟨p, hends h ?_, h⟩
        rcases tokens with _ | ⟨comma, _ | ⟨word, rest⟩⟩
        · exact id
        · exact id
        · exact absurd rfl (hshort comma word rest)
  · simp only [if_neg hdepth]
    refine ⟨p, ?_, h⟩
    rw [Cursor.joinNames, if_neg fun hjoins => hdepth hjoins.1, List.append_nil]

/-- Reads what an opening bracket encloses, with the white space in front of the closing one. -/
def readBracketed (stop : Token) (levels : Nat) (tokens : List Token) :
    Except ParseError (Expr × List Token) := do
  let (value, rest) <- readFrom stop levels true (skipBlanks tokens)
  return (value, skipBlanks rest)

structure Follows (levels : Nat) : Prop where
  operand : ∀ {c : Cursor} {p : Nat} {stop : Token} {index : Nat} {row : List Token},
    Stands c.tokens p stop index row -> c.nesting + levels = nestingLimit ->
      Gives c stop index (readOperand stop levels (0 < c.depth) row) (c.goto p).operandBelow
  chain : ∀ {c : Cursor} {p : Nat} {stop : Token} {index : Nat} {row : List Token} (left : Expr),
    Stands c.tokens p stop index row -> c.nesting + levels = nestingLimit ->
      ∃ nesting, Gives { c with nesting := nesting } stop index
        (readChain stop levels (0 < c.depth) left row) ((c.goto p).chain left)

namespace Follows

variable {levels : Nat} {left : Expr}

theorem tail (h : Follows levels) (hstands : Stands c.tokens p stop index row)
    (hlevels : c.nesting + levels = nestingLimit) (left : Expr) :
    Gives c stop index (readChain stop levels (0 < c.depth) left row) ((c.goto p).tail left) := by
  obtain ⟨nesting, hchain⟩ := h.chain left hstands hlevels
  rw [Cursor.tail]
  exact hchain.putBack rfl (fun _ _ => rfl) fun _ _ => rfl

theorem expression (h : Follows levels) (hstands : Stands c.tokens p stop index row)
    (hlevels : c.nesting + levels = nestingLimit) :
    Gives c stop index (readFrom stop levels (0 < c.depth) row) (c.goto p).expression := by
  rw [Cursor.expression]
  refine (h.operand hstands hlevels).bind (fun _ => rfl) ?_
  intro left rest q hrest
  exact h.tail hrest hlevels left

/-- The counter of brackets is one up inside them, and goes back whatever is read there. -/
theorem bracketed (h : Follows levels) {opening : Token}
    (hstands : Stands c.tokens p stop index (opening :: row))
    (hlevels : c.nesting + levels = nestingLimit) :
    Gives c stop index (readBracketed stop levels row) (c.goto p).bracketed := by
  obtain ⟨hnext, hrow⟩ := hstands.next_eq
  let opened := { c with depth := c.depth + 1 }
  obtain ⟨q, hskip, hq⟩ := Stands.skipSpace (c := opened) hrow
  have hinner : Gives opened stop index (readFrom stop levels true (skipBlanks row))
      (opened.goto q).expression := by
    have hread := h.expression (c := opened) hq hlevels
    simpa only [opened, Nat.zero_lt_succ, decide_true] using hread
  have hunfold : (c.goto p).bracketed =
      (opened.goto q).expression >>= fun read => read.2.skipSpace >>= fun last =>
        some (read.1, { last with depth := last.depth - 1 }) := by
    rw [Cursor.bracketed, hnext]
    exact congrArg (· >>= _) hskip
  rw [hunfold, readBracketed]
  cases hread : readFrom stop levels true (skipBlanks row) with
  | ok read =>
      rw [hread] at hinner
      obtain ⟨r, hresult, hrest⟩ := hinner
      obtain ⟨t, hskip', ht⟩ := hrest.skipSpace
      rw [hresult]
      exact ⟨t, congrArg (· >>= _) hskip', ht⟩
  | error error =>
      rw [hread] at hinner
      obtain ⟨r, rest, hresult, hrest⟩ := hinner
      obtain ⟨t, hskip', ht⟩ := Stands.skipSpace (c := opened.fault error) hrest
      rw [hresult]
      exact ⟨t, skipBlanks rest, congrArg (· >>= _) hskip', ht⟩

theorem closed (h : Follows levels) {opening : Token} {k : Token.Kind} {what : Expected}
    (build : Expr -> Token -> Expr) (hstands : Stands c.tokens p stop index (opening :: row))
    (hkind : k.isLineEnd = false) (hlevels : c.nesting + levels = nestingLimit) :
    Gives c stop index (readClosed stop levels k what build row)
      ((c.goto p).brackets k what build) := by
  have hread : readClosed stop levels k what build row =
      readBracketed stop levels row >>= fun read => readKind stop k what read.2 >>= fun closing =>
        .ok (build read.1 closing.1, closing.2) := by
    unfold readClosed readBracketed
    cases readFrom stop levels true (skipBlanks row) <;> rfl
  rw [hread, Cursor.brackets]
  refine (h.bracketed hstands hlevels).bind (fun _ => rfl) ?_
  intro inner rest q hrest
  refine (hrest.expect hkind what).bind (fun _ => rfl) ?_
  intro closing after r hafter
  exact ⟨r, rfl, hafter⟩

theorem operand_succ (h : Follows levels) (hstands : Stands c.tokens p stop index row)
    (hlevels : c.nesting + levels = nestingLimit) :
    Gives c stop index (readOperand stop (levels + 1) (0 < c.depth) row) (c.goto p).operand := by
  rw [Cursor.operand, hstands.current_eq, hstands.expected_eq]
  cases row with
  | nil =>
      have hread : readOperand stop (levels + 1) (0 < c.depth) [] =
          .error (unexpected stop [] .expression) := by
        rw [readOperand]
      have hpeek : peek stop [] = stop := rfl
      rw [hread, hpeek]
      rcases kind_of_isLineEnd hstands.ends with hkind | hkind
      all_goals
        simp only [hkind]
        exact ⟨p, [], rfl, hstands⟩
  | cons token rest =>
      obtain ⟨hnext, hrest⟩ := hstands.next_eq
      have hpeek : peek stop (token :: rest) = token := rfl
      rw [readOperand_cons, hpeek]
      split
      · exact h.closed (.round token) hstands rfl hlevels
      split
      · exact h.closed (.square token) hstands rfl hlevels
      split
      · exact hstands.macroArgument
      split
      · rw [hnext]
        refine (h.operand hrest hlevels).bind (fun _ => rfl) ?_
        intro e after q hafter
        exact ⟨q, rfl, hafter⟩
      split
      · rw [hnext]
        exact ⟨p + 1, rfl, hrest⟩
      split
      · obtain ⟨q, hjoin, hafter⟩ := hrest.joinNames [token]
        rw [hnext, hjoin]
        simp only [decide_eq_true_eq]
        exact ⟨q, rfl, hafter⟩
      · exact ⟨p, token :: rest, rfl, hstands⟩

theorem chain_of_lower (hlower : ∀ fewer, levels = fewer + 1 -> Follows fewer) (left : Expr)
    (hstands : Stands c.tokens p stop index row) (hlevels : c.nesting + levels = nestingLimit) :
    ∃ nesting, Gives { c with nesting := nesting } stop index
      (readChain stop levels (0 < c.depth) left row) ((c.goto p).chain left) := by
  obtain ⟨q, hskip, hrow⟩ := hstands.skipInside
  have hread := readChain.eq_1 stop levels (0 < c.depth) left row
  rw [hread, Cursor.chain, hskip]
  simp only [Option.bind_eq_bind, Option.bind_some]
  cases htokens : skipBlanksIn (0 < c.depth) row with
  | nil =>
      rw [htokens] at hrow
      have hsign : (c.goto q).kind.isBinarySign = false := by
        rw [hrow.kind_eq]
        rcases kind_of_isLineEnd hrow.ends with hkind | hkind <;> exact congrArg _ hkind
      rw [if_neg (by simp [hsign])]
      exact ⟨c.nesting, q, rfl, hrow⟩
  | cons operator rest =>
      rw [htokens] at hrow
      obtain ⟨hnext, hrest⟩ := hrow.next_eq
      have hkind : (c.goto q).kind = operator.kind := hrow.kind_eq
      simp only [hkind]
      split
      · obtain ⟨r, hskip', hright⟩ := hrest.skipInside
        have hcurrent : (c.goto q).current = operator := hrow.current_eq
        let lowered := { c with nesting := c.nesting + 1 }
        rw [hnext, hskip', hcurrent]
        simp only [Option.bind_some]
        cases levels with
        | zero =>
            have hdeep : nestingLimit ≤ (lowered.goto r).nesting :=
              Nat.le_succ_of_le (Nat.le_of_eq hlevels.symm)
            have hbelow : (lowered.goto r).operandBelow = some (none, (lowered.goto r).fault
                (.nestingTooDeep (peek stop (skipBlanksIn (0 < c.depth) rest)))) := by
              rw [Cursor.operandBelow, if_pos hdeep, Stands.current_eq (c := lowered) hright]
            exact ⟨c.nesting + 1, r, _, congrArg (· >>= _) hbelow, hright⟩
        | succ fewer =>
            have hlower' : lowered.nesting + fewer = nestingLimit := by
              simp only [lowered]
              omega
            have hoperand := (hlower fewer rfl).operand (c := lowered) hright hlower'
            refine hoperand.bindAtSome (fun _ => rfl) ?_
            intro right after t hafter
            exact (hlower fewer rfl).chain (c := lowered) (.binary left operator right) hafter
              hlower'
      · exact ⟨c.nesting, q, rfl, hrow⟩

end Follows

theorem follows (levels : Nat) : Follows levels := by
  induction levels with
  | zero =>
      refine ⟨?_, Follows.chain_of_lower (by simp)⟩
      intro c p stop index row hstands hlevels
      have hread :
          readOperand stop 0 (0 < c.depth) row = .error (.nestingTooDeep (peek stop row)) :=
        by rw [readOperand]
      have hdeep : nestingLimit ≤ (c.goto p).nesting := Nat.le_of_eq hlevels.symm
      rw [hread, Cursor.operandBelow, if_pos hdeep, hstands.current_eq]
      exact ⟨p, row, rfl, hstands⟩
  | succ levels ih =>
      refine ⟨?_, Follows.chain_of_lower ?_⟩
      · intro c p stop index row hstands hlevels
        let lowered := { c with nesting := c.nesting + 1 }
        have hlower : lowered.nesting + levels = nestingLimit := by
          simp only [lowered]
          omega
        have hlimit : ¬ nestingLimit ≤ (c.goto p).nesting := by
          have hnesting : (c.goto p).nesting = c.nesting := rfl
          omega
        have hoperand : Gives lowered stop index (readOperand stop (levels + 1) (0 < c.depth) row)
            (lowered.goto p).operand := ih.operand_succ (c := lowered) hstands hlower
        rw [Cursor.operandBelow, if_neg hlimit]
        exact hoperand.putBack rfl (fun _ _ => rfl) fun _ _ => rfl
      · intro fewer hfewer
        cases hfewer
        exact ih

end Cursor

end Concrete

end Asm6502
