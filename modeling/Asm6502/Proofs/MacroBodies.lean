import Asm6502.Proofs.HeldRows
import Asm6502.Proofs.LineBreaks

/-!
# The bodies of macros

The body of a macro is the text of the rows behind its keyword, up to the first row that is headed
by the word that ends a macro.  These rows are the raw rows of the file, and no line holds a token
that starts on them.

The rows of a body are those that are passed over.  Rows have lines of their own, so that bodies on
earlier lines have nothing to do with rows on later lines.
-/

namespace Asm6502

namespace Concrete

/-! ## Bodies that were closed -/

/-- The rows of the body of a macro: from the one behind its keyword up to the first that ends it.
-/
def MacroBlock.bodyRows (tokens : List Token) (count : Nat) (block : MacroBlock) : Nat × Nat :=
  (block.keyword.span.start.line + 1,
    bodyStop tokens count (block.keyword.span.start.line + 1))

def OffBodies (bodies : List (Nat × Nat)) (row : Nat) : Prop :=
  ∀ body ∈ bodies, row < body.1 ∨ body.2 ≤ row

theorem offBodies_append {bodies more : List (Nat × Nat)} {row : Nat} :
    OffBodies (bodies ++ more) row ↔ OffBodies bodies row ∧ OffBodies more row :=
  List.forall_mem_append

/-! ## Rows that are passed over -/

/-- The rows that are passed over lie in bodies, and no other row does.  Only the row that opens a
macro can go on behind its keyword. -/
def Role.Sorted (bodies : List (Nat × Nat)) : Role -> Prop
  | .read row => ∀ token ∈ row.tokens ++ [row.stop],
      (∀ keyword name, row.read.2.1 = .macroBlock keyword name ->
        token.span.start.line ≤ keyword.span.start.line) -> OffBodies bodies token.span.start.line
  | .ends ending => ∀ token ∈ ending.row.tokens ++ [ending.row.stop],
      OffBodies bodies token.span.start.line
  | .passed row => ∀ token ∈ row.tokens, ¬ OffBodies bodies token.span.start.line

/-- Rows on some lines of the text with the bodies among these lines. -/
structure SortedOn (first next : Nat) (roles : List Role) (bodies : List (Nat × Nat)) : Prop where
  lines : ∀ role ∈ roles, ∀ token ∈ role.row.tokens ++ [role.row.stop],
    first ≤ token.span.start.line ∧ token.span.start.line < next
  within : ∀ body ∈ bodies, first < body.1 ∧ body.2 ≤ next
  sorted : ∀ role ∈ roles, role.Sorted bodies

theorem Role.Sorted.of_iff {role : Role} {bodies others : List (Nat × Nat)} (h : role.Sorted bodies)
    (hsame : ∀ token ∈ role.row.tokens ++ [role.row.stop],
      (OffBodies others token.span.start.line ↔ OffBodies bodies token.span.start.line)) :
    role.Sorted others := by
  cases role with
  | read row => exact fun token htoken hline => (hsame token htoken).2 (h token htoken hline)
  | ends ending => exact fun token htoken => (hsame token htoken).2 (h token htoken)
  | passed row =>
      exact fun token htoken hoff =>
        h token htoken ((hsame token (List.mem_append_left _ htoken)).1 hoff)

variable {last : Option EndRow} {name : Option Token}

section Sorted

variable {comments : List Token} {source : List (List Char)} {first middle next : Nat}
  {roles more : List Role} {bodies others : List (Nat × Nat)}

/-- Bodies and rows on earlier lines have nothing to do with those on later lines. -/
theorem SortedOn.append (h : SortedOn first middle roles bodies)
    (hmore : SortedOn middle next more others) (hfirst : first ≤ middle) (hnext : middle ≤ next) :
    SortedOn first next (roles ++ more) (bodies ++ others) where
  lines := by
    refine List.forall_mem_append.2 ⟨fun role hrole token htoken => ?_,
      fun role hrole token htoken => ?_⟩
    · have hline := h.lines role hrole token htoken
      omega
    · have hline := hmore.lines role hrole token htoken
      omega
  within := by
    refine List.forall_mem_append.2 ⟨fun body hbody => ?_, fun body hbody => ?_⟩
    · have hrows := h.within body hbody
      omega
    · have hrows := hmore.within body hbody
      omega
  sorted := by
    refine List.forall_mem_append.2 ⟨fun role hrole => ?_, fun role hrole => ?_⟩
    · refine (h.sorted role hrole).of_iff fun token htoken => ?_
      rw [offBodies_append, and_iff_left]
      intro body hbody
      have hline := h.lines role hrole token htoken
      have hrows := hmore.within body hbody
      omega
    · refine (hmore.sorted role hrole).of_iff fun token htoken => ?_
      rw [offBodies_append, and_iff_right]
      intro body hbody
      have hline := hmore.lines role hrole token htoken
      have hrows := h.within body hbody
      omega

theorem SortedOn.of_noBodies (roles : List Role)
    (hrows : RowsOn comments first next (roles.map Role.row))
    (hsorted : ∀ role ∈ roles, role.Sorted []) : SortedOn first next roles [] where
  lines := fun role hrole token htoken => hrows.line_of_mem (List.mem_map_of_mem hrole) htoken
  within := by simp
  sorted := hsorted

theorem SortedOn.read {row : Row} (h : row.OnRows comments first next) :
    SortedOn first next [.read row] [] :=
  .of_noBodies _ (.cons h (.nil (Nat.le_refl _))) (by simp [Role.Sorted, OffBodies])

theorem SortedOn.closing (h : RowsOn comments first next ((closing last).map Role.row)) :
    SortedOn first next (closing last) [] :=
  .of_noBodies _ h (forall_mem_closing.2 fun ending _ => by simp [Role.Sorted, OffBodies])

theorem SortedOn.body {row : Row} {passed : List Row} {keyword : Token}
    (hrow : row.OnRows comments first middle) (hread : row.read.2.1 = .macroBlock keyword name)
    (hrest : RowsOn comments middle next ((passed.map Role.passed ++ Concrete.closing last).map
      Role.row)) (hend : last = none -> source.length ≤ next)
    (hsource : ∀ row ∈ passed, ∀ token ∈ row.tokens, token.span.start.line < source.length) :
    SortedOn first next (.read row :: passed.map .passed ++ Concrete.closing last)
      [(keyword.span.start.line + 1,
        max (stopRow source last) (keyword.span.start.line + 1))] := by
  have hmade := row.read_spec.2.madeOf
  rw [hread] at hmade
  have hkeyword := hrow.line_of_mem (List.mem_append_left _ hmade.1)
  rw [List.map_append] at hrest
  obtain ⟨stop, hpassed, hlast, -⟩ := hrest.exists_of_append
  have hstop : stop ≤ stopRow source last ∨ last = none := by
    cases last with
    | none => exact .inr rfl
    | some ending =>
        exact .inl (hlast.line_of_mem (by simp [Concrete.closing, Role.row]) ending.row.peek_mem).1
  have hnext : stopRow source last ≤ next := by
    cases last with
    | none => exact hend rfl
    | some ending =>
        have hnumber := hlast.line_of_mem (by simp [Concrete.closing, Role.row]) ending.row.peek_mem
        exact Nat.le_of_lt hnumber.2
  have hinside := hpassed.le
  have hbehind := hlast.le
  have hlines : RowsOn comments first next
      ((Role.read row :: passed.map Role.passed ++ Concrete.closing last).map Role.row) := by
    rw [List.cons_append, List.map_cons, List.map_append]
    exact .cons hrow hrest
  refine ⟨fun role hrole token htoken => hlines.line_of_mem (List.mem_map_of_mem hrole) htoken,
    by simp only [List.forall_mem_singleton]; omega, ?_⟩
  simp only [List.forall_mem_append, List.forall_mem_cons, List.forall_mem_map, forall_mem_closing]
  refine ⟨⟨fun token htoken hline => ?_, fun other hother token htoken => ?_⟩,
    fun ending hending token htoken => ?_⟩
  · have hbefore := hline keyword name hread
    simp only [OffBodies, List.forall_mem_singleton]
    omega
  · have hmem : other ∈ (passed.map Role.passed).map Role.row := by simpa [Role.row] using hother
    have hline := hpassed.line_of_mem hmem (List.mem_append_left _ htoken)
    have hcount := hsource other hother token htoken
    simp only [OffBodies, List.forall_mem_singleton]
    rcases hstop with hstop | rfl
    · omega
    · simp only [stopRow, Option.elim_none]
      omega
  · obtain rfl := Option.mem_def.1 hending
    cases hlast with
    | cons hon _ =>
        have hnumber := hon.number_le htoken
        have hline := hon.line_of_mem htoken
        simp only [OffBodies, List.forall_mem_singleton, stopRow, Option.elim_some]
        simp only [Role.row] at hnumber
        omega

/-- The bodies of macros take in the rows that are passed over, and no others. -/
theorem Built.sortedOn {lines : List Line} {unclosed : List ParseError}
    (h : Built comments source roles lines bodies unclosed)
    (hrows : RowsOn comments first next (roles.map Role.row))
    (hend : unclosed ≠ [] -> source.length ≤ next)
    (hsource : ∀ role ∈ roles, ∀ token ∈ role.row.tokens,
      token.span.start.line < source.length) : SortedOn first next roles bodies := by
  induction h generalizing first next with
  | nil => exact .of_noBodies _ hrows (by simp)
  | command _ _ _ ih =>
      rw [List.map_append, List.map_singleton] at hrows
      obtain ⟨middle, hbefore, hrow, -⟩ := hrows.exists_of_append
      obtain ⟨hsource, -⟩ := List.forall_mem_append.1 hsource
      simpa using (ih hbefore (by simp) hsource).append
        (.of_noBodies [_] hrow (by simp [Role.Sorted, OffBodies])) hbefore.le hrow.le
  | macroBlock passed last _ hread _ _ _ _ hfirst hstop ih =>
      rw [List.map_append, List.cons_append, List.map_cons] at hrows
      obtain ⟨middle, inside, hbefore, hrow, hrest⟩ := hrows.exists_of_append_cons
      simp only [List.forall_mem_append, List.forall_mem_cons, List.forall_mem_map] at hsource
      subst hfirst hstop
      refine (ih hbefore (by simp) hsource.1).append (.body hrow hread hrest ?_ hsource.2.1.2)
        hbefore.le (Nat.le_trans (Nat.le_of_lt hrow.lt) hrest.le)
      rintro rfl
      exact hend (by simp [lacking])
  | @conditional _ _ _ _ _ _ _ _ _ thenFaults elseFaults _ _ _ _ _ divider last _ hread _ _ _ hwhole
      hdivided hclosed _ _ _ ih ihthen ihelse =>
      simp only [List.map_append, List.map_cons, List.cons_append, List.append_assoc] at hrows
      obtain ⟨middle, inside, hbefore, hrow, hrest⟩ := hrows.exists_of_append_cons
      obtain ⟨a, hthen, hbehind, ha⟩ := hrest.exists_of_append
      obtain ⟨b, hdivider, hsecond, -⟩ := hbehind.exists_of_append
      obtain ⟨c, helse, hlast, hc⟩ := hsecond.exists_of_append
      simp only [List.forall_mem_append, List.forall_mem_cons] at hsource
      obtain ⟨hsource, ⟨⟨⟨-, hsourceThen⟩, -⟩, hsourceElse⟩, -⟩ := hsource
      -- A part with a block that is not closed is the last one.
      have hendThen : thenFaults ≠ [] -> source.length ≤ a := by
        intro hopen
        have hdivider : divider = none := not_ne_iff.1 (mt hdivided hopen)
        have hlast : last = none :=
          not_ne_iff.1 (mt hclosed fun hnil => hopen (List.append_eq_nil_iff.1 hnil).1)
        obtain ⟨rfl, -⟩ := hwhole hdivider
        rw [ha (by simp [hdivider, hlast, closing])]
        exact hend (by simp [hopen])
      have hendElse : elseFaults ≠ [] -> source.length ≤ c := by
        intro hopen
        have hlast : last = none :=
          not_ne_iff.1 (mt hclosed fun hnil => hopen (List.append_eq_nil_iff.1 hnil).2)
        rw [hc (by simp [hlast, closing])]
        exact hend (by simp [hopen])
      have hinner := (ihthen hthen hendThen hsourceThen).append ((SortedOn.closing hdivider).append
        ((ihelse helse hendElse hsourceElse).append (.closing hlast) helse.le hlast.le) hdivider.le
        hsecond.le) hthen.le hbehind.le
      have hall := (ih hbefore (by simp) hsource).append ((SortedOn.read hrow).append hinner
        (Nat.le_of_lt hrow.lt) hrest.le) hbefore.le (Nat.le_trans (Nat.le_of_lt hrow.lt) hrest.le)
      simpa [Role.row] using hall
  | @repetition _ _ _ _ _ _ innerFaults _ _ _ _ _ last _ hread _ _ hclosed _ _ ih ihbody =>
      simp only [List.map_append, List.map_cons, List.cons_append] at hrows
      obtain ⟨middle, inside, hbefore, hrow, hrest⟩ := hrows.exists_of_append_cons
      obtain ⟨stop, hbody, hlast, hstop⟩ := hrest.exists_of_append
      simp only [List.forall_mem_append, List.forall_mem_cons] at hsource
      obtain ⟨hsource, ⟨-, hsourceBody⟩, -⟩ := hsource
      have hendBody : innerFaults ≠ [] -> source.length ≤ stop := by
        intro hopen
        have hlast : last = none := not_ne_iff.1 (mt hclosed hopen)
        rw [hstop (by simp [hlast, closing])]
        exact hend (by simp [hopen])
      have hinner := (ihbody hbody hendBody hsourceBody).append (.closing hlast) hbody.le hlast.le
      have hall := (ih hbefore (by simp) hsource).append ((SortedOn.read hrow).append hinner
        (Nat.le_of_lt hrow.lt) hrest.le) hbefore.le (Nat.le_trans (Nat.le_of_lt hrow.lt) hrest.le)
      simpa [Role.row] using hall

end Sorted

/-! ## Rows that end bodies -/

theorem kind_of_readContent {stop first keyword : Token} {tokens : List Token}
    (h : (readContent stop first tokens).1 = .macroBlock keyword name) :
    keyword.kind = .macWord := by
  unfold readContent at h
  split at h
  case h_5 hkind =>
    cases h
    exact hkind
  case h_8 => split at h <;> cases h
  all_goals cases h

theorem Row.kind_of_read {row : Row} {keyword : Token}
    (h : row.read.2.1 = .macroBlock keyword name) : keyword.kind = .macWord := by
  have hbehind : (readBehindLabel row.stop (readLabel? row.tokens).1.isSome
      (readLabel? row.tokens).2).1 = .macroBlock keyword name := h
  unfold readBehindLabel at hbehind
  split at hbehind
  · cases hbehind
  split at hbehind
  · split at hbehind
    · cases hbehind
    · exact kind_of_readContent hbehind
  · split at hbehind
    · cases hbehind
    · exact kind_of_readContent hbehind

/-- Rows of a text on its rows one by one, headed by the word that ends a macro where the text is.
-/
structure RowsIn (tokens : List Token) (n : Nat) (rows : List Row) : Prop where
  numbered : Numbered n rows
  tokens_subset : ∀ row ∈ rows, row.tokens ⊆ tokens
  ends : ∀ row ∈ rows, endsBody tokens row.number =
    row.head?.any fun head => head.1.kind == .endMWord

theorem RowsIn.of_append {tokens : List Token} {n : Nat} {front back : List Role}
    (h : RowsIn tokens n ((front ++ back).map Role.row)) :
    RowsIn tokens n (front.map Role.row) ∧
      RowsIn tokens (n + front.length) (back.map Role.row) := by
  obtain ⟨hrows, htokens, hends⟩ := h
  rw [List.map_append] at hrows htokens hends
  obtain ⟨hfront, hback⟩ := hrows.of_append
  rw [List.length_map] at hback
  obtain ⟨hfrontTokens, hbackTokens⟩ := List.forall_mem_append.1 htokens
  obtain ⟨hfrontEnds, hbackEnds⟩ := List.forall_mem_append.1 hends
  exact ⟨⟨hfront, hfrontTokens, hfrontEnds⟩, ⟨hback, hbackTokens, hbackEnds⟩⟩

theorem RowsIn.of_append_cons {tokens : List Token} {n : Nat} {front back : List Role} {row : Row}
    (h : RowsIn tokens n ((front ++ .read row :: back).map Role.row)) :
    RowsIn tokens n (front.map Role.row) ∧ (row.On (n + front.length) ∧ row.tokens ⊆ tokens) ∧
      RowsIn tokens (n + front.length + 1) (back.map Role.row) := by
  obtain ⟨hfront, hrows, htokens, hends⟩ := h.of_append
  rw [List.map_cons] at hrows htokens hends
  obtain ⟨hsub, hsubs⟩ := List.forall_mem_cons.1 htokens
  cases hrows with
  | cons hon hrest =>
      exact ⟨hfront, ⟨hon, hsub⟩, ⟨hrest, hsubs, (List.forall_mem_cons.1 hends).2⟩⟩

/-- The bodies of macros: each starts at a macro word of the text and has the text of its rows. -/
structure Cuts (tokens : List Token) (source : List (List Char)) (bodies : List (Nat × Nat))
    (blocks : List MacroBlock) : Prop where
  rows : bodies = blocks.map (MacroBlock.bodyRows tokens source.length)
  keywords : ∀ block ∈ blocks, block.keyword ∈ tokens ∧ block.keyword.kind = .macWord
  texts : ∀ block ∈ blocks, block.body = rowText source (block.bodyRows tokens source.length).1
    (block.bodyRows tokens source.length).2

section Cut

variable {tokens comments : List Token} {source : List (List Char)} {roles : List Role}
  {lines : List Line} {bodies others : List (Nat × Nat)} {unclosed : List ParseError} {n : Nat}

theorem Cuts.nil : Cuts tokens source [] [] := ⟨rfl, by simp, by simp⟩

theorem Cuts.append {blocks more : List MacroBlock} (h : Cuts tokens source bodies blocks)
    (hmore : Cuts tokens source others more) :
    Cuts tokens source (bodies ++ others) (blocks ++ more) where
  rows := by rw [List.map_append, h.rows, hmore.rows]
  keywords := List.forall_mem_append.2 ⟨h.keywords, hmore.keywords⟩
  texts := List.forall_mem_append.2 ⟨h.texts, hmore.texts⟩

theorem Line.macros_concat (lines : List Line) (line : Line) :
    macros (lines ++ [line]) = macros lines ++ line.nested.filterMap macroBlock? := by
  simp [macros, nestedAll_eq_flatMap]

theorem RowsIn.bodyStop_eq {passed : List Row}
    (hrows : RowsIn tokens n ((passed.map Role.passed ++ closing last).map Role.row))
    (hpassed : ∀ row ∈ passed, ∀ head ∈ row.head?, head.1.kind ≠ .endMWord)
    (hlast : ∀ ending ∈ last, ending.token.kind = .endMWord)
    (hcount : n + (passed.map Role.passed ++ closing last).length ≤ source.length)
    (hrest : last = none -> ∀ row, n + passed.length ≤ row -> endsBody tokens row = false) :
    bodyStop tokens source.length n = max (stopRow source last) n := by
  obtain ⟨hinside, hending⟩ := hrows.of_append
  rw [List.length_append, List.length_map] at hcount
  rw [List.length_map] at hending
  have hoff (k : Nat) (hlow : n ≤ k) (hhigh : k < n + passed.length) :
      endsBody tokens k = false := by
    obtain ⟨row, hmem, rfl⟩ := hinside.numbered.exists_number hlow (by simpa using hhigh)
    rw [hinside.ends row hmem]
    have hrow := hpassed row (by simpa [Role.row] using hmem)
    cases hhead : row.head? with
    | none => rfl
    | some head => simpa using hrow head (by simp [hhead])
  cases last with
  | none =>
      rw [stopRow, Option.elim_none, Nat.max_eq_left (by omega), bodyStop_of_none]
      intro row hlow _
      by_cases hrow : row < n + passed.length
      · exact hoff row hlow hrow
      · exact hrest rfl row (Nat.le_of_not_lt hrow)
  | some ending =>
      have hnumber : ending.row.number = n + passed.length := by
        cases hending.numbered with
        | cons hon _ => exact hon.number_eq
      have hstop := hending.ends ending.row (by simp [closing, Role.row])
      rw [hnumber, ending.head, Option.any_some, hlast ending rfl] at hstop
      rw [stopRow, Option.elim_some, hnumber, Nat.max_eq_left (by omega)]
      simp only [closing, Option.toList_some, List.map_cons, List.map_nil, List.length_singleton]
        at hcount
      exact Concrete.bodyStop_eq (by omega) (by omega) hstop hoff

theorem Built.cuts (h : Built comments source roles lines bodies unclosed)
    (hrows : RowsIn tokens n (roles.map Role.row)) (hcount : n + roles.length ≤ source.length)
    (hrest : unclosed ≠ [] -> ∀ row, n + roles.length ≤ row -> endsBody tokens row = false) :
    Cuts tokens source bodies (Line.macros lines) := by
  induction h generalizing n with
  | nil => exact .nil
  | command _ _ _ ih =>
      rw [List.length_append] at hcount
      have hlines := ih hrows.of_append.1 (by omega) (by simp)
      rw [Line.macros_concat]
      exact (List.append_nil (Line.macros _)).symm ▸ hlines
  | @macroBlock _ _ _ row keyword name _ _ first stop passed last _ hread _ hpassed hlast _ hfirst
      hstop ih =>
      obtain ⟨hbefore, ⟨hon, hsub⟩, hinner⟩ := RowsIn.of_append_cons hrows
      simp only [List.length_append, List.length_cons] at hcount hrest
      rw [Line.macros_concat]
      refine (ih hbefore (by omega) (by simp)).append ?_
      have hmade := row.read_spec.2.madeOf
      rw [hread] at hmade
      have hline := hon keyword (List.mem_append_left _ hmade.1)
      have hbody : bodyStop tokens source.length first = stop := by
        rw [hstop, hfirst, hline]
        refine hinner.bodyStop_eq hpassed hlast (by rw [List.length_append]; omega) ?_
        rintro rfl k hk
        refine hrest (by simp [lacking]) k ?_
        simp only [closing, Option.toList_none, List.map_nil, List.length_nil, List.length_map]
        omega
      refine ⟨?_, ?_, ?_⟩
      · simp [Line.nested, Line.macroBlock?, MacroBlock.bodyRows, ← hfirst, hbody]
      · simpa [Line.nested, Line.macroBlock?] using ⟨hsub hmade.1, Row.kind_of_read hread⟩
      · simp [Line.nested, Line.macroBlock?, MacroBlock.bodyRows, ← hfirst, hbody]
  | @conditional _ _ _ _ _ _ _ _ _ thenFaults elseFaults _ _ _ _ _ divider last _ hread _ _ _ hwhole
      hdivided hclosed _ _ _ ih ihthen ihelse =>
      simp only [List.cons_append, List.append_assoc] at hrows
      obtain ⟨hbefore, -, hinner⟩ := RowsIn.of_append_cons hrows
      obtain ⟨hthen, hbehind⟩ := hinner.of_append
      obtain ⟨-, hsecond⟩ := hbehind.of_append
      obtain ⟨helse, -⟩ := hsecond.of_append
      simp only [List.length_append, List.length_cons] at hcount hrest
      rw [Line.macros_concat, List.append_assoc]
      refine (ih hbefore (by omega) (by simp)).append ?_
      have hmacros := (ihthen hthen (by omega) ?_).append (ihelse helse (by omega) ?_)
      · rw [Line.nested, List.filterMap_cons_none rfl, List.filterMap_append]
        exact hmacros
      · intro hopen k hk
        have hdivider : divider = none := not_ne_iff.1 (mt hdivided hopen)
        have hlast : last = none :=
          not_ne_iff.1 (mt hclosed fun hnil => hopen (List.append_eq_nil_iff.1 hnil).1)
        obtain ⟨rfl, -⟩ := hwhole hdivider
        refine hrest (by simp [hopen]) k ?_
        simp only [hdivider, hlast, closing, Option.toList_none, List.map_nil, List.length_nil]
        omega
      · intro hopen k hk
        have hlast : last = none :=
          not_ne_iff.1 (mt hclosed fun hnil => hopen (List.append_eq_nil_iff.1 hnil).2)
        refine hrest (by simp [hopen]) k ?_
        simp only [hlast, closing, Option.toList_none, List.map_nil, List.length_nil] at hk ⊢
        omega
  | repetition last _ hread _ _ hclosed _ _ ih ihbody =>
      obtain ⟨hbefore, -, hinner⟩ := RowsIn.of_append_cons hrows
      obtain ⟨hbody, -⟩ := hinner.of_append
      simp only [List.length_append, List.length_cons] at hcount hrest
      rw [Line.macros_concat]
      refine (ih hbefore (by omega) (by simp)).append ?_
      have hmacros := ihbody hbody (by omega) ?_
      · rw [Line.nested, List.filterMap_cons_none rfl]
        exact hmacros
      · intro hopen k hk
        refine hrest (by simp [hopen]) k ?_
        simp only [not_ne_iff.1 (mt hclosed hopen), closing, Option.toList_none, List.map_nil,
          List.length_nil]
        omega

end Cut

end Concrete

open Concrete

/-- The bodies of the macros of a text take in the rows that are passed over, and no others. -/
theorem ConcreteFile.exists_roles (text : String) :
    ∃ roles unclosed, roles.map Role.row = rows (tokenize text).tokens ∧
      Built (tokenize text).comments (sourceRows text.toList) roles (ofSource text).lines
        (ofSource text).rawRows unclosed ∧
      (ofSource text).errors = roles.flatMap Role.faults ++ unclosed ∧
      ∀ role ∈ roles, role.Sorted (ofSource text).rawRows := by
  obtain ⟨roles, unclosed, hroles, hbuilt, herrors⟩ :=
    ofTokens_built (tokenize text).tokens (tokenize text).comments text
  obtain ⟨next, hrows⟩ := tokenize_rowsOn text
  have hon := hrows.mono (Nat.le_max_left next (sourceRows text.toList).length)
  rw [← hroles] at hon
  refine ⟨roles, unclosed, hroles, hbuilt, herrors,
    (hbuilt.sortedOn hon (fun _ => Nat.le_max_right _ _) ?_).sorted⟩
  intro role hrole token htoken
  have hrow : role.row ∈ rows (tokenize text).tokens := hroles ▸ List.mem_map_of_mem hrole
  have hmem := (rows_sublist _ _ hrow).subset htoken
  exact (token_inside text token hmem).line_lt ((tokenize_inOrder text).proper token hmem)

/-- In a text without line breaks in comments every macro starts at a macro word of the text.  Its
body is made of the characters on the rows behind this word, up to the first row that is headed by
the word that ends a macro or up to the end of the text.  The raw rows of the file are these rows of
its macros in order, and no line of the file, in blocks or outside, has a token that starts on
them. -/
theorem ConcreteFile.body_eq_textOfRows {text : String} (h : InlineComments text) :
    let tokens := (tokenize text).tokens
    let count := (Position.ofOffset text.toList text.toList.length).line + 1
    let file := ConcreteFile.ofSource text
    file.rawRows = (Line.macros file.lines).map (MacroBlock.bodyRows tokens count) ∧
      ∀ block ∈ Line.macros file.lines,
        block.keyword ∈ tokens ∧ block.keyword.kind = .macWord ∧
          let rows := block.bodyRows tokens count
          block.body.toList = textOfRows text.toList rows.1 rows.2 ∧
            ∀ token ∈ Line.tokensAll file.lines,
              token.span.start.line < rows.1 ∨ rows.2 ≤ token.span.start.line := by
  intro tokens count file
  obtain ⟨hnumbered, hlength, hends, hrest⟩ := rows_numbered h
  have hcount : (sourceRows text.toList).length = count := by
    have hlines := line_advance .origin text.toList
    rw [Position.advance_origin] at hlines
    rw [← Nat.zero_add (sourceRows text.toList).length]
    exact hlines.symm
  obtain ⟨roles, unclosed, hroles, hbuilt, -, hsorted⟩ := exists_roles text
  have hrows : RowsIn tokens 0 (roles.map Role.row) := by
    rw [hroles]
    exact ⟨hnumbered, fun row hrow => (rows_sublist tokens row hrow).subset, hends⟩
  have hroleCount : roles.length = (rows (tokenize text).tokens).length := by
    rw [← hroles, List.length_map]
  obtain ⟨hraw, hkeywords, htexts⟩ := hbuilt.cuts hrows (by omega)
    fun _ row hrow => hrest row (by omega)
  rw [hcount] at hraw htexts
  have htokens : ∀ token ∈ Line.tokensAll file.lines,
      OffBodies file.rawRows token.span.start.line := by
    intro token htoken
    obtain ⟨inner, hinner, htoken⟩ := List.mem_flatMap.1 htoken
    rw [Line.nestedAll_eq_flatMap] at hinner
    obtain ⟨line, hline, hinner⟩ := List.mem_flatMap.1 hinner
    refine (hbuilt.from (fun role hrole => hrole) line hline).held_lines (fun row hrow => ?_)
      (fun ending hending => hsorted _ hending) inner hinner token htoken
    -- All tokens of a row are on the row of the keyword.
    have hmem : row ∈ rows tokens := hroles ▸ List.mem_map_of_mem (f := Role.row) hrow
    obtain ⟨k, hon, -⟩ := hnumbered.exists_on row hmem
    refine fun token htoken => hsorted _ hrow token htoken fun keyword name hread => ?_
    have hmade := row.read_spec.2.madeOf
    rw [hread] at hmade
    rw [hon token htoken, hon keyword (List.mem_append_left _ hmade.1)]
  refine ⟨hraw, fun block hblock => ?_⟩
  obtain ⟨hmem, hkind⟩ := hkeywords block hblock
  refine ⟨hmem, hkind, ?_, fun token htoken => ?_⟩
  · rw [htexts block hblock, toList_rowText]
  · refine htokens token htoken _ ?_
    rw [hraw]
    exact List.mem_map_of_mem hblock

/-- A macro in a conditional, with its terminator behind a comment, and a macro without one. -/
def nestedMacros : String := " if 1\r\n mac a\r\n lda endm\r\n/**/ endm\n eif\n mac b\n nop"

theorem ConcreteFile.body_eq_textOfRows_nestedMacros :
    InlineComments nestedMacros ∧
      ∃ block ∈ Line.macros (ConcreteFile.ofSource nestedMacros).lines,
        block.body.toList = textOfRows nestedMacros.toList 2 3 ∧
          textOfRows nestedMacros.toList 2 3 = " lda endm\r\n".toList ∧
          ∀ token ∈ Line.tokensAll (ConcreteFile.ofSource nestedMacros).lines,
            token.span.start.line < 2 ∨ 3 ≤ token.span.start.line := by
  have hcomments : (tokenize nestedMacros).comments =
      [⟨.comment, "/**/", ⟨⟨3, 0⟩, ⟨3, 4⟩⟩⟩] := by
    decide +kernel
  have h : InlineComments nestedMacros := by
    unfold InlineComments
    rw [hcomments]
    simp [isLineBreak]
  have hrows : ∃ block ∈ Line.macros (ConcreteFile.ofSource nestedMacros).lines,
      block.bodyRows (tokenize nestedMacros).tokens
        ((Position.ofOffset nestedMacros.toList nestedMacros.toList.length).line + 1) = (2, 3) := by
    decide +kernel
  obtain ⟨block, hblock, hrows⟩ := hrows
  obtain ⟨-, -, hbody, htokens⟩ := (ConcreteFile.body_eq_textOfRows h).2 block hblock
  rw [hrows] at hbody htokens
  exact ⟨h, block, hblock, hbody, by decide +kernel, htokens⟩

end Asm6502
