import Asm6502.Proofs.FaultOrder
import Asm6502.Proofs.MacroBodies

/-!
# Contents of rows

A row is read, ends a block or a part of one, or lies in the body of a macro.  What the lines of a
text hold, those inside blocks included, are the contents of the rows that were read; and no row
that was read touches the body of a macro, except the one that opens it.
-/

namespace Asm6502

namespace Concrete

/-! ## Contents of lines -/

/-- What a line holds besides its margin and the lines inside it. -/
def Line.content : Line -> Content
  | .command _ content => .command content
  | .macroBlock _ block => .macroBlock block.keyword block.name
  | .conditional _ keyword condition _ _ _ _ _ => .conditional keyword condition
  | .repetition _ keyword count _ _ _ => .repetition keyword count

/-- What a line takes from a row. -/
def Role.contents : Role -> List Content
  | .read row => [row.read.2.1]
  | .ends _ | .passed _ => []

/-- The lines hold what was read from the rows, in the order of the rows. -/
theorem Built.contents {comments : List Token} {source : List (List Char)} {roles : List Role}
    {lines : List Line} {bodies : List (Nat × Nat)} {unclosed : List ParseError}
    (h : Built comments source roles lines bodies unclosed) :
    (Line.nestedAll lines).map Line.content = roles.flatMap Role.contents := by
  have hclosing (last : Option EndRow) : (closing last).flatMap Role.contents = [] := by
    cases last <;> rfl
  have hconcat (lines : List Line) (line : Line) :
      (Line.nestedAll (lines ++ [line])).map Line.content =
        (Line.nestedAll lines).map Line.content ++ line.nested.map Line.content := by
    simp [Line.nestedAll_eq_flatMap]
  induction h with
  | nil => rfl
  | command _ hread _ ih => simp [hconcat, ih, Role.contents, hread, Line.nested, Line.content]
  | macroBlock passed last _ hread _ _ _ _ _ _ ih =>
      have hpassed : (passed.map Role.passed).flatMap Role.contents = [] := by
        simp [List.flatMap_map, Role.contents]
      simp [hconcat, ih, Role.contents, hread, hpassed, hclosing, Line.nested, Line.content]
  | conditional divider last _ hread _ _ _ _ _ _ _ _ _ ih ihthen ihelse =>
      simp [hconcat, ih, ihthen, ihelse, Role.contents, hread, hclosing, Line.nested, Line.content]
  | repetition last _ hread _ _ _ _ _ ih ihbody =>
      simp [hconcat, ih, ihbody, Role.contents, hread, hclosing, Line.nested, Line.content]

/-- The words of different rows are different, because they are on different lines. -/
theorem RowsOn.eq_of_mem {comments : List Token} {first next : Nat} {rows : List Row}
    (h : RowsOn comments first next rows) {a b : Row} (ha : a ∈ rows) (hb : b ∈ rows)
    {token : Token}
    (hta : token ∈ a.tokens) (htb : token ∈ b.tokens) : a = b := by
  induction h with
  | nil => cases ha
  | @cons first middle next row rows hrow hrest ih =>
      have habove {other : Row} (hother : other ∈ rows) (hmem : token ∈ row.tokens)
          (htoken : token ∈ other.tokens) : False := by
        have hline := hrow.line_of_mem (List.mem_append_left _ hmem)
        have hlater := hrest.line_of_mem hother (List.mem_append_left _ htoken)
        omega
      rcases List.mem_cons.1 ha with rfl | ha' <;> rcases List.mem_cons.1 hb with rfl | hb'
      · rfl
      · exact (habove hb' hta htb).elim
      · exact (habove ha' htb hta).elim
      · exact ih ha' hb'

end Concrete

/-! ## Rows of a text -/

open Concrete

theorem tokenize_nodup (text : String) : (tokenize text).tokens.Nodup := by
  refine (tokenize_ordered text).imp ?_
  rintro a b ⟨-, hlt⟩ rfl
  rw [Position.lt_iff] at hlt
  omega

theorem exists_row_of_mem_tokenize {text : String} {token : Token}
    (htoken : token ∈ (tokenize text).tokens) (hkind : token.kind.isLineEnd = false) :
    ∃ row ∈ rows (tokenize text).tokens, token ∈ row.tokens := by
  obtain ⟨-, -, -, -, -, front, last, htokens, hlast, -, hfront⟩ := tokenize_pieces text
  rw [htokens] at htoken ⊢
  have hall := flatMap_taken_rows hlast hfront
  rcases List.mem_append.1 htoken with htoken | htoken
  · rw [← hall] at htoken
    obtain ⟨row, hrow, htaken⟩ := List.mem_flatMap.1 htoken
    refine ⟨row, hrow, ?_⟩
    unfold Row.taken at htaken
    split at htaken
    · next hstop =>
      rcases List.mem_append.1 htaken with htaken | htaken
      · exact htaken
      · rw [List.mem_singleton.1 htaken, hstop] at hkind
        cases hkind
    · exact htaken
  · rw [List.mem_singleton.1 htoken, hlast] at hkind
    cases hkind

def ConcreteFile.contents (file : ConcreteFile) : List Content :=
  (Line.nestedAll file.lines).map Line.content

theorem ConcreteFile.not_offBodies_iff (file : ConcreteFile) (row : Nat) :
    ¬ OffBodies file.rawRows row ↔ file.isRaw row = true := by
  simp only [OffBodies, ConcreteFile.isRaw, List.any_eq_true, Bool.and_eq_true, decide_eq_true_eq,
    not_forall, not_or]
  constructor
  · rintro ⟨body, hbody, hrow⟩
    exact ⟨body, hbody, by omega⟩
  · rintro ⟨body, hbody, hrow⟩
    exact ⟨body, hbody, by omega⟩

/-- In a text without faults of the grammar every row is read without a fault, or has nothing on it
but a word that ends a block or a part of one, or lies in the body of a macro.  The lines hold what
the rows that were read hold, and these rows touch no body unless they open one. -/
theorem ConcreteFile.ofSource_rows {text : String} (h : (ofSource text).errors = []) :
    (∀ row ∈ rows (tokenize text).tokens,
      (row.read.2.1 ∈ (ofSource text).contents ∧ row.read.2.2 = []) ∨
      (∃ token rest, row.head? = some (token, rest) ∧ token.kind.isKeyword = true ∧
        restErrors row.stop rest = []) ∨
      ∀ token ∈ row.tokens, (ofSource text).isRaw token.span.start.line = true) ∧
    ∀ content ∈ (ofSource text).contents, ∃ row ∈ rows (tokenize text).tokens,
      row.read.2.1 = content ∧ (content.isMacro = false ->
        ∀ token ∈ row.tokens, (ofSource text).isRaw token.span.start.line = false) := by
  obtain ⟨roles, unclosed, hroles, hbuilt, herrors, hsorted⟩ := exists_roles text
  have hcontents : (ofSource text).contents = roles.flatMap Role.contents := hbuilt.contents
  rw [herrors, List.append_eq_nil_iff, List.flatMap_eq_nil_iff] at h
  refine ⟨fun row hrow => ?_, fun content hcontent => ?_⟩
  · rw [← hroles] at hrow
    obtain ⟨role, hrole, rfl⟩ := List.mem_map.1 hrow
    have hclean := h.1 role hrole
    cases role with
    | read row =>
        refine .inl ⟨?_, hclean⟩
        rw [hcontents]
        exact List.mem_flatMap.2 ⟨_, hrole, List.mem_singleton_self _⟩
    | ends ending => exact .inr (.inl ⟨_, _, ending.head, ending.keyword, hclean⟩)
    | passed row =>
        exact .inr (.inr fun token htoken =>
          (not_offBodies_iff _ _).1 (hsorted _ hrole token htoken))
  · rw [hcontents] at hcontent
    obtain ⟨role, hrole, hcontent⟩ := List.mem_flatMap.1 hcontent
    cases role with
    | read row =>
        obtain rfl := List.mem_singleton.1 hcontent
        refine ⟨row, hroles ▸ List.mem_map_of_mem (f := Role.row) hrole, rfl,
          fun hisMacro token htoken => ?_⟩
        rw [← Bool.not_eq_true, ← not_offBodies_iff, not_not]
        refine hsorted _ hrole token (List.mem_append_left _ htoken) fun keyword name hread => ?_
        rw [hread] at hisMacro
        cases hisMacro
    | ends ending => cases hcontent
    | passed row => cases hcontent

end Asm6502
