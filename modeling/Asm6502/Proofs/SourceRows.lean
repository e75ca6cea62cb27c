import Asm6502.Concrete.File
import Asm6502.Proofs.LexemePositions

/-!
# Rows of a source text

A text has one row more than it has line breaks, so every position of the text lies on one of its
rows.
-/

namespace Asm6502

namespace Concrete

def inFront (c : Char) : List (List Char) -> List (List Char)
  | [] => [[c]]
  | row :: rows => (c :: row) :: rows

/-- The rows of a text, by its first character.  The carriage return of a line break leaves the
break to the line feed. -/
theorem sourceRows_cons (c : Char) (rest : List Char) :
    sourceRows (c :: rest) =
      if c = '\r' ∧ rest.head? = some '\n' then inFront c (sourceRows rest)
      else if isLineBreak c then [c] :: sourceRows rest
      else inFront c (sourceRows rest) := by
  by_cases hreturn : c = '\r'
  · subst hreturn
    match rest with
    | [] => rfl
    | d :: rest =>
        by_cases hfeed : d = '\n'
        · subst hfeed
          rfl
        · have hstep : sourceRows ('\r' :: d :: rest) = ['\r'] :: sourceRows (d :: rest) := by
            rw [sourceRows]
            rintro more ⟨⟩
            exact hfeed rfl
          simp [hstep, hfeed, isLineBreak]
  · by_cases hfeed : c = '\n'
    · subst hfeed
      rfl
    · have hstep : sourceRows (c :: rest) = inFront c (sourceRows rest) := by
        rw [sourceRows]
        · rfl
        · exact hfeed
        · exact fun _ h _ => hreturn h
        · exact hreturn
      simp [hstep, hreturn, hfeed, isLineBreak]

theorem length_inFront (c : Char) {rows : List (List Char)} (h : rows ≠ []) :
    (inFront c rows).length = rows.length := by
  cases rows with
  | nil => exact absurd rfl h
  | cons row rows => rfl

theorem sourceRows_ne_nil (text : List Char) : sourceRows text ≠ [] := by
  cases text with
  | nil => simp [sourceRows]
  | cons c rest =>
      have hfront (rows : List (List Char)) : inFront c rows ≠ [] := by
        cases rows <;> simp [inFront]
      rw [sourceRows_cons]
      split
      · exact hfront _
      split
      · simp
      · exact hfront _

theorem line_advance (p : Position) (text : List Char) :
    (p.advance text).line + 1 = p.line + (sourceRows text).length := by
  induction text generalizing p with
  | nil => rfl
  | cons c rest ih =>
      have hlength := length_inFront c (sourceRows_ne_nil rest)
      rw [sourceRows_cons, Position.advance_cons]
      split
      · rw [ih, hlength]
      split
      · have hnext : p.nextLine.line = p.line + 1 := rfl
        rw [ih, hnext, List.length_cons]
        omega
      · rw [ih, hlength]
        rfl

end Concrete

end Asm6502
