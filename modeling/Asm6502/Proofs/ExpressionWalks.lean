import Asm6502.Proofs.NodePaths

/-!
# Two walks over a file

One can go through the nodes of a file along their parts, or through its lines and the expressions
of each line.  Both walks meet the same expressions in the same order.
-/

namespace Asm6502

def Line.walkExpressions (lines : List Line) : List Expr :=
  (walkAll lines).flatMap fun line => line.expressions.flatMap Expr.parts

namespace Node

/-- A node and all nodes below it, each before its own parts. -/
def preorder (node : Node) : List Node :=
  node :: node.children.attach.flatMap fun child => child.1.preorder
termination_by sizeOf node
decreasing_by exact sizeOf_lt_of_mem_children child.2

def expression? : Node -> Option Expr
  | expression e => some e
  | _ => none

/-- The expressions on the way through a node and all nodes below it. -/
def metExpressions (node : Node) : List Expr := node.preorder.filterMap expression?

theorem preorder_eq (node : Node) : node.preorder = node :: node.children.flatMap preorder := by
  rw [preorder, List.flatMap_def, List.flatMap_def]
  simp only [List.attach_map_val]

theorem metExpressions_eq (node : Node) :
    node.metExpressions = node.expression?.toList ++ node.children.flatMap metExpressions := by
  rw [metExpressions, preorder_eq, List.filterMap_cons, List.filterMap_flatMap]
  cases node.expression? <;> rfl

theorem mem_preorder_of_mem_pathFrom {node other : Node} {p : Position}
    (h : other ∈ node.pathFrom p) : other ∈ node.preorder := by
  induction node using pathFrom.induct p with
  | _ node ih =>
      rw [preorder_eq]
      rcases mem_pathFrom_cases h with rfl | ⟨child, hmem, -, hfind, h⟩
      · exact List.mem_cons_self
      · exact List.mem_cons_of_mem _ (List.mem_flatMap.2 ⟨child, hmem, ih child hfind h⟩)

/-! ## Nodes inside a line -/

theorem metExpressions_identifiers (names : List Identifier) :
    (names.map identifier).flatMap metExpressions = [] := by
  simp [List.flatMap_map, metExpressions_eq, children, expression?]

theorem metExpressions_name (name : Option Identifier) :
    (name.map identifier).toList.flatMap metExpressions = [] := by
  cases name <;> simp [metExpressions_eq, children, expression?]

theorem metExpressions_expression (e : Expr) : (expression e).metExpressions = e.parts := by
  induction e with
  | dynamicLabel label =>
      rw [metExpressions_eq, children, metExpressions_identifiers]
      rfl
  | number | identifier | string | char | macroArgument =>
      rw [metExpressions_eq]
      rfl
  | unary op operand location ih | brackets kind inner location ih =>
      rw [metExpressions_eq]
      simp [children, Expr.children, ih, Expr.parts, expression?]
  | binary op left right location ihleft ihright =>
      rw [metExpressions_eq]
      simp [children, Expr.children, ihleft, ihright, Expr.parts, expression?]

theorem metExpressions_label (l : Label) : (label l).metExpressions = [] := by
  cases l with
  | plain name => simp [metExpressions_eq, children, expression?]
  | dynamic name =>
      rw [metExpressions_eq, children, metExpressions_identifiers]
      rfl

theorem metExpressions_command (c : Command) :
    (command c).metExpressions = (c.arguments.map Argument.value).flatMap Expr.parts := by
  have hargument (a : Argument) : (argument a).metExpressions = a.value.parts := by
    rw [metExpressions_eq]
    simp [children, metExpressions_expression, expression?]
  rw [metExpressions_eq, children, List.flatMap_append, metExpressions_name]
  simp [List.flatMap_map, hargument, expression?]

theorem metExpressions_line (l : Line) :
    (line l).metExpressions = (ofContent l).toList.flatMap metExpressions := by
  have hlabel : (l.margin.label.map label).toList.flatMap metExpressions = [] := by
    cases l.margin.label <;> simp [metExpressions_label]
  have hcomment : (l.margin.comment.map comment).toList.flatMap metExpressions = [] := by
    cases l.margin.comment <;> simp [metExpressions_eq, children, expression?]
  rw [metExpressions_eq, children, List.flatMap_append, List.flatMap_append, hlabel, hcomment]
  simp [expression?]

theorem metExpressions_condition (e : Option Expr) :
    (e.map expression).toList.flatMap metExpressions = e.toList.flatMap Expr.parts := by
  cases e <;> simp [metExpressions_expression]

/-! ## Lines inside lines -/

mutual

theorem metExpressions_walk (l : Line) : (line l).metExpressions =
    (Line.walk l).flatMap fun inner => inner.expressions.flatMap Expr.parts := by
  rw [metExpressions_line]
  match l with
  | .command margin content =>
      cases content with
      | none => simp [ofContent, Line.walk, Line.expressions]
      | some c => simp [ofContent, Line.walk, Line.expressions, metExpressions_command]
  | .macroBlock margin block =>
      rw [ofContent, Option.toList_some, List.flatMap_singleton, metExpressions_eq, children,
        metExpressions_name]
      simp [Line.walk, Line.expressions, expression?]
  | .conditional margin kind condition thenLines elseLines location =>
      rw [Line.walk, List.flatMap_cons, List.flatMap_append, ← Line.walkExpressions,
        ← Line.walkExpressions, ← metExpressions_walkAll thenLines,
        ← metExpressions_walkAll elseLines]
      rw [ofContent, Option.toList_some, List.flatMap_singleton, metExpressions_eq, children,
        List.flatMap_append, List.flatMap_append, metExpressions_condition]
      simp [expression?, Line.expressions]
  | .repetition margin count body location =>
      rw [Line.walk, List.flatMap_cons, ← Line.walkExpressions, ← metExpressions_walkAll body]
      rw [ofContent, Option.toList_some, List.flatMap_singleton, metExpressions_eq, children,
        List.flatMap_append, metExpressions_condition]
      simp [expression?, Line.expressions]

theorem metExpressions_walkAll (lines : List Line) :
    (lines.map line).flatMap metExpressions = Line.walkExpressions lines := by
  match lines with
  | [] => rfl
  | l :: lines =>
      rw [List.map_cons, List.flatMap_cons, metExpressions_walk l, metExpressions_walkAll lines,
        Line.walkExpressions, Line.walkExpressions, Line.walkAll, List.flatMap_append]

end

end Node

/-- Going through the nodes of a file along their parts meets exactly the expressions that going
through its lines and the expressions of each line does, in the same order.  So the second walk
leaves out no expression that a position leads to. -/
theorem File.metExpressions_eq_walkExpressions (file : File) :
    (Node.file file).metExpressions = Line.walkExpressions file.lines ∧
      ∀ p e, .expression e ∈ file.nodePath p -> e ∈ Line.walkExpressions file.lines := by
  have hsame : (Node.file file).metExpressions = Line.walkExpressions file.lines := by
    rw [Node.metExpressions_eq, Node.children, Node.metExpressions_walkAll]
    rfl
  refine ⟨hsame, fun p e he => ?_⟩
  rw [← hsame]
  exact List.mem_filterMap.2 ⟨_, Node.mem_preorder_of_mem_pathFrom he, rfl⟩

end Asm6502
