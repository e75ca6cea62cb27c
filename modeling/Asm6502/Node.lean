import Asm6502.Line

/-!
# Nodes under a position

Every part of a file is a node with a location and parts of its own.  A position is looked up by
going down from the file to the first part that contains it, again and again.
-/

namespace Asm6502

inductive Node.Kind where
  | file
  | line
  | label
  | command
  | conditional
  | repetition
  | macroBlock
  | argument
  | expression
  | identifier
  | comment
deriving DecidableEq, Repr, Inhabited

inductive Node where
  | file (file : File)
  | line (line : Line)
  | label (label : Label)
  | command (command : Command)
  | conditional (kind : ConditionKind) (condition : Option Expr)
      (thenLines elseLines : List Line) (location : Location)
  | repetition (count : Option Expr) (body : List Line) (location : Location)
  | macroBlock (block : MacroBlock)
  | argument (argument : Argument)
  | expression (e : Expr)
  /-- The name of a command or macro, or a fragment of a label. -/
  | identifier (identifier : Identifier)
  | comment (comment : Comment)
deriving Repr

theorem Expr.sizeOf_lt_of_mem_children {e part : Expr} (h : part ∈ e.children) :
    sizeOf part < sizeOf e := by
  cases e with
  | unary | brackets =>
      cases List.mem_singleton.1 h
      simp +arith
  | binary op left right location =>
      simp only [Expr.children, List.mem_cons, List.not_mem_nil, or_false] at h
      rcases h with rfl | rfl <;> simp +arith
  | number | identifier | dynamicLabel | string | char | macroArgument => cases h

namespace Node

def kind : Node -> Kind
  | file _ => .file
  | line _ => .line
  | label _ => .label
  | command _ => .command
  | conditional .. => .conditional
  | repetition .. => .repetition
  | macroBlock _ => .macroBlock
  | argument _ => .argument
  | expression _ => .expression
  | identifier _ => .identifier
  | comment _ => .comment

def location : Node -> Location
  | file node => node.location
  | line node => node.location
  | label node => node.location
  | command node => node.location
  | conditional _ _ _ _ location => location
  | repetition _ _ location => location
  | macroBlock node => node.location
  | argument node => node.location
  | expression node => node.location
  | identifier node => node.location
  | comment node => node.location

def ofContent : Line -> Option Node
  | .command _ content => content.map command
  | .macroBlock _ block => some (macroBlock block)
  | .conditional _ kind condition thenLines elseLines location =>
      some (conditional kind condition thenLines elseLines location)
  | .repetition _ count body location => some (repetition count body location)

/-- The direct parts of a node in the order of the source. -/
def children : Node -> List Node
  | file node => node.lines.map line
  | line node =>
      (node.margin.label.map label).toList ++ (ofContent node).toList ++
        (node.margin.comment.map comment).toList
  | label (.plain name) => [identifier name]
  | label (.dynamic node) => node.fragments.map identifier
  | command node => (node.name.map identifier).toList ++ node.arguments.map argument
  | conditional _ condition thenLines elseLines _ =>
      (condition.map expression).toList ++ thenLines.map line ++ elseLines.map line
  | repetition count body _ => (count.map expression).toList ++ body.map line
  | macroBlock node => (node.name.map identifier).toList
  | argument node => [expression node.value]
  | expression (.dynamicLabel node) => node.fragments.map identifier
  | expression node => node.children.map expression
  | identifier _ => []
  | comment _ => []

section Size

variable {α : Type} [SizeOf α] {wrap : α -> Node} {child : Node}

theorem sizeOf_le_of_mem_map (hwrap : ∀ a, sizeOf (wrap a) = 1 + sizeOf a) {parts : List α}
    (h : child ∈ parts.map wrap) : sizeOf child ≤ sizeOf parts := by
  obtain ⟨a, ha, rfl⟩ := List.mem_map.1 h
  have hsize := List.sizeOf_lt_of_mem ha
  rw [hwrap]
  omega

theorem sizeOf_le_of_mem_toList (hwrap : ∀ a, sizeOf (wrap a) = 1 + sizeOf a) {part : Option α}
    (h : child ∈ (part.map wrap).toList) : sizeOf child ≤ sizeOf part := by
  obtain ⟨a, rfl, rfl⟩ := Option.map_eq_some_iff.1 (Option.mem_toList.1 h)
  simp [hwrap]

theorem sizeOf_le_of_ofContent {l : Line} (h : ofContent l = some child) :
    sizeOf child ≤ sizeOf l := by
  cases l with
  | command margin content =>
      have hsize := sizeOf_le_of_mem_toList command.sizeOf_spec (Option.mem_toList.2 h)
      simp
      omega
  | macroBlock | conditional | repetition =>
      cases h
      simp +arith

theorem sizeOf_lt_of_mem_line {node : Line} (h : child ∈ (line node).children) :
    sizeOf child < sizeOf (line node) := by
  have hmargin : sizeOf node.margin < sizeOf node := by
    cases node <;> simp [Line.margin] <;> omega
  have hparts : sizeOf node.margin.label < sizeOf node.margin ∧
      sizeOf node.margin.comment < sizeOf node.margin := by
    cases node.margin
    simp
    omega
  simp only [children, List.mem_append] at h
  rw [line.sizeOf_spec]
  rcases h with (h | h) | h
  · have hsize := sizeOf_le_of_mem_toList label.sizeOf_spec h
    omega
  · have hsize := sizeOf_le_of_ofContent (Option.mem_toList.1 h)
    omega
  · have hsize := sizeOf_le_of_mem_toList comment.sizeOf_spec h
    omega

theorem sizeOf_lt_of_mem_label {node : Label} (h : child ∈ (label node).children) :
    sizeOf child < sizeOf (label node) := by
  cases node with
  | plain name =>
      cases List.mem_singleton.1 h
      simp
  | dynamic node =>
      obtain ⟨fragments, location⟩ := node
      have hsize : sizeOf child ≤ sizeOf fragments := sizeOf_le_of_mem_map identifier.sizeOf_spec h
      simp
      omega

theorem sizeOf_lt_of_mem_command {node : Command} (h : child ∈ (command node).children) :
    sizeOf child < sizeOf (command node) := by
  obtain ⟨name, ext, arguments, location⟩ := node
  simp only [command.sizeOf_spec, Command.mk.sizeOf_spec]
  rcases List.mem_append.1 h with h | h
  · have hsize : sizeOf child ≤ sizeOf name := sizeOf_le_of_mem_toList identifier.sizeOf_spec h
    omega
  · have hsize : sizeOf child ≤ sizeOf arguments := sizeOf_le_of_mem_map argument.sizeOf_spec h
    omega

theorem sizeOf_lt_of_mem_expression {node : Expr} (h : child ∈ (expression node).children) :
    sizeOf child < sizeOf (expression node) := by
  cases node with
  | dynamicLabel node =>
      obtain ⟨fragments, location⟩ := node
      have hsize : sizeOf child ≤ sizeOf fragments := sizeOf_le_of_mem_map identifier.sizeOf_spec h
      simp
      omega
  | unary | binary | brackets =>
      obtain ⟨e, he, rfl⟩ := List.mem_map.1 h
      have hsize := Expr.sizeOf_lt_of_mem_children he
      rwa [expression.sizeOf_spec, expression.sizeOf_spec, Nat.add_lt_add_iff_left]
  | number | identifier | string | char | macroArgument => cases h

theorem sizeOf_lt_of_mem_children {node : Node} (h : child ∈ node.children) :
    sizeOf child < sizeOf node := by
  cases node with
  | file node =>
      obtain ⟨lines, location⟩ := node
      have hsize : sizeOf child ≤ sizeOf lines := sizeOf_le_of_mem_map line.sizeOf_spec h
      simp
      omega
  | line node => exact sizeOf_lt_of_mem_line h
  | label node => exact sizeOf_lt_of_mem_label h
  | command node => exact sizeOf_lt_of_mem_command h
  | conditional kind condition thenLines elseLines location =>
      simp only [children, List.mem_append] at h
      rw [conditional.sizeOf_spec]
      rcases h with (h | h) | h
      · have hsize := sizeOf_le_of_mem_toList expression.sizeOf_spec h
        omega
      · have hsize := sizeOf_le_of_mem_map line.sizeOf_spec h
        omega
      · have hsize := sizeOf_le_of_mem_map line.sizeOf_spec h
        omega
  | repetition count body location =>
      rw [repetition.sizeOf_spec]
      rcases List.mem_append.1 h with h | h
      · have hsize := sizeOf_le_of_mem_toList expression.sizeOf_spec h
        omega
      · have hsize := sizeOf_le_of_mem_map line.sizeOf_spec h
        omega
  | macroBlock node =>
      obtain ⟨name, body, location⟩ := node
      have hsize : sizeOf child ≤ sizeOf name := sizeOf_le_of_mem_toList identifier.sizeOf_spec h
      simp
      omega
  | argument node =>
      cases node
      cases List.mem_singleton.1 h
      simp
      omega
  | expression node => exact sizeOf_lt_of_mem_expression h
  | identifier | comment => cases h

end Size

/-- The nodes that contain a position, from the given one inwards.  Where two parts touch, the
first one wins. -/
def pathFrom (node : Node) (p : Position) : List Node :=
  node ::
    match _h : node.children.find? fun child => child.location.contains p with
    | some child => pathFrom child p
    | none => []
termination_by sizeOf node
decreasing_by exact sizeOf_lt_of_mem_children (List.mem_of_find?_eq_some _h)

end Node

namespace File

def nodePath (file : File) (p : Position) : List Node :=
  (Node.file file).pathFrom p

def nodeAt? (file : File) (p : Position) : Option Node :=
  (file.nodePath p).getLast?.filter fun node => node.kind != .file

def nearest? (file : File) (p : Position) (kind : Node.Kind) : Option Node :=
  (file.nodePath p).reverse.find? fun node => node.kind == kind

end File

end Asm6502
