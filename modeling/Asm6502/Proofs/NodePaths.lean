import Asm6502.Proofs.FindingPlaces
import Asm6502.Proofs.LineOrder

/-!
# Ways down to a position

A position is looked up by going down from the file to the first part that contains it.  The parts
of a node stand in order, so this is the part that the position stands in, and every node around a
position is found, with one exception.  A comment can stand inside the label or the content of its
own line, which come before it, and is then never found.
-/

namespace Asm6502

namespace Span

def Surrounds (span : Span) (p : Position) : Prop := span.start < p ∧ p < span.stop

instance (span : Span) (p : Position) : Decidable (span.Surrounds p) :=
  inferInstanceAs (Decidable (_ ∧ _))

variable {span other : Span} {p : Position}

theorem contains_iff : span.contains p = true ↔ span.start ≤ p ∧ p ≤ span.stop := by
  simp [contains]

theorem Surrounds.contains (h : span.Surrounds p) : span.contains p = true :=
  contains_iff.2 ⟨Std.le_of_not_ge h.1, Std.le_of_not_ge h.2⟩

theorem Surrounds.of_inside (h : other.Surrounds p) (hinside : other.Inside span) :
    span.Surrounds p :=
  ⟨fun hle => h.1 (Position.le_trans hle hinside.start),
    fun hle => h.2 (Position.le_trans hinside.stop hle)⟩

theorem Surrounds.contains_eq_false (h : span.Surrounds p)
    (hother : other.stop ≤ span.start ∨ span.stop ≤ other.start) : other.contains p = false := by
  rw [Bool.eq_false_iff, Ne, contains_iff]
  rintro ⟨hstart, hstop⟩
  rcases hother with hother | hother
  · exact h.1 (Position.le_trans hstop hother)
  · exact h.2 (Position.le_trans hother hstart)

end Span

/-- A comment that stands inside the label or the content of its own line. -/
def Line.Covers (line : Line) (node : Node) : Prop :=
  ∃ comment ∈ line.margin.comment, node = .comment comment ∧
    ((∃ label ∈ line.margin.label, comment.location.span.Inside label.location.span) ∨
      ∃ content ∈ Node.ofContent line, comment.location.span.Inside content.location.span)

namespace Node

variable {node child other : Node} {p : Position}

def Surrounds (node : Node) (p : Position) : Prop := node.location.span.Surrounds p

instance (node : Node) (p : Position) : Decidable (node.Surrounds p) :=
  inferInstanceAs (Decidable (node.location.span.Surrounds p))

theorem Nested.surrounds {uri : Uri} (h : node.Nested uri) (hchild : child ∈ node.children)
    (hsurrounds : child.Surrounds p) : node.Surrounds p := by
  obtain ⟨-, -, -, hinside⟩ := h
  exact Span.Surrounds.of_inside hsurrounds (hinside child hchild)

/-! ## Ways from a node -/

theorem pathFrom_eq (node : Node) (p : Position) : node.pathFrom p = node ::
    (node.children.find? fun child => child.location.contains p).elim [] (pathFrom · p) := by
  rw [pathFrom]
  split
  · next child h => simp [h]
  · next h => simp [h]

theorem self_mem_pathFrom (node : Node) (p : Position) : node ∈ node.pathFrom p := by
  rw [pathFrom_eq]
  exact List.mem_cons_self

theorem pathFrom_cases (node : Node) (p : Position) :
    (node.pathFrom p = [node] ∧ ∀ part ∈ node.children, part.location.contains p = false) ∨
      ∃ child ∈ node.children, child.location.contains p = true ∧
        node.children.find? (fun child => child.location.contains p) = some child ∧
        node.pathFrom p = node :: child.pathFrom p := by
  rw [pathFrom_eq]
  cases hfind : node.children.find? fun child => child.location.contains p with
  | none => exact .inl ⟨rfl, by simpa using hfind⟩
  | some child =>
      have hcontains : child.location.contains p = true := by simpa using List.find?_some hfind
      exact .inr ⟨child, List.mem_of_find?_eq_some hfind, hcontains, rfl, rfl⟩

theorem mem_pathFrom_cases (h : other ∈ node.pathFrom p) :
    other = node ∨ ∃ child ∈ node.children, child.location.contains p = true ∧
      node.children.find? (fun child => child.location.contains p) = some child ∧
      other ∈ child.pathFrom p := by
  rcases pathFrom_cases node p with ⟨hpath, -⟩ | ⟨child, hmem, hcontains, hfind, hpath⟩
  · rw [hpath] at h
    exact .inl (List.mem_singleton.1 h)
  · rw [hpath] at h
    exact (List.mem_cons.1 h).imp_right fun h => ⟨child, hmem, hcontains, hfind, h⟩

/-- From a node on it, a way goes on like the way from that node. -/
theorem exists_pathFrom_of_mem (h : other ∈ node.pathFrom p) :
    ∃ before, node.pathFrom p = before ++ other.pathFrom p := by
  induction node using pathFrom.induct p with
  | _ node ih =>
      rcases pathFrom_cases node p with ⟨hpath, -⟩ | ⟨child, -, -, hfind, hpath⟩
      · rw [hpath] at h
        exact ⟨[], by rw [List.mem_singleton.1 h, List.nil_append]⟩
      · rw [hpath] at h ⊢
        rcases List.mem_cons.1 h with rfl | h
        · exact ⟨[], hpath.symm⟩
        · obtain ⟨before, hbefore⟩ := ih child hfind h
          exact ⟨node :: before, by rw [hbefore, List.cons_append]⟩

theorem reaches_of_mem_pathFrom (h : other ∈ node.pathFrom p) : node.Reaches other := by
  induction node using pathFrom.induct p with
  | _ node ih =>
      rcases mem_pathFrom_cases h with rfl | ⟨child, hmem, -, hfind, h⟩
      · exact .refl
      · exact (reaches_child hmem).trans (ih child hfind h)

theorem contains_of_mem_pathFrom (hnode : node.location.contains p = true)
    (h : other ∈ node.pathFrom p) : other.location.contains p = true := by
  induction node using pathFrom.induct p with
  | _ node ih =>
      rcases mem_pathFrom_cases h with rfl | ⟨child, -, hcontains, hfind, h⟩
      · exact hnode
      · exact ih child hfind hcontains h

theorem exists_innermost (node : Node) (p : Position) :
    ∃ before last, node.pathFrom p = before ++ [last] ∧
      ∀ part ∈ last.children, part.location.contains p = false := by
  induction node using pathFrom.induct p with
  | _ node ih =>
      rcases pathFrom_cases node p with ⟨hpath, hparts⟩ | ⟨child, -, -, hfind, hpath⟩
      · exact ⟨[], node, hpath, hparts⟩
      · obtain ⟨before, last, hbefore, hparts⟩ := ih child hfind
        exact ⟨node :: before, last, by rw [hpath, hbefore, List.cons_append], hparts⟩

/-! ## The part around a position -/

theorem PartsInOrder.cases (h : node.PartsInOrder) :
    (∃ line, node = .line line ∧ line.PartsInOrder) ∨ node.children.Pairwise Before := by
  cases node with
  | line line => exact .inl ⟨line, rfl, h⟩
  | _ => exact .inr h

/-- The way goes on with a part around the position if no part before it contains the position. -/
theorem pathFrom_of_first {before after : List Node}
    (hchildren : node.children = before ++ child :: after) (hchild : child.Surrounds p)
    (hbefore : ∀ other ∈ before, other.location.contains p = false) :
    node.pathFrom p = node :: child.pathFrom p := by
  have hcontains : child.location.contains p = true := hchild.contains
  have hnone : before.find? (fun other => other.location.contains p) = none := by
    simpa using hbefore
  rw [pathFrom_eq, hchildren, List.find?_append, hnone, List.find?_cons]
  simp [hcontains]

end Node

theorem Line.PartsInOrder.exists_before {line : Line} (h : line.PartsInOrder) {child : Node}
    (hchild : child ∈ (Node.line line).children) (hcovers : ¬ line.Covers child) {p : Position}
    (hsurrounds : child.Surrounds p) :
    ∃ before after, (Node.line line).children = before ++ child :: after ∧
      ∀ other ∈ before, other.location.contains p = false := by
  simp only [Node.children, List.mem_append, Option.mem_toList, Option.map_eq_some_iff] at hchild
  rcases hchild with (⟨label, hlabel, rfl⟩ | hcontent) | ⟨comment, hcomment, rfl⟩
  · exact ⟨[], (Node.ofContent line).toList ++ (line.margin.comment.map Node.comment).toList,
      by simp [Node.children, hlabel], by simp⟩
  · refine ⟨(line.margin.label.map Node.label).toList,
      (line.margin.comment.map Node.comment).toList, by simp [Node.children, hcontent], ?_⟩
    intro other hother
    rw [Option.mem_toList, Option.map_eq_some_iff] at hother
    obtain ⟨label, hlabel, rfl⟩ := hother
    exact hsurrounds.contains_eq_false (.inl (h.label label hlabel child hcontent))
  · refine ⟨(line.margin.label.map Node.label).toList ++ (Node.ofContent line).toList, [],
      by simp [Node.children, hcomment], ?_⟩
    -- The comment is in front of each of the two or behind it, because it is inside neither.
    have hapart {span : Span} (havoids : comment.location.span.Avoids span)
        (hinside : ¬ comment.location.span.Inside span) : span.contains p = false := by
      rcases havoids.cases with h | h | h
      · exact hsurrounds.contains_eq_false (.inr h)
      · exact hsurrounds.contains_eq_false (.inl h)
      · exact absurd h hinside
    refine List.forall_mem_append.2 ⟨?_, ?_⟩
    · intro other hother
      rw [Option.mem_toList, Option.map_eq_some_iff] at hother
      obtain ⟨label, hlabel, rfl⟩ := hother
      refine hapart (h.commentLabel comment hcomment label hlabel) fun hinside => hcovers ?_
      exact ⟨comment, hcomment, rfl, .inl ⟨label, hlabel, hinside⟩⟩
    · intro content hcontent
      rw [Option.mem_toList] at hcontent
      refine hapart (h.commentContent comment hcomment content hcontent) fun hinside => hcovers ?_
      exact ⟨comment, hcomment, rfl, .inr ⟨content, hcontent, hinside⟩⟩

theorem Node.PartsInOrder.pathFrom {node child : Node} (h : node.PartsInOrder)
    (hchild : child ∈ node.children) {p : Position} (hsurrounds : child.Surrounds p)
    (hcovers : ∀ line, node = .line line -> ¬ line.Covers child) :
    node.pathFrom p = node :: child.pathFrom p := by
  rcases h.cases with ⟨line, rfl, hline⟩ | hpairwise
  · obtain ⟨before, after, hchildren, hbefore⟩ :=
      hline.exists_before hchild (hcovers line rfl) hsurrounds
    exact pathFrom_of_first hchildren hsurrounds hbefore
  · obtain ⟨before, after, hchildren⟩ := List.append_of_mem hchild
    rw [hchildren] at hpairwise
    refine pathFrom_of_first hchildren hsurrounds fun other hother => ?_
    have hbefore := (List.pairwise_append.1 hpairwise).2.2 other hother child List.mem_cons_self
    exact hsurrounds.contains_eq_false (.inl hbefore)

/-! ## Covered comments -/

namespace Node

variable {line : Line}

def Kind.parts : Kind -> List Kind
  | .file => [.line]
  | .line => [.label, .command, .conditional, .repetition, .macroBlock, .comment]
  | .label | .macroBlock => [.identifier]
  | .command => [.identifier, .argument]
  | .conditional | .repetition => [.expression, .line]
  | .argument => [.expression]
  | .expression => [.expression, .identifier]
  | .identifier | .comment => []

/-- The kinds of nodes that hold neither lines nor comments. -/
def Kind.isPlain : Kind -> Bool
  | .label | .command | .macroBlock | .argument | .expression | .identifier => true
  | .file | .line | .conditional | .repetition | .comment => false

variable {node child other : Node} {p : Position}

theorem kind_of_content {content : Node} (h : content ∈ ofContent line) :
    content.kind ∈ [Kind.command, .conditional, .repetition, .macroBlock] := by
  cases line with
  | command margin command =>
      obtain ⟨command, -, rfl⟩ := Option.map_eq_some_iff.1 h
      simp [kind]
  | macroBlock | conditional | repetition =>
      cases h
      simp [kind]

theorem kind_mem_parts (h : child ∈ node.children) : child.kind ∈ node.kind.parts := by
  cases node with
  | file file =>
      obtain ⟨line, -, rfl⟩ := List.mem_map.1 h
      simp [kind, Kind.parts]
  | line line =>
      simp only [children, List.mem_append, Option.mem_toList, Option.map_eq_some_iff] at h
      rcases h with (⟨label, -, rfl⟩ | hcontent) | ⟨comment, -, rfl⟩
      · simp [kind, Kind.parts]
      · exact List.mem_cons_of_mem .label
          (List.mem_append_left [.comment] (kind_of_content hcontent))
      · simp [kind, Kind.parts]
  | label label =>
      cases label with
      | plain name =>
          rw [List.mem_singleton.1 h]
          simp [kind, Kind.parts]
      | dynamic label =>
          obtain ⟨fragment, -, rfl⟩ := List.mem_map.1 h
          simp [kind, Kind.parts]
  | command command =>
      simp only [children, List.mem_append, Option.mem_toList, Option.map_eq_some_iff,
        List.mem_map] at h
      rcases h with ⟨name, -, rfl⟩ | ⟨argument, -, rfl⟩ <;> simp [kind, Kind.parts]
  | conditional conditionKind condition thenLines elseLines location =>
      simp only [children, List.mem_append, Option.mem_toList, Option.map_eq_some_iff,
        List.mem_map] at h
      rcases h with (⟨e, -, rfl⟩ | ⟨line, -, rfl⟩) | ⟨line, -, rfl⟩ <;> simp [kind, Kind.parts]
  | repetition count body location =>
      simp only [children, List.mem_append, Option.mem_toList, Option.map_eq_some_iff,
        List.mem_map] at h
      rcases h with ⟨e, -, rfl⟩ | ⟨line, -, rfl⟩ <;> simp [kind, Kind.parts]
  | macroBlock block =>
      simp only [children, Option.mem_toList, Option.map_eq_some_iff] at h
      obtain ⟨name, -, rfl⟩ := h
      simp [kind, Kind.parts]
  | argument argument =>
      rw [List.mem_singleton.1 h]
      simp [kind, Kind.parts]
  | expression e =>
      cases e with
      | dynamicLabel label =>
          obtain ⟨fragment, -, rfl⟩ := List.mem_map.1 h
          simp [kind, Kind.parts]
      | _ =>
          obtain ⟨part, -, rfl⟩ := List.mem_map.1 h
          simp [kind, Kind.parts]
  | identifier | comment => cases h

theorem Kind.isPlain_of_mem_parts {a b : Kind} (ha : a.isPlain = true) (h : b ∈ a.parts) :
    b.isPlain = true := by
  have hparts : ∀ part ∈ a.parts, part.isPlain = true := by
    cases a <;> first | decide | cases ha
  exact hparts b h

theorem Reaches.isPlain (hreaches : node.Reaches other) (h : node.kind.isPlain = true) :
    other.kind.isPlain = true := by
  induction hreaches with
  | refl => exact h
  | step _ hchild ih => exact Kind.isPlain_of_mem_parts ih (kind_mem_parts hchild)

theorem Reaches.kind_ne_file (hreaches : node.Reaches other) (h : node.kind ≠ .file) :
    other.kind ≠ .file := by
  cases hreaches with
  | refl => exact h
  | @step parent _ _ hchild =>
      intro hfile
      have hparts := kind_mem_parts hchild
      rw [hfile] at hparts
      revert hparts
      cases parent.kind <;> decide

/-- The first part of a line that contains a position in a covered comment is its label or its
content. -/
theorem mem_of_find?_of_covers (hcovers : line.Covers node) (hsurrounds : node.Surrounds p)
    (hfind : (Node.line line).children.find? (fun child => child.location.contains p) =
      some child) :
    (∃ label ∈ line.margin.label, child = .label label) ∨ child ∈ ofContent line := by
  obtain ⟨comment, -, rfl, hinside⟩ := hcovers
  have hcover : ∃ cover ∈ (line.margin.label.map label).toList ++ (ofContent line).toList,
      cover.location.contains p = true := by
    rcases hinside with ⟨label, hlabel, hinside⟩ | ⟨content, hcontent, hinside⟩
    · refine ⟨.label label, List.mem_append_left _ ?_, (hsurrounds.of_inside hinside).contains⟩
      simpa using hlabel
    · refine ⟨content, List.mem_append_right _ ?_, (hsurrounds.of_inside hinside).contains⟩
      exact Option.mem_toList.2 hcontent
  have hsome := List.find?_isSome.2 hcover
  obtain ⟨first, hfirst⟩ := Option.isSome_iff_exists.1 hsome
  rw [children, List.find?_append, hfirst, Option.some_or, Option.some.injEq] at hfind
  have hmem := List.mem_of_find?_eq_some hfirst
  simp only [List.mem_append, Option.mem_toList, Option.map_eq_some_iff, hfind] at hmem
  exact hmem.imp_left fun ⟨name, hname, heq⟩ => ⟨name, hname, heq.symm⟩

/-- A comment that its line covers is not on the way from that line: the way goes on with what
covers the comment, and the lines in there start behind the comment. -/
theorem not_mem_pathFrom_of_covers (h : line.PartsInOrder) (hcovers : line.Covers node)
    (hsurrounds : node.Surrounds p) : node ∉ (Node.line line).pathFrom p := by
  intro hmem
  rcases mem_pathFrom_cases hmem with heq | ⟨child, -, -, hfind, hmem⟩
  · obtain ⟨comment, -, rfl, -⟩ := hcovers
    cases heq
  · have hchild := mem_of_find?_of_covers hcovers hsurrounds hfind
    obtain ⟨comment, hcomment, rfl, -⟩ := hcovers
    have hplain {start : Node} (hmem : .comment comment ∈ start.pathFrom p) :
        start.kind.isPlain ≠ true := by
      intro hstart
      have hplain := (reaches_of_mem_pathFrom hmem).isPlain hstart
      cases hplain
    rcases hchild with ⟨label, -, rfl⟩ | hcontent
    · exact hplain hmem rfl
    · have hkind := kind_of_content hcontent
      rcases mem_pathFrom_cases hmem with rfl | ⟨part, hpart, hcontains, -, hmem⟩
      · simp [kind] at hkind
      · have hparts : ∀ k ∈ [Kind.command, .conditional, .repetition, .macroBlock],
            ∀ l ∈ k.parts, l.isPlain = true ∨ l = .line := by
          decide
        have hline := (hparts _ hkind _ (kind_mem_parts hpart)).resolve_left (hplain hmem)
        cases part with
        | line inner =>
            have hbehind := h.commentInner comment hcomment child hcontent inner hpart
            exact absurd hcontains
              (Bool.eq_false_iff.1 (hsurrounds.contains_eq_false (.inr hbehind)))
        | _ => cases hline

end Node

/-! ## Files -/

/-- A comment of a file that stands inside the label or the content of its own line. -/
def File.Hides (file : File) (node : Node) : Prop :=
  ∃ line, (Node.file file).Reaches (.line line) ∧ line.Covers node

namespace File

variable {file : File} {uri : Uri} {node : Node} {p : Position}

section Path

variable (hnested : (Node.file file).Nested uri)
  (horder : (Node.file file).Throughout Node.PartsInOrder)
  (hreaches : (Node.file file).Reaches node) (hsurrounds : node.Surrounds p)

include hnested horder

include hreaches hsurrounds in
/-- Every node around a position that is not hidden is on the way to the position. -/
theorem mem_nodePath (hshown : ¬ file.Hides node) : node ∈ file.nodePath p := by
  induction hreaches with
  | refl => exact Node.self_mem_pathFrom _ p
  | @step parent child hparent hchild ih =>
      have hparentShown : ¬ file.Hides parent := by
        rintro ⟨line, -, comment, -, rfl, -⟩
        cases hchild
      have hmem := ih ((hnested.of_reaches hparent).surrounds hchild hsurrounds) hparentShown
      obtain ⟨before, hbefore⟩ := Node.exists_pathFrom_of_mem hmem
      have hpath := (horder parent hparent).pathFrom hchild hsurrounds fun line hline hcovers =>
        hshown ⟨line, hline ▸ hparent, hcovers⟩
      rw [nodePath, hbefore, hpath]
      simp [Node.self_mem_pathFrom]

include hsurrounds in
/-- A hidden comment is not on the way to any position inside it. -/
theorem not_mem_nodePath (hhides : file.Hides node) : node ∉ file.nodePath p := by
  obtain ⟨line, hline, hcovers⟩ := hhides
  have hnotIn := Node.not_mem_pathFrom_of_covers (horder _ hline) hcovers hsurrounds
  obtain ⟨comment, hcomment, rfl, -⟩ := hcovers
  intro hmem
  -- The line of the comment is on the way, and the comment can only be the last node there.
  have hchild : .comment comment ∈ (Node.line line).children := by
    exact List.mem_append_right _ (by simpa using hcomment)
  have hshown : ¬ file.Hides (.line line) := by
    rintro ⟨_, -, _, -, heq, -⟩
    cases heq
  have hlineMem := mem_nodePath hnested horder hline
    ((hnested.of_reaches hline).surrounds hchild hsurrounds) hshown
  obtain ⟨before, hbefore⟩ := Node.exists_pathFrom_of_mem hlineMem
  obtain ⟨_, hlast⟩ := Node.exists_pathFrom_of_mem hmem
  have hend : (Node.comment comment).pathFrom p = [.comment comment] := by
    rw [Node.pathFrom_eq]
    rfl
  obtain ⟨inner, last, hinner, -⟩ := Node.exists_innermost (.line line) p
  rw [hend, hbefore, hinner, ← List.append_assoc] at hlast
  rw [hinner, (List.append_inj' hlast rfl).2] at hnotIn
  exact hnotIn (by simp)

end Path

theorem exists_nodeAt? (hmem : node ∈ file.nodePath p) (hnode : node.location.contains p = true)
    (hkind : node.kind ≠ .file) :
    ∃ innermost, file.nodeAt? p = some innermost ∧ node.Reaches innermost ∧
      innermost.location.contains p = true ∧
      ∀ part ∈ innermost.children, part.location.contains p = false := by
  obtain ⟨before, hbefore⟩ := Node.exists_pathFrom_of_mem hmem
  obtain ⟨inner, last, hlast, hparts⟩ := Node.exists_innermost node p
  have hmemLast : last ∈ node.pathFrom p := by simp [hlast]
  have hreaches := Node.reaches_of_mem_pathFrom hmemLast
  refine ⟨last, ?_, hreaches, Node.contains_of_mem_pathFrom hnode hmemLast, hparts⟩
  rw [nodeAt?, nodePath, hbefore, hlast, ← List.append_assoc, List.getLast?_concat]
  simpa using hreaches.kind_ne_file hkind

theorem exists_nearest? (hmem : node ∈ file.nodePath p) (hnode : node.location.contains p = true) :
    ∃ nearest, file.nearest? p node.kind = some nearest ∧ nearest.kind = node.kind ∧
      node.Reaches nearest ∧ nearest.location.contains p = true := by
  obtain ⟨before, hbefore⟩ := Node.exists_pathFrom_of_mem hmem
  have hself : ∃ other ∈ (node.pathFrom p).reverse, (other.kind == node.kind) = true :=
    ⟨node, List.mem_reverse.2 (Node.self_mem_pathFrom node p), beq_self_eq_true node.kind⟩
  obtain ⟨nearest, hnearest⟩ := Option.isSome_iff_exists.1 (List.find?_isSome.2 hself)
  have hmemNearest := List.mem_reverse.1 (List.mem_of_find?_eq_some hnearest)
  refine ⟨nearest, ?_, ?_, Node.reaches_of_mem_pathFrom hmemNearest,
    Node.contains_of_mem_pathFrom hnode hmemNearest⟩
  · rw [nearest?, nodePath, hbefore, List.reverse_append, List.find?_append, hnearest,
      Option.some_or]
  · have hkind := List.find?_some hnearest
    simpa using hkind

end File

/-- Of the nodes of a document that have a position between their ends, those on the way down to the
position are all but the comments that stand inside the label or the content of their own line.  The
innermost node at the position, and the nearest node of the same kind, are inside each of them. -/
theorem Document.nodePath_finds (text : String) (uri : Uri) {node : Node} {p : Position}
    (hreaches : (Node.file (ofText text uri).file).Reaches node) (hsurrounds : node.Surrounds p) :
    (node ∈ (ofText text uri).file.nodePath p ↔ ¬ (ofText text uri).file.Hides node) ∧
      (¬ (ofText text uri).file.Hides node ->
        (node.kind ≠ .file -> ∃ innermost, (ofText text uri).file.nodeAt? p = some innermost ∧
          node.Reaches innermost ∧ innermost.location.contains p = true ∧
          ∀ part ∈ innermost.children, part.location.contains p = false) ∧
        ∃ nearest, (ofText text uri).file.nearest? p node.kind = some nearest ∧
          nearest.kind = node.kind ∧ node.Reaches nearest ∧
          nearest.location.contains p = true) := by
  have hnested := nested_file text uri
  have horder := file_inOrder text uri
  have hcontains : node.location.contains p = true := hsurrounds.contains
  have hmem := File.mem_nodePath hnested horder hreaches hsurrounds
  refine ⟨⟨?_, hmem⟩, fun hshown => ?_⟩
  · exact fun hmem hhides => File.not_mem_nodePath hnested horder hsurrounds hhides hmem
  · exact ⟨File.exists_nodeAt? (hmem hshown) hcontains,
      File.exists_nearest? (hmem hshown) hcontains⟩

/-- The comment behind a command in a block is found. -/
theorem Document.nodePath_finds_comment :
    ∃ comment : Node,
      (Node.file (ofText "  IF 1 ; head\nl: LDA #2 ; note\n  ENDIF\n" default).file).Reaches
        comment ∧
      comment.kind = .comment ∧ comment.Surrounds ⟨1, 13⟩ ∧
      ¬ (ofText "  IF 1 ; head\nl: LDA #2 ; note\n  ENDIF\n" default).file.Hides comment ∧
      ∃ innermost, (ofText "  IF 1 ; head\nl: LDA #2 ; note\n  ENDIF\n" default).file.nodeAt?
          ⟨1, 13⟩ = some innermost ∧
        comment.Reaches innermost ∧ innermost.location.contains ⟨1, 13⟩ = true := by
  have hpath : ∃ comment ∈
      (ofText "  IF 1 ; head\nl: LDA #2 ; note\n  ENDIF\n" default).file.nodePath ⟨1, 13⟩,
      comment.kind = .comment ∧ comment.Surrounds ⟨1, 13⟩ := by
    decide +kernel
  obtain ⟨comment, hmem, hkind, hsurrounds⟩ := hpath
  have hreaches := Node.reaches_of_mem_pathFrom hmem
  obtain ⟨hiff, hfound⟩ := nodePath_finds _ _ hreaches hsurrounds
  have hshown := hiff.1 hmem
  obtain ⟨innermost, hinnermost, hinside, hcontains, -⟩ :=
    (hfound hshown).1 (by rw [hkind]; decide)
  exact ⟨comment, hreaches, hkind, hsurrounds, hshown, innermost, hinnermost, hinside, hcontains⟩

/-- The comment on the row that opens a block is missed: the way stops at the block. -/
theorem Document.nodePath_misses_comment :
    (∃ comment : Node,
      (Node.file (ofText "  IF 1 ; note\n  NOP\n  ENDIF\n" default).file).Reaches comment ∧
      comment.kind = .comment ∧ comment.Surrounds ⟨0, 10⟩ ∧
      comment ∉ (ofText "  IF 1 ; note\n  NOP\n  ENDIF\n" default).file.nodePath ⟨0, 10⟩) ∧
      ((ofText "  IF 1 ; note\n  NOP\n  ENDIF\n" default).file.nodePath ⟨0, 10⟩).map Node.kind =
        [.file, .line, .conditional] := by
  have hpath : ((ofText "  IF 1 ; note\n  NOP\n  ENDIF\n" default).file.nodePath ⟨0, 10⟩).map
      Node.kind = [.file, .line, .conditional] := by
    decide +kernel
  have hcomment : ∃ line ∈
      (Node.file (ofText "  IF 1 ; note\n  NOP\n  ENDIF\n" default).file).children,
      ∃ comment ∈ line.children, comment.kind = .comment ∧ comment.Surrounds ⟨0, 10⟩ := by
    decide +kernel
  obtain ⟨line, hline, comment, hcomment, hkind, hsurrounds⟩ := hcomment
  refine ⟨⟨comment, (Node.reaches_child hline).step hcomment, hkind, hsurrounds, ?_⟩, hpath⟩
  intro hmem
  have hkinds := List.mem_map_of_mem (f := Node.kind) hmem
  rw [hpath, hkind] at hkinds
  simp at hkinds

end Asm6502
