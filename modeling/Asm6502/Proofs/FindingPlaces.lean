import Asm6502.Proofs.FindingOrder
import Asm6502.Proofs.LabelReferences
import Asm6502.Proofs.RelocationRegions
import Asm6502.Proofs.TextSpans

/-!
# Places of findings

Every finding points into the program: its place is that of a part of a document, or of a fault of
the text of a document, and so it stands on a row of that text.  The documents of a program have
different names, so each finding belongs to exactly one of them.
-/

namespace Asm6502

/-! ## Parts of lines -/

namespace Node

theorem Reaches.trans {a b c : Node} (h : a.Reaches b) (h' : b.Reaches c) : a.Reaches c := by
  induction h' with
  | refl => exact h
  | step _ hchild ih => exact .step ih hchild

theorem reaches_child {node child : Node} (h : child ∈ node.children) : node.Reaches child :=
  .step .refl h

theorem reaches_part (e : Expr) : ∀ part ∈ e.parts, (expression e).Reaches (expression part) := by
  have hinner {outer inner part : Expr} (hchild : expression inner ∈ (expression outer).children)
      (hpart : (expression inner).Reaches (expression part)) :
      (expression outer).Reaches (expression part) :=
    (reaches_child hchild).trans hpart
  induction e with
  | unary op operand location ih | brackets kind operand location ih =>
      intro part hpart
      rcases List.mem_cons.1 hpart with rfl | hpart
      · exact .refl
      · exact hinner (by simp [children, Expr.children]) (ih part hpart)
  | binary op left right location ihleft ihright =>
      intro part hpart
      rcases List.mem_cons.1 hpart with rfl | hpart
      · exact .refl
      · rcases List.mem_append.1 hpart with hpart | hpart
        · exact hinner (by simp [children, Expr.children]) (ihleft part hpart)
        · exact hinner (by simp [children, Expr.children]) (ihright part hpart)
  | _ =>
      intro part hpart
      rw [List.mem_singleton.1 hpart]
      exact .refl

theorem reaches_content {l : Line} {node : Node} (h : ofContent l = some node) :
    (line l).Reaches node :=
  reaches_child (by simp [children, h])

theorem reaches_command {l : Line} {c : Command} (h : l.command? = some c) :
    (line l).Reaches (command c) := by
  cases l with
  | command margin content =>
      have hcontent : content = some c := h
      exact reaches_content (by rw [hcontent]; rfl)
  | macroBlock | conditional | repetition => cases h

theorem reaches_expression {l : Line} {e : Expr} (h : e ∈ l.expressions) :
    (line l).Reaches (expression e) := by
  cases l with
  | command margin content =>
      cases content with
      | none => cases h
      | some c =>
          obtain ⟨a, ha, rfl⟩ := List.mem_map.1 h
          have hargument : argument a ∈ (command c).children :=
            List.mem_append_right _ (List.mem_map_of_mem ha)
          exact ((reaches_command rfl).trans (reaches_child hargument)).step
            (List.mem_singleton_self _)
  | macroBlock => cases h
  | conditional margin kind condition thenLines elseLines location =>
      refine (reaches_content rfl).step ?_
      have hmem : condition = some e := Option.mem_toList.1 h
      simp [children, hmem]
  | repetition margin count body location =>
      refine (reaches_content rfl).step ?_
      have hmem : count = some e := Option.mem_toList.1 h
      simp [children, hmem]

mutual

theorem reaches_of_mem_walk (l : Line) : ∀ inner ∈ l.walk, (line l).Reaches (line inner) := by
  intro inner hinner
  match l with
  | .command .. | .macroBlock .. =>
      rw [Line.walk, List.mem_singleton] at hinner
      rw [hinner]
      exact .refl
  | .conditional margin kind condition thenLines elseLines location =>
      rw [Line.walk, List.mem_cons, List.mem_append] at hinner
      rcases hinner with rfl | hinner | hinner
      · exact .refl
      · obtain ⟨outer, houter, hreaches⟩ := reaches_of_mem_walkAll thenLines inner hinner
        exact ((reaches_content rfl).step (by simp [children, houter])).trans hreaches
      · obtain ⟨outer, houter, hreaches⟩ := reaches_of_mem_walkAll elseLines inner hinner
        exact ((reaches_content rfl).step (by simp [children, houter])).trans hreaches
  | .repetition margin count body location =>
      rw [Line.walk, List.mem_cons] at hinner
      rcases hinner with rfl | hinner
      · exact .refl
      · obtain ⟨outer, houter, hreaches⟩ := reaches_of_mem_walkAll body inner hinner
        exact ((reaches_content rfl).step (by simp [children, houter])).trans hreaches

theorem reaches_of_mem_walkAll (lines : List Line) : ∀ inner ∈ Line.walkAll lines,
    ∃ outer ∈ lines, (line outer).Reaches (line inner) := by
  intro inner hinner
  match lines with
  | [] => cases hinner
  | l :: lines =>
      rw [Line.walkAll] at hinner
      rcases List.mem_append.1 hinner with hinner | hinner
      · exact ⟨l, List.mem_cons_self, reaches_of_mem_walk l inner hinner⟩
      · obtain ⟨outer, houter, hreaches⟩ := reaches_of_mem_walkAll lines inner hinner
        exact ⟨outer, List.mem_cons_of_mem l houter, hreaches⟩

end

end Node

/-! ## Places in documents -/

namespace Document

variable {d : Document}

/-- A place in whatever text a document was read from. -/
def Places (d : Document) (location : Location) : Prop :=
  ∀ text, d = .ofText text d.uri -> location.StandsIn d.uri text

theorem reaches_line {line : Line} (h : line ∈ d.allLines) :
    (Node.file d.file).Reaches (.line line) := by
  obtain ⟨outer, houter, hreaches⟩ := Node.reaches_of_mem_walkAll d.file.lines line h
  exact (Node.reaches_child (List.mem_map_of_mem houter)).trans hreaches

theorem places_of_reaches {node : Node} (h : (Node.file d.file).Reaches node) :
    d.Places node.location := by
  intro text htext
  rw [htext] at h
  exact standsIn_of_reaches h

theorem places_findings : ∀ finding ∈ d.findings, d.Places finding.location := by
  intro finding hfinding text htext
  obtain ⟨error, herror, rfl⟩ := List.mem_map.1 hfinding
  rw [htext] at herror
  exact errors_standIn text d.uri error herror

theorem places_numberFindings : ∀ finding ∈ d.numberFindings, d.Places finding.location := by
  intro finding hfinding
  obtain ⟨line, hline, hfinding⟩ := List.mem_flatMap.1 hfinding
  obtain ⟨part, hpart, hnumber⟩ := List.mem_filterMap.1 hfinding
  obtain ⟨e, he, hpart⟩ := List.mem_flatMap.1 hpart
  have hreaches := ((reaches_line hline).trans (Node.reaches_expression he)).trans
    (Node.reaches_part e part hpart)
  split at hnumber
  · cases hnumber
    exact places_of_reaches hreaches
  · cases hnumber

/-- A label stands where the text spells its name. -/
theorem places_occurrence {line : Line} (hline : line ∈ d.allLines) {o : Occurrence}
    (ho : o ∈ line.occurrences) : d.Places o.location := by
  intro text htext
  rw [htext] at hline
  obtain ⟨huri, taken, hbeside, htight, -⟩ := namedAt_of_mem_occurrences hline ho
  have hsub : taken.Sublist (tokenize text).tokens := hbeside.sublist.trans List.filter_sublist
  exact ⟨huri, htight.proper ((Concrete.tokenize_inOrder text).sublist hsub),
    htight.least _ fun token htoken => token_inside text token (hsub.subset htoken)⟩

end Document

namespace Program

variable {program : Program} {d : Document} {c : Command} {finding : Diagnostic}

theorem places_name {name : Identifier} (hc : (Node.file d.file).Reaches (.command c))
    (hname : c.name = some name) : d.Places name.location := by
  have hnode : (Node.file d.file).Reaches (.identifier name) :=
    hc.step (by simp [Node.children, hname])
  exact Document.places_of_reaches hnode

theorem places_instructionFinding? {mnemonic : Mnemonic} {name : Identifier}
    (hc : (Node.file d.file).Reaches (.command c)) (hname : c.name = some name)
    (h : program.instructionFinding? mnemonic name c = some finding) :
    d.Places finding.location := by
  have hidentifier := places_name hc hname
  have hargument {a : Argument} (ha : a ∈ c.arguments) : d.Places a.location := by
    have hnode : (Node.file d.file).Reaches (.argument a) :=
      hc.step (List.mem_append_right _ (List.mem_map_of_mem ha))
    exact Document.places_of_reaches hnode
  unfold instructionFinding? at h
  split at h
  · cases h
    exact hidentifier
  split at h
  · split at h
    · cases h
    · cases h
      exact hidentifier
  · next a harguments =>
    split at h
    · cases h
    · cases h
      exact hargument (by simp [harguments])
  · next first second rest harguments =>
    cases h
    have hlast : (rest.getLast?).getD second ∈ c.arguments := by
      rw [harguments, ← List.getLastD_eq_getLast?]
      exact List.mem_cons_of_mem first List.getLastD_mem_cons
    intro text htext
    exact (hargument (by simp [harguments]) text htext).union (hargument hlast text htext)

theorem places_commandFinding? (hc : (Node.file d.file).Reaches (.command c))
    (h : program.commandFinding? c = some finding) : d.Places finding.location := by
  unfold commandFinding? at h
  split at h
  · cases h
    exact Document.places_of_reaches hc
  · next name hname =>
    split at h
    · cases h
    split at h
    · exact places_instructionFinding? hc hname h
    · split at h
      · cases h
      · cases h
        exact places_name hc hname

theorem places_documentFindings (program : Program) (d : Document) :
    ∀ finding ∈ program.documentFindings d, d.Places finding.location := by
  intro finding hfinding
  rcases List.mem_append.1 hfinding with hfinding | hfinding
  · exact Document.places_findings finding hfinding
  · obtain ⟨c, hc, hfinding⟩ := List.mem_filterMap.1 hfinding
    obtain ⟨line, hline, hc⟩ := List.mem_filterMap.1 hc
    exact places_commandFinding? ((Document.reaches_line hline).trans (Node.reaches_command hc))
      hfinding

end Program

/-! ## Places on lines of a program -/

theorem LabelSymbol.location_of_mem_findings {label : LabelSymbol} {config : Config}
    {name : String} : ∀ finding ∈ label.findings config name,
      finding.location ∈ label.definitions ∨ finding.location ∈ label.usages := by
  have heach {message : Message} {locations : List Location} :
      ∀ finding ∈ Diagnostic.each message locations, finding.location ∈ locations := by
    intro finding hfinding
    obtain ⟨location, hlocation, rfl⟩ := List.mem_map.1 hfinding
    exact hlocation
  intro finding hfinding
  unfold findings at hfinding
  split at hfinding
  · cases hfinding
  split at hfinding
  · split at hfinding
    · cases hfinding
    · exact .inr (heach finding hfinding)
  rcases List.mem_append.1 hfinding with hfinding | hfinding
  · split at hfinding
    · exact .inl (heach finding hfinding)
    · cases hfinding
  · split at hfinding
    · cases hfinding
    · exact .inl (List.mem_of_mem_drop (heach finding hfinding))

theorem Symbols.exists_occurrence {config : Config} {lines : List Line} {key : String}
    {label : LabelSymbol} (h : (key, label) ∈ (ofLines config lines).labels) {location : Location}
    (hlocation : location ∈ label.definitions ∨ location ∈ label.usages) :
    ∃ line ∈ lines, ∃ o ∈ line.occurrences, o.location = location := by
  obtain ⟨scope, hlabel⟩ := (ofLines_namesDistinct config lines).mem_labels_iff.1 h
  obtain ⟨role, hrole⟩ := LabelSymbol.exists_role.2 hlocation
  obtain ⟨_, line, ⟨i, hline, -⟩, ho, -⟩ :=
    ((ofLines_scoped config lines).lists role ⟨scope, key⟩ location).1 ⟨label, hlabel, hrole⟩
  exact ⟨line, List.mem_of_getElem? hline, _, ho, rfl⟩

namespace Relocation

theorem location_of_mem_findings {r : Relocation} {isOpen : Bool} :
    ∀ finding ∈ r.findings isOpen, finding.location = r.location := by
  intro finding hfinding
  unfold findings at hfinding
  split at hfinding
  · rcases List.mem_append.1 hfinding with hfinding | hfinding
    · split at hfinding
      · cases hfinding
      · rw [List.mem_singleton.1 hfinding]
        rfl
    · split at hfinding
      · rw [List.mem_singleton.1 hfinding]
        rfl
      · cases hfinding
  · split at hfinding
    · cases hfinding
    · rw [List.mem_singleton.1 hfinding]
      rfl

theorem location_of_mem_findingsAll (relocations : List Relocation) (isOpen : Bool) :
    ∀ finding ∈ findingsAll isOpen relocations,
      ∃ r ∈ relocations, finding.location = r.location := by
  induction relocations generalizing isOpen with
  | nil => simp [findingsAll]
  | cons r rest ih =>
      intro finding hfinding
      rcases List.mem_append.1 hfinding with hfinding | hfinding
      · exact ⟨r, List.mem_cons_self, location_of_mem_findings finding hfinding⟩
      · obtain ⟨other, hother, hlocation⟩ := ih _ finding hfinding
        exact ⟨other, List.mem_cons_of_mem r hother, hlocation⟩

theorem firsts_subset (relocations : List Relocation) : firsts relocations ⊆ relocations := by
  induction relocations with
  | nil => exact List.nil_subset []
  | cons r rest ih =>
      intro other hother
      rcases List.mem_cons.1 hother with rfl | hother
      · exact List.mem_cons_self
      · exact List.mem_cons_of_mem r (ih (List.mem_filter.1 hother).1)

end Relocation

theorem Document.places_relocation {d : Document} {line : Line} (hline : line ∈ d.allLines)
    {r : Relocation} (hr : line.relocation? = some r) : d.Places r.location := by
  obtain ⟨c, hc, hr⟩ := Option.bind_eq_some_iff.1 hr
  have hlocation : r.location = c.location := by
    unfold Command.relocation? at hr
    split at hr <;> cases hr <;> rfl
  rw [hlocation]
  exact places_of_reaches ((reaches_line hline).trans (Node.reaches_command hc))

/-! ## Faults of commands on files -/

def FileRequest.location? : FileRequest -> Option Location
  | nothing => none
  | faulty finding => some finding.location
  | document _ location => some location
  | binary _ location => some location
  | folder _ location => some location

theorem Document.places_pathArgument {d : Document} {c : Command}
    (hc : (Node.file d.file).Reaches (.command c)) :
    match Walk.pathArgument c with
    | .error finding => d.Places finding.location
    | .ok (_, location) => d.Places location := by
  have hargument {a : Argument} (ha : a ∈ c.arguments) :
      (Node.file d.file).Reaches (.argument a) :=
    hc.step (List.mem_append_right _ (List.mem_map_of_mem ha))
  have hstring {name : String} {location : Location}
      (h : c.stringArgument? = some (name, location)) : d.Places location := by
    unfold Command.stringArgument? at h
    split at h
    · next value place other harguments =>
      cases h
      have hnode : (Node.file d.file).Reaches (.expression (.string name location)) :=
        (hargument (harguments ▸ List.mem_cons_self)).step (List.mem_singleton_self _)
      exact places_of_reaches hnode
    · cases h
  unfold Walk.pathArgument
  cases hpath : c.stringArgument? with
  | none =>
      cases harguments : c.arguments with
      | nil => exact places_of_reaches hc
      | cons a rest => exact places_of_reaches (hargument (harguments ▸ List.mem_cons_self))
  | some path =>
      dsimp only
      split
      · next h =>
        split at h
        · cases h
          exact hstring hpath
        · cases h
      · next h =>
        split at h
        · cases h
        · cases h
          exact hstring hpath

theorem Document.places_fileRequest {d : Document} {line : Line} (hline : line ∈ d.allLines)
    {location : Location} (h : line.fileRequest.location? = some location) : d.Places location := by
  have hrequest {c : Command} (hc : line.command? = some c)
      {request : String -> Location -> FileRequest}
      (hplace : ∀ name place, (request name place).location? = some place)
      (h : (c.requestWith request).location? = some location) : d.Places location := by
    have hpath := places_pathArgument ((reaches_line hline).trans (Node.reaches_command hc))
    unfold Command.requestWith at h
    cases hargument : Walk.pathArgument c with
    | error finding =>
        rw [hargument] at h hpath
        cases h
        exact hpath
    | ok path =>
        rw [hargument] at h hpath
        rw [hplace] at h
        cases h
        exact hpath
  unfold Line.fileRequest at h
  cases hc : line.command? with
  | none =>
      rw [hc] at h
      cases h
  | some c =>
      rw [hc] at h
      dsimp only at h
      split at h
      · exact hrequest hc (fun _ _ => rfl) h
      · exact hrequest hc (fun _ _ => rfl) h
      · exact hrequest hc (fun _ _ => rfl) h
      · cases h

namespace Walk

/-- On the way through a program that starts with a document the documents have different names,
each is used, the first is the one at the start, and every fault is about a line that was met. -/
structure Orderly (root : Document) (w : Walk) : Prop where
  distinct : (w.documents.map Document.uri).Nodup
  used : ∀ d ∈ w.documents, d.uri ∈ w.usedFiles
  first : w.documents.head? = some root
  faults : ∀ finding ∈ w.errors, ∃ line ∈ w.lines,
    line.fileRequest.location? = some finding.location

variable {files : FileSource} {root : Document} {w : Walk}

theorem location_of_mem_faults (levels : Nat) (path : List Uri) (document : Uri) (w : Walk)
    (line : Line) : ∀ finding ∈ (effect files levels path document w line).faults,
      line.fileRequest.location? = some finding.location := by
  intro finding hfinding
  unfold effect at hfinding
  cases hrequest : line.fileRequest with
  | nothing =>
      rw [hrequest] at hfinding
      cases hfinding
  | faulty fault =>
      rw [hrequest] at hfinding
      rw [List.mem_singleton.1 hfinding]
      rfl
  | folder name location =>
      simp only [hrequest] at hfinding
      split at hfinding
      · rw [List.mem_singleton.1 hfinding]
        rfl
      · dsimp only at hfinding
        split at hfinding
        · cases hfinding
        · rw [List.mem_singleton.1 hfinding]
          rfl
  | binary name location =>
      simp only [hrequest] at hfinding
      split at hfinding
      · rw [List.mem_singleton.1 hfinding]
        rfl
      · cases hfinding
  | document name location =>
      simp only [hrequest] at hfinding
      split at hfinding
      · rw [List.mem_singleton.1 hfinding]
        rfl
      split at hfinding
      · rw [List.mem_singleton.1 hfinding]
        rfl
      split at hfinding
      · cases hfinding
      split at hfinding
      · rw [List.mem_singleton.1 hfinding]
        rfl
      · cases hfinding

theorem uris_addDocument (w : Walk) (document : Document) :
    (w.addDocument document).documents.map Document.uri =
      addNew (w.documents.map Document.uri) document.uri := by
  have hknown : (w.documents.any fun d => d.uri = document.uri) = true ↔
      document.uri ∈ w.documents.map Document.uri := by
    simp
  simp only [addDocument, addNew]
  split
  next h => rw [if_pos (hknown.1 h)]
  next h => rw [if_neg fun hmem => h (hknown.2 hmem), List.map_append, List.map_singleton]

namespace Orderly

theorem on (h : w.Orderly root) (files : FileSource) (levels : Nat) (path : List Uri)
    (document : Uri) (line : Line) :
    ((effect files levels path document w line).on w path line).Orderly root where
  distinct := h.distinct
  used d hd := (mem_foldl_addNew _ _).2 (.inl (h.used d hd))
  first := h.first
  faults finding hfinding := by
    rw [lines_on]
    rcases List.mem_append.1 hfinding with hfinding | hfinding
    · obtain ⟨met, hmet, hlocation⟩ := h.faults finding hfinding
      exact ⟨met, List.mem_append_left _ hmet, hlocation⟩
    · exact ⟨line, List.mem_append_right _ (List.mem_singleton_self line),
        location_of_mem_faults levels path document w line finding hfinding⟩

theorem remember (h : w.Orderly root) (document : Document) :
    (w.remember document).Orderly root := by
  unfold Walk.remember
  split
  · exact h
  · exact ⟨h.distinct, h.used, h.first, h.faults⟩

theorem addDocument (h : w.Orderly root) (document : Document) :
    (w.addDocument document).Orderly root where
  distinct := by
    rw [uris_addDocument]
    exact nodup_addNew h.distinct document.uri
  used d hd := by
    rcases of_mem_addDocument hd with hd | rfl
    · exact mem_addNew.2 (.inl (h.used d hd))
    · exact uri_mem_addDocument w d
  first := by
    simp only [Walk.addDocument]
    split
    · exact h.first
    · rw [List.head?_append, h.first]
      rfl
  faults := h.faults

theorem visit {levels : Nat} {path : List Uri}
    (henter : ∀ f ∈ opener files path levels, ∀ included (w : Walk),
      w.Orderly root -> (f included w).Orderly root)
    (h : w.Orderly root) (document : Uri) (line : Line) :
    (Walk.visit files path (opener files path levels) document w line).Orderly root := by
  have hon := h.on files levels path document line
  rw [visit_eq_effect]
  cases (effect files levels path document w line).opened with
  | none => exact hon
  | some included =>
      cases hopener : opener files path levels with
      | none => exact hon
      | some enter => exact henter enter hopener included _ (hon.remember included)

theorem overLines {levels : Nat} {path : List Uri}
    (henter : ∀ f ∈ opener files path levels, ∀ included (w : Walk),
      w.Orderly root -> (f included w).Orderly root)
    (h : w.Orderly root) (document : Uri) (lines : List Line) :
    (Walk.overLines files levels path document w lines).Orderly root := by
  induction lines generalizing w with
  | nil => exact h
  | cons line lines ih => exact ih (h.visit henter document line)

end Orderly

theorem opener_orderly (levels : Nat) (path : List Uri) :
    ∀ f ∈ opener files path levels, ∀ included (w : Walk),
      w.Orderly root -> (f included w).Orderly root := by
  induction levels generalizing path with
  | zero =>
      intro f hf
      cases hf
  | succ levels ih =>
      intro f hf included w hw
      cases hf
      show (through files levels (path ++ [included.uri]) included w).Orderly root
      rw [through_eq]
      exact (hw.addDocument included).overLines (ih _) _ _

end Walk

theorem Document.walk_orderly (document : Document) (files : FileSource) (cache : DocumentCache) :
    (document.walk files cache).Orderly document := by
  have hopened : (Walk.addDocument ⟨.empty, cache⟩ document).Orderly document := by
    refine ⟨by simp [Walk.addDocument, Sources.empty], ?_, rfl, ?_⟩
    · intro d hd
      rw [List.mem_singleton.1 hd]
      exact Walk.uri_mem_addDocument _ document
    · intro finding hfinding
      cases hfinding
  rw [Document.walk, Walk.through_eq]
  exact hopened.overLines (Walk.opener_orderly _ _) _ _

/-! ## Findings by document -/

theorem Document.filter_uri_eq {documents : List Document}
    (h : (documents.map Document.uri).Nodup) {d : Document} (hd : d ∈ documents) :
    documents.filter (fun other => other.uri = d.uri) = [d] := by
  induction documents with
  | nil => cases hd
  | cons first rest ih =>
      rw [List.map_cons, List.nodup_cons] at h
      rcases List.mem_cons.1 hd with rfl | hd
      · have hrest : rest.filter (fun other => other.uri = d.uri) = [] := by
          rw [List.filter_eq_nil_iff]
          intro other hother huri
          exact h.1 (of_decide_eq_true huri ▸ List.mem_map_of_mem hother)
        rw [List.filter_cons_of_pos (by simp), hrest]
      · have hne : first.uri ≠ d.uri := fun huri => h.1 (huri ▸ List.mem_map_of_mem hd)
        rw [List.filter_cons_of_neg (by simpa using hne), ih h.2 hd]

/-- Findings in documents of different names, told apart by those names. -/
theorem Diagnostic.perm_flatMap_filter {documents : List Document}
    (hdistinct : (documents.map Document.uri).Nodup) {findings : List Diagnostic}
    (h : ∀ finding ∈ findings, ∃ d ∈ documents, d.uri = finding.location.uri) :
    (documents.flatMap fun d =>
      findings.filter fun finding => finding.location.uri = d.uri).Perm findings := by
  induction documents generalizing findings with
  | nil =>
      cases findings with
      | nil => exact .refl _
      | cons finding rest =>
          obtain ⟨d, hd, -⟩ := h finding List.mem_cons_self
          cases hd
  | cons d rest ih =>
      rw [List.map_cons, List.nodup_cons] at hdistinct
      have hothers : ∀ finding ∈ findings.filter (fun finding => !(finding.location.uri = d.uri)),
          ∃ other ∈ rest, other.uri = finding.location.uri := by
        intro finding hfinding
        obtain ⟨hmem, hne⟩ := List.mem_filter.1 hfinding
        obtain ⟨other, hother, huri⟩ := h finding hmem
        rcases List.mem_cons.1 hother with rfl | hother
        · simp [huri] at hne
        · exact ⟨other, hother, huri⟩
      -- What belongs to another document is not taken away with what belongs to the first.
      have hsame : (rest.flatMap fun other =>
          findings.filter fun finding => finding.location.uri = other.uri) =
          rest.flatMap fun other =>
            (findings.filter fun finding => !(finding.location.uri = d.uri)).filter
              fun finding => finding.location.uri = other.uri := by
        rw [List.flatMap_def, List.flatMap_def]
        refine congrArg List.flatten (List.map_congr_left fun other hother => ?_)
        have hne : other.uri ≠ d.uri := fun huri => hdistinct.1 (huri ▸ List.mem_map_of_mem hother)
        rw [List.filter_filter]
        refine List.filter_congr fun finding _ => ?_
        by_cases huri : finding.location.uri = other.uri
        · simp [huri, hne]
        · simp [huri]
      rw [List.flatMap_cons, hsame]
      exact ((ih hdistinct.2 hothers).append_left _).trans (List.filter_append_perm _ findings)

namespace Program

variable (document : Document) (config : Config) (files : FileSource) (cache : DocumentCache)

theorem exists_places {finding : Diagnostic}
    (h : finding ∈ (resolve document config files cache).1.findings) :
    ∃ d ∈ (resolve document config files cache).1.documents, d.Places finding.location := by
  have hlines {line : Line} (hline : line ∈ (document.walk files cache).lines) :
      ∃ d ∈ (resolve document config files cache).1.documents, line ∈ d.allLines :=
    (document.mem_walk_lines files cache).1 hline
  rw [findings, Diagnostic.mem_assemble] at h
  rcases List.mem_append.1 h with h | h
  · rcases List.mem_append.1 h with h | h
    · obtain ⟨line, hline, hlocation⟩ := (document.walk_orderly files cache).faults finding h
      obtain ⟨d, hd, hline⟩ := hlines hline
      exact ⟨d, hd, Document.places_fileRequest hline hlocation⟩
    · obtain ⟨d, hd, hfinding⟩ := List.mem_flatMap.1 h
      exact ⟨d, hd, places_documentFindings _ d finding hfinding⟩
  · rcases List.mem_append.1 h with h | h
    · rcases List.mem_append.1 h with h | h
      · obtain ⟨⟨key, label⟩, hlabel, hfinding⟩ := List.mem_flatMap.1 h
        obtain ⟨line, hline, o, ho, hlocation⟩ := Symbols.exists_occurrence hlabel
          (LabelSymbol.location_of_mem_findings finding hfinding)
        obtain ⟨d, hd, hline⟩ := hlines hline
        exact ⟨d, hd, hlocation ▸ Document.places_occurrence hline ho⟩
      · obtain ⟨r, hr, hlocation⟩ := Relocation.location_of_mem_findingsAll _ _ finding h
        have hrelocations : (resolve document config files cache).1.symbols.relocations =
            Relocation.firsts ((document.walk files cache).lines.filterMap Line.relocation?) :=
          Symbols.relocations_ofLines config _
        rw [hrelocations] at hr
        obtain ⟨line, hline, hr⟩ := List.mem_filterMap.1 (Relocation.firsts_subset _ hr)
        obtain ⟨d, hd, hline⟩ := hlines hline
        exact ⟨d, hd, hlocation ▸ Document.places_relocation hline hr⟩
    · obtain ⟨d, hd, hfinding⟩ := List.mem_flatMap.1 h
      exact ⟨d, hd, Document.places_numberFindings finding hfinding⟩

variable {cache}

/-- Every finding points into the program: its place has the name of exactly one document, does not
end before it starts, and starts on a row of the text of that document.  So the findings that have
the names of the documents are all findings, each once.  The documents have different names, each of
them is used, and the first is the one with which the program starts. -/
theorem resolve_findings_placed (hcache : cache.OfTexts) (text : String) (uri : Uri) :
    let program := (resolve (.ofText text uri) config files cache).1
    (∀ finding ∈ program.findings, ∃ d,
      program.documents.filter (fun d => d.uri = finding.location.uri) = [d] ∧
      finding.location.span.start ≤ finding.location.span.stop ∧
      (∃ source, d = .ofText source d.uri) ∧
      ∀ source, d = .ofText source d.uri ->
        finding.location.span.start.line < (Concrete.sourceRows source.toList).length) ∧
    (program.documents.flatMap fun d =>
      program.findings.filter fun finding => finding.location.uri = d.uri).Perm program.findings ∧
    (program.documents.map Document.uri).Nodup ∧
    (∀ d ∈ program.documents, d.uri ∈ program.sources.usedFiles) ∧
    program.documents.head? = some (.ofText text uri) := by
  intro program
  have horderly := (Document.ofText text uri).walk_orderly files cache
  have htext : ∀ d ∈ program.documents, ∃ source, d = .ofText source d.uri :=
    fun d hd => ((Document.ofText text uri).walk_enters files cache d hd).exists_text hcache
  have hplace : ∀ finding ∈ program.findings, ∃ d ∈ program.documents,
      d.Places finding.location ∧ d.uri = finding.location.uri := by
    intro finding hfinding
    obtain ⟨d, hd, hplaces⟩ := exists_places (.ofText text uri) config files cache hfinding
    obtain ⟨source, hsource⟩ := htext d hd
    exact ⟨d, hd, hplaces, (hplaces source hsource).uri_eq.symm⟩
  refine ⟨?_, ?_, horderly.distinct, horderly.used, horderly.first⟩
  · intro finding hfinding
    obtain ⟨d, hd, hplaces, huri⟩ := hplace finding hfinding
    obtain ⟨source, hsource⟩ := htext d hd
    refine ⟨d, ?_, (hplaces source hsource).proper, ⟨source, hsource⟩, ?_⟩
    · rw [← huri]
      exact Document.filter_uri_eq horderly.distinct hd
    · intro other hother
      exact (hplaces other hother).inside.line_lt (hplaces other hother).proper
  · refine Diagnostic.perm_flatMap_filter horderly.distinct ?_
    intro finding hfinding
    obtain ⟨d, hd, -, huri⟩ := hplace finding hfinding
    exact ⟨d, hd, huri⟩

/-- A label that an included file uses on its last row, which has no line break. -/
theorem resolve_findings_placed_included :
    let files := (MemoryFiles.empty.write ⟨"file:///part.asm"⟩ " NOP\n\n JMP start").source
    let text := " INCLUDE \"part.asm\"\n LDX (\n"
    let program := (resolve (.ofText text ⟨"file:///main.asm"⟩) ⟨[]⟩ files .empty).1
    let finding : Diagnostic :=
      .of (.labelNotDefined "start") ⟨⟨"file:///part.asm"⟩, ⟨⟨2, 5⟩, ⟨2, 10⟩⟩⟩
    DocumentCache.OfTexts .empty ∧ finding ∈ program.findings ∧
      (∃ d, program.documents.filter (fun d => d.uri = finding.location.uri) = [d] ∧
        ∀ source, d = .ofText source d.uri -> 2 < (Concrete.sourceRows source.toList).length) ∧
      (program.documents.flatMap fun d =>
        program.findings.filter fun finding => finding.location.uri = d.uri).Perm
          program.findings := by
  intro files text program finding
  have hlabel : finding ∈ program.labelFindings := by decide +kernel
  have hfinding : finding ∈ program.findings :=
    Diagnostic.mem_assemble.2 (List.mem_append_right _ (List.mem_append_left _
      (List.mem_append_left _ hlabel)))
  obtain ⟨hplaced, hperm, -⟩ := resolve_findings_placed ⟨[]⟩ files DocumentCache.ofTexts_empty text
    ⟨"file:///main.asm"⟩
  obtain ⟨d, hd, -, -, hrow⟩ := hplaced finding hfinding
  exact ⟨DocumentCache.ofTexts_empty, hfinding, ⟨d, hd, hrow⟩, hperm⟩

end Program

end Asm6502
