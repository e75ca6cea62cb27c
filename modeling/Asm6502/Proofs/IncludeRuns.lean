import Mathlib.Data.List.Nodup
import Mathlib.Logic.Relation
import Asm6502.Proofs.RepeatedWalk

/-!
# Runs through included documents

The way through a program taken in single steps.  A stage of it is a stack of open documents, each
with the lines that are left of it; a step meets one line, and opens a document for it or not, or
closes the innermost document.  Nothing fixes the depth beforehand: the documents that are open are
all that a step knows of its past.  Every run comes to its end, where it has met what the walk
through the program meets, and on the way no document is ever open twice.
-/

namespace Asm6502

/-- A document that is open, with those of its lines that were not met yet. -/
structure OpenDocument where
  uri : Uri
  lines : List Line

def Document.opened (document : Document) : OpenDocument := ⟨document.uri, document.allLines⟩

/-- How far the way through a program has come. -/
structure Stage where
  /-- The document whose lines are met next. -/
  current : OpenDocument
  /-- The documents around it, the innermost first. -/
  outer : List OpenDocument
  walk : Walk

variable {included : Document} {levels : Nat}

namespace Stage

/-- The documents that are open, the outermost first. -/
def path (s : Stage) : List Uri := (s.outer.map OpenDocument.uri).reverse ++ [s.current.uri]

def start (document : Document) (cache : DocumentCache) : Stage :=
  ⟨document.opened, [], Walk.addDocument ⟨.empty, cache⟩ document⟩

/-- The document that the next line opens: one that is not open yet, while there is room for it. -/
def opened? (files : FileSource) (s : Stage) (line : Line) : Option Document :=
  match line.fileRequest with
  | .document name _ =>
      (s.walk.target? files s.current.uri name).bind fun target =>
        if target ∉ s.path ∧ s.path.length < includeLimit then s.walk.content? files target
        else none
  | _ => none

/-- The walk after the next line, up to where the document that the line opens begins. -/
def meet (files : FileSource) (s : Stage) (line : Line) : Walk :=
  Walk.visit files s.path (if s.path.length < includeLimit then some fun _ w => w else none)
    s.current.uri s.walk line

/-- The stage after this one, if this is not the last. -/
def next? (files : FileSource) (s : Stage) : Option Stage :=
  match s.current.lines with
  | [] =>
      match s.outer with
      | [] => none
      | document :: outer => some ⟨document, outer, s.walk⟩
  | line :: lines =>
      let rest : OpenDocument := ⟨s.current.uri, lines⟩
      match s.opened? files line with
      | none => some ⟨rest, s.outer, s.meet files line⟩
      | some included =>
          some ⟨included.opened, rest :: s.outer, (s.meet files line).addDocument included⟩

/-- One stage leads to another in some number of steps. -/
def Reaches (files : FileSource) : Stage -> Stage -> Prop :=
  Relation.ReflTransGen fun s s' => s.next? files = some s'

def after (files : FileSource) : Nat -> Stage -> Stage
  | 0, s => s
  | n + 1, s => (s.next? files).elim s (after files n)

variable {files : FileSource}

theorem reaches_after (n : Nat) (s : Stage) : Reaches files s (after files n s) := by
  induction n generalizing s with
  | zero => exact .refl
  | succ n ih =>
      rw [after]
      cases hnext : s.next? files with
      | none => exact .refl
      | some s' => exact .head hnext (ih s')

/-! ## One step -/

theorem path_push (s : Stage) (document : Document) (lines : List Line) (w : Walk) :
    path ⟨document.opened, ⟨s.current.uri, lines⟩ :: s.outer, w⟩ = s.path ++ [document.uri] := by
  simp [path, Document.opened]

theorem path_pop (current document : OpenDocument) (outer : List OpenDocument) (w w' : Walk) :
    path ⟨current, document :: outer, w⟩ = path ⟨document, outer, w'⟩ ++ [current.uri] := by
  simp [path]

theorem next?_cases {s s' : Stage} (h : s.next? files = some s') :
    (s.current.lines = [] ∧ ∃ document outer, s.outer = document :: outer ∧
      s' = ⟨document, outer, s.walk⟩) ∨
    (∃ line lines, s.current.lines = line :: lines ∧ s.opened? files line = none ∧
      s' = ⟨⟨s.current.uri, lines⟩, s.outer, s.meet files line⟩) ∨
    (∃ line lines included, s.current.lines = line :: lines ∧
      s.opened? files line = some included ∧
      s' = ⟨included.opened, ⟨s.current.uri, lines⟩ :: s.outer,
        (s.meet files line).addDocument included⟩) := by
  unfold next? at h
  cases hlines : s.current.lines with
  | nil =>
      cases houter : s.outer with
      | nil => simp [hlines, houter] at h
      | cons document outer =>
          simp only [hlines, houter, Option.some.injEq] at h
          exact .inl ⟨rfl, document, outer, rfl, h.symm⟩
  | cons line lines =>
      cases hopened : s.opened? files line with
      | none =>
          simp only [hlines, hopened, Option.some.injEq] at h
          exact .inr (.inl ⟨line, lines, rfl, hopened, h.symm⟩)
      | some included =>
          simp only [hlines, hopened, Option.some.injEq] at h
          exact .inr (.inr ⟨line, lines, included, rfl, hopened, h.symm⟩)

theorem opened?_eq_some {s : Stage} {line : Line} (h : s.opened? files line = some included) :
    included.uri ∉ s.path ∧ s.path.length < includeLimit := by
  unfold opened? at h
  split at h
  next name location hr =>
    obtain ⟨target, -, h⟩ := Option.bind_eq_some_iff.1 h
    split at h
    next hopen =>
      rw [Walk.uri_of_content? h]
      exact hopen
    next => cases h
  next => cases h

/-! ## The open documents -/

/-- No document is open twice, not too many are, and the first one is the outermost. -/
structure Sound (root : Uri) (s : Stage) : Prop where
  nodup : s.path.Nodup
  bounded : s.path.length ≤ includeLimit
  head : s.path.head? = some root

theorem sound_start (document : Document) (cache : DocumentCache) :
    (start document cache).Sound document.uri where
  nodup := List.nodup_singleton _
  bounded := show 1 ≤ includeLimit by decide
  head := rfl

theorem Sound.next {root : Uri} {s s' : Stage} (h : s.Sound root)
    (hnext : s.next? files = some s') : s'.Sound root := by
  rcases next?_cases hnext with ⟨-, document, outer, houter, rfl⟩ | ⟨line, lines, -, -, rfl⟩ |
    ⟨line, lines, included, -, hopened, rfl⟩
  · have hpath : s.path = path ⟨document, outer, s.walk⟩ ++ [s.current.uri] := by
      rw [← path_pop s.current document outer s.walk s.walk, ← houter]
    obtain ⟨hnodup, hbounded, hhead⟩ := h
    rw [hpath] at hnodup hbounded hhead
    refine ⟨(List.nodup_append.1 hnodup).1, ?_, ?_⟩
    · rw [List.length_append] at hbounded
      omega
    · cases hfirst : (path ⟨document, outer, s.walk⟩).head? with
      | none => simp [path] at hfirst
      | some first =>
          rw [List.head?_append, hfirst] at hhead
          exact hhead
  · exact ⟨h.nodup, h.bounded, h.head⟩
  · obtain ⟨hnew, hroom⟩ := opened?_eq_some hopened
    refine ⟨?_, ?_, ?_⟩ <;> rw [path_push]
    · exact List.concat_eq_append ▸ List.Nodup.concat hnew h.nodup
    · rw [List.length_append]
      exact hroom
    · rw [List.head?_append, h.head]
      rfl

theorem Sound.reaches {root : Uri} {s s' : Stage} (h : s.Sound root)
    (hreaches : Reaches files s s') : s'.Sound root := by
  induction hreaches with
  | refl => exact h
  | tail _ hnext ih => exact ih.next hnext

/-! ## The end of a run -/

/-- Walking through a line at a level is meeting it and then walking through the document that it
opens. -/
theorem visit_eq_meet (s : Stage) (line : Line) (hlevels : s.path.length + levels = includeLimit) :
    Walk.visit files s.path (Walk.opener files s.path levels) s.current.uri s.walk line =
      (s.opened? files line).elim (s.meet files line) fun included =>
        Walk.through files (levels - 1) (s.path ++ [included.uri]) included
          (s.meet files line) := by
  unfold meet opened?
  rw [Walk.visit_eq, Walk.visit_eq]
  cases line.fileRequest with
  | nothing | faulty | folder => rfl
  | binary name location => rfl
  | document name location =>
      dsimp only
      cases s.walk.target? files s.current.uri name with
      | none => rfl
      | some target =>
          have hcontent : (s.walk.lookFor files s.path s.current.uri line name).content? files
              target = s.walk.content? files target := rfl
          simp only [Walk.enterFile, hcontent, Option.bind_some]
          by_cases hopen : target ∈ s.path
          · simp [hopen]
          · cases levels with
            | zero =>
                have hfull : ¬ s.path.length < includeLimit := by omega
                simp [hopen, hfull, Walk.opener]
            | succ lower =>
                have hroom : s.path.length < includeLimit := by omega
                simp only [hopen, hroom, not_false_eq_true, and_self, if_true, if_false,
                  Walk.opener]
                cases s.walk.content? files target <;> rfl

theorem next?_of_opened?_none {s : Stage} {line : Line} {lines : List Line}
    (hlines : s.current.lines = line :: lines) (hopened : s.opened? files line = none) :
    s.next? files = some ⟨⟨s.current.uri, lines⟩, s.outer, s.meet files line⟩ := by
  simp only [next?, hlines, hopened]

theorem next?_of_opened? {s : Stage} {line : Line} {lines : List Line}
    (hlines : s.current.lines = line :: lines) (hopened : s.opened? files line = some included) :
    s.next? files = some ⟨included.opened, ⟨s.current.uri, lines⟩ :: s.outer,
      (s.meet files line).addDocument included⟩ := by
  simp only [next?, hlines, hopened]

/-- The stage at which all lines of the innermost document are met, with a walk over them. -/
def drained (files : FileSource) (levels : Nat) (s : Stage) : Stage :=
  ⟨⟨s.current.uri, []⟩, s.outer,
    Walk.overLines files levels s.path s.current.uri s.walk s.current.lines⟩

/-- With room for a number of documents, the lines of the innermost one are met as by a walk. -/
def Drains (files : FileSource) (levels : Nat) : Prop :=
  ∀ s : Stage, s.path.length + levels = includeLimit -> Reaches files s (s.drained files levels)

theorem reaches_visit
    (hinside : ∀ lower, levels = lower + 1 -> Drains files lower) {s : Stage} {line : Line}
    {lines : List Line} (hlines : s.current.lines = line :: lines)
    (hlevels : s.path.length + levels = includeLimit) :
    Reaches files s ⟨⟨s.current.uri, lines⟩, s.outer,
      Walk.visit files s.path (Walk.opener files s.path levels) s.current.uri s.walk line⟩ := by
  rw [visit_eq_meet s line hlevels]
  cases hopened : s.opened? files line with
  | none => exact .single (next?_of_opened?_none hlines hopened)
  | some included =>
      obtain ⟨-, hroom⟩ := opened?_eq_some hopened
      obtain ⟨lower, rfl⟩ : ∃ lower, levels = lower + 1 := ⟨levels - 1, by omega⟩
      let entered : Stage := ⟨included.opened, ⟨s.current.uri, lines⟩ :: s.outer,
        (s.meet files line).addDocument included⟩
      have hpath : entered.path = s.path ++ [included.uri] := path_push s included lines _
      have hdrains : Reaches files entered (entered.drained files lower) := by
        refine hinside lower rfl entered ?_
        rw [hpath, List.length_append, List.length_singleton]
        omega
      have hwalk : (entered.drained files lower).walk =
          Walk.through files lower (s.path ++ [included.uri]) included (s.meet files line) := by
        rw [Walk.through_eq, ← hpath]
        rfl
      have hclose : (entered.drained files lower).next? files =
          some ⟨⟨s.current.uri, lines⟩, s.outer, (entered.drained files lower).walk⟩ := rfl
      rw [hwalk] at hclose
      exact .head (next?_of_opened? hlines hopened) (hdrains.tail hclose)

/-- The induction is over the number of documents for which there is room, then over the lines. -/
theorem drains (files : FileSource) (levels : Nat) : Drains files levels := by
  apply Walk.levels_induction
  intro levels hinside s hlevels
  obtain ⟨⟨uri, lines⟩, outer, w⟩ := s
  induction lines generalizing w with
  | nil => exact .refl
  | cons line lines ih => exact (reaches_visit hinside rfl hlevels).trans (ih _ hlevels)

/-- A stage that leads to a last one has no run without an end. -/
theorem Reaches.acc {s last : Stage} (h : Reaches files s last) (hlast : last.next? files = none) :
    Acc (fun s' s : Stage => s.next? files = some s') s := by
  induction h using Relation.ReflTransGen.head_induction_on with
  | refl =>
      refine .intro _ fun s' hs' => ?_
      rw [hlast] at hs'
      cases hs'
  | head hnext _ ih =>
      refine .intro _ fun s' hs' => ?_
      rw [hnext] at hs'
      cases hs'
      exact ih

def last (document : Document) (files : FileSource) (cache : DocumentCache) : Stage :=
  (start document cache).drained files (includeLimit - 1)

theorem reaches_last (document : Document) (files : FileSource) (cache : DocumentCache) :
    Reaches files (start document cache) (last document files cache) :=
  drains files (includeLimit - 1) _ rfl

theorem walk_last (document : Document) (files : FileSource) (cache : DocumentCache) :
    (last document files cache).walk = document.walk files cache :=
  (Walk.through_eq files (includeLimit - 1) [document.uri] document ⟨.empty, cache⟩).symm

end Stage

/-! ## The lines of a document that is entered -/

namespace Walk

variable {path : List Uri}

/-- From one walk to another the lines were met at a path, each once and in order, and else only
lines further inside. -/
def Traverses (path : List Uri) (lines : List Line) (w w' : Walk) : Prop :=
  ∃ added : List Visit, w'.visits.toList = w.visits.toList ++ added ∧
    added.filter (fun visit => visit.path = path) = lines.map (Visit.mk path) ∧
    ∀ visit ∈ added, path <+: visit.path

variable {files : FileSource}

theorem Traverses.trans {lines more : List Line} {w₁ w₂ w₃ : Walk} (h₁ : Traverses path lines w₁ w₂)
    (h₂ : Traverses path more w₂ w₃) : Traverses path (lines ++ more) w₁ w₃ := by
  obtain ⟨first, hfirst, hlines, hinside⟩ := h₁
  obtain ⟨second, hsecond, hmore, hinside'⟩ := h₂
  refine ⟨first ++ second, ?_, ?_, ?_⟩
  · rw [hsecond, hfirst, List.append_assoc]
  · rw [List.filter_append, hlines, hmore, List.map_append]
  · exact List.forall_mem_append.2 ⟨hinside, hinside'⟩

/-- What is met inside an included document is further inside. -/
theorem Traverses.inside {uri : Uri} {lines : List Line} {w w' : Walk}
    (h : Traverses (path ++ [uri]) lines w w') : Traverses path [] w w' := by
  obtain ⟨added, hadded, -, hinside⟩ := h
  refine ⟨added, hadded, ?_, fun visit hvisit => ?_⟩
  · refine List.filter_eq_nil_iff.2 fun visit hvisit hpath => ?_
    have hlonger := (hinside visit hvisit).length_le
    rw [of_decide_eq_true hpath, List.length_append, List.length_singleton] at hlonger
    omega
  · exact (List.prefix_append path [uri]).trans (hinside visit hvisit)

theorem Traverses.note {line : Line} {w w' : Walk} (h : w'.visits = w.visits.push ⟨path, line⟩) :
    Traverses path [line] w w' :=
  ⟨[⟨path, line⟩], by rw [h, Array.toList_push], by simp, by simp⟩

/-- Walking through a document with a number of levels meets all of its lines. -/
def TraversesAll (files : FileSource) (levels : Nat) : Prop :=
  ∀ path document w, Traverses path document.allLines w (through files levels path document w)

theorem visit_traverses
    (hinside : ∀ lower, levels = lower + 1 -> TraversesAll files lower) (document : Uri) (w : Walk)
    (line : Line) :
    Traverses path [line] w (visit files path (opener files path levels) document w line) := by
  rw [visit_eq_effect]
  cases (effect files levels path document w line).opened with
  | none => exact .note rfl
  | some included =>
      cases levels with
      | zero => exact .note rfl
      | succ lower =>
          have hnote : Traverses path [line] w
              (((effect files (lower + 1) path document w line).on w path line).remember
                included) := by
            refine .note ?_
            rw [remember_sources]
            rfl
          exact hnote.trans (hinside lower rfl (path ++ [included.uri]) included _).inside

theorem overLines_traverses
    (hinside : ∀ lower, levels = lower + 1 -> TraversesAll files lower) (document : Uri) (w : Walk)
    (lines : List Line) :
    Traverses path lines w (overLines files levels path document w lines) := by
  induction lines generalizing w with
  | nil => exact ⟨[], (List.append_nil _).symm, rfl, by simp⟩
  | cons line lines ih => exact (visit_traverses hinside document w line).trans (ih _)

theorem through_traverses (files : FileSource) (levels : Nat) : TraversesAll files levels := by
  apply levels_induction
  intro levels hinside path document w
  rw [through_eq]
  exact overLines_traverses hinside document.uri (w.addDocument document) document.allLines

end Walk

/-! ## Includes -/

theorem Symbols.foldl_mentions_address (config : Config) (symbols : Symbols) (label : Label)
    (value value' : Option Expr) :
    (label.mentions .address value).foldl (add config) symbols =
      (label.mentions .address value').foldl (add config) symbols := by
  cases label with
  | plain id => cases h : id.programCounter <;> simp only [Label.mentions, h] <;> rfl
  | dynamic label => rfl

theorem Line.mentions_bare (margin : Margin) :
    (Line.command margin none).mentions =
      margin.label.toList.flatMap fun label => label.mentions .address none := by
  simp [mentions, contentMentions, command?, label, Line.margin, DefinitionKind.ofDirective]

theorem Line.mentions_include (margin : Margin) {command : Command}
    (hinclude : command.directive? = some .includeFile) :
    (Line.command margin (some command)).mentions =
      margin.label.toList.flatMap fun label =>
        label.mentions .address (command.arguments.head?.map Argument.value) := by
  have hmentions : command.mentions = [] := by simp only [Command.mentions, hinclude]
  simp [mentions, contentMentions, command?, label, Line.margin, hinclude, hmentions,
    DefinitionKind.ofDirective, Directive.definesConstant, Directive.definesVariable]

theorem Symbols.addLine_bare (config : Config) (symbols : Symbols) {line : Line}
    (hlabel : line.label = none) :
    symbols.addLine config (.command line.margin none) = symbols := by
  have hmargin : line.margin.label = none := hlabel
  rw [addLine, Line.mentions_bare, hmargin]
  rfl

/-- To the names of a program an include says no more than the label in front of it. -/
theorem Symbols.addLine_include (config : Config) (symbols : Symbols) {line : Line}
    {command : Command} (hcommand : line.command? = some command)
    (hinclude : command.directive? = some .includeFile) :
    symbols.addLine config line = symbols.addLine config (.command line.margin none) := by
  cases line with
  | command margin content =>
      cases hcommand
      rw [addLine, addLine, Line.mentions_include margin hinclude, Line.mentions_bare]
      cases hlabel : margin.label with
      | none => simp [Line.margin, hlabel]
      | some label =>
          simp only [Line.margin, hlabel, Option.toList_some, List.flatMap_singleton]
          exact foldl_mentions_address config symbols label _ none
  | macroBlock | conditional | repetition => cases hcommand

namespace Stage

variable {files : FileSource}

structure Includes (files : FileSource) (s : Stage) (line : Line) (lines : List Line)
    (name : String) (location : Location) (target : Uri) : Prop where
  lines : s.current.lines = line :: lines
  command : ∃ command, line.command? = some command ∧ command.directive? = some .includeFile ∧
    command.stringArgument? = some (name, location)
  named : name ≠ ""
  target : (s.walk.candidates s.current.uri name).find? (s.walk.hasFile files) = some target

theorem Includes.of_head {s : Stage} {name : String} {location : Location} {target : Uri}
    (hhead : (s.current.lines.head?.bind Line.command?).any fun command =>
      command.directive? = some .includeFile ∧ command.stringArgument? = some (name, location))
    (hnamed : name ≠ "") (htarget : s.walk.target? files s.current.uri name = some target) :
    ∃ line lines, s.Includes files line lines name location target := by
  cases hlines : s.current.lines with
  | nil => simp [hlines] at hhead
  | cons line lines =>
      rw [hlines, List.head?_cons, Option.bind_some, Option.any_eq_true] at hhead
      obtain ⟨command, hcommand, hrequest⟩ := hhead
      exact ⟨line, lines, hlines, ⟨command, hcommand, of_decide_eq_true hrequest⟩, hnamed, htarget⟩

variable {s : Stage} {line : Line} {lines : List Line} {name : String} {location : Location}
  {target : Uri}

theorem Includes.request (h : s.Includes files line lines name location target) :
    line.fileRequest = .document name location := by
  obtain ⟨command, hcommand, hinclude, hargument⟩ := h.command
  have hnamed : name.isEmpty = false := by
    rw [Bool.eq_false_iff, Ne, String.isEmpty_iff]
    exact h.named
  simp [Line.fileRequest, hcommand, hinclude, Command.requestWith, Walk.pathArgument, hargument,
    hnamed]

/-- An include of an open document reports that, and is passed over. -/
theorem Includes.refused (h : s.Includes files line lines name location target)
    (hopen : target ∈ s.path) :
    s.opened? files line = none ∧ s.meet files line =
      { s.walk with
        visits := s.walk.visits.push ⟨s.path, line⟩
        watchedFiles := (s.walk.passed files s.current.uri name).foldl addNew s.walk.watchedFiles
        errors := s.walk.errors ++ [.of (.circularInclude name) location] } := by
  have htarget : s.walk.target? files s.current.uri name = some target := h.target
  constructor
  · simp [opened?, h.request, htarget, hopen]
  · rw [meet, Walk.visit_eq, h.request]
    simp only [htarget, Walk.enterFile, if_pos hopen]
    rfl

theorem Includes.symbols_refused (h : s.Includes files line lines name location target)
    (hopen : target ∈ s.path) (uri : Uri) (config : Config) :
    ((s.meet files line).program uri config).symbols =
      (s.walk.program uri config).symbols.addLine config (.command line.margin none) := by
  obtain ⟨command, hcommand, hinclude, -⟩ := h.command
  have hlines : (s.meet files line).lines = s.walk.lines ++ [line] := by
    rw [(h.refused hopen).2]
    exact Walk.lines_note s.walk s.path line
  calc ((s.meet files line).program uri config).symbols
      = .ofLines config (s.walk.lines ++ [line]) := congrArg (Symbols.ofLines config) hlines
    _ = (Symbols.ofLines config s.walk.lines).addLine config line := List.foldl_append
    _ = _ := Symbols.addLine_include config _ hcommand hinclude

theorem Includes.entered
    (h : s.Includes files line lines name location target) (hopen : target ∉ s.path)
    (hroom : s.path.length < includeLimit)
    (hcontent : s.walk.content? files target = some included) :
    s.opened? files line = some included := by
  have htarget : s.walk.target? files s.current.uri name = some target := h.target
  simp [opened?, h.request, htarget, hopen, hroom, hcontent]

theorem Includes.traversed {root : Uri} (hsound : s.Sound root)
    (h : s.Includes files line lines name location target)
    (hopened : s.opened? files line = some included) :
    let rest : OpenDocument := ⟨s.current.uri, lines⟩
    ∃ w w', s.next? files = some ⟨included.opened, rest :: s.outer, w⟩ ∧
      Reaches files ⟨included.opened, rest :: s.outer, w⟩
        ⟨⟨included.uri, []⟩, rest :: s.outer, w'⟩ ∧
      w.Traverses (s.path ++ [included.uri]) included.allLines w' := by
  intro rest
  let entered : Stage :=
    ⟨included.opened, rest :: s.outer, (s.meet files line).addDocument included⟩
  have hpath : entered.path = s.path ++ [included.uri] := path_push s included lines _
  have hnext : s.next? files = some entered := next?_of_opened? h.lines hopened
  have hbounded := (hsound.next hnext).bounded
  let levels := includeLimit - entered.path.length
  have hdrains := drains files levels entered (by omega)
  refine ⟨_, (entered.drained files levels).walk, hnext, hdrains, ?_⟩
  rw [← hpath]
  exact Walk.overLines_traverses (fun lower _ => Walk.through_traverses files lower) _ _ _

end Stage

/-- Following the includes of a program is safe whatever the files hold.  Every run through the
program ends, with what the program is made of.  At every stage of it no document is open twice,
the first document is the outermost, and there are no more documents open than the limit allows.  An
include of an open document is reported at its argument and else leaves no mark but the files that
were looked for; an include of any other document that can be read opens it, as long as there is
room, and all of its lines are met. -/
theorem Program.resolve_follows_includes (document : Document) (config : Config)
    (files : FileSource) (cache : DocumentCache) :
    let start := Stage.start document cache
    Acc (fun s' s : Stage => s.next? files = some s') start ∧
    (∃ last, Stage.Reaches files start last ∧ last.next? files = none ∧
      resolve document config files cache =
        (last.walk.program document.uri config, last.walk.cache)) ∧
    ∀ s, Stage.Reaches files start s ->
      s.path.Nodup ∧ s.path.length ≤ includeLimit ∧ s.path.head? = some document.uri ∧
      ∀ line lines name location target, s.Includes files line lines name location target ->
        (target ∈ s.path -> ∃ w, s.next? files = some ⟨⟨s.current.uri, lines⟩, s.outer, w⟩ ∧
          w = { s.walk with
            visits := s.walk.visits.push ⟨s.path, line⟩
            watchedFiles :=
              (s.walk.passed files s.current.uri name).foldl addNew s.walk.watchedFiles
            errors := s.walk.errors ++ [.of (.circularInclude name) location] } ∧
          (w.program document.uri config).symbols =
            (s.walk.program document.uri config).symbols.addLine config
              (.command line.margin none) ∧
          (line.label = none ->
            (w.program document.uri config).symbols =
              (s.walk.program document.uri config).symbols)) ∧
        ∀ included, target ∉ s.path -> s.path.length < includeLimit ->
          s.walk.content? files target = some included ->
          let rest : OpenDocument := ⟨s.current.uri, lines⟩
          ∃ w w', s.next? files = some ⟨⟨target, included.allLines⟩, rest :: s.outer, w⟩ ∧
            Stage.Reaches files ⟨⟨target, included.allLines⟩, rest :: s.outer, w⟩
              ⟨⟨target, []⟩, rest :: s.outer, w'⟩ ∧
            w.Traverses (s.path ++ [target]) included.allLines w' := by
  intro start
  have hreaches := Stage.reaches_last document files cache
  refine ⟨hreaches.acc rfl, ⟨_, hreaches, rfl, ?_⟩, fun s hs => ?_⟩
  · rw [Stage.walk_last]
    rfl
  · have hsound : s.Sound document.uri := (Stage.sound_start document cache).reaches hs
    refine ⟨hsound.nodup, hsound.bounded, hsound.head, ?_⟩
    intro line lines name location target hincludes
    refine ⟨fun hopen => ?_, fun included hopen hroom hcontent => ?_⟩
    · obtain ⟨hopened, hmeet⟩ := hincludes.refused hopen
      have hsymbols := hincludes.symbols_refused hopen document.uri config
      refine ⟨_, Stage.next?_of_opened?_none hincludes.lines hopened, hmeet, hsymbols, ?_⟩
      intro hlabel
      rw [hsymbols]
      exact Symbols.addLine_bare config _ hlabel
    · have huri : included.uri = target := Walk.uri_of_content? hcontent
      subst huri
      exact hincludes.traversed hsound (hincludes.entered hopen hroom hcontent)

/-- A document includes another one twice, and that one includes the first. -/
theorem Program.resolve_follows_includes_around :
    let main : Uri := ⟨"file:///main.asm"⟩
    let other : Uri := ⟨"file:///a.h"⟩
    let document := Document.ofText " INCLUDE \"a.h\"\n INCLUDE \"a.h\"\n" main
    let files := (MemoryFiles.empty.write other " INCLUDE \"main.asm\"\n").source
    let cache := DocumentCache.empty.insert document
    let start := Stage.start document cache
    (∃ s line lines location, Stage.Reaches files start s ∧
      s.Includes files line lines "main.asm" location main ∧ main ∈ s.path ∧
      ∃ w, s.next? files = some ⟨⟨other, lines⟩, s.outer, w⟩ ∧
        w.errors = s.walk.errors ++ [.of (.circularInclude "main.asm") location]) ∧
    ∃ s line lines location included, Stage.Reaches files start s ∧
      s.Includes files line lines "a.h" location other ∧
      s.walk.documents.map Document.uri = [main, other] ∧ other ∉ s.path ∧
      ∃ w, s.next? files =
        some ⟨⟨other, Document.allLines included⟩, ⟨main, lines⟩ :: s.outer, w⟩ := by
  intro main other document files cache start
  have hsafe := (resolve_follows_includes document ⟨[]⟩ files cache).2.2
  let inner := Stage.after files 1 start
  let again := Stage.after files 3 start
  let place (uri : Uri) (row stop : Nat) : Location := ⟨uri, ⟨⟨row, 9⟩, ⟨row, stop⟩⟩⟩
  constructor
  · have hreaches : Stage.Reaches files start inner := Stage.reaches_after 1 start
    have hinner : inner.current.uri = other ∧ main ∈ inner.path := by decide +kernel
    obtain ⟨line, lines, hincludes⟩ : ∃ line lines,
        inner.Includes files line lines "main.asm" (place other 0 19) main :=
      Stage.Includes.of_head (by decide +kernel) (by decide) (by decide +kernel)
    obtain ⟨w, hnext, hw, -⟩ := ((hsafe inner hreaches).2.2.2 _ _ _ _ _ hincludes).1 hinner.2
    refine ⟨inner, line, lines, _, hreaches, hincludes, hinner.2, w, ?_, ?_⟩
    · rw [hnext, hinner.1]
    · rw [hw]
  · have hreaches : Stage.Reaches files start again := Stage.reaches_after 3 start
    have hagain : again.current.uri = main ∧ again.path = [main] ∧
        again.walk.documents.map Document.uri = [main, other] ∧
        (again.walk.content? files other).isSome = true := by
      decide +kernel
    obtain ⟨hcurrent, hpath, hdocuments, hsome⟩ := hagain
    obtain ⟨included, hcontent⟩ := Option.isSome_iff_exists.1 hsome
    obtain ⟨line, lines, hincludes⟩ : ∃ line lines,
        again.Includes files line lines "a.h" (place main 1 14) other :=
      Stage.Includes.of_head (by decide +kernel) (by decide) (by decide +kernel)
    have hopen : other ∉ again.path := by
      rw [hpath]
      decide
    have hroom : again.path.length < includeLimit := by
      rw [hpath]
      decide
    obtain ⟨w, w', hnext, -⟩ :=
      ((hsafe again hreaches).2.2.2 _ _ _ _ _ hincludes).2 included hopen hroom hcontent
    refine ⟨again, line, lines, _, included, hreaches, hincludes, hdocuments, hopen, w, ?_⟩
    rw [hnext, hcurrent]

end Asm6502
