import Asm6502.Proofs.LabelPlaces
import Asm6502.Proofs.NestingLimit
import Asm6502.Proofs.WordLexemes

/-!
# References to labels of several fragments

A label of several fragments is defined at the front of a line and referred to inside brackets.  In
both places commas join the fragments, but where a comma and an index register make one token only
the definition takes the register for a fragment.  So what can be defined can be referred to exactly
when no fragment behind the first is the name of an index register, and then both name one label.
-/

namespace Asm6502

namespace Concrete

/-! ## Documents of one row -/

theorem rows_of_inline {stop : Token} {tokens : List Token} (hne : tokens ≠ [])
    (hinline : ∀ token ∈ tokens, Lexeme.Inner token.kind)
    (hstop : stop.kind = .eof) : rows (tokens ++ [stop]) = [⟨tokens, stop⟩] := by
  have hfind : (tokens ++ [stop]).find? (fun token => token.kind == .eof) = some stop := by
    rw [List.find?_append, List.find?_eq_none.2 fun token h => by simpa using (hinline token h).1]
    simp [hstop]
  rw [rows, endMark, hfind]
  refine rowsUpTo_last ?_ hne (by simpa [AtEnd] using hstop)
  intro token htoken
  obtain ⟨heof, hnewline, -⟩ := hinline token htoken
  cases hkind : token.kind <;> first | rfl | exact absurd hkind heof | exact absurd hkind hnewline

end Concrete

namespace Document

open Concrete in
theorem ofText_of_row {text : String} {tokens : List Token} {stop : Token}
    (htokenize : tokenize text = ⟨tokens ++ [stop], [], []⟩) (hne : tokens ≠ [])
    (hinline : ∀ token ∈ tokens, Lexeme.Inner token.kind)
    (hstop : stop.kind = .eof) {label : Option Concrete.Label} {command : Option Concrete.Command}
    {errors : List ParseError} (hread : Row.read ⟨tokens, stop⟩ = (label, .command command, errors))
    (uri : Uri) :
    (∃ margin, (ofText text uri).file.lines =
        [.command margin (command.map (Concrete.Command.lower uri))] ∧
      margin.label = label.map (toLabel uri)) ∧
      (ofText text uri).errors = errors.map .parse := by
  have hfile : ∃ span, ConcreteFile.ofTokens (tokens ++ [stop]) [] text =
      ⟨[.command ⟨label, none, span⟩ command], errors, []⟩ := by
    rw [ConcreteFile.ofTokens_eq, rows_of_inline hne hinline hstop]
    simp [State.step_of_no_frames, State.readRow_eq, State.finish, State.fresh, State.fault,
      State.closeAll, State.addLine_eq, hread, LineStart.margin]
  obtain ⟨span, hfile⟩ := hfile
  have htext : ofText text uri =
      ⟨uri, ConcreteFile.lower uri ⟨[.command ⟨label, none, span⟩ command], errors, []⟩,
        errors.map .parse⟩ := by
    simp only [ofText, htokenize, hfile]
    rfl
  rw [htext]
  exact ⟨⟨Margin.lower uri ⟨label, none, span⟩, rfl, rfl⟩, rfl⟩

end Document

namespace Concrete

open Lexeme

/-! ## Fragments behind commas -/

variable {words : List (List Char)} {tokens : List Token}

theorem isWord_wordKind (w : List Char) : (wordKind w).isWord = true := by
  unfold wordKind Token.Kind.ofKeyword?
  split <;> rfl

theorem readLabelFragments_joints (h : tokens.map spelling = words.flatMap joint) :
    ∃ others, readLabelFragments tokens = (others, []) ∧
      others.map (fun token => token.literal.toList) = words := by
  induction words generalizing tokens with
  | nil =>
      obtain rfl := List.map_eq_nil_iff.1 h
      exact ⟨[], rfl, rfl⟩
  | cons w words ih =>
      rw [List.flatMap_cons, joint] at h
      split at h
      · obtain ⟨ending, rest, rfl, hending, hrest⟩ := List.map_eq_cons_iff.1 h
        obtain ⟨others, hread, hothers⟩ := ih hrest
        injection hending with hkind hliteral
        refine ⟨endingFragment ending :: others, ?_, ?_⟩
        · rw [readLabelFragments_ending (hkind ▸ endingKind_cases w), hread]
        · simp [endingFragment, hliteral, hothers]
      · obtain ⟨comma, rest, rfl, hcomma, hrest⟩ := List.map_eq_cons_iff.1 h
        obtain ⟨word, rest, rfl, hword, hrest⟩ := List.map_eq_cons_iff.1 hrest
        obtain ⟨others, hread, hothers⟩ := ih hrest
        injection hcomma with hcomma _
        injection hword with hkind hliteral
        refine ⟨word :: others, ?_, ?_⟩
        · rw [readLabelFragments_word hcomma (hkind ▸ isWord_wordKind w), hread]
        · simp [hliteral, hothers]

/-- Inside brackets the words behind commas are fragments up to the first index register. -/
theorem joined_of_joints (h : tokens.map spelling = words.flatMap joint) :
    ∃ names front rest, tokens = front ++ rest ∧ Expr.Joined names front ∧
      ((∀ w ∈ words, ¬ IsIndexName w) -> rest = [] ∧
        names.map (fun token => token.literal.toList) = words) ∧
      ((∃ w ∈ words, IsIndexName w) -> ∃ ending tail, rest = ending :: tail ∧
        (ending.kind = .commaX ∨ ending.kind = .commaY)) := by
  induction words generalizing tokens with
  | nil =>
      obtain rfl := List.map_eq_nil_iff.1 h
      exact ⟨[], [], [], rfl, .nil, fun _ => ⟨rfl, rfl⟩, by simp⟩
  | cons w words ih =>
      rw [List.flatMap_cons, joint] at h
      split at h
      · next hindex =>
        obtain ⟨ending, rest, rfl, hending, -⟩ := List.map_eq_cons_iff.1 h
        injection hending with hkind _
        exact ⟨[], [], _, rfl, .nil, fun h => absurd hindex (h w List.mem_cons_self),
          fun _ => ⟨ending, rest, rfl, hkind ▸ endingKind_cases w⟩⟩
      · next hindex =>
        obtain ⟨comma, rest, rfl, hcomma, hrest⟩ := List.map_eq_cons_iff.1 h
        obtain ⟨word, rest, rfl, hword, hrest⟩ := List.map_eq_cons_iff.1 hrest
        injection hcomma with hcomma _
        injection hword with hkind hliteral
        obtain ⟨names, front, rest, rfl, hjoined, hall, hsome⟩ := ih hrest
        refine ⟨word :: names, comma :: word :: front, rest, rfl,
          .cons hcomma (hkind ▸ isWord_wordKind w) hjoined, ?_, ?_⟩
        · intro hwords
          obtain ⟨hend, hnames⟩ := hall fun w' hw' => hwords w' (List.mem_cons_of_mem w hw')
          exact ⟨hend, by simp [hliteral, hnames]⟩
        · rintro ⟨w', hw', hindex'⟩
          rcases List.mem_cons.1 hw' with rfl | hw'
          · exact absurd hindex' hindex
          · exact hsome ⟨w', hw', hindex'⟩

/-! ## Reading the two rows -/

/-- A row that is a label of several fragments and nothing else. -/
theorem Row.read_definition (stop : Token) {first : Token} (hkind : first.kind = .identifier)
    (hcolumn : first.span.start.column = 0) (h : tokens.map spelling = words.flatMap joint) :
    ∃ others, Row.read ⟨first :: tokens, stop⟩ = (some ⟨first, others, none⟩, .command none, []) ∧
      others.map (fun token => token.literal.toList) = words := by
  obtain ⟨others, hread, hothers⟩ := readLabelFragments_joints h
  refine ⟨others, ?_, hothers⟩
  simp [Row.read, readLabel?, readLabel, readBehindLabel, hkind, hcolumn, hread]

theorem readExpr_label {opening first stop closing : Token} {names front : List Token}
    (hopening : opening.kind = .bracketLeft) (hfirst : first.kind.isWord = true)
    (h : Expr.Joined names front) (hcomma : closing.kind ≠ .comma)
    (hblank : closing.kind ≠ .whitespace) (hsign : closing.kind.isBinarySign = false)
    (rest : List Token) :
    readExpr stop false (opening :: first :: (front ++ closing :: rest)) =
      (readKind stop .bracketRight .closingBracket (closing :: rest) >>= fun read =>
        readChain stop nestingLimit false
          (.square opening (.label (first :: names)) read.1) read.2) := by
  have hlabel : Expr.Complete stop true (.label (first :: names)) (first :: front) :=
    Expr.complete_label hfirst h (.inl rfl)
  have hinner : readFrom stop 255 true (first :: (front ++ closing :: rest)) =
      readChain stop 255 true (.label (first :: names)) (closing :: rest) :=
    (hlabel.chain 255 (closing :: rest) (noComma_cons hcomma true rest)).1
      (by simp [Expr.levels])
  have hend : readChain stop 255 true (.label (first :: names)) (closing :: rest) =
      .ok (.label (first :: names), closing :: rest) :=
    readChain_of_end fun token htoken => by
      cases htoken
      exact ⟨hsign, fun _ => hblank⟩
  have hoperand : readOperand stop nestingLimit false
      (opening :: first :: (front ++ closing :: rest)) =
      (readKind stop .bracketRight .closingBracket (closing :: rest) >>= fun read =>
        .ok (.square opening (.label (first :: names)) read.1, read.2)) := by
    show readOperand stop (255 + 1) false _ = _
    rw [readOperand_cons]
    simp only [hopening]
    simp only [readClosed, skipBlanks_cons (ne_of_class rfl hfirst), hinner, hend,
      bind, Except.bind, skipBlanks_cons hblank]
    rfl
  rw [readExpr_eq_readFrom, readFrom, hoperand]
  simp only [bind_assoc]
  rfl

/-- The first argument behind white space, where nothing follows it. -/
theorem readArguments_of_one (stop : Token) {gap first : Token} (others : List Token)
    (hgap : gap.kind = .whitespace) (hfirst : first.kind ≠ .whitespace) :
    (∀ argument, readArgument stop (first :: others) = .ok (argument, []) ->
      readArguments stop true true (gap :: first :: others) = ([argument], none)) ∧
    (∀ error, readArgument stop (first :: others) = .error error ->
      readArguments stop true true (gap :: first :: others) = ([], some error)) := by
  have hskip : skipBlanks (gap :: first :: others) = first :: others := by
    simp [skipBlanks, hgap, hfirst]
  have hseparator :
      readSeparator stop true true (gap :: first :: others) = .ok (first :: others) := by
    simp [readSeparator, hskip, peek, hgap]
  have hnone : readArguments stop true false [] = ([], none) := by
    rw [readArguments]
    simp [skipBlanks]
  refine ⟨?_, ?_⟩
  · intro argument hread
    rw [readArguments]
    simp only [hskip, List.isEmpty_cons, Bool.false_eq_true, if_false]
    grind
  · intro error hread
    rw [readArguments]
    simp only [hskip, List.isEmpty_cons, Bool.false_eq_true, if_false]
    grind

section Reference

variable {blank name gap opening first : Token} (stop : Token) (hblank : blank.kind = .whitespace)
  (hname : name.kind = .identifier) (hgap : gap.kind = .whitespace)
  (hopening : opening.kind = .bracketLeft) (hfirst : first.kind.isWord = true)

include hblank hname hgap

theorem Row.read_arguments (tokens : List Token) :
    Row.read ⟨blank :: name :: gap :: tokens, stop⟩ =
      (none, .command (some (readCommandTail stop (some name) (gap :: tokens)).1),
        (readArguments stop true true (gap :: tokens)).2.toList) ∧
      (readCommandTail stop (some name) (gap :: tokens)).1.name = some name ∧
      (readCommandTail stop (some name) (gap :: tokens)).1.arguments =
        (readArguments stop true true (gap :: tokens)).1 := by
  have hskip : skipBlanks (name :: gap :: tokens) = name :: gap :: tokens :=
    skipBlanks_cons (by simp [hname]) _
  simp [Row.read, readLabel?, readBehindLabel, readContent, readCommandTail, readExtension?,
    extensionErrors, hblank, hname, hgap, hskip]

include hopening hfirst

theorem Row.read_reference {closing : Token} {names front : List Token}
    (h : Expr.Joined names front) (hclosing : closing.kind = .bracketRight) :
    ∃ command, Row.read ⟨blank :: name :: gap :: opening :: first :: (front ++ [closing]), stop⟩ =
        (none, .command (some command), []) ∧
      command.name = some name ∧
      command.arguments =
        [.address (.square opening (.label (first :: names)) closing) none] := by
  have hsign : closing.kind.isBinarySign = false := by simp [hclosing, Token.Kind.isBinarySign]
  have hvalue : readExpr stop false (opening :: first :: (front ++ [closing])) =
      .ok (.square opening (.label (first :: names)) closing, []) := by
    rw [readExpr_label hopening hfirst h (by simp [hclosing]) (by simp [hclosing]) hsign,
      readKind_cons stop .closingBracket [] hclosing]
    exact readChain_of_end (by simp)
  have hargument : readArgument stop (opening :: first :: (front ++ [closing])) =
      .ok (.address (.square opening (.label (first :: names)) closing) none, []) := by
    simp only [readArgument, hopening, hvalue]
    rfl
  have harguments := (readArguments_of_one stop (first :: (front ++ [closing])) hgap
    (by simp [hopening])).1 _ hargument
  obtain ⟨hread, hcommand, hall⟩ := Row.read_arguments stop hblank hname hgap
    (opening :: first :: (front ++ [closing]))
  rw [harguments] at hread hall
  exact ⟨_, hread, hcommand, hall⟩

theorem Row.read_reference_fault {ending : Token} {names front : List Token}
    (h : Expr.Joined names front) (hending : ending.kind = .commaX ∨ ending.kind = .commaY)
    (rest : List Token) :
    ∃ command, Row.read
        ⟨blank :: name :: gap :: opening :: first :: (front ++ ending :: rest), stop⟩ =
      (none, .command (some command), [.unexpectedToken .closingBracket ending]) := by
  have hkinds : ending.kind ≠ .comma ∧ ending.kind ≠ .whitespace ∧ ending.kind ≠ .bracketRight ∧
      ending.kind.isBinarySign = false := by
    rcases hending with h | h <;> simp [h, Token.Kind.isBinarySign]
  obtain ⟨hcomma, hspace, hbracket, hsign⟩ := hkinds
  have hvalue : readExpr stop false (opening :: first :: (front ++ ending :: rest)) =
      .error (.unexpectedToken .closingBracket ending) := by
    rw [readExpr_label hopening hfirst h hcomma hspace hsign]
    simp [readKind, hbracket, unexpected, peek, bind, Except.bind]
  have hargument : readArgument stop (opening :: first :: (front ++ ending :: rest)) =
      .error (.unexpectedToken .closingBracket ending) := by
    simp only [readArgument, hopening, hvalue]
    rfl
  have harguments := (readArguments_of_one stop (first :: (front ++ ending :: rest)) hgap
    (by simp [hopening])).2 _ hargument
  obtain ⟨hread, -, -⟩ := Row.read_arguments stop hblank hname hgap
    (opening :: first :: (front ++ ending :: rest))
  rw [harguments] at hread
  exact ⟨_, hread⟩

end Reference

end Concrete

/-! ## The two texts -/

open Lexeme Concrete

/-- The line that defines a label by its fragments. -/
def definitionText (fragments : List String) : String := ",".intercalate fragments

/-- A line that refers to a label by its fragments. -/
def referenceText (fragments : List String) : String :=
  "  LDA [" ++ ",".intercalate fragments ++ "]"

/-- Words of which the first is a name. -/
def AreFragments : List String -> Prop
  | [] => False
  | f :: fragments => wordKind f.toList = .identifier ∧ ∀ g ∈ f :: fragments, IsWord g.toList

instance (fragments : List String) : Decidable (AreFragments fragments) :=
  match fragments with
  | [] => inferInstanceAs (Decidable False)
  | _ :: _ => inferInstanceAs (Decidable (_ ∧ _))

theorem toList_intercalate (f : String) (fragments : List String) :
    (",".intercalate (f :: fragments)).toList =
      f.toList ++ (fragments.map String.toList).flatMap (',' :: ·) := by
  induction fragments generalizing f with
  | nil => simp
  | cons g fragments ih => simp [ih]

theorem inner_of_spelling {tokens : List Token} {pieces : Spelling}
    (h : tokens.map spelling = pieces) (hpieces : ∀ piece ∈ pieces, Inner piece.1) :
    ∀ token ∈ tokens, Inner token.kind := by
  intro token htoken
  exact hpieces (spelling token) (h ▸ List.mem_map_of_mem htoken)

theorem inner_joints (words : List (List Char)) : ∀ piece ∈ words.flatMap joint, Inner piece.1 := by
  intro piece hpiece
  obtain ⟨w, -, hpiece⟩ := List.mem_flatMap.1 hpiece
  exact inner_of_mem_joint hpiece

theorem isWord_of_spelling {token : Token} {w : List Char} (h : spelling token = (.identifier, w)) :
    token.kind.isWord = true := by
  rw [show token.kind = .identifier from congrArg Prod.fst h]
  rfl

theorem inner_cons {kind : Token.Kind} (hkind : Inner kind) (w : List Char) {pieces : Spelling}
    (h : ∀ piece ∈ pieces, Inner piece.1) : ∀ piece ∈ (kind, w) :: pieces, Inner piece.1 :=
  List.forall_mem_cons.2 ⟨hkind, h⟩

section Texts

variable {f : String} {fragments : List String} (h : AreFragments (f :: fragments))

include h

theorem cutsInto_fragments {more : List Char} (hmore : EndsName more) :
    CutsInto (",".intercalate (f :: fragments)).toList more
      ((.identifier, f.toList) :: (fragments.map String.toList).flatMap joint) := by
  obtain ⟨hkind, hwords⟩ := h
  rw [toList_intercalate, ← hkind]
  refine cutsInto_words ?_ hmore
  rw [← List.map_cons, List.forall_mem_map]
  exact hwords

theorem tokenize_definitionText :
    ∃ first tokens stop, tokenize (definitionText (f :: fragments)) =
        ⟨first :: tokens ++ [stop], [], []⟩ ∧
      stop.kind = .eof ∧ (∀ token ∈ first :: tokens, Inner token.kind) ∧
      spelling first = (.identifier, f.toList) ∧ first.span.start.column = 0 ∧
      tokens.map spelling = (fragments.map String.toList).flatMap joint := by
  have hcuts : CutsInto (definitionText (f :: fragments)).toList []
      ((.identifier, f.toList) :: (fragments.map String.toList).flatMap joint) :=
    cutsInto_fragments h (by simp [EndsName])
  obtain ⟨tokens, htokenize, hspelling, hstart⟩ := tokenize_of_cutsInto hcuts
  have hinner := inner_of_spelling hspelling (inner_cons (by decide) _ (inner_joints _))
  obtain ⟨first, rest, rfl, hfirst, hrest⟩ := List.map_eq_cons_iff.1 hspelling
  exact ⟨first, rest, _, htokenize, rfl, hinner, hfirst, by rw [hstart first rfl]; rfl, hrest⟩

/-- The tokens of a reference: the fragments between brackets, behind the name of an
instruction. -/
theorem tokenize_referenceText :
    ∃ blank name gap opening first tokens closing stop,
      tokenize (referenceText (f :: fragments)) =
        ⟨blank :: name :: gap :: opening :: first :: (tokens ++ [closing]) ++ [stop], [], []⟩ ∧
      stop.kind = .eof ∧
      (∀ token ∈ blank :: name :: gap :: opening :: first :: (tokens ++ [closing]),
        Inner token.kind) ∧
      blank.kind = .whitespace ∧ spelling name = (.identifier, "LDA".toList) ∧
      gap.kind = .whitespace ∧ opening.kind = .bracketLeft ∧
      spelling first = (.identifier, f.toList) ∧ closing.kind = .bracketRight ∧
      tokens.map spelling = (fragments.map String.toList).flatMap joint := by
  have hwritten : CutsInto (referenceText (f :: fragments)).toList []
      ((.whitespace, [' ', ' ']) :: (.identifier, ['L', 'D', 'A']) :: (.whitespace, [' ']) ::
        (.bracketLeft, ['[']) :: (.identifier, f.toList) ::
        ((fragments.map String.toList).flatMap joint ++ [(.bracketRight, [']'])])) := by
    have hclosing : CutsInto [']'] [] [(.bracketRight, [']'])] := cutsInto_of_cut fun _ => rfl
    have hlabel := (cutsInto_fragments h (endsName_cons (by decide) (by decide) [])).append hclosing
    have hopening (more : List Char) : CutsInto ['['] more [(.bracketLeft, ['['])] :=
      cutsInto_of_cut fun _ => rfl
    have hgap (more : List Char) : CutsInto [' '] ('[' :: more) [(.whitespace, [' '])] :=
      cutsInto_of_cut fun _ => rfl
    have hname (more : List Char) : CutsInto ['L', 'D', 'A'] (' ' :: more)
        [(.identifier, ['L', 'D', 'A'])] := by
      have hkind : wordKind ['L', 'D', 'A'] = .identifier := by decide +kernel
      rw [← hkind]
      exact cutsInto_of_form
        (form_word (by decide +kernel) (endsName_cons (by decide) (by decide) more).endsWord)
    have hblank (more : List Char) :
        CutsInto [' ', ' '] ('L' :: more) [(.whitespace, [' ', ' '])] :=
      cutsInto_of_cut fun _ => rfl
    have htext : (referenceText (f :: fragments)).toList = [' ', ' '] ++ (['L', 'D', 'A'] ++
        ([' '] ++ (['['] ++ ((",".intercalate (f :: fragments)).toList ++ [']'])))) := by
      simp [referenceText]
    rw [htext]
    exact (hblank _).append ((hname _).append ((hgap _).append ((hopening _).append hlabel)))
  obtain ⟨all, htokenize, hspelling, -⟩ := tokenize_of_cutsInto hwritten
  have hinner : ∀ token ∈ all, Inner token.kind := by
    refine inner_of_spelling hspelling (inner_cons (by decide) _ (inner_cons (by decide) _
      (inner_cons (by decide) _ (inner_cons (by decide) _ (inner_cons (by decide) _ ?_)))))
    exact List.forall_mem_append.2 ⟨inner_joints _, inner_cons (by decide) _ (by simp)⟩
  obtain ⟨blank, _, rfl, hblank, hspelling⟩ := List.map_eq_cons_iff.1 hspelling
  obtain ⟨name, _, rfl, hname, hspelling⟩ := List.map_eq_cons_iff.1 hspelling
  obtain ⟨gap, _, rfl, hgap, hspelling⟩ := List.map_eq_cons_iff.1 hspelling
  obtain ⟨opening, _, rfl, hopening, hspelling⟩ := List.map_eq_cons_iff.1 hspelling
  obtain ⟨first, _, rfl, hfirst, hspelling⟩ := List.map_eq_cons_iff.1 hspelling
  obtain ⟨tokens, last, rfl, htokens, hlast⟩ := List.map_eq_append_iff.1 hspelling
  obtain ⟨closing, rfl, hclosing⟩ := List.map_eq_singleton_iff.1 hlast
  exact ⟨blank, name, gap, opening, first, tokens, closing, _, htokenize, rfl, hinner,
    congrArg Prod.fst hblank, hname, congrArg Prod.fst hgap, congrArg Prod.fst hopening, hfirst,
    congrArg Prod.fst hclosing, htokens⟩

end Texts

/-! ## The two documents -/

namespace Document

/-- A document that is the definition of a label and nothing else. -/
structure Defines (document : Document) (fragments : List String) (label : DynamicLabel) :
    Prop where
  errors : document.errors = []
  line : ∃ margin, document.file.lines = [.command margin none] ∧
    margin.label = some (.dynamic label)
  names : label.fragments.map Identifier.name = fragments

/-- A document that is one reference to a label and nothing else. -/
structure Refers (document : Document) (fragments : List String) (label : DynamicLabel) :
    Prop where
  errors : document.errors = []
  line : ∃ margin command brackets argument,
    document.file.lines = [.command margin (some command)] ∧
    margin.label = none ∧ command.name.map Identifier.name = some "LDA" ∧
    command.arguments =
      [⟨.address, .brackets .square (.dynamicLabel label) brackets, argument⟩]
  names : label.fragments.map Identifier.name = fragments

end Document

theorem names_toDynamicLabel {first : Token} {others : List Token} {f : String}
    {fragments : List String} (uri : Uri) (hfirst : spelling first = (.identifier, f.toList))
    (hothers : others.map (fun token => token.literal.toList) = fragments.map String.toList) :
    (toDynamicLabel uri (first :: others)).fragments.map Identifier.name = f :: fragments := by
  have hliteral : first.literal = f := String.toList_injective (congrArg Prod.snd hfirst)
  have hliterals : others.map Token.literal = fragments := by
    simpa [Function.comp_def] using congrArg (List.map String.ofList) hothers
  simp [toDynamicLabel, toIdentifier, Function.comp_def, hliteral, hliterals]

section Documents

variable {f g : String} {fragments : List String} (h : AreFragments (f :: g :: fragments))
  (uri : Uri)

include h

theorem exists_defines :
    ∃ label, (Document.ofText (definitionText (f :: g :: fragments)) uri).Defines
      (f :: g :: fragments) label := by
  obtain ⟨first, tokens, stop, htokenize, hstop, hinner, hfirst, hcolumn, htokens⟩ :=
    tokenize_definitionText h
  obtain ⟨others, hread, hothers⟩ :=
    Row.read_definition stop (congrArg Prod.fst hfirst) hcolumn htokens
  obtain ⟨⟨margin, hlines, hlabel⟩, herrors⟩ :=
    Document.ofText_of_row htokenize (by simp) hinner hstop hread uri
  refine ⟨toDynamicLabel uri (first :: others), herrors, ⟨margin, hlines, ?_⟩,
    names_toDynamicLabel uri hfirst hothers⟩
  cases others with
  | nil => cases hothers
  | cons second others => exact hlabel

/-- Without index registers behind commas a label can be referred to. -/
theorem exists_refers (hindex : ∀ name ∈ g :: fragments, ¬ IsIndexName name.toList) :
    ∃ label, (Document.ofText (referenceText (f :: g :: fragments)) uri).Refers
      (f :: g :: fragments) label := by
  obtain ⟨blank, name, gap, opening, first, tokens, closing, stop, htokenize, hstop, hinner, hblank,
    hname, hgap, hopening, hfirst, hclosing, htokens⟩ := tokenize_referenceText h
  obtain ⟨names, front, rest, rfl, hjoined, hall, -⟩ := joined_of_joints htokens
  obtain ⟨rfl, hnames⟩ := hall (List.forall_mem_map.2 hindex)
  rw [List.append_nil] at htokenize hinner
  obtain ⟨command, hread, hcommand, harguments⟩ := Row.read_reference stop hblank
    (congrArg Prod.fst hname) hgap hopening (isWord_of_spelling hfirst) hjoined hclosing
  obtain ⟨⟨margin, hlines, hlabel⟩, herrors⟩ :=
    Document.ofText_of_row htokenize (by simp) hinner hstop hread uri
  have hmnemonic : name.literal = "LDA" := String.toList_injective (congrArg Prod.snd hname)
  have hargument : (command.lower uri).arguments =
      [⟨.address, .brackets .square (.dynamicLabel (toDynamicLabel uri (first :: names)))
          ⟨uri, opening.span.union closing.span⟩,
        ⟨uri, (Concrete.Argument.address
          (.square opening (.label (first :: names)) closing) none).span⟩⟩] := by
    cases names with
    | nil => cases hnames
    | cons second names =>
        rw [Concrete.Command.lower, harguments]
        rfl
  refine ⟨toDynamicLabel uri (first :: names), herrors,
    ⟨margin, command.lower uri, _, _, hlines, hlabel, ?_, hargument⟩,
    names_toDynamicLabel uri hfirst hnames⟩
  simp [Concrete.Command.lower, hcommand, toIdentifier, hmnemonic]

theorem errors_of_index (hindex : ∃ name ∈ g :: fragments, IsIndexName name.toList) :
    ∃ ending, (ending.kind = .commaX ∨ ending.kind = .commaY) ∧
      (Document.ofText (referenceText (f :: g :: fragments)) uri).errors =
        [.parse (.unexpectedToken .closingBracket ending)] := by
  obtain ⟨blank, name, gap, opening, first, tokens, closing, stop, htokenize, hstop, hinner, hblank,
    hname, hgap, hopening, hfirst, -, htokens⟩ := tokenize_referenceText h
  obtain ⟨names, front, rest, rfl, hjoined, -, hsome⟩ := joined_of_joints htokens
  obtain ⟨w, hw, hindex⟩ := hindex
  obtain ⟨ending, tail, rfl, hending⟩ := hsome ⟨_, List.mem_map_of_mem hw, hindex⟩
  rw [List.append_assoc, List.cons_append] at htokenize hinner
  obtain ⟨command, hread⟩ := Row.read_reference_fault stop hblank (congrArg Prod.fst hname) hgap
    hopening (isWord_of_spelling hfirst) hjoined hending (tail ++ [closing])
  obtain ⟨-, herrors⟩ := Document.ofText_of_row htokenize (by simp) hinner hstop hread uri
  exact ⟨ending, hending, herrors⟩

end Documents

/-! ## The fragments of a label that is defined -/

theorem isWord_of_isIndexName {w : List Char} (h : IsIndexName w) : IsWord w := by
  have hletter {letter : Char} (hletter : letter.isAlpha = true) (hw : capitals w = [letter]) :
      IsWord w := by
    obtain ⟨c, rest, rfl, hc, hrest⟩ := List.map_eq_cons_iff.1 hw
    obtain rfl := List.map_eq_nil_iff.1 hrest
    have halpha : c.isAlpha = true := by
      rcases toUpper_cases c with hsame | ⟨halpha, -⟩
      · rw [← hsame, hc, hletter]
      · exact halpha
    have hdot : c ≠ '.' := by
      rintro rfl
      cases halpha
    rw [IsWord, if_neg hdot]
    exact ⟨⟨isWordChar_of_isAlpha halpha, isDigit_of_isAlpha halpha⟩, rfl⟩
  rcases h with h | h
  · exact hletter rfl h
  · exact hletter rfl h

namespace Concrete

def IsFragmentToken (token : Token) : Prop :=
  token.kind.isWord = true ∨ token.kind = .commaX ∨ token.kind = .commaY

theorem readLabelFragments_words (tokens : List Token) :
    ∀ fragment ∈ (readLabelFragments tokens).1,
      ∃ token ∈ tokens, IsFragmentToken token ∧ fragment = asFragment token := by
  have hending {ending : Token} (h : ending.kind = .commaX ∨ ending.kind = .commaY) :
      IsFragmentToken ending ∧ endingFragment ending = asFragment ending :=
    ⟨.inr h, by rw [asFragment, if_pos h]⟩
  fun_induction readLabelFragments tokens with
  | case1 => simp
  | case2 ending h => simpa using hending h
  | case3 => simp
  | case4 first second rest h fragments after heq ih =>
      rw [heq] at ih
      refine List.forall_mem_cons.2 ⟨⟨first, List.mem_cons_self, hending h⟩,
        fun fragment hmem => ?_⟩
      obtain ⟨token, htoken, hfragment⟩ := ih fragment hmem
      exact ⟨token, List.mem_cons_of_mem first htoken, hfragment⟩
  | case5 first second rest _ h fragments after heq ih =>
      rw [heq] at ih
      refine List.forall_mem_cons.2 ⟨⟨second, by simp, .inl h.2, (asFragment_of_isWord h.2).symm⟩,
        fun fragment hmem => ?_⟩
      obtain ⟨token, htoken, hfragment⟩ := ih fragment hmem
      exact ⟨token, by simp [htoken], hfragment⟩
  | case6 => simp

theorem readLabel_words {first : Token} {tokens : List Token}
    (h : (readLabel first tokens).1.others ≠ []) :
    (readLabel first tokens).1.first.kind = .identifier ∧
      ∀ fragment ∈ (readLabel first tokens).1.others,
        ∃ token ∈ tokens, IsFragmentToken token ∧ fragment = asFragment token := by
  have hlabel : (readLabel first tokens).1.first = first ∧ (readLabel first tokens).1.others =
      (if first.kind = .identifier then readLabelFragments tokens else ([], tokens)).1 := by
    unfold readLabel
    dsimp only
    split
    · exact ⟨rfl, rfl⟩
    · split <;> exact ⟨rfl, rfl⟩
  rw [hlabel.2] at h ⊢
  rw [hlabel.1]
  by_cases hkind : first.kind = .identifier
  · rw [if_pos hkind]
    exact ⟨hkind, readLabelFragments_words tokens⟩
  · rw [if_neg hkind] at h
    exact absurd rfl h

/-- A label of several fragments starts with a name and goes on with words and index endings. -/
theorem readLabel?_words {tokens : List Token} {label : Label}
    (h : (readLabel? tokens).1 = some label) (hothers : label.others ≠ []) :
    label.first.kind = .identifier ∧ ∀ fragment ∈ label.others,
      ∃ token ∈ tokens, IsFragmentToken token ∧ fragment = asFragment token := by
  have hmono {first : Token} {rest : List Token} (hsub : rest ⊆ tokens)
      (hlabel : (readLabel first rest).1 = label) :
      label.first.kind = .identifier ∧ ∀ fragment ∈ label.others,
        ∃ token ∈ tokens, IsFragmentToken token ∧ fragment = asFragment token := by
    subst hlabel
    obtain ⟨hkind, hall⟩ := readLabel_words hothers
    refine ⟨hkind, fun fragment hmem => ?_⟩
    obtain ⟨token, htoken, hfragment⟩ := hall fragment hmem
    exact ⟨token, hsub htoken, hfragment⟩
  unfold readLabel? at h
  split at h
  · cases h
  · next first rest =>
    split at h
    · exact hmono (List.subset_cons_self first rest) (Option.some.inj h)
    · split at h
      · split at h
        · next name colon tail _ =>
          split at h
          · refine hmono ?_ (Option.some.inj h)
            intro token htoken
            exact List.mem_cons_of_mem _ (List.mem_cons_of_mem _ htoken)
          · cases h
        · cases h
      · cases h

end Concrete

variable {label : DynamicLabel}

theorem isWord_asFragment {text : String} {token : Token} (htoken : token ∈ (tokenize text).tokens)
    (h : IsFragmentToken token) : IsWord (asFragment token).literal.toList := by
  obtain ⟨hword, hending⟩ := tokenize_worded text token htoken
  rcases h with h | h
  · rw [asFragment_of_isWord h]
    exact (hword h).1
  · obtain ⟨w, hw, hindex⟩ := hending h
    rw [asFragment, if_pos h]
    simpa [endingFragment, hw] using isWord_of_isIndexName hindex

theorem Row.read_of_mem_parts {row : Row} {label : Concrete.Label} (h : .label label ∈ row.parts) :
    (readLabel? row.tokens).1 = some label := by
  rcases List.mem_append.1 h with h | h
  · obtain ⟨read, hread, heq⟩ := List.mem_map.1 h
    cases heq
    exact Option.mem_toList.1 hread
  · -- What stands behind the label of a row holds values only.
    unfold Content.parts at h
    split at h <;> simp [Concrete.Command.parts, valueParts] at h

theorem Document.Defines.areFragments {text : String} {uri : Uri} {fragments : List String}
    (h : (ofText text uri).Defines fragments label) : AreFragments fragments := by
  obtain ⟨-, ⟨margin, hlines, hlabel⟩, hnames⟩ := h
  have hline : Line.command margin none ∈ Line.walkAll (ofText text uri).file.lines := by
    rw [hlines]
    exact List.mem_singleton_self _
  obtain ⟨c, hc, heq⟩ := (shows_of_mem_walkAll text uri hline).label (.dynamic label) hlabel
  obtain ⟨row, hrow, hpart⟩ := Concrete.exists_row_of_mem_parts hc
  have hread := Row.read_of_mem_parts hpart
  have hsub := rows_sublist (tokenize text).tokens row hrow
  have hothers : c.others ≠ [] := by
    intro hnil
    rw [toLabel, hnil] at heq
    cases heq
  have hdynamic : label = toDynamicLabel uri c.fragments := by
    unfold toLabel at heq
    split at heq
    · cases heq
    · exact Asm6502.Label.dynamic.inj heq
  obtain ⟨hkind, hall⟩ := readLabel?_words hread hothers
  have hfirst : c.first ∈ (tokenize text).tokens := by
    obtain ⟨taken, htaken, -⟩ := ((readLabel?_spec row.tokens).1 c hread).others
    exact hsub.subset (htaken.subset List.mem_cons_self)
  have hliterals : fragments = c.first.literal :: c.others.map Token.literal := by
    rw [← hnames, hdynamic]
    simp [toDynamicLabel, toIdentifier, Concrete.Label.fragments, Function.comp_def]
  obtain ⟨hword, -⟩ := tokenize_worded text c.first hfirst
  obtain ⟨hisWord, hwordKind⟩ := hword (by rw [hkind]; rfl)
  rw [hliterals]
  refine ⟨by rw [← hwordKind, hkind], List.forall_mem_cons.2 ⟨hisWord, ?_⟩⟩
  rw [List.forall_mem_map]
  intro fragment hmem
  obtain ⟨token, htoken, hfragment, rfl⟩ := hall fragment hmem
  exact isWord_asFragment (hsub.subset htoken) hfragment

/-! ## One label -/

theorem mentions_definition {margin : Margin} (h : margin.label = some (.dynamic label)) :
    (Line.command margin none).mentions =
      [.labelDefinition label.key true .address none label.location] := by
  simp [Line.mentions, Line.command?, Line.label, Line.margin, Line.contentMentions, h,
    Asm6502.Label.mentions, DefinitionKind.ofDirective]

theorem mentions_reference {margin : Margin} {command : Command} {brackets argument : Location}
    (hlabel : margin.label = none) (hname : command.name.map Identifier.name = some "LDA")
    (harguments : command.arguments =
      [⟨.address, .brackets .square (.dynamicLabel label) brackets, argument⟩]) :
    (Line.command margin (some command)).mentions = [.labelUse label.key true label.location] := by
  obtain ⟨name, hcommand, hload⟩ := Option.map_eq_some_iff.1 hname
  have hdirective : command.directive? = none := by
    rw [Command.directive?, hcommand, Option.bind_some, hload]
    decide +kernel
  have hmnemonic : command.mnemonic? = some .lda := by
    rw [Command.mnemonic?, hcommand, Option.bind_some, hload]
    decide +kernel
  have hcontent : command.mentions = [.labelUse label.key true label.location] := by
    simp [Command.mentions, Command.relocationMentions, Command.macroMentions,
      Command.argumentMentions, hdirective, hmnemonic, harguments, Command.takesAccumulator,
      Expr.isAccumulator, Expr.mentions_brackets, Expr.mentions_dynamicLabel]
  simp [Line.mentions, Line.command?, Line.label, Line.margin, Line.contentMentions, hlabel,
    hdirective, hcontent]

theorem Symbols.labels_of_definition_use (config : Config) (key : String) (place use : Location) :
    (Symbols.add config (Symbols.add config .start
      (.labelDefinition key true .address none place)) (.labelUse key true use)).labels =
      [(key, (LabelSymbol.unknown.define true .address none place).use true use)] := by
  cases hlocal : config.isLocal key <;>
    simp [Symbols.add, Symbols.updateLabel, Symbols.scopeOf, Symbols.start, Symbols.labels, hlocal,
      Table.update, Table.updateIn, Table.empty]

theorem labels_of_defines_refers {definition reference : Document} {fragments : List String}
    {defined used : DynamicLabel} (hdefines : definition.Defines fragments defined)
    (hrefers : reference.Refers fragments used) (config : Config) :
    ∃ symbol, (Symbols.ofLines config (definition.file.lines ++ reference.file.lines)).labels =
        [(",".intercalate fragments, symbol)] ∧
      symbol.definitions = [defined.location] ∧ symbol.usages = [used.location] := by
  obtain ⟨-, ⟨margin, hlines, hlabel⟩, hnames⟩ := hdefines
  obtain ⟨-, ⟨margin', command, brackets, place, hlines', hlabel', hname, harguments⟩, hnames'⟩ :=
    hrefers
  have hkey : defined.key = ",".intercalate fragments := by rw [DynamicLabel.key, hnames]
  have hkey' : used.key = ",".intercalate fragments := by rw [DynamicLabel.key, hnames']
  rw [hlines, hlines', Symbols.ofLines]
  simp only [List.cons_append, List.nil_append, List.foldl_cons, List.foldl_nil, Symbols.addLine,
    mentions_definition hlabel, mentions_reference hlabel' hname harguments, hkey, hkey',
    Symbols.labels_of_definition_use]
  exact ⟨_, rfl, rfl, rfl⟩

theorem isIndexName_iff (name : String) :
    IsIndexName name.toList ↔ upcase name = "X" ∨ upcase name = "Y" := by
  simp only [IsIndexName, ← toList_upcase, ← String.toList_inj]
  rfl

/-- What can be defined can be referred to if no fragment behind the first names an index register,
and then both are one label.  Otherwise the reference has one fault. -/
theorem exists_refers_iff_of_defines (uri other : Uri) (fragments : List String)
    (hlength : 2 ≤ fragments.length)
    (hdefines : ∃ label, (Document.ofText (definitionText fragments) uri).Defines fragments label) :
    ((∃ label, (Document.ofText (referenceText fragments) other).Refers fragments label) ↔
      ∀ name ∈ fragments.tail, upcase name ≠ "X" ∧ upcase name ≠ "Y") ∧
    (∀ defined used, (Document.ofText (definitionText fragments) uri).Defines fragments defined ->
      (Document.ofText (referenceText fragments) other).Refers fragments used ->
      ∀ config, ∃ symbol,
        (Symbols.ofLines config ((Document.ofText (definitionText fragments) uri).file.lines ++
          (Document.ofText (referenceText fragments) other).file.lines)).labels =
            [(",".intercalate fragments, symbol)] ∧
          symbol.definitions = [defined.location] ∧ symbol.usages = [used.location]) ∧
    ((∃ name ∈ fragments.tail, upcase name = "X" ∨ upcase name = "Y") ->
      ∃ ending, (ending.kind = .commaX ∨ ending.kind = .commaY) ∧
        (Document.ofText (referenceText fragments) other).errors =
          [.parse (.unexpectedToken .closingBracket ending)]) := by
  obtain ⟨label, hdefines⟩ := hdefines
  have hfragments := hdefines.areFragments
  cases fragments with
  | nil => cases hfragments
  | cons f rest =>
    cases rest with
    | nil => exact absurd hlength (by simp)
    | cons g rest =>
      have hfault := errors_of_index hfragments other
      simp only [List.tail_cons, ← not_or, ← isIndexName_iff]
      refine ⟨⟨?_, exists_refers hfragments other⟩, ?_, hfault⟩
      · rintro ⟨used, hrefers⟩ name hname hindex
        obtain ⟨ending, -, herrors⟩ := hfault ⟨name, hname, hindex⟩
        rw [hrefers.errors] at herrors
        cases herrors
      · intro defined used hdefined hrefers config
        exact labels_of_defines_refers hdefined hrefers config

/-- The second fragment is a keyword, and the third one starts like the name of a register. -/
theorem exists_refers_iff_of_defines_keyword :
    (∃ label, (Document.ofText (definitionText ["x", "if", "X_1"]) default).Defines
      ["x", "if", "X_1"] label) ∧
    ∃ label, (Document.ofText (referenceText ["x", "if", "X_1"]) default).Refers
      ["x", "if", "X_1"] label := by
  have hfragments : AreFragments ["x", "if", "X_1"] := by decide +kernel
  have hdefines := exists_defines hfragments default
  refine ⟨hdefines, ?_⟩
  exact (exists_refers_iff_of_defines default default ["x", "if", "X_1"] (by decide) hdefines).1.2
    (by decide +kernel)

/-- A label that can be defined and not referred to. -/
theorem not_exists_refers_of_index :
    (∃ label, (Document.ofText (definitionText ["n", "X"]) default).Defines ["n", "X"] label) ∧
    ¬ ∃ label, (Document.ofText (referenceText ["n", "X"]) default).Refers ["n", "X"] label := by
  have hfragments : AreFragments ["n", "X"] := by decide +kernel
  refine ⟨exists_defines hfragments default, ?_⟩
  rintro ⟨label, hrefers⟩
  obtain ⟨ending, -, herrors⟩ := errors_of_index hfragments default
    ⟨"X", List.mem_singleton_self _, by decide +kernel⟩
  rw [hrefers.errors] at herrors
  cases herrors

end Asm6502
