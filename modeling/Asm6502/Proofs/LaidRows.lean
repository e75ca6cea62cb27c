import Asm6502.Proofs.LaidTokens

/-!
# Rows laid out in another way

A label, the arguments of a command and the content of a row are reworded and nothing else when the
tokens of the row are laid out in another way.  The two rows must have their label in sight alike: a
label that does not start its row is looked for behind exactly one blank.
-/

namespace Asm6502

namespace Concrete

/-! ## Labels behind a blank -/

def labelInFront? : List Token -> Option (Token × List Token)
  | name :: colon :: rest =>
      if name.kind = .identifier ∧ colon.kind = .colon then some (name, colon :: rest) else none
  | _ => none

theorem labelInFront?_eq_some_iff {tokens behind : List Token} {name : Token} :
    labelInFront? tokens = some (name, behind) ↔
      ∃ colon rest, tokens = name :: colon :: rest ∧ behind = colon :: rest ∧
        name.kind = .identifier ∧ colon.kind = .colon := by
  unfold labelInFront?
  split
  · split <;> grind
  · grind

theorem readLabel?_blank {blank : Token} (h : blank.kind = .whitespace) (rest : List Token) :
    readLabel? (blank :: rest) =
      match labelInFront? rest with
      | some (name, behind) => (some (readLabel name behind).1, (readLabel name behind).2)
      | none => (none, blank :: rest) := by
  simp only [readLabel?, h, reduceCtorEq, or_self, false_and, if_false, if_true]
  rcases rest with _ | ⟨name, _ | ⟨colon, tail⟩⟩
  · rfl
  · rfl
  · by_cases hlabel : name.kind = .identifier ∧ colon.kind = .colon
    · simp [labelInFront?, hlabel]
    · simp only [labelInFront?, hlabel, if_false]

/-- A label stands behind the blank that starts a row. -/
def showsLabel : List Token -> Bool
  | [] => false
  | first :: rest => first.kind == .whitespace && (labelInFront? rest).isSome

theorem readLabelFragments_none {tokens : List Token}
    (hending : ∀ first ∈ tokens.head?, ¬ (first.kind = .commaX ∨ first.kind = .commaY))
    (hjoins : ∀ comma word rest, tokens = comma :: word :: rest ->
      ¬ (comma.kind = .comma ∧ word.kind.isWord = true)) :
    readLabelFragments tokens = ([], tokens) := by
  unfold readLabelFragments
  split
  · rfl
  · rw [if_neg (hending _ rfl)]
  · rw [if_neg (hending _ rfl), if_neg (hjoins _ _ _ rfl)]

theorem readArguments_eq (stop : Token) (afterName isFirst : Bool) (tokens : List Token) :
    readArguments stop afterName isFirst tokens =
      if (skipBlanks tokens).isEmpty then ([], none)
      else
        match readSeparator stop afterName isFirst tokens with
        | .error error => ([], some error)
        | .ok start =>
            match readArgument stop start with
            | .error error => ([], some error)
            | .ok (argument, rest) =>
                (argument :: (readArguments stop afterName false rest).1,
                  (readArguments stop afterName false rest).2) := by
  rw [readArguments]
  split
  · rfl
  · split
    · next hseparator => rw [hseparator]
    · next hseparator =>
        simp only [hseparator]
        split
        · next hargument => simp only [hargument]
        · next hargument => simp only [hargument]

theorem kind_of_readExtension? {name ext : Token} {tokens : List Token}
    (h : (readExtension? name tokens).1 = some ext) : ext.kind = .identifier := by
  unfold readExtension? at h
  split at h
  · cases h
  · split at h
    next hext =>
      cases h
      exact hext.1
    next => cases h

namespace Layout

variable {w : Layout}

namespace Laid

variable {l l' : List Token}

theorem readLabelFragments (h : w.Laid l l') :
    (readLabelFragments l').1 = (readLabelFragments l).1.map w.token ∧
      w.Laid (readLabelFragments l).2 (readLabelFragments l').2 := by
  -- Where no fragment follows, none follows on the other side.
  have hnone {l l' : List Token} (h : w.Laid l l')
      (hending : ∀ first ∈ l.head?, ¬ (first.kind = .commaX ∨ first.kind = .commaY))
      (hjoins : ∀ comma word rest, l = comma :: word :: rest ->
        ¬ (comma.kind = .comma ∧ word.kind.isWord = true)) :
      Concrete.readLabelFragments l' = ([], l') := by
    refine readLabelFragments_none (fun first hfirst hkind => ?_)
      fun comma word rest hl' hjoined => ?_
    · obtain ⟨rest', rfl⟩ := List.head?_eq_some_iff.1 hfirst
      obtain ⟨t, rest, rfl, rfl, -⟩ := h.of_cons (by rcases hkind with h | h <;> simp [h])
      rw [w.kind_token] at hkind
      exact hending t rfl hkind
    · subst hl'
      obtain ⟨comma, word, rest, hl, hjoined⟩ := h.of_joined hjoined
      exact hjoins comma word rest hl hjoined
  fun_induction Concrete.readLabelFragments l generalizing l' with
  | case1 =>
      cases h
      exact ⟨rfl, .nil⟩
  | case2 ending hending =>
      obtain _ | ⟨-, ⟨⟩⟩ | ⟨hb, -⟩ := h
      · rw [readLabelFragments_ending (by rwa [w.kind_token]), w.fragment_token ending hending]
        exact ⟨rfl, .nil⟩
      · simp [hb] at hending
  | case3 ending hending =>
      rw [hnone h (by simpa using hending) (by simp)]
      exact ⟨rfl, h⟩
  | case4 first second rest hending fragments after heq ih =>
      obtain _ | ⟨-, h⟩ | ⟨hb, -⟩ := h
      · rw [heq] at ih
        obtain ⟨hfragments, hafter⟩ := ih h
        rw [readLabelFragments_ending (by rwa [w.kind_token]), w.fragment_token first hending]
        exact ⟨by simp [hfragments], hafter⟩
      · simp [hb] at hending
  | case5 first second rest hending hjoins fragments after heq ih =>
      obtain _ | ⟨-, _ | ⟨-, h⟩ | ⟨hb, -⟩⟩ | ⟨hb, -⟩ := h
      · rw [heq] at ih
        obtain ⟨hfragments, hafter⟩ := ih h
        rw [readLabelFragments_word (by rw [w.kind_token, hjoins.1])
          (by rw [w.kind_token, hjoins.2])]
        exact ⟨by simp [hfragments], hafter⟩
      · exact absurd hb (ne_of_class rfl hjoins.2)
      · simp [hb] at hjoins
  | case6 first second rest hending hjoins =>
      rw [hnone h (by simpa using hending) (by rintro _ _ _ ⟨⟩; exact hjoins)]
      exact ⟨rfl, h⟩

theorem readLabel (h : w.Laid l l') (first : Token) :
    (readLabel (w.token first) l').1 = w.label (readLabel first l).1 ∧
      w.Laid (readLabel first l).2 (readLabel (w.token first) l').2 := by
  have hfragments :
      (if first.kind = .identifier then Concrete.readLabelFragments l' else ([], l')).1 =
          (if first.kind = .identifier then Concrete.readLabelFragments l else ([], l)).1.map
            w.token ∧
        w.Laid (if first.kind = .identifier then Concrete.readLabelFragments l else ([], l)).2
          (if first.kind = .identifier then Concrete.readLabelFragments l' else ([], l')).2 := by
    split
    · exact h.readLabelFragments
    · exact ⟨rfl, h⟩
  unfold Concrete.readLabel
  rw [w.kind_token]
  generalize (if first.kind = .identifier then Concrete.readLabelFragments l else ([], l)) = read
    at hfragments ⊢
  generalize (if first.kind = .identifier then Concrete.readLabelFragments l' else ([], l')) = read'
    at hfragments ⊢
  obtain ⟨others, behind⟩ := read
  obtain ⟨others', behind'⟩ := read'
  obtain ⟨rfl, hbehind⟩ := hfragments
  have hsame := hbehind
  simp only at hbehind ⊢
  cases hbehind with
  | nil => exact ⟨rfl, .nil⟩
  | solid _ h =>
      simp only [w.kind_token]
      split
      · exact ⟨rfl, h⟩
      · exact ⟨rfl, hsame⟩
  | blank hb hb' =>
      simp only [hb, hb', reduceCtorEq, if_false]
      exact ⟨rfl, hsame⟩

theorem of_labelInFront? {rest rest' : List Token} (h : w.Laid (skipBlanks rest) (skipBlanks rest'))
    (hlabel : (labelInFront? rest).isSome = true) (hlabel' : (labelInFront? rest').isSome = true) :
    ∃ name behind behind', labelInFront? rest = some (name, behind) ∧
      labelInFront? rest' = some (w.token name, behind') ∧ w.Laid behind behind' := by
  obtain ⟨⟨name, behind⟩, hfront⟩ := Option.isSome_iff_exists.1 hlabel
  obtain ⟨⟨name', behind'⟩, hfront'⟩ := Option.isSome_iff_exists.1 hlabel'
  obtain ⟨colon, tail, rfl, rfl, hname, -⟩ := labelInFront?_eq_some_iff.1 hfront
  obtain ⟨colon', tail', rfl, rfl, hname', -⟩ := labelInFront?_eq_some_iff.1 hfront'
  rw [skipBlanks_cons (by simp [hname]), skipBlanks_cons (by simp [hname'])] at h
  obtain ⟨t, behind, hsplit, rfl, hbehind⟩ := h.of_cons (by simp [hname'])
  cases hsplit
  exact ⟨name, _, _, hfront, hfront', hbehind⟩

theorem readLabel? (h : w.Laid l l') (hshown : showsLabel l' = showsLabel l) :
    (readLabel? l').1 = (readLabel? l).1.map w.label ∧
      w.Laid (readLabel? l).2 (readLabel? l').2 := by
  have hsame := h
  cases h with
  | nil => exact ⟨rfl, .nil⟩
  | @solid t rest rest' ht h =>
      simp only [Concrete.readLabel?, w.kind_token, w.start_token, ht, if_false]
      split
      · obtain ⟨hlabel, hbehind⟩ := h.readLabel t
        simp only [hlabel]
        exact ⟨rfl, hbehind⟩
      · exact ⟨rfl, hsame⟩
  | @blank b b' rest rest' hb hb' _ _ h =>
      simp only [showsLabel, hb, hb', beq_self_eq_true, Bool.true_and] at hshown
      rw [readLabel?_blank hb, readLabel?_blank hb']
      cases hlabel : (labelInFront? rest).isSome with
      | true =>
          obtain ⟨name, behind, behind', hfront, hfront', hbehind⟩ :=
            h.of_labelInFront? hlabel (hshown.trans hlabel)
          obtain ⟨hname, hafter⟩ := hbehind.readLabel name
          simp only [hfront, hfront', hname]
          exact ⟨rfl, hafter⟩
      | false =>
          rw [hlabel] at hshown
          rw [Option.isSome_eq_false_iff, Option.isNone_iff_eq_none] at hlabel hshown
          rw [hlabel, hshown]
          exact ⟨rfl, hsame⟩

/-! ## Arguments -/

theorem readAddressEnding (h : w.Laid l l') (value : Expr) :
    w.Agree w.argument (.ok (readAddressEnding value l))
      (.ok (readAddressEnding (w.expr value) l')) := by
  have hok : w.Agree w.argument _ _ := .ok (Argument.address value none) h
  cases h with
  | nil => exact hok
  | blank hb hb' =>
      simp only [Concrete.readAddressEnding, hb, hb', reduceCtorEq, or_self, if_false]
      exact hok
  | @solid ending _ _ _ h =>
      simp only [Concrete.readAddressEnding, w.kind_token]
      split
      · exact .ok (Argument.address value (some ending)) h
      · exact hok

theorem readIndirect (h : w.Laid l l') (stop opening : Token) :
    w.Agree w.argument (readIndirect stop opening l)
      (readIndirect (w.token stop) (w.token opening) l') := by
  refine (h.skip.readExpr stop true).bind fun value _ _ hrest => ?_
  have herror := hrest.skip.unexpected stop .indirectEnding
  simp only
  obtain ⟨hl, hl'⟩ | ⟨closing, rest, rest', -, hl, hl', hrest⟩ := hrest.skip_cases
  · rw [hl, hl'] at herror ⊢
    exact .error herror
  · rw [hl, hl'] at herror ⊢
    simp only [w.kind_token, hrest.kind_peek]
    split
    · split
      · have hchain := (w.reads stop nestingLimit).chain false (.round opening value closing) hrest
        exact hchain.bind fun address _ _ hrest => hrest.readAddressEnding address
      · exact .ok (Argument.indirect opening value closing) hrest
    split
    · exact .ok (Argument.indirect opening value closing) hrest
    · exact .error herror

theorem readArgument (h : w.Laid l l') (stop : Token) :
    w.Agree w.argument (readArgument stop l) (readArgument (w.token stop) l') := by
  have haddress : w.Agree w.argument
      (Concrete.readExpr stop false l >>= fun read =>
        Except.ok (Concrete.readAddressEnding read.1 read.2))
      (Concrete.readExpr (w.token stop) false l' >>= fun read =>
        Except.ok (Concrete.readAddressEnding read.1 read.2)) :=
    (h.readExpr stop false).bind fun value _ _ hrest => hrest.readAddressEnding value
  cases h with
  | nil => exact haddress
  | blank hb hb' =>
      simp only [Concrete.readArgument, hb, hb', reduceCtorEq, if_false]
      exact haddress
  | @solid first _ _ _ hrest =>
      simp only [Concrete.readArgument, w.kind_token]
      split
      · exact (hrest.readExpr stop false).bind fun value _ _ hrest =>
          .ok (Argument.immediate first value) hrest
      split
      · exact hrest.readIndirect stop first
      · exact haddress

end Laid

variable (w) in
inductive Passes : Except ParseError (List Token) -> Except ParseError (List Token) -> Prop where
  | error {e e' : ParseError} (h : w.ErrorLike e e') : Passes (.error e) (.error e')
  | ok {rest rest' : List Token} (h : w.Laid rest rest') : Passes (.ok rest) (.ok rest')

namespace Laid

variable {l l' : List Token}

theorem readSeparator (h : w.Laid l l') (stop : Token) (afterName isFirst : Bool) :
    w.Passes (readSeparator stop afterName isFirst l)
      (readSeparator (w.token stop) afterName isFirst l') := by
  have herror := h.skip.unexpected stop .argumentSeparator
  have hok : w.Passes _ _ := .ok h.skip
  simp only [Concrete.readSeparator, h.kind_peek]
  split
  · obtain ⟨hl, hl'⟩ | ⟨first, rest, rest', -, hl, hl', hrest⟩ := h.skip_cases
    · rw [hl, hl']
      exact .ok .nil
    · rw [hl, hl'] at herror hok ⊢
      simp only [w.kind_token, hrest.skip.isEmpty]
      split
      · split
        · exact .error (Laid.nil.unexpected stop .argument)
        · exact .ok hrest.skip
      split
      · exact .error herror
      · exact hok
  · exact hok

theorem readArguments (h : w.Laid l l') (stop : Token) (afterName isFirst : Bool) :
    (readArguments (w.token stop) afterName isFirst l').1 =
        (readArguments stop afterName isFirst l).1.map w.argument ∧
      List.Forall₂ w.ErrorLike (readArguments stop afterName isFirst l).2.toList
        (readArguments (w.token stop) afterName isFirst l').2.toList := by
  -- Each argument takes at least one token, so the tokens behind it are fewer.
  induction hlength : l.length using Nat.strongRecOn generalizing isFirst l l' with
  | ind n ih =>
    have hpasses := h.readSeparator stop afterName isFirst
    rw [readArguments_eq, readArguments_eq, h.skip.isEmpty]
    split
    · exact ⟨rfl, .nil⟩
    generalize hseparator : Concrete.readSeparator stop afterName isFirst l = read at hpasses ⊢
    generalize Concrete.readSeparator (w.token stop) afterName isFirst l' = read' at hpasses ⊢
    cases hpasses with
    | error herror => exact ⟨rfl, .cons herror .nil⟩
    | @ok start start' hstart =>
        have hagree := hstart.readArgument stop
        simp only
        generalize hargument : Concrete.readArgument stop start = read at hagree ⊢
        generalize Concrete.readArgument (w.token stop) start' = read' at hagree ⊢
        cases hagree with
        | error herror => exact ⟨rfl, .cons herror .nil⟩
        | ok argument hrest =>
            have hfewer := length_readArgument_lt hargument
            have hstarts := length_readSeparator_le hseparator
            obtain ⟨harguments, herrors⟩ := ih _ (by omega) hrest false rfl
            exact ⟨by simp [harguments], herrors⟩

/-! ## Commands -/

theorem readExtension? (h : w.Laid l l') {name : Token} (hname : name.kind ≠ .newline) :
    (readExtension? (w.token name) l').1 = (readExtension? name l).1.map w.token ∧
      w.Laid (readExtension? name l).2 (readExtension? (w.token name) l').2 := by
  have hsame := h
  cases h with
  | nil => exact ⟨rfl, .nil⟩
  | blank hb hb' =>
      simp only [Concrete.readExtension?, hb, hb', reduceCtorEq, false_and, if_false]
      exact ⟨rfl, hsame⟩
  | @solid ext _ _ _ h =>
      have hext : ((w.token ext).kind = .identifier ∧
            (w.token ext).literal.toList.head? = some '.' ∧
            (w.token ext).span.start = (w.token name).span.stop) ↔
          (ext.kind = .identifier ∧ ext.literal.toList.head? = some '.' ∧
            ext.span.start = name.span.stop) := by
        rw [w.kind_token, w.start_token, w.stop_token name hname]
        exact and_congr_right fun hkind => and_congr_left' (w.dotted_token ext hkind)
      simp only [Concrete.readExtension?, hext]
      split
      · exact ⟨rfl, h⟩
      · exact ⟨rfl, hsame⟩

end Laid

theorem extensionErrors_like {ext : Option Token} (h : ∀ token ∈ ext, token.kind = .identifier) :
    List.Forall₂ w.ErrorLike (extensionErrors ext) (extensionErrors (ext.map w.token)) := by
  cases ext with
  | none => exact .nil
  | some token =>
      simp only [extensionErrors, Option.map_some, w.suffix_token token (h token rfl)]
      split
      · exact .cons (.unknownExtension (w.same_token token)) .nil
      · exact .nil

namespace Laid

variable {l l' : List Token}

theorem commandTail (h : w.Laid l l') (stop : Token) (name : Option Token) {ext : Option Token}
    (hext : ∀ token ∈ ext, token.kind = .identifier) :
    w.CommandLike
        ⟨name, ext, (Concrete.readArguments stop name.isSome true l).1,
          commandSpan stop name ext (Concrete.readArguments stop name.isSome true l).1⟩
        ⟨name.map w.token, ext.map w.token,
          (Concrete.readArguments (w.token stop) (name.map w.token).isSome true l').1,
          commandSpan (w.token stop) (name.map w.token) (ext.map w.token)
            (Concrete.readArguments (w.token stop) (name.map w.token).isSome true l').1⟩ ∧
      List.Forall₂ w.ErrorLike
        (extensionErrors ext ++ (Concrete.readArguments stop name.isSome true l).2.toList)
        (extensionErrors (ext.map w.token) ++
          (Concrete.readArguments (w.token stop) (name.map w.token).isSome true l').2.toList) := by
  rw [Option.isSome_map]
  obtain ⟨harguments, herrors⟩ := h.readArguments stop name.isSome true
  refine ⟨⟨rfl, rfl, harguments, ?_⟩, List.rel_append (extensionErrors_like hext) herrors⟩
  have hspans := List.rel_append
    (List.rel_append (w.alike_toList w.alike_token name) (w.alike_toList w.alike_token ext))
    (w.alike_map w.alike_argument (Concrete.readArguments stop name.isSome true l).1)
  rw [harguments, commandSpan, commandSpan, w.start_token]
  exact w.alike_cover? hspans _

theorem readCommandTail (h : w.Laid l l') (stop : Token) {name : Option Token}
    (hname : ∀ token ∈ name, token.kind ≠ .newline) :
    w.CommandLike (readCommandTail stop name l).1
        (readCommandTail (w.token stop) (name.map w.token) l').1 ∧
      List.Forall₂ w.ErrorLike (readCommandTail stop name l).2
        (readCommandTail (w.token stop) (name.map w.token) l').2 := by
  cases name with
  | none =>
      have hext : ∀ token ∈ (none : Option Token), token.kind = .identifier := by simp
      exact h.commandTail stop none hext
  | some name =>
      obtain ⟨hext, hrest⟩ := h.readExtension? (hname name rfl)
      have hkind : ∀ token ∈ (Concrete.readExtension? name l).1, token.kind = .identifier :=
        fun _ h => kind_of_readExtension? h
      have htail := hrest.commandTail stop (some name) hkind
      simp only [Concrete.readCommandTail, Option.map_some, hext]
      exact htail

/-! ## Rows -/

theorem restErrors (h : w.Laid l l') (stop : Token) :
    List.Forall₂ w.ErrorLike (restErrors stop l) (restErrors (w.token stop) l') := by
  have herror := h.skip.unexpected stop .endOfLine
  unfold Concrete.restErrors
  obtain ⟨hl, hl'⟩ | ⟨token, rest, rest', -, hl, hl', -⟩ := h.skip_cases
  · rw [hl, hl']
    exact .nil
  · rw [hl, hl'] at herror ⊢
    exact .cons herror .nil

theorem readHeadExpr (h : w.Laid l l') (stop : Token) (expected : Expected) :
    (readHeadExpr (w.token stop) expected l').1 = (readHeadExpr stop expected l).1.map w.expr ∧
      List.Forall₂ w.ErrorLike (readHeadExpr stop expected l).2
        (readHeadExpr (w.token stop) expected l').2 := by
  have hagree := h.skip.readExpr stop false
  unfold Concrete.readHeadExpr
  obtain ⟨hl, hl'⟩ | ⟨first, rest, rest', -, hl, hl', -⟩ := h.skip_cases
  · rw [hl, hl']
    exact ⟨rfl, .cons (Laid.nil.unexpected stop expected) .nil⟩
  · rw [hl, hl'] at hagree ⊢
    simp only
    generalize Concrete.readExpr stop false (first :: rest) = read at hagree ⊢
    generalize Concrete.readExpr (w.token stop) false (w.token first :: rest') = read' at hagree ⊢
    cases hagree with
    | error herror => exact ⟨rfl, .cons herror .nil⟩
    | ok value hrest => exact ⟨rfl, hrest.restErrors stop⟩

theorem readMacroName (h : w.Laid l l') (stop : Token) :
    (readMacroName (w.token stop) l').1 = (readMacroName stop l).1.map w.token ∧
      List.Forall₂ w.ErrorLike (readMacroName stop l).2 (readMacroName (w.token stop) l').2 := by
  unfold Concrete.readMacroName
  obtain ⟨hl, hl'⟩ | ⟨name, rest, rest', -, hl, hl', hrest⟩ := h.skip_cases
  · rw [hl, hl']
    exact ⟨rfl, .cons (Laid.nil.unexpected stop .macroName) .nil⟩
  · rw [hl, hl']
    exact ⟨rfl, hrest.restErrors stop⟩

theorem readContent (h : w.Laid l l') (stop : Token) {first : Token}
    (hfirst : first.kind ≠ .whitespace) :
    w.ContentLike (readContent stop first l).1 (readContent (w.token stop) (w.token first) l').1 ∧
      List.Forall₂ w.ErrorLike (readContent stop first l).2
        (readContent (w.token stop) (w.token first) l').2 := by
  simp only [Concrete.readContent, w.kind_token]
  split
  case h_1 | h_2 | h_3 =>
    obtain ⟨hcondition, herrors⟩ := h.readHeadExpr stop .condition
    rw [hcondition]
    exact ⟨.conditional first _, herrors⟩
  case h_4 =>
    obtain ⟨hcount, herrors⟩ := h.readHeadExpr stop .repeatCount
    rw [hcount]
    exact ⟨.repetition first _, herrors⟩
  case h_5 =>
    obtain ⟨hname, herrors⟩ := h.readMacroName stop
    rw [hname]
    exact ⟨.macroBlock first _, herrors⟩
  case h_6 hkind | h_7 hkind =>
    have hname : ∀ token ∈ some first, token.kind ≠ .newline := by simp [hkind]
    exact (h.readCommandTail stop hname).imp_left .command
  case h_8 =>
    have hall := Laid.solid hfirst h
    split
    · have hname : ∀ token ∈ (none : Option Token), token.kind ≠ .newline := by simp
      exact (hall.readCommandTail stop hname).imp_left .command
    · exact ⟨.bare, .cons (hall.unexpected stop .command) .nil⟩

theorem readBehindLabel (h : w.Laid l l') (stop : Token) (hasLabel : Bool) :
    w.ContentLike (readBehindLabel stop hasLabel l).1
        (readBehindLabel (w.token stop) hasLabel l').1 ∧
      List.Forall₂ w.ErrorLike (readBehindLabel stop hasLabel l).2
        (readBehindLabel (w.token stop) hasLabel l').2 := by
  have herror := h.unexpected stop .whitespaceAfterLabel
  cases h with
  | nil => exact ⟨.bare, .nil⟩
  | blank hb hb' _ _ hrest =>
      simp only [Concrete.readBehindLabel, hb, hb', if_true]
      obtain ⟨hl, hl'⟩ | ⟨first, rest, rest', hfirst, hl, hl', hrest⟩ := hrest.skip_cases
      · rw [skipBlanks_skipBlanks] at hl hl'
        rw [hl, hl']
        exact ⟨.bare, .nil⟩
      · rw [skipBlanks_skipBlanks] at hl hl'
        rw [hl, hl']
        exact hrest.readContent stop hfirst
  | solid hsolid hrest =>
      simp only [Concrete.readBehindLabel, w.kind_token, hsolid, if_false]
      split
      · exact ⟨.bare, .cons herror .nil⟩
      · exact hrest.readContent stop hsolid

end Laid

variable (w) in
structure RowLike (row row' : Row) : Prop where
  tokens : w.Laid row.tokens row'.tokens
  stop : row'.stop = w.token row.stop

namespace RowLike

variable {row row' : Row}

theorem number (h : w.RowLike row row') : row'.number = row.number := by
  rw [Row.number, h.stop, h.tokens.start_peek]
  rfl

theorem restErrors (h : w.RowLike row row') {rest rest' : List Token} (hrest : w.Laid rest rest') :
    List.Forall₂ w.ErrorLike (restErrors row.stop rest) (restErrors row'.stop rest') := by
  rw [h.stop]
  exact hrest.restErrors row.stop

theorem head?_cases (h : w.RowLike row row') :
    (row.head? = none ∧ row'.head? = none) ∨
      ∃ token rest rest', row.head? = some (token, rest) ∧
        row'.head? = some (w.token token, rest') ∧
        w.Laid rest rest' := by
  unfold Row.head?
  obtain ⟨hl, hl'⟩ | ⟨token, rest, rest', -, hl, hl', hrest⟩ := h.tokens.skip_cases
  · rw [hl, hl']
    exact .inl ⟨rfl, rfl⟩
  · rw [hl, hl']
    exact .inr ⟨token, rest, rest', rfl, rfl, hrest⟩

theorem read (h : w.RowLike row row') (hshown : showsLabel row'.tokens = showsLabel row.tokens) :
    row'.read.1 = row.read.1.map w.label ∧ w.ContentLike row.read.2.1 row'.read.2.1 ∧
      List.Forall₂ w.ErrorLike row.read.2.2 row'.read.2.2 := by
  obtain ⟨hlabel, hbehind⟩ := h.tokens.readLabel? hshown
  have hread := hbehind.readBehindLabel row.stop (readLabel? row.tokens).1.isSome
  simp only [Row.read, hlabel, Option.isSome_map, h.stop]
  exact ⟨trivial, hread⟩

end RowLike

end Layout

end Concrete

end Asm6502
