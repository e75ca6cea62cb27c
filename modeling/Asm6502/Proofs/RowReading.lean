import Asm6502.Concrete.Row
import Asm6502.Proofs.ExprGrammar

/-!
# What is read from a row

Every reader of a row leaves a part of the tokens that it was given, and what it returns is made of
the tokens before that part, in their order.  So a label, an argument or the head of a block is made
of tokens of its row, and a row without a word that opens a block holds at most a command.
-/

namespace Asm6502

namespace Concrete

variable {tokens rest more : List Token} {argument : Argument} {stop : Token}

theorem Takes.suffix {taken : List Token} (h : Takes tokens taken rest) : rest <:+ tokens := by
  obtain ⟨front, rfl, -⟩ := h
  exact List.suffix_append front rest

theorem Takes.sublist {taken : List Token} (h : Takes tokens taken rest) :
    taken.Sublist tokens := by
  obtain ⟨front, rfl, rfl⟩ := h
  exact List.filter_sublist.trans (List.sublist_append_left front rest)

theorem skipBlanks_suffix (tokens : List Token) : skipBlanks tokens <:+ tokens :=
  List.dropWhile_suffix _

/-! ## Labels -/

/-- The name that a token adds to a label. -/
def asFragment (token : Token) : Token :=
  if token.kind = .commaX ∨ token.kind = .commaY then endingFragment token else token

theorem asFragment_of_isWord {token : Token} (h : token.kind.isWord = true) :
    asFragment token = token := by
  have hx : token.kind ≠ .commaX := ne_of_class rfl h
  have hy : token.kind ≠ .commaY := ne_of_class rfl h
  simp [asFragment, hx, hy]

theorem readLabelFragments_ending {ending : Token}
    (h : ending.kind = .commaX ∨ ending.kind = .commaY) (rest : List Token) :
    readLabelFragments (ending :: rest) =
      (endingFragment ending :: (readLabelFragments rest).1, (readLabelFragments rest).2) := by
  cases rest with
  | nil => simp [readLabelFragments, h]
  | cons next rest => simp [readLabelFragments, h]

theorem readLabelFragments_word {comma word : Token} (hcomma : comma.kind = .comma)
    (hword : word.kind.isWord = true) (rest : List Token) :
    readLabelFragments (comma :: word :: rest) =
      (word :: (readLabelFragments rest).1, (readLabelFragments rest).2) := by
  simp [readLabelFragments, hcomma, hword]

theorem readLabelFragments_spec (tokens : List Token) :
    ∃ taken front : List Token, tokens = front ++ (readLabelFragments tokens).2 ∧
      taken.Sublist front ∧
      (readLabelFragments tokens).1 = taken.map asFragment := by
  fun_induction readLabelFragments tokens with
  | case1 => exact ⟨[], [], rfl, .slnil, rfl⟩
  | case2 ending h => exact ⟨[ending], [ending], rfl, .refl _, by simp [asFragment, h]⟩
  | case3 ending h => exact ⟨[], [], rfl, .slnil, rfl⟩
  | case4 first second rest h fragments after heq ih =>
      rw [heq] at ih
      obtain ⟨taken, front, hfront, hsub, hfragments⟩ := ih
      refine ⟨first :: taken, first :: front, by rw [hfront]; rfl, hsub.cons_cons first, ?_⟩
      simp only at hfragments
      simp [asFragment, h, hfragments]
  | case5 first second rest _ h fragments after heq ih =>
      rw [heq] at ih
      obtain ⟨taken, front, hfront, hsub, hfragments⟩ := ih
      refine ⟨second :: taken, first :: second :: front, by rw [hfront]; rfl,
        (hsub.cons_cons second).cons first, ?_⟩
      simp only at hfragments
      simp [asFragment_of_isWord h.2, hfragments]
  | case6 => exact ⟨[], [], rfl, .slnil, rfl⟩

structure Label.MadeOf (tokens : List Token) (label : Label) : Prop where
  first_kind : label.first.kind = .identifier ∨ label.first.kind = .dot
  others : ∃ taken, (label.first :: taken).Sublist tokens ∧ label.others = taken.map asFragment
  colon : ∀ colon ∈ label.colon, colon ∈ tokens

theorem Label.MadeOf.mono {label : Label} (h : label.MadeOf tokens) (hsub : tokens.Sublist more) :
    label.MadeOf more := by
  obtain ⟨hkind, ⟨taken, htaken, hothers⟩, hcolon⟩ := h
  exact ⟨hkind, ⟨taken, htaken.trans hsub, hothers⟩, fun c hc => hsub.subset (hcolon c hc)⟩

theorem readLabel_spec {first : Token} (tokens : List Token)
    (hkind : first.kind = .identifier ∨ first.kind = .dot) :
    (readLabel first tokens).1.MadeOf (first :: tokens) ∧
      (readLabel first tokens).2 <:+ tokens := by
  have hfragments : ∃ taken front : List Token, tokens = front ++
      (if first.kind = .identifier then readLabelFragments tokens else ([], tokens)).2 ∧
      taken.Sublist front ∧
      (if first.kind = .identifier then readLabelFragments tokens else ([], tokens)).1 =
        taken.map asFragment := by
    split
    · exact readLabelFragments_spec tokens
    · exact ⟨[], [], rfl, .slnil, rfl⟩
  unfold readLabel
  generalize (if first.kind = .identifier then readLabelFragments tokens else ([], tokens)) =
    fragments at hfragments
  obtain ⟨others, rest⟩ := fragments
  obtain ⟨taken, front, hfront, hsub, hothers⟩ := hfragments
  simp only at hfront hothers
  have htokens : (first :: taken).Sublist (first :: tokens) := by
    rw [hfront]
    exact (hsub.trans (List.sublist_append_left front rest)).cons_cons first
  have hrest : rest <:+ tokens := ⟨front, hfront.symm⟩
  cases rest with
  | nil => exact ⟨⟨hkind, ⟨taken, htokens, hothers⟩, by simp⟩, hrest⟩
  | cons colon tail =>
      by_cases hcolon : colon.kind = .colon
      · have hmem : colon ∈ first :: tokens := by
          rw [hfront]
          simp
        simp only [hcolon, if_true]
        refine ⟨⟨hkind, ⟨taken, htokens, hothers⟩, ?_⟩, (List.suffix_cons colon tail).trans hrest⟩
        rintro c ⟨⟩
        exact hmem
      · simp only [hcolon, if_false]
        exact ⟨⟨hkind, ⟨taken, htokens, hothers⟩, by simp⟩, hrest⟩

theorem readLabel?_spec (tokens : List Token) :
    (∀ label ∈ (readLabel? tokens).1, label.MadeOf tokens) ∧ (readLabel? tokens).2 <:+ tokens := by
  unfold readLabel?
  split
  · simp
  · next first rest =>
    split
    · next h =>
      obtain ⟨hmade, hrest⟩ := readLabel_spec rest h.1
      refine ⟨?_, hrest.trans (List.suffix_cons first rest)⟩
      rintro label ⟨⟩
      exact hmade
    · split
      · split
        · next name colon tail =>
          split
          · next h =>
            obtain ⟨hmade, hrest⟩ := readLabel_spec (colon :: tail) (.inl h.1)
            refine ⟨?_, ?_⟩
            · rintro label ⟨⟩
              exact hmade.mono (List.sublist_cons_self first _)
            · exact hrest.trans ((List.suffix_cons name _).trans (List.suffix_cons first _))
          · simp
        · simp
      · simp

/-! ## Arguments -/

inductive Argument.Spells : Argument -> List Token -> Prop where
  | immediate {hash : Token} {value : Expr} {tokens : List Token} (h : value.Spells tokens) :
      Spells (.immediate hash value) (hash :: tokens)
  | address {value : Expr} {tokens : List Token} (h : value.Spells tokens) :
      Spells (.address value none) tokens
  | indexed {value : Expr} {ending : Token} {tokens : List Token} (h : value.Spells tokens) :
      Spells (.address value (some ending)) (tokens ++ [ending])
  | indirect {opening closing : Token} {value : Expr} {tokens : List Token}
      (h : value.Spells tokens) :
      Spells (.indirect opening value closing) (opening :: tokens ++ [closing])

theorem Argument.Spells.value (h : argument.Spells tokens) :
    ∃ taken, taken.Sublist tokens ∧ argument.value.Spells taken := by
  cases h with
  | immediate h => exact ⟨_, List.sublist_cons_self _ _, h⟩
  | address h => exact ⟨_, .refl _, h⟩
  | indexed h => exact ⟨_, List.sublist_append_left _ _, h⟩
  | indirect h => exact ⟨_, (List.sublist_append_left _ _).cons _, h⟩

theorem readExpr_reads {inBrackets : Bool} {e : Expr}
    (h : readExpr stop inBrackets tokens = .ok (e, rest)) : Reads inBrackets tokens e rest :=
  (sound stop nestingLimit).expr h

theorem readAddressEnding_spells {value : Expr} {front : List Token} (h : value.Spells front)
    (tokens : List Token) :
    ∃ taken, Takes tokens taken (readAddressEnding value tokens).2 ∧
      (readAddressEnding value tokens).1.Spells (front ++ taken) := by
  cases tokens with
  | nil => exact ⟨[], .refl _, (List.append_nil front).symm ▸ .address h⟩
  | cons ending rest =>
      by_cases hending : ending.kind = .commaX ∨ ending.kind = .commaY
      · have hblank : ending.kind ≠ .whitespace := by
          rcases hending with h | h <;> simp [h]
        simp only [readAddressEnding, hending, if_true]
        exact ⟨[ending], takes_cons ending rest hblank, .indexed h⟩
      · simp only [readAddressEnding, hending, if_false]
        exact ⟨[], .refl _, by simpa using Argument.Spells.address h⟩

theorem readIndirect_spells {opening : Token} (hopening : opening.kind = .parenLeft)
    (h : readIndirect stop opening tokens = .ok (argument, rest)) :
    ∃ taken, Takes tokens taken rest ∧ argument.Spells (opening :: taken) := by
  obtain ⟨⟨value, middle⟩, hvalue, h⟩ := ok_of_bind h
  obtain ⟨front, htakes, hspells, hcanonical⟩ := readExpr_reads hvalue
  have hfront := (takes_skipBlanks tokens).trans htakes
  have hskip := takes_skipBlanks middle
  simp only at h
  split at h
  · cases h
  · next closing tail hclosing =>
    rw [hclosing] at hskip
    have hclosed (hblank : closing.kind ≠ .whitespace) :
        Takes tokens (front ++ [closing]) tail :=
      hfront.trans (hskip.trans (takes_cons closing tail hblank))
    split at h
    · next hparen =>
      have hround : (Expr.round opening value closing).Spells (opening :: front ++ [closing]) :=
        .round hopening hspells hparen
      split at h
      · obtain ⟨⟨address, after⟩, hchain, h⟩ := ok_of_bind h
        obtain ⟨more, hmore, haddress, -⟩ :=
          (sound stop nestingLimit).chain hchain _ hround hcanonical
        obtain ⟨last, hlast, hargument⟩ := readAddressEnding_spells haddress after
        have hresult : readAddressEnding address after = (argument, rest) := Except.ok.inj h
        rw [hresult] at hlast hargument
        refine ⟨front ++ [closing] ++ (more ++ last),
          (hclosed (by simp [hparen])).trans (hmore.trans hlast), ?_⟩
        simpa using hargument
      · cases h
        exact ⟨front ++ [closing], hclosed (by simp [hparen]), .indirect hspells⟩
    · split at h
      · next hending =>
        cases h
        have hblank : closing.kind ≠ .whitespace := by
          rcases hending with h | h <;> simp [h]
        exact ⟨front ++ [closing], hclosed hblank, .indirect hspells⟩
      · cases h

theorem readArgument_spells (h : readArgument stop tokens = .ok (argument, rest)) :
    ∃ taken, Takes tokens taken rest ∧ argument.Spells taken := by
  have haddress (hread : (readExpr stop false tokens >>= fun read =>
      Except.ok (readAddressEnding read.1 read.2)) = Except.ok (argument, rest)) :
      ∃ taken, Takes tokens taken rest ∧ argument.Spells taken := by
    obtain ⟨⟨value, middle⟩, hvalue, hread⟩ := ok_of_bind hread
    obtain ⟨front, htakes, hspells, -⟩ := readExpr_reads hvalue
    obtain ⟨last, hlast, hargument⟩ := readAddressEnding_spells hspells middle
    have hresult : readAddressEnding value middle = (argument, rest) := Except.ok.inj hread
    rw [hresult] at hlast hargument
    exact ⟨front ++ last, htakes.trans hlast, hargument⟩
  unfold readArgument at h
  split at h
  · exact haddress h
  · next first tail =>
    split at h
    · next hhash =>
      obtain ⟨⟨value, middle⟩, hvalue, h⟩ := ok_of_bind h
      cases h
      obtain ⟨front, htakes, hspells, -⟩ := readExpr_reads hvalue
      have hfirst := takes_cons first tail (by simp [hhash])
      exact ⟨first :: front, hfirst.trans htakes, .immediate hspells⟩
    · split at h
      · next hparen =>
        obtain ⟨taken, htakes, hspells⟩ := readIndirect_spells hparen h
        have hfirst := takes_cons first tail (by simp [hparen])
        exact ⟨first :: taken, hfirst.trans htakes, hspells⟩
      · exact haddress h

theorem readSeparator_suffix {afterName isFirst : Bool}
    (h : readSeparator stop afterName isFirst tokens = .ok rest) : rest <:+ tokens := by
  have hskip := skipBlanks_suffix tokens
  unfold readSeparator at h
  simp only at h
  split at h
  · split at h
    · cases h
      exact List.nil_suffix
    · next first tail heq =>
      have htail : skipBlanks tail <:+ tokens := by
        rw [heq] at hskip
        exact (skipBlanks_suffix tail).trans ((List.suffix_cons first tail).trans hskip)
      split at h
      · split at h
        · cases h
        · cases h
          exact htail
      · split at h
        · cases h
        · cases h
          exact hskip
  · cases h
    exact hskip

def Argument.MadeOf (tokens : List Token) (argument : Argument) : Prop :=
  ∃ taken, taken.Sublist tokens ∧ argument.Spells taken

theorem Argument.MadeOf.mono (h : argument.MadeOf tokens) (hsub : tokens.Sublist more) :
    argument.MadeOf more := by
  obtain ⟨taken, htaken, hspells⟩ := h
  exact ⟨taken, htaken.trans hsub, hspells⟩

theorem readArguments_madeOf (stop : Token) (afterName isFirst : Bool) (tokens : List Token) :
    ∀ argument ∈ (readArguments stop afterName isFirst tokens).1, argument.MadeOf tokens := by
  fun_induction readArguments stop afterName isFirst tokens with
  | case1 => simp
  | case2 => simp
  | case3 => simp
  | case4 isFirst tokens _ start hseparator argument rest hargument arguments error heq ih =>
      rw [heq] at ih
      have hstart : start.Sublist tokens := (readSeparator_suffix hseparator).sublist
      obtain ⟨taken, htakes, hspells⟩ := readArgument_spells hargument
      intro a ha
      rcases List.mem_cons.1 ha with rfl | ha
      · exact ⟨taken, htakes.sublist.trans hstart, hspells⟩
      · exact (ih a ha).mono (htakes.suffix.sublist.trans hstart)

/-! ## Commands and heads of blocks -/

def Expr.MadeOf (tokens : List Token) (e : Expr) : Prop :=
  ∃ taken, taken.Sublist tokens ∧ e.Spells taken

theorem Expr.MadeOf.mono {e : Expr} (h : e.MadeOf tokens) (hsub : tokens.Sublist more) :
    e.MadeOf more := by
  obtain ⟨taken, htaken, hspells⟩ := h
  exact ⟨taken, htaken.trans hsub, hspells⟩

structure Command.MadeOf (tokens : List Token) (command : Command) : Prop where
  name : ∀ token ∈ command.name, token ∈ tokens
  extension : ∀ token ∈ command.extension, token ∈ tokens
  arguments : ∀ argument ∈ command.arguments, argument.MadeOf tokens
  span : ∃ stop, command.span =
    commandSpan stop command.name command.extension command.arguments

theorem Command.MadeOf.mono {command : Command} (h : command.MadeOf tokens)
    (hsub : tokens.Sublist more) : command.MadeOf more where
  name := fun token htoken => hsub.subset (h.name token htoken)
  extension := fun token htoken => hsub.subset (h.extension token htoken)
  arguments := fun argument hargument => (h.arguments argument hargument).mono hsub
  span := h.span

def Content.MadeOf (tokens : List Token) : Content -> Prop
  | .command content => ∀ c ∈ content, c.MadeOf tokens
  | .conditional keyword condition => keyword ∈ tokens ∧ ∀ e ∈ condition, e.MadeOf tokens
  | .repetition keyword count => keyword ∈ tokens ∧ ∀ e ∈ count, e.MadeOf tokens
  | .macroBlock keyword name => keyword ∈ tokens ∧ ∀ token ∈ name, token ∈ tokens

theorem Content.MadeOf.mono {content : Content} (h : content.MadeOf tokens)
    (hsub : tokens.Sublist more) : content.MadeOf more := by
  cases content with
  | command command => exact fun c hc => (h c hc).mono hsub
  | conditional keyword condition =>
      exact ⟨hsub.subset h.1, fun e he => (h.2 e he).mono hsub⟩
  | repetition keyword count => exact ⟨hsub.subset h.1, fun e he => (h.2 e he).mono hsub⟩
  | macroBlock keyword name => exact ⟨hsub.subset h.1, fun t ht => hsub.subset (h.2 t ht)⟩

theorem readExtension?_spec (name : Token) (tokens : List Token) :
    (∀ ext ∈ (readExtension? name tokens).1, ext ∈ tokens) ∧
      (readExtension? name tokens).2 <:+ tokens := by
  unfold readExtension?
  split
  · simp
  · split <;> simp

theorem readCommandTail_madeOf {name : Option Token} {all : List Token}
    (hname : ∀ token ∈ name, token ∈ all) (hsub : tokens.Sublist all) :
    (readCommandTail stop name tokens).1.MadeOf all := by
  have hext : ∀ found : Option Token × List Token,
      ((∀ ext ∈ found.1, ext ∈ tokens) ∧ found.2 <:+ tokens) ->
      (∀ ext ∈ found.1, ext ∈ all) ∧
        ∀ argument ∈ (readArguments stop name.isSome true found.2).1, argument.MadeOf all := by
    rintro ⟨ext, rest⟩ ⟨hmem, hrest⟩
    refine ⟨fun e he => hsub.subset (hmem e he), ?_⟩
    intro argument hargument
    exact (readArguments_madeOf stop _ true rest argument hargument).mono
      (hrest.sublist.trans hsub)
  unfold readCommandTail
  cases name with
  | none =>
      obtain ⟨hmem, harguments⟩ := hext (none, tokens) ⟨by simp, List.suffix_refl tokens⟩
      exact ⟨hname, hmem, harguments, stop, rfl⟩
  | some name =>
      obtain ⟨hmem, harguments⟩ := hext _ (readExtension?_spec name tokens)
      exact ⟨hname, hmem, harguments, stop, rfl⟩

theorem readHeadExpr_madeOf (stop : Token) (expected : Expected) (tokens : List Token) :
    ∀ e ∈ (readHeadExpr stop expected tokens).1, e.MadeOf tokens := by
  unfold readHeadExpr
  split
  · simp
  · next first rest hskip =>
    split
    · simp
    · next e after hread =>
      obtain ⟨taken, htakes, hspells, -⟩ := readExpr_reads hread
      have hsub : (first :: rest).Sublist tokens := hskip ▸ (skipBlanks_suffix tokens).sublist
      rintro _ ⟨⟩
      exact ⟨taken, htakes.sublist.trans hsub, hspells⟩

theorem readMacroName_mem (stop : Token) (tokens : List Token) :
    ∀ name ∈ (readMacroName stop tokens).1, name ∈ tokens := by
  have hskip := skipBlanks_suffix tokens
  unfold readMacroName
  split
  · simp
  · next name rest heq =>
    rintro _ ⟨⟩
    rw [heq] at hskip
    exact hskip.subset List.mem_cons_self

def opensBlock : Token.Kind -> Bool
  | .ifWord | .ifConstWord | .ifNConstWord | .repeatWord | .macWord => true
  | _ => false

/-- What stands on a row behind its label is made of its tokens, and is a command unless one of
them opens a block. -/
structure ReadsWithin (tokens : List Token) (content : Content) : Prop where
  madeOf : content.MadeOf tokens
  command : (∀ token ∈ tokens, opensBlock token.kind = false) -> ∃ c, content = .command c

theorem ReadsWithin.mono {content : Content} (h : ReadsWithin tokens content)
    (hsub : tokens.Sublist more) : ReadsWithin more content where
  madeOf := h.madeOf.mono hsub
  command := fun hopens => h.command fun token htoken => hopens token (hsub.subset htoken)

theorem readsWithin_none (tokens : List Token) : ReadsWithin tokens (.command none) where
  madeOf := by simp [Content.MadeOf]
  command := fun _ => ⟨none, rfl⟩

theorem readContent_readsWithin (stop first : Token) (tokens : List Token) :
    ReadsWithin (first :: tokens) (readContent stop first tokens).1 := by
  have hsub : tokens.Sublist (first :: tokens) := List.sublist_cons_self first tokens
  have hopens {content : Content} (hblock : opensBlock first.kind = true) :
      (∀ token ∈ first :: tokens, opensBlock token.kind = false) -> ∃ c, content = .command c := by
    intro h
    rw [h first List.mem_cons_self] at hblock
    cases hblock
  have hcommand {name : Option Token} {rest : List Token}
      (hname : ∀ token ∈ name, token ∈ first :: tokens) (hrest : rest.Sublist (first :: tokens)) :
      ReadsWithin (first :: tokens) (.command (some (readCommandTail stop name rest).1)) := by
    refine ⟨?_, fun _ => ⟨_, rfl⟩⟩
    rintro _ ⟨⟩
    exact readCommandTail_madeOf hname hrest
  have hcondition (expected : Expected) :
      ∀ e ∈ (readHeadExpr stop expected tokens).1, e.MadeOf (first :: tokens) :=
    fun e he => (readHeadExpr_madeOf stop expected tokens e he).mono hsub
  unfold readContent
  split
  case h_1 h | h_2 h | h_3 h =>
    exact ⟨⟨List.mem_cons_self, hcondition .condition⟩, hopens (by rw [h]; rfl)⟩
  case h_4 h => exact ⟨⟨List.mem_cons_self, hcondition .repeatCount⟩, hopens (by rw [h]; rfl)⟩
  case h_5 h =>
    refine ⟨⟨List.mem_cons_self, ?_⟩, hopens (by rw [h]; rfl)⟩
    exact fun name hname => hsub.subset (readMacroName_mem stop tokens name hname)
  case h_6 | h_7 => exact hcommand (by simp) hsub
  case h_8 =>
    split
    · exact hcommand (by simp) (.refl _)
    · exact readsWithin_none _

theorem readBehindLabel_readsWithin (stop : Token) (hasLabel : Bool) (tokens : List Token) :
    ReadsWithin tokens (readBehindLabel stop hasLabel tokens).1 := by
  unfold readBehindLabel
  split
  · exact readsWithin_none _
  · next first rest =>
    split
    · split
      · exact readsWithin_none _
      · next second after heq =>
        have hafter : (second :: after).Sublist (first :: rest) := by
          rw [← heq]
          exact ((skipBlanks_suffix rest).trans (List.suffix_cons first rest)).sublist
        exact (readContent_readsWithin stop second after).mono hafter
    · split
      · exact readsWithin_none _
      · exact readContent_readsWithin stop first rest

theorem Row.read_spec (row : Row) :
    (∀ label ∈ row.read.1, label.MadeOf row.tokens) ∧ ReadsWithin row.tokens row.read.2.1 := by
  obtain ⟨hlabel, hrest⟩ := readLabel?_spec row.tokens
  exact ⟨hlabel, (readBehindLabel_readsWithin row.stop _ _).mono hrest.sublist⟩

end Concrete

end Asm6502
