import Asm6502.Proofs.RowReading

/-!
# Tokens that a row keeps

The parts of a row hold tokens, in the order of the row.  Commas, white space and line ends are
never held; everything else is, unless a fault is reported.  A reader that succeeds holds all tokens
that it used up, and a reader that gives up the rest of its row says so.
-/

namespace Asm6502

namespace Concrete

/-! ## Tokens with a meaning -/

variable {kind : Token.Kind} {rest : List Token} {stop : Token}

/-- The tokens that only stand between others. -/
def isSeparating : Token.Kind -> Bool
  | .whitespace | .newline | .eof | .comma => true
  | _ => false

/-- Tokens without those that only stand between others. -/
def meaningful (tokens : List Token) : List Token :=
  tokens.filter fun token => !isSeparating token.kind

@[simp] theorem meaningful_nil : meaningful [] = [] := rfl

@[simp] theorem meaningful_append (front back : List Token) :
    meaningful (front ++ back) = meaningful front ++ meaningful back :=
  List.filter_append ..

theorem meaningful_cons {token : Token} (h : isSeparating token.kind = false)
    (tokens : List Token) : meaningful (token :: tokens) = token :: meaningful tokens := by
  simp [meaningful, h]

theorem meaningful_cons_of_separating {token : Token} (h : isSeparating token.kind = true)
    (tokens : List Token) : meaningful (token :: tokens) = meaningful tokens := by
  simp [meaningful, h]

theorem isSeparating_of_isWord (h : kind.isWord = true) : isSeparating kind = false := by
  revert h
  cases kind <;> decide

theorem isSeparating_of_isAtom (h : isAtom kind = true) : isSeparating kind = false := by
  revert h
  cases kind <;> decide

theorem isSeparating_of_isUnarySign (h : kind.isUnarySign = true) : isSeparating kind = false := by
  revert h
  cases kind <;> decide

theorem isSeparating_of_isBinarySign (h : kind.isBinarySign = true) :
    isSeparating kind = false := by
  revert h
  cases kind <;> decide

theorem meaningful_significant (tokens : List Token) :
    meaningful (significant tokens) = meaningful tokens := by
  unfold meaningful significant
  rw [List.filter_filter]
  refine List.filter_congr fun token _ => ?_
  cases token.kind <;> rfl

theorem meaningful_of_skipBlanks {tokens : List Token} (h : skipBlanks tokens = rest) :
    meaningful tokens = meaningful rest := by
  obtain ⟨front, hfront, hblank⟩ := takes_skipBlanks tokens
  rw [hfront, h, meaningful_append, ← meaningful_significant front, hblank]
  rfl

/-! ## Expressions and arguments -/

/-- The tokens of an expression in order, without the commas between the fragments of labels. -/
def Expr.tokens : Expr -> List Token
  | .atom token => [token]
  | .label fragments => fragments
  | .macroArgument opening number closing => [opening, number, closing]
  | .unary operator operand => operator :: operand.tokens
  | .binary left operator right => left.tokens ++ operator :: right.tokens
  | .round opening inner closing => opening :: inner.tokens ++ [closing]
  | .square opening inner closing => opening :: inner.tokens ++ [closing]

def Argument.tokens : Argument -> List Token
  | .immediate hash value => hash :: value.tokens
  | .address value ending => value.tokens ++ ending.toList
  | .indirect opening value closing => opening :: value.tokens ++ [closing]

theorem Expr.Joined.meaningful_eq {words tokens : List Token} (h : Joined words tokens) :
    meaningful tokens = words := by
  induction h with
  | nil => rfl
  | cons hcomma hword _ ih =>
      rw [meaningful_cons_of_separating (by rw [hcomma]; rfl),
        meaningful_cons (isSeparating_of_isWord hword), ih]

theorem Expr.Spells.meaningful_eq {e : Expr} {tokens : List Token} {inBrackets : Bool}
    (h : e.Spells tokens) (hcanonical : e.Canonical inBrackets) :
    meaningful tokens = e.tokens := by
  have hclosed {opening closing : Token} {inner : List Token}
      (hopening : isSeparating opening.kind = false)
      (hclosing : isSeparating closing.kind = false) :
      meaningful (opening :: inner ++ [closing]) = opening :: meaningful inner ++ [closing] := by
    rw [List.cons_append, meaningful_cons hopening, meaningful_append, meaningful_cons hclosing]
    rfl
  induction h generalizing inBrackets with
  | atom h => exact meaningful_cons (isSeparating_of_isAtom h) []
  | label hfirst h =>
      rw [meaningful_cons (isSeparating_of_isWord hfirst), h.meaningful_eq]
      rfl
  | macroArgument hopening hnumber hclosing =>
      rw [meaningful_cons (by rw [hopening]; rfl), meaningful_cons (by rw [hnumber]; rfl),
        meaningful_cons (by rw [hclosing]; rfl)]
      rfl
  | unary _ ih =>
      rw [meaningful_cons (isSeparating_of_isUnarySign hcanonical.1), ih hcanonical.2.2]
      rfl
  | binary _ _ ihleft ihright =>
      rw [meaningful_append, meaningful_cons (isSeparating_of_isBinarySign hcanonical.2.1),
        ihleft hcanonical.1, ihright hcanonical.2.2.2]
      rfl
  | round hopening _ hclosing ih =>
      rw [hclosed (by rw [hopening]; rfl) (by rw [hclosing]; rfl), ih hcanonical]
      rfl
  | square hopening _ hclosing ih =>
      rw [hclosed (by rw [hopening]; rfl) (by rw [hclosing]; rfl), ih hcanonical]
      rfl

theorem Takes.meaningful_eq {tokens taken : List Token} (h : Takes tokens taken rest) :
    meaningful tokens = meaningful taken ++ meaningful rest := by
  obtain ⟨front, rfl, rfl⟩ := h
  rw [meaningful_append, meaningful_significant]

/-- An expression holds all tokens that were used up for it. -/
theorem Reads.meaningful_eq {inBrackets : Bool} {tokens : List Token} {e : Expr}
    (h : Reads inBrackets tokens e rest) : meaningful tokens = e.tokens ++ meaningful rest := by
  obtain ⟨taken, htakes, hspells, hcanonical⟩ := h
  rw [htakes.meaningful_eq, hspells.meaningful_eq hcanonical]

theorem readAddressEnding_meaningful (value : Expr) (tokens : List Token) :
    value.tokens ++ meaningful tokens =
      (readAddressEnding value tokens).1.tokens ++
        meaningful (readAddressEnding value tokens).2 := by
  unfold readAddressEnding
  split
  · simp [Argument.tokens]
  · next ending rest =>
    split
    · next hending =>
      have hkind : isSeparating ending.kind = false := by
        rcases hending with h | h <;> rw [h] <;> rfl
      simp [Argument.tokens, meaningful_cons hkind]
    · simp [Argument.tokens]

theorem readIndirect_meaningful {opening : Token} {tokens : List Token} {argument : Argument}
    (hopening : opening.kind = .parenLeft)
    (h : readIndirect stop opening tokens = .ok (argument, rest)) :
    meaningful (opening :: tokens) = argument.tokens ++ meaningful rest := by
  have hmeaning : isSeparating opening.kind = false := by
    rw [hopening]
    rfl
  obtain ⟨⟨value, middle⟩, hvalue, h⟩ := ok_of_bind h
  have hreads := readExpr_reads hvalue
  have hfront : meaningful (opening :: tokens) = opening :: value.tokens ++ meaningful middle := by
    rw [meaningful_cons hmeaning, meaningful_of_skipBlanks rfl, hreads.meaningful_eq]
    rfl
  simp only at h
  split at h
  · cases h
  · next closing tail hclosing =>
    rw [meaningful_of_skipBlanks hclosing] at hfront
    have hclosed (hkind : isSeparating closing.kind = false) :
        meaningful (opening :: tokens) =
          opening :: value.tokens ++ [closing] ++ meaningful tail := by
      rw [hfront, meaningful_cons hkind]
      simp
    split at h
    · next hparen =>
      have hbefore := hclosed (by rw [hparen]; rfl)
      split at h
      · -- The brackets only group a part of an address, which is read on behind them.
        obtain ⟨⟨address, after⟩, hchain, h⟩ := ok_of_bind h
        obtain ⟨taken, -, hspells, hcanonical⟩ := hreads
        have hround : (Expr.round opening value closing).Spells (opening :: taken ++ [closing]) :=
          .round hopening hspells hparen
        have hinner : (Expr.round opening value closing).Canonical false := hcanonical
        obtain ⟨more, hmore, haddress, hcanonical'⟩ :=
          (sound stop nestingLimit).chain hchain _ hround hinner
        have htokens := haddress.meaningful_eq hcanonical'
        rw [meaningful_append, hround.meaningful_eq hinner, Expr.tokens] at htokens
        have hresult : readAddressEnding address after = (argument, rest) := Except.ok.inj h
        have hending := readAddressEnding_meaningful address after
        rw [hresult] at hending
        rw [hbefore, hmore.meaningful_eq, ← List.append_assoc, htokens, hending]
      · cases h
        exact hbefore
    · split at h
      · next hending =>
        cases h
        exact hclosed (by rcases hending with h | h <;> rw [h] <;> rfl)
      · cases h

theorem readArgument_meaningful {tokens : List Token} {argument : Argument}
    (h : readArgument stop tokens = .ok (argument, rest)) :
    meaningful tokens = argument.tokens ++ meaningful rest := by
  have haddress (hread : (readExpr stop false tokens >>= fun read =>
      Except.ok (readAddressEnding read.1 read.2)) = Except.ok (argument, rest)) :
      meaningful tokens = argument.tokens ++ meaningful rest := by
    obtain ⟨⟨value, middle⟩, hvalue, hread⟩ := ok_of_bind hread
    have hresult : readAddressEnding value middle = (argument, rest) := Except.ok.inj hread
    have hending := readAddressEnding_meaningful value middle
    rw [hresult] at hending
    rw [(readExpr_reads hvalue).meaningful_eq, hending]
  unfold readArgument at h
  split at h
  · exact haddress h
  · next first tail =>
    split at h
    · next hhash =>
      obtain ⟨⟨value, middle⟩, hvalue, h⟩ := ok_of_bind h
      cases h
      rw [meaningful_cons (by rw [hhash]; rfl), (readExpr_reads hvalue).meaningful_eq]
      rfl
    · split at h
      · next hparen => exact readIndirect_meaningful hparen h
      · exact haddress h

theorem readSeparator_meaningful {afterName isFirst : Bool} {tokens : List Token}
    (h : readSeparator stop afterName isFirst tokens = .ok rest) :
    meaningful tokens = meaningful rest := by
  have hskip : meaningful tokens = meaningful (skipBlanks tokens) := meaningful_of_skipBlanks rfl
  unfold readSeparator at h
  simp only at h
  split at h
  · split at h
    · next heq =>
      cases h
      rw [hskip, heq]
    · next first tail heq =>
      split at h
      · next hcomma =>
        split at h
        · cases h
        · cases h
          rw [hskip, heq, meaningful_cons_of_separating (by rw [hcomma]; rfl),
            meaningful_of_skipBlanks rfl]
      · split at h
        · cases h
        · cases h
          exact hskip
  · cases h
    exact hskip

/-! ## Commands and heads of blocks -/

/-- Some tokens hold their first meaningful ones, and all of them unless there is a fault. -/
def Accounts (tokens held : List Token) (faults : List ParseError) : Prop :=
  ∃ left, meaningful tokens = held ++ left ∧ (faults = [] -> left = [])

namespace Accounts

variable {tokens held : List Token} {faults : List ParseError}

theorem behind {front rest : List Token} (h : Accounts rest held faults)
    (hfront : meaningful tokens = front ++ meaningful rest) :
    Accounts tokens (front ++ held) faults := by
  obtain ⟨left, hleft, hclean⟩ := h
  exact ⟨left, by rw [hfront, hleft, List.append_assoc], hclean⟩

theorem congr {rest : List Token} (h : Accounts rest held faults)
    (heq : meaningful tokens = meaningful rest) : Accounts tokens held faults := by
  obtain ⟨left, hleft, hclean⟩ := h
  exact ⟨left, heq.trans hleft, hclean⟩

/-- Nothing need be held where a fault is reported. -/
theorem of_fault (tokens : List Token) {error : ParseError} (herror : error ∈ faults) :
    Accounts tokens [] faults := by
  refine ⟨meaningful tokens, rfl, ?_⟩
  rintro rfl
  cases herror

theorem more_faults (h : Accounts tokens held faults) (others : List ParseError) :
    Accounts tokens held (others ++ faults) := by
  obtain ⟨left, hleft, hclean⟩ := h
  exact ⟨left, hleft, fun hnil => hclean (List.append_eq_nil_iff.1 hnil).2⟩

end Accounts

theorem restErrors_accounts (stop : Token) (tokens : List Token) :
    Accounts tokens [] (restErrors stop tokens) := by
  unfold restErrors
  split
  · next hskip => exact ⟨[], meaningful_of_skipBlanks hskip, fun _ => rfl⟩
  · exact .of_fault tokens List.mem_cons_self

theorem readArguments_accounts (stop : Token) (afterName isFirst : Bool) (tokens : List Token) :
    Accounts tokens
      ((readArguments stop afterName isFirst tokens).1.flatMap Argument.tokens)
      (readArguments stop afterName isFirst tokens).2.toList := by
  fun_induction readArguments stop afterName isFirst tokens with
  | case1 isFirst tokens hempty =>
      exact ⟨[], meaningful_of_skipBlanks (List.isEmpty_iff.1 hempty), fun _ => rfl⟩
  | case2 => exact .of_fault _ List.mem_cons_self
  | case3 => exact .of_fault _ List.mem_cons_self
  | case4 isFirst tokens _ start hseparator argument rest hargument arguments error heq ih =>
      rw [heq] at ih
      rw [List.flatMap_cons]
      refine ih.behind ?_
      rw [readSeparator_meaningful hseparator, readArgument_meaningful hargument]

def Command.tokens (command : Command) : List Token :=
  command.name.toList ++ command.extension.toList ++ command.arguments.flatMap Argument.tokens

theorem readExtension?_meaningful (name : Token) (tokens : List Token) :
    meaningful tokens =
      (readExtension? name tokens).1.toList ++ meaningful (readExtension? name tokens).2 := by
  unfold readExtension?
  split
  · rfl
  · split
    · next ext rest h =>
      rw [meaningful_cons (by rw [h.1]; rfl)]
      rfl
    · rfl

theorem readCommandTail_accounts (stop : Token) (name : Option Token) {tokens all : List Token}
    (hall : meaningful all = name.toList ++ meaningful tokens) :
    Accounts all (readCommandTail stop name tokens).1.tokens
      (readCommandTail stop name tokens).2 := by
  have hfound (found : Option Token × List Token)
      (hfound : meaningful tokens = found.1.toList ++ meaningful found.2) :
      Accounts all (name.toList ++ found.1.toList ++
          (readArguments stop name.isSome true found.2).1.flatMap Argument.tokens)
        (extensionErrors found.1 ++ (readArguments stop name.isSome true found.2).2.toList) := by
    refine (Accounts.more_faults ?_ _)
    refine (readArguments_accounts stop name.isSome true found.2).behind ?_
    rw [hall, hfound, List.append_assoc]
  unfold readCommandTail
  cases name with
  | none => exact hfound (none, tokens) rfl
  | some name => exact hfound _ (readExtension?_meaningful name tokens)

theorem readHeadExpr_accounts (stop : Token) (expected : Expected) (tokens : List Token) :
    Accounts tokens ((readHeadExpr stop expected tokens).1.toList.flatMap Expr.tokens)
      (readHeadExpr stop expected tokens).2 := by
  unfold readHeadExpr
  split
  · exact .of_fault tokens List.mem_cons_self
  · next first rest hskip =>
    split
    · exact .of_fault tokens List.mem_cons_self
    · next e after hread =>
      have hexpr := (readExpr_reads hread).meaningful_eq
      have h := (restErrors_accounts stop after).behind
        ((meaningful_of_skipBlanks hskip).trans hexpr)
      simpa using h

/-- The tokens that a row holds behind its label. -/
def Content.tokens : Content -> List Token
  | .command c => c.toList.flatMap Command.tokens
  | .conditional keyword condition => keyword :: condition.toList.flatMap Expr.tokens
  | .repetition keyword count => keyword :: count.toList.flatMap Expr.tokens
  | .macroBlock keyword name => keyword :: name.toList

def Content.isMacro : Content -> Bool
  | .macroBlock .. => true
  | _ => false

structure Content.Accounts (tokens : List Token) (content : Content) (faults : List ParseError) :
    Prop where
  tokens : Concrete.Accounts tokens content.tokens faults
  isMacro : content.isMacro = false

theorem readContent_accounts (stop : Token) {first : Token} (hfirst : first.kind ≠ .macWord)
    (tokens : List Token) :
    (readContent stop first tokens).1.Accounts (first :: tokens)
      (readContent stop first tokens).2 := by
  have hcons {kind : Token.Kind} (h : first.kind = kind) (hkind : isSeparating kind = false) :
      meaningful (first :: tokens) = [first] ++ meaningful tokens :=
    meaningful_cons (h ▸ hkind) tokens
  have hhead {kind : Token.Kind} (h : first.kind = kind) (hkind : isSeparating kind = false)
      (expected : Expected) :
      Accounts (first :: tokens)
        (first :: (readHeadExpr stop expected tokens).1.toList.flatMap Expr.tokens)
        (readHeadExpr stop expected tokens).2 :=
    (readHeadExpr_accounts stop expected tokens).behind (hcons h hkind)
  have hcommand {name : Option Token} {rest : List Token}
      (h : meaningful (first :: tokens) = name.toList ++ meaningful rest) :
      (Content.command (some (readCommandTail stop name rest).1)).Accounts (first :: tokens)
        (readCommandTail stop name rest).2 := by
    refine ⟨?_, rfl⟩
    rw [Content.tokens, Option.toList_some, List.flatMap_singleton]
    exact readCommandTail_accounts stop name h
  unfold readContent
  split
  case h_1 h | h_2 h | h_3 h => exact ⟨hhead h rfl .condition, rfl⟩
  case h_4 h => exact ⟨hhead h rfl .repeatCount, rfl⟩
  case h_5 h => exact absurd h hfirst
  case h_6 h | h_7 h => exact hcommand (hcons h rfl)
  case h_8 =>
    split
    · exact hcommand rfl
    · exact ⟨.of_fault _ List.mem_cons_self, rfl⟩

theorem readBehindLabel_accounts (stop : Token) (hasLabel : Bool) {tokens : List Token}
    (htokens : ∀ token ∈ tokens, token.kind ≠ .macWord) :
    (readBehindLabel stop hasLabel tokens).1.Accounts tokens
      (readBehindLabel stop hasLabel tokens).2 := by
  unfold readBehindLabel
  split
  · exact ⟨⟨[], rfl, fun _ => rfl⟩, rfl⟩
  · next first rest =>
    split
    · next hblank =>
      have hrest : meaningful (first :: rest) = meaningful rest :=
        meaningful_cons_of_separating (by rw [hblank]; rfl) rest
      split
      · next hskip =>
        exact ⟨⟨[], hrest.trans (meaningful_of_skipBlanks hskip), fun _ => rfl⟩, rfl⟩
      · next second after hskip =>
        have hsecond : second ∈ first :: rest := by
          have hsuffix := skipBlanks_suffix rest
          rw [hskip] at hsuffix
          exact List.mem_cons_of_mem first (hsuffix.subset List.mem_cons_self)
        have hcontent := readContent_accounts stop (htokens second hsecond) after
        exact ⟨hcontent.tokens.congr (hrest.trans (meaningful_of_skipBlanks hskip)),
          hcontent.isMacro⟩
    · split
      · exact ⟨.of_fault _ List.mem_cons_self, rfl⟩
      · exact readContent_accounts stop (htokens first List.mem_cons_self) rest

/-! ## Labels and rows -/

/-- A token that a line holds. -/
inductive Held where
  | whole (token : Token)
  /-- A fragment of a label behind the first, which can come from an index ending. -/
  | fragment (token : Token)

inductive StandsFor : List Held -> List Token -> Prop where
  | nil : StandsFor [] []
  | whole (token : Token) {held : List Held} {tokens : List Token} (h : StandsFor held tokens) :
      StandsFor (.whole token :: held) (token :: tokens)
  | fragment (token : Token) {held : List Held} {tokens : List Token}
      (h : StandsFor held tokens) :
      StandsFor (.fragment (asFragment token) :: held) (token :: tokens)

namespace StandsFor

theorem append {a b : List Held} {front back : List Token} (ha : StandsFor a front)
    (hb : StandsFor b back) : StandsFor (a ++ b) (front ++ back) := by
  induction ha with
  | nil => exact hb
  | whole token _ ih => exact .whole token ih
  | fragment token _ ih => exact .fragment token ih

theorem wholes (tokens : List Token) : StandsFor (tokens.map .whole) tokens := by
  induction tokens with
  | nil => exact .nil
  | cons token tokens ih => exact .whole token ih

theorem fragments (tokens : List Token) :
    StandsFor ((tokens.map asFragment).map .fragment) tokens := by
  induction tokens with
  | nil => exact .nil
  | cons token tokens ih => exact .fragment token ih

end StandsFor

def Label.held (label : Label) : List Held :=
  .whole label.first :: label.others.map .fragment ++ label.colon.toList.map .whole

theorem readLabelFragments_meaningful (tokens : List Token) :
    ∃ taken, meaningful tokens = taken ++ meaningful (readLabelFragments tokens).2 ∧
      (readLabelFragments tokens).1 = taken.map asFragment := by
  have hending {ending : Token} (h : ending.kind = .commaX ∨ ending.kind = .commaY) :
      isSeparating ending.kind = false := by
    rcases h with h | h <;> rw [h] <;> rfl
  fun_induction readLabelFragments tokens with
  | case1 => exact ⟨[], rfl, rfl⟩
  | case2 ending h => exact ⟨[ending], meaningful_cons (hending h) [], by simp [asFragment, h]⟩
  | case3 ending h => exact ⟨[], rfl, rfl⟩
  | case4 first second rest h fragments after heq ih =>
      rw [heq] at ih
      obtain ⟨taken, htaken, hfragments⟩ := ih
      simp only at htaken hfragments
      refine ⟨first :: taken, ?_, by simp [asFragment, h, hfragments]⟩
      rw [meaningful_cons (hending h), htaken, List.cons_append]
  | case5 first second rest _ h fragments after heq ih =>
      rw [heq] at ih
      obtain ⟨taken, htaken, hfragments⟩ := ih
      simp only at htaken hfragments
      refine ⟨second :: taken, ?_, by simp [asFragment_of_isWord h.2, hfragments]⟩
      rw [meaningful_cons_of_separating (by rw [h.1]; rfl),
        meaningful_cons (isSeparating_of_isWord h.2), htaken, List.cons_append]
  | case6 => exact ⟨[], rfl, rfl⟩

theorem readLabel_meaningful {first : Token} (tokens : List Token)
    (hkind : first.kind = .identifier ∨ first.kind = .dot) :
    ∃ taken, StandsFor (readLabel first tokens).1.held taken ∧
      meaningful (first :: tokens) = taken ++ meaningful (readLabel first tokens).2 := by
  have hfirst : isSeparating first.kind = false := by
    rcases hkind with h | h <;> rw [h] <;> rfl
  have hfragments : ∃ taken, meaningful tokens = taken ++ meaningful
        (if first.kind = .identifier then readLabelFragments tokens else ([], tokens)).2 ∧
      (if first.kind = .identifier then readLabelFragments tokens else ([], tokens)).1 =
        taken.map asFragment := by
    split
    · exact readLabelFragments_meaningful tokens
    · exact ⟨[], rfl, rfl⟩
  unfold readLabel
  generalize (if first.kind = .identifier then readLabelFragments tokens else ([], tokens)) =
    fragments at hfragments
  obtain ⟨others, rest⟩ := fragments
  obtain ⟨taken, htaken, hothers⟩ := hfragments
  simp only at htaken hothers
  subst hothers
  have hnamed : StandsFor (.whole first :: (taken.map asFragment).map .fragment) (first :: taken) :=
    .whole first (.fragments taken)
  have hplain : StandsFor (Label.held ⟨first, taken.map asFragment, none⟩) (first :: taken) := by
    simpa [Label.held] using hnamed
  rw [meaningful_cons hfirst, htaken]
  cases rest with
  | nil => exact ⟨first :: taken, hplain, rfl⟩
  | cons colon tail =>
      by_cases hcolon : colon.kind = .colon
      · simp only [hcolon, if_true]
        refine ⟨first :: taken ++ [colon], hnamed.append (.wholes [colon]), ?_⟩
        rw [meaningful_cons (by rw [hcolon]; rfl)]
        simp
      · simp only [hcolon, if_false]
        exact ⟨first :: taken, hplain, rfl⟩

theorem readLabel?_meaningful (tokens : List Token) :
    ∃ taken, StandsFor ((readLabel? tokens).1.toList.flatMap Label.held) taken ∧
      meaningful tokens = taken ++ meaningful (readLabel? tokens).2 := by
  have hnone : ∃ taken, StandsFor ((none : Option Label).toList.flatMap Label.held) taken ∧
      meaningful tokens = taken ++ meaningful tokens := ⟨[], .nil, rfl⟩
  have hsome (label : Label) : (some label).toList.flatMap Label.held = label.held := by simp
  unfold readLabel?
  split
  · exact ⟨[], .nil, rfl⟩
  · next first rest =>
    split
    · next h =>
      simp only [hsome]
      exact readLabel_meaningful rest h.1
    · split
      · next hblank =>
        split
        · next name colon tail =>
          split
          · next h =>
            simp only [hsome]
            rw [meaningful_cons_of_separating (by rw [hblank]; rfl)]
            exact readLabel_meaningful (colon :: tail) (.inl h.1)
          · exact hnone
        · exact hnone
      · exact hnone

def Row.held (row : Row) : List Held :=
  row.read.1.toList.flatMap Label.held ++ row.read.2.1.tokens.map .whole

/-- A row holds its first meaningful tokens, and all of them unless it has a fault. -/
theorem Row.held_spec (row : Row) (hrow : ∀ token ∈ row.tokens, token.kind ≠ .macWord) :
    (∃ taken, StandsFor row.held taken ∧ Accounts row.tokens taken row.read.2.2) ∧
      row.read.2.1.isMacro = false := by
  obtain ⟨named, hnamed, hlabel⟩ := readLabel?_meaningful row.tokens
  have hrest := (readLabel?_spec row.tokens).2
  have hcontent := readBehindLabel_accounts row.stop (readLabel? row.tokens).1.isSome
    fun token htoken => hrow token (hrest.subset htoken)
  exact ⟨⟨_, hnamed.append (.wholes _), hcontent.tokens.behind hlabel⟩, hcontent.isMacro⟩

end Concrete

end Asm6502
