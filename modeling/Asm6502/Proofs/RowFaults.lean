import Asm6502.Proofs.RowReading

/-!
# Faults of a row

Every fault of a row is about one of its tokens or about the line break or end of text behind it.
A row can lack a token, hold one too many, be nested too deep or have an unknown extension; that a
block lacks its terminator is never found on a row.
-/

namespace Asm6502

/-- Whether a fault is that a block lacks its terminator. -/
def ParseError.isUnterminated : ParseError -> Bool
  | .unterminatedBlock .. => true
  | _ => false

/-- A fault about one of the given tokens, found where it stands. -/
structure ParseError.FoundAmong (all : List Token) (fault : ParseError) : Prop where
  token : fault.token ∈ all
  found : fault.isUnterminated = false

namespace Concrete

/-- Reading that leaves some of the given tokens, or fails at one of them. -/
def StaysAmong {α : Type} (all : List Token) : Except ParseError (α × List Token) -> Prop
  | .error fault => fault.FoundAmong all
  | .ok (_, rest) => rest ⊆ all

namespace StaysAmong

variable {α β : Type} {all : List Token}

variable {tokens : List Token}

theorem bind {answer : Except ParseError (α × List Token)}
    {next : α × List Token -> Except ParseError (β × List Token)} (h : StaysAmong all answer)
    (hnext : ∀ a rest, rest ⊆ all -> StaysAmong all (next (a, rest))) :
    StaysAmong all (answer >>= next) := by
  cases answer with
  | error fault => exact h
  | ok read => exact hnext read.1 read.2 h

theorem skipBlanks_subset (h : tokens ⊆ all) : skipBlanks tokens ⊆ all :=
  fun _ ht => h ((List.dropWhile_sublist _).subset ht)

theorem skipBlanksIn_subset (h : tokens ⊆ all) (inBrackets : Bool) :
    skipBlanksIn inBrackets tokens ⊆ all := by
  cases inBrackets with
  | true => exact skipBlanks_subset h
  | false => exact h

theorem readFragments_subset (h : tokens ⊆ all) : (readFragments tokens).2 ⊆ all := by
  fun_induction readFragments tokens with
  | case1 comma word rest _ fragments after heq ih =>
      rw [heq] at ih
      exact ih (List.subset_of_cons_subset (List.subset_of_cons_subset h))
  | case2 => exact h
  | case3 => exact h

variable {stop : Token} (hstop : stop ∈ all)

include hstop

theorem peek_mem (h : tokens ⊆ all) : peek stop tokens ∈ all := by
  cases tokens with
  | nil => exact hstop
  | cons token rest => exact h List.mem_cons_self

theorem readKind (kind : Token.Kind) (expected : Expected) (h : tokens ⊆ all) :
    StaysAmong all (readKind stop kind expected tokens) := by
  unfold Concrete.readKind
  split
  · split
    · exact List.subset_of_cons_subset h
    · exact ⟨peek_mem hstop h, rfl⟩
  · exact ⟨hstop, rfl⟩

theorem operand_and_chain (levels : Nat) :
    (∀ inBrackets tokens, tokens ⊆ all ->
      StaysAmong all (readOperand stop levels inBrackets tokens)) ∧
    ∀ inBrackets left tokens, tokens ⊆ all ->
      StaysAmong all (readChain stop levels inBrackets left tokens) := by
  induction levels with
  | zero =>
      refine ⟨?_, ?_⟩
      · intro inBrackets tokens h
        rw [readOperand]
        exact ⟨peek_mem hstop h, rfl⟩
      · intro inBrackets left tokens h
        have hskip := skipBlanksIn_subset h inBrackets
        unfold readChain
        split
        · exact List.nil_subset all
        · next operator rest heq =>
          rw [heq] at hskip
          split
          · exact ⟨peek_mem hstop
              (skipBlanksIn_subset (List.subset_of_cons_subset hskip) inBrackets), rfl⟩
          · exact hskip
  | succ levels ih =>
      obtain ⟨operand, chain⟩ := ih
      have closed (kind : Token.Kind) (expected : Expected) (build : Expr -> Token -> Expr)
          {tokens : List Token} (h : tokens ⊆ all) :
          StaysAmong all (readClosed stop levels kind expected build tokens) := by
        refine bind (bind (operand _ _ (skipBlanks_subset h)) fun left rest hrest =>
          chain _ _ _ hrest) fun inner rest hrest => ?_
        exact bind (readKind hstop _ _ (skipBlanks_subset hrest)) fun closing rest hrest => hrest
      refine ⟨?_, ?_⟩
      · intro inBrackets tokens h
        cases tokens with
        | nil =>
            rw [readOperand]
            exact ⟨hstop, rfl⟩
        | cons token rest =>
            have hrest := List.subset_of_cons_subset h
            rw [readOperand_cons]
            split
            · exact closed _ _ _ hrest
            split
            · exact closed _ _ _ hrest
            split
            · exact bind (readKind hstop _ _ hrest) fun number rest hrest =>
                bind (readKind hstop _ _ hrest) fun closing rest hrest => hrest
            split
            · exact bind (operand _ _ hrest) fun read rest hrest => hrest
            split
            · exact hrest
            split
            · cases inBrackets with
              | true => exact readFragments_subset hrest
              | false => exact hrest
            · exact ⟨peek_mem hstop h, rfl⟩
      · intro inBrackets left tokens h
        have hskip := skipBlanksIn_subset h inBrackets
        unfold readChain
        split
        · exact List.nil_subset all
        · next operator rest heq =>
          rw [heq] at hskip
          have hrest := skipBlanksIn_subset (List.subset_of_cons_subset hskip) inBrackets
          split
          · exact bind (operand _ _ hrest) fun right rest hrest => chain _ _ _ hrest
          · exact hskip

theorem readExpr (inBrackets : Bool) (h : tokens ⊆ all) :
    StaysAmong all (readExpr stop inBrackets tokens) := by
  obtain ⟨operand, chain⟩ := operand_and_chain hstop nestingLimit
  exact bind (operand _ _ h) fun left rest hrest => chain _ _ _ hrest

omit hstop in
theorem readAddressEnding (value : Expr) (h : tokens ⊆ all) :
    StaysAmong all (.ok (readAddressEnding value tokens)) := by
  unfold Concrete.readAddressEnding
  split
  · exact h
  · split
    · exact List.subset_of_cons_subset h
    · exact h

theorem readIndirect (opening : Token) (h : tokens ⊆ all) :
    StaysAmong all (readIndirect stop opening tokens) := by
  obtain ⟨-, chain⟩ := operand_and_chain hstop nestingLimit
  refine bind (readExpr hstop _ (skipBlanks_subset h)) fun value rest hrest => ?_
  have hskip := skipBlanks_subset hrest
  dsimp only
  split
  · exact ⟨hstop, rfl⟩
  · next closing after heq =>
    rw [heq] at hskip
    have hafter := List.subset_of_cons_subset hskip
    split
    · split
      · exact bind (chain _ _ _ hafter) fun address rest hrest => readAddressEnding address hrest
      · exact hafter
    · split
      · exact hafter
      · exact ⟨peek_mem hstop hskip, rfl⟩

theorem readArgument (h : tokens ⊆ all) : StaysAmong all (readArgument stop tokens) := by
  unfold Concrete.readArgument
  split
  · exact bind (readExpr hstop _ h) fun value rest hrest => readAddressEnding value hrest
  · have hrest := List.subset_of_cons_subset h
    split
    · exact bind (readExpr hstop _ hrest) fun value rest hrest => hrest
    · split
      · exact readIndirect hstop _ hrest
      · exact bind (readExpr hstop _ h) fun value rest hrest => readAddressEnding value hrest

theorem readSeparator_error {afterName isFirst : Bool} {fault : ParseError} (h : tokens ⊆ all)
    (hread : readSeparator stop afterName isFirst tokens = .error fault) :
    fault.FoundAmong all := by
  have hskip := skipBlanks_subset h
  unfold readSeparator at hread
  dsimp only at hread
  split at hread
  · split at hread
    · cases hread
    · split at hread
      · split at hread
        · cases hread
          exact ⟨hstop, rfl⟩
        · cases hread
      · split at hread
        · cases hread
          exact ⟨peek_mem hstop hskip, rfl⟩
        · cases hread
  · cases hread

end StaysAmong

/-! ## Faults of a row -/

section Row

variable {all : List Token} {stop : Token} (hstop : stop ∈ all)

include hstop

variable {tokens : List Token}

theorem foundAmong_readArguments (afterName isFirst : Bool) (h : tokens ⊆ all) :
    ∀ fault ∈ (readArguments stop afterName isFirst tokens).2, fault.FoundAmong all := by
  fun_induction readArguments stop afterName isFirst tokens with
  | case1 => simp
  | case2 isFirst tokens _ fault hread =>
      rintro _ ⟨⟩
      exact StaysAmong.readSeparator_error hstop h hread
  | case3 isFirst tokens _ start hseparator fault hread =>
      have hstart := List.Subset.trans (readSeparator_suffix hseparator).subset h
      have hargument := StaysAmong.readArgument hstop hstart
      rw [hread] at hargument
      rintro _ ⟨⟩
      exact hargument
  | case4 isFirst tokens _ start hseparator argument rest hread arguments fault heq ih =>
      have hstart := List.Subset.trans (readSeparator_suffix hseparator).subset h
      have hargument := StaysAmong.readArgument hstop hstart
      rw [hread] at hargument
      rw [heq] at ih
      exact ih hargument

theorem foundAmong_restErrors (h : tokens ⊆ all) :
    ∀ fault ∈ restErrors stop tokens, fault.FoundAmong all := by
  have hskip := StaysAmong.skipBlanks_subset h
  unfold restErrors
  split
  · simp
  · next token rest heq =>
    rw [heq] at hskip
    intro fault hfault
    rw [List.mem_singleton.1 hfault]
    exact ⟨StaysAmong.peek_mem hstop hskip, rfl⟩

theorem foundAmong_readHeadExpr (expected : Expected) (h : tokens ⊆ all) :
    ∀ fault ∈ (readHeadExpr stop expected tokens).2, fault.FoundAmong all := by
  have hskip := StaysAmong.skipBlanks_subset h
  unfold readHeadExpr
  split
  · intro fault hfault
    rw [List.mem_singleton.1 hfault]
    exact ⟨hstop, rfl⟩
  · next first rest heq =>
    rw [heq] at hskip
    have hexpr := StaysAmong.readExpr hstop false hskip
    split
    · next fault hread =>
      rw [hread] at hexpr
      intro fault hfault
      rw [List.mem_singleton.1 hfault]
      exact hexpr
    · next e after hread =>
      rw [hread] at hexpr
      exact foundAmong_restErrors hstop hexpr

theorem foundAmong_readMacroName (h : tokens ⊆ all) :
    ∀ fault ∈ (readMacroName stop tokens).2, fault.FoundAmong all := by
  have hskip := StaysAmong.skipBlanks_subset h
  unfold readMacroName
  split
  · intro fault hfault
    rw [List.mem_singleton.1 hfault]
    exact ⟨hstop, rfl⟩
  · next name rest heq =>
    rw [heq] at hskip
    exact foundAmong_restErrors hstop (List.subset_of_cons_subset hskip)

omit hstop in
theorem foundAmong_extensionErrors {ext : Option Token} (h : ∀ token ∈ ext, token ∈ all) :
    ∀ fault ∈ extensionErrors ext, fault.FoundAmong all := by
  unfold extensionErrors
  split
  · split
    · intro fault hfault
      rw [List.mem_singleton.1 hfault]
      exact ⟨h _ rfl, rfl⟩
    · simp
  · simp

theorem foundAmong_readCommandTail (name : Option Token) (h : tokens ⊆ all) :
    ∀ fault ∈ (readCommandTail stop name tokens).2, fault.FoundAmong all := by
  have htail {ext : Option Token} {rest : List Token} (hext : ∀ token ∈ ext, token ∈ tokens)
      (hrest : rest <:+ tokens) :
      ∀ fault ∈ extensionErrors ext ++ (readArguments stop name.isSome true rest).2.toList,
        fault.FoundAmong all := by
    intro fault hfault
    rcases List.mem_append.1 hfault with hfault | hfault
    · exact foundAmong_extensionErrors (fun token ht => h (hext token ht)) fault hfault
    · exact foundAmong_readArguments hstop _ true (List.Subset.trans hrest.subset h) fault
        (Option.mem_toList.1 hfault)
  cases name with
  | none => exact htail (by simp) (List.suffix_refl tokens)
  | some name =>
      obtain ⟨hext, hrest⟩ := readExtension?_spec name tokens
      exact htail hext hrest

theorem foundAmong_readContent {first : Token} (h : first :: tokens ⊆ all) :
    ∀ fault ∈ (readContent stop first tokens).2, fault.FoundAmong all := by
  have htokens := List.subset_of_cons_subset h
  unfold readContent
  split
  case h_1 | h_2 | h_3 | h_4 => exact foundAmong_readHeadExpr hstop _ htokens
  case h_5 => exact foundAmong_readMacroName hstop htokens
  case h_6 | h_7 => exact foundAmong_readCommandTail hstop (some first) htokens
  case h_8 =>
    split
    · exact foundAmong_readCommandTail hstop none h
    · intro fault hfault
      rw [List.mem_singleton.1 hfault]
      exact ⟨h List.mem_cons_self, rfl⟩

theorem foundAmong_readBehindLabel (hasLabel : Bool) (h : tokens ⊆ all) :
    ∀ fault ∈ (readBehindLabel stop hasLabel tokens).2, fault.FoundAmong all := by
  unfold readBehindLabel
  split
  · simp
  · next first rest =>
    have hskip := StaysAmong.skipBlanks_subset (List.subset_of_cons_subset h)
    split
    · split
      · simp
      · next second after heq =>
        rw [heq] at hskip
        exact foundAmong_readContent hstop hskip
    · split
      · intro fault hfault
        rw [List.mem_singleton.1 hfault]
        exact ⟨h List.mem_cons_self, rfl⟩
      · exact foundAmong_readContent hstop h

end Row

theorem Row.foundAmong_read (row : Row) :
    ∀ fault ∈ row.read.2.2, fault.FoundAmong (row.stop :: row.tokens) :=
  foundAmong_readBehindLabel List.mem_cons_self _
    (List.subset_cons_of_subset _ (readLabel?_spec row.tokens).2.subset)

theorem Row.head?_subset {row : Row} {token : Token} {rest : List Token}
    (h : row.head? = some (token, rest)) : token :: rest ⊆ row.tokens := by
  have hskip := skipBlanks_suffix row.tokens
  unfold Row.head? at h
  split at h
  · cases h
  · next heq =>
    cases h
    rw [heq] at hskip
    exact hskip.subset

/-- What follows the keyword of a row can be too much as well. -/
theorem Row.foundAmong_rest (row : Row) {token : Token} {rest : List Token}
    (h : row.head? = some (token, rest)) :
    ∀ fault ∈ restErrors row.stop rest, fault.FoundAmong (row.stop :: row.tokens) :=
  foundAmong_restErrors List.mem_cons_self
    (List.subset_cons_of_subset _ (List.subset_of_cons_subset (Row.head?_subset h)))

end Concrete

end Asm6502
