import Asm6502.Proofs.LexemePositions

/-!
# The case of letters in a text

Putting the ASCII letters of a text in capitals changes the letters of its lexemes and nothing else:
every lexeme has the same shape, the same length and the same place.
-/

namespace Asm6502

/-! ## Letters -/

variable {c mark : Char}

theorem isAlpha_iff :
    c.isAlpha = true ↔ (65 ≤ c.toNat ∧ c.toNat ≤ 90) ∨ (97 ≤ c.toNat ∧ c.toNat ≤ 122) := by
  delta Char.isAlpha Char.isUpper Char.isLower
  simp [UInt32.le_iff_toNat_le, ← Char.toNat_val]

theorem isSmall_iff : ('a'.val ≤ c.val ∧ c.val ≤ 'z'.val) ↔ 97 ≤ c.toNat ∧ c.toNat ≤ 122 := by
  simp [UInt32.le_iff_toNat_le]

theorem toUpper_of_not_small (h : ¬ (97 ≤ c.toNat ∧ c.toNat ≤ 122)) : c.toUpper = c :=
  dif_neg (mt isSmall_iff.1 h)

theorem toNat_toUpper (h : 97 ≤ c.toNat ∧ c.toNat ≤ 122) : c.toUpper.toNat = c.toNat - 32 := by
  delta Char.toUpper
  rw [dif_pos (isSmall_iff.2 h)]
  change (c.val + _).toNat = _
  rw [UInt32.toNat_add]
  simp
  omega

@[simp] theorem toUpper_toUpper (c : Char) : c.toUpper.toUpper = c.toUpper := by
  by_cases hsmall : 97 ≤ c.toNat ∧ c.toNat ≤ 122
  · have hcode := toNat_toUpper hsmall
    exact toUpper_of_not_small (by omega)
  · rw [toUpper_of_not_small hsmall, toUpper_of_not_small hsmall]

theorem toUpper_cases (c : Char) :
    c.toUpper = c ∨ (c.isAlpha = true ∧ c.toUpper.isAlpha = true) := by
  by_cases hsmall : 97 ≤ c.toNat ∧ c.toNat ≤ 122
  · have hcode := toNat_toUpper hsmall
    exact .inr ⟨isAlpha_iff.2 (.inr hsmall), isAlpha_iff.2 (.inl (by omega))⟩
  · exact .inl (toUpper_of_not_small hsmall)

/-- What all letters have in common does not depend on their case. -/
theorem apply_toUpper {β : Type} {f : Char -> β} {value : β}
    (h : ∀ d : Char, d.isAlpha = true -> f d = value) (c : Char) : f c.toUpper = f c := by
  rcases toUpper_cases c with hc | ⟨hc, hupper⟩
  · rw [hc]
  · rw [h c hc, h c.toUpper hupper]

theorem isWordChar_of_isAlpha (h : c.isAlpha = true) : isWordChar c = true := by
  have hcode := isAlpha_iff.1 h
  have hsmall : c.toNat < 128 := by omega
  simp [isWordChar, isAlphanumeric, hsmall, Char.isAlphanum, h]

theorem isBlank_of_isAlpha (h : c.isAlpha = true) : isBlank c = false := by
  have hcode := isAlpha_iff.1 h
  rw [Bool.eq_false_iff]
  simp only [isBlank, ne_eq, Bool.or_eq_true, Bool.and_eq_true, decide_eq_true_eq, beq_iff_eq]
  omega

theorem isDigit_of_isAlpha (h : c.isAlpha = true) : c.isDigit = false := by
  have hcode := isAlpha_iff.1 h
  rw [Bool.eq_false_iff]
  simp only [Char.isDigit, ge_iff_le, UInt32.le_iff_toNat_le, Char.toNat_val, ne_eq,
    Bool.and_eq_true, decide_eq_true_eq]
  intro hdigit
  have h9 : c.toNat ≤ 57 := hdigit.2
  omega

theorem beq_of_isAlpha (hmark : mark.isAlpha = false) (h : c.isAlpha = true) :
    (c == mark) = false := by
  rw [beq_eq_false_iff_ne]
  rintro rfl
  rw [h] at hmark
  cases hmark

@[simp] theorem isWordChar_toUpper (c : Char) : isWordChar c.toUpper = isWordChar c :=
  apply_toUpper (fun _ => isWordChar_of_isAlpha) c

@[simp] theorem isBlank_toUpper (c : Char) : isBlank c.toUpper = isBlank c :=
  apply_toUpper (fun _ => isBlank_of_isAlpha) c

@[simp] theorem isDigit_toUpper (c : Char) : c.toUpper.isDigit = c.isDigit :=
  apply_toUpper (fun _ => isDigit_of_isAlpha) c

theorem toUpper_beq (hmark : mark.isAlpha = false) (c : Char) : (c.toUpper == mark) = (c == mark) :=
  apply_toUpper (f := (· == mark)) (fun _ => beq_of_isAlpha hmark) c

theorem toUpper_eq_iff (hmark : mark.isAlpha = false) : c.toUpper = mark ↔ c = mark := by
  rw [← beq_iff_eq, toUpper_beq hmark, beq_iff_eq]

theorem toUpper_ne (hmark : mark.isAlpha = false) (h : c ≠ mark) : c.toUpper ≠ mark :=
  fun hupper => h ((toUpper_eq_iff hmark).1 hupper)

@[simp] theorem isLineBreak_toUpper (c : Char) : isLineBreak c.toUpper = isLineBreak c := by
  rw [isLineBreak, toUpper_beq (by decide), toUpper_beq (by decide)]
  rfl

@[simp] theorem isInlineBlank_toUpper (c : Char) : isInlineBlank c.toUpper = isInlineBlank c := by
  simp [isInlineBlank]

/-! ## What is looked at to cut a text -/

def capitals (text : List Char) : List Char := text.map Char.toUpper

@[simp] theorem capitals_nil : capitals [] = [] := rfl

@[simp] theorem capitals_cons (c : Char) (text : List Char) :
    capitals (c :: text) = c.toUpper :: capitals text := rfl

@[simp] theorem length_capitals (text : List Char) : (capitals text).length = text.length :=
  List.length_map ..

theorem take_capitals (n : Nat) (text : List Char) :
    (capitals text).take n = capitals (text.take n) :=
  (List.map_take ..).symm

theorem drop_capitals (n : Nat) (text : List Char) :
    (capitals text).drop n = capitals (text.drop n) :=
  (List.map_drop ..).symm

theorem toList_upcase (text : String) : (upcase text).toList = capitals text.toList := by
  simp [upcase, capitals]

theorem upcase_ofList (text : List Char) :
    upcase (String.ofList text) = String.ofList (capitals text) := by
  simp [upcase, capitals]

namespace Lexeme

theorem run_capitals {condition : Char -> Bool} (h : ∀ c, condition c.toUpper = condition c)
    (text : List Char) : run condition (capitals text) = run condition text := by
  have hsame : condition ∘ Char.toUpper = condition := funext h
  rw [run, capitals, List.takeWhile_map, List.length_map, hsame]
  rfl

theorem wordAt_capitals (text : List Char) (i : Nat) :
    wordAt (capitals text) i = wordAt text i := by
  rw [wordAt, capitals, List.getElem?_map, Option.any_map]
  simp [wordAt]

theorem getElem?_capitals_beq (mark : Char) (hmark : mark.isAlpha = false) (text : List Char)
    (i : Nat) : ((capitals text)[i]? == some mark) = (text[i]? == some mark) := by
  rw [capitals, List.getElem?_map]
  cases text[i]? with
  | none => rfl
  | some c => exact toUpper_beq hmark c

theorem head?_capitals_beq (mark : Char) (hmark : mark.isAlpha = false) (text : List Char) :
    ((capitals text).head? == some mark) = (text.head? == some mark) := by
  cases text with
  | nil => rfl
  | cons c rest => exact toUpper_beq hmark c

theorem head?_capitals_any {condition : Char -> Bool} (h : ∀ c, condition c.toUpper = condition c)
    (text : List Char) : (capitals text).head?.any condition = text.head?.any condition := by
  cases text with
  | nil => rfl
  | cons c rest => exact h c

theorem unifiedName_capitals (text : List Char) :
    unifiedName (String.ofList (capitals text)) = unifiedName (String.ofList text) := by
  have hupper (text : List Char) :
      upcase (String.ofList (capitals text)) = upcase (String.ofList text) := by
    simp [upcase, capitals, Function.comp_def]
  cases text with
  | nil => rfl
  | cons c rest =>
      by_cases hdot : c = '.'
      · subst hdot
        simpa [unifiedName, dropDot, show '.'.toUpper = '.' from rfl] using hupper rest
      · have hdot' : c.toUpper ≠ '.' := toUpper_ne (by decide) hdot
        simpa [unifiedName, dropDot, hdot, hdot'] using hupper (c :: rest)

theorem wordKind_capitals (text : List Char) : wordKind (capitals text) = wordKind text := by
  rw [wordKind, unifiedName_capitals]
  rfl

/-! ## Lexemes of each kind -/

theorem word_capitals (first : Char) (rest : List Char) :
    word first.toUpper (capitals rest) = word first rest := by
  have hkind := wordKind_capitals (first :: rest.take (run isWordChar rest))
  rw [word, run_capitals isWordChar_toUpper, take_capitals, ← capitals_cons, hkind]
  rfl

theorem string_capitals (rest : List Char) : string (capitals rest) = string rest := by
  have hrun : run (fun c => c != '"' && !isLineBreak c) (capitals rest) =
      run (fun c => c != '"' && !isLineBreak c) rest := by
    refine run_capitals (fun c => ?_) rest
    rw [bne, toUpper_beq (by decide), isLineBreak_toUpper]
    rfl
  simp only [string, hrun, getElem?_capitals_beq '"' (by decide)]

theorem throughCommentEnd?_capitals (text : List Char) :
    throughCommentEnd? (capitals text) = throughCommentEnd? text := by
  fun_induction throughCommentEnd? text with
  | case1 => rfl
  | case2 rest => rfl
  | case3 c rest hend ih =>
      rw [capitals_cons, throughCommentEnd?, ih]
      intro more hc hrest
      have hstar : c = '*' := (toUpper_eq_iff (by decide)).1 hc
      cases rest with
      | nil => cases hrest
      | cons d rest =>
          have hslash : d = '/' := (toUpper_eq_iff (by decide)).1 (List.cons.inj hrest).1
          exact hend rest hstar (by rw [hslash])

theorem blockComment_capitals (rest : List Char) :
    blockComment (capitals rest) = blockComment rest := by
  rw [blockComment, drop_capitals, throughCommentEnd?_capitals, length_capitals]
  rfl

theorem quotedChar_capitals (rest : List Char) : quotedChar (capitals rest) = quotedChar rest := by
  cases rest with
  | nil => rfl
  | cons c rest => simp [quotedChar]

theorem comma_capitals (rest : List Char) : comma (capitals rest) = comma rest := by
  have hhead : (capitals rest).head?.map Char.toUpper = rest.head?.map Char.toUpper := by
    cases rest with
    | nil => rfl
    | cons c rest => simp
  simp only [comma, wordAt_capitals, hhead, getElem?_capitals_beq ')' (by decide)]

theorem parenRight_capitals (rest : List Char) : parenRight (capitals rest) = parenRight rest := by
  have hindex : (capitals rest)[1]?.any (·.toUpper == 'Y') = rest[1]?.any (·.toUpper == 'Y') := by
    rw [capitals, List.getElem?_map]
    cases rest[1]? with
    | none => rfl
    | some c => simp
  simp only [parenRight, wordAt_capitals, hindex, head?_capitals_beq ',' (by decide)]

theorem dots_capitals (rest : List Char) : dots (capitals rest) = dots rest := by
  have hdot {c : Char} (h : c ≠ '.') : c.toUpper ≠ '.' := toUpper_ne (by decide) h
  match rest with
  | [] => rfl
  | [c] =>
      by_cases hc : c = '.'
      · subst hc
        rfl
      · simp [dots, hc, hdot hc]
  | c :: d :: rest =>
      by_cases hc : c = '.'
      · by_cases hd : d = '.'
        · subst hc hd
          rfl
        · subst hc
          simp [dots, hd, hdot hd, show '.'.toUpper = '.' from rfl]
      · simp [dots, hc, hdot hc]

theorem sign_of_isAlpha (first : Char) {c : Char} (h : c.isAlpha = true) :
    sign first [c] = sign first [] := by
  refine sign_singleton first ⟨?_, ?_, ?_, ?_, ?_⟩ <;>
    exact beq_eq_false_iff_ne.1 (beq_of_isAlpha (by decide) h)

theorem sign_capitals (first : Char) (rest : List Char) :
    sign first (capitals rest) = sign first rest := by
  cases rest with
  | nil => rfl
  | cons c rest =>
      rw [capitals_cons, sign_cons, sign_cons first c]
      rcases toUpper_cases c with hc | ⟨hc, hupper⟩
      · rw [hc]
      · rw [sign_of_isAlpha first hc, sign_of_isAlpha first hupper]

/-- A letter starts a word. -/
theorem cut_of_isAlpha (previous : Option Token.Kind) {first : Char} (h : first.isAlpha = true)
    (rest : List Char) : cut previous first rest = word first rest := by
  have hmark (mark : Char) (hmark : mark.isAlpha = false) : (first == mark) = false :=
    beq_of_isAlpha hmark h
  simp [cut, isBlank_of_isAlpha h, isDigit_of_isAlpha h, isWordChar_of_isAlpha h,
    hmark '\n' (by decide), hmark '\r' (by decide), hmark ';' (by decide), hmark '/' (by decide),
    hmark '"' (by decide), hmark '\'' (by decide), hmark '%' (by decide), hmark '$' (by decide),
    hmark '.' (by decide)]

/-- The lexeme at the front of a text does not depend on the case of its letters. -/
theorem cut_capitals (previous : Option Token.Kind) (first : Char) (rest : List Char) :
    cut previous first.toUpper (capitals rest) = cut previous first rest := by
  rcases toUpper_cases first with hfirst | ⟨hfirst, hupper⟩
  · have hoctal : (capitals rest).head?.any (fun c => c.isDigit && c != '0') =
        rest.head?.any fun c => c.isDigit && c != '0' := by
      refine head?_capitals_any (fun c => ?_) rest
      rw [isDigit_toUpper, bne, toUpper_beq (by decide)]
      rfl
    have hrow : run (fun c => !isLineBreak c) (capitals rest) =
        run (fun c => !isLineBreak c) rest :=
      run_capitals (fun c => by rw [isLineBreak_toUpper]) rest
    have hword : word first (capitals rest) = word first rest := by
      rw [← word_capitals first rest, hfirst]
    rw [hfirst]
    simp only [cut, head?_capitals_beq '\n' (by decide), run_capitals isInlineBlank_toUpper, hrow,
      head?_capitals_beq '*' (by decide), blockComment_capitals, string_capitals,
      quotedChar_capitals, head?_capitals_any isDigit_toUpper, run_capitals isWordChar_toUpper,
      wordAt_capitals, hoctal, hword, dots_capitals, comma_capitals, parenRight_capitals,
      sign_capitals]
  · rw [cut_of_isAlpha previous hupper, cut_of_isAlpha previous hfirst, word_capitals]

end Lexeme

/-! ## Lexemes of a text -/

theorem Position.advance_capitals (p : Position) (text : List Char) :
    p.advance (capitals text) = p.advance text := by
  induction text generalizing p with
  | nil => rfl
  | cons c rest ih =>
      have hreturn : (c.toUpper = '\r' ∧ (capitals rest).head? = some '\n') ↔
          (c = '\r' ∧ rest.head? = some '\n') := by
        have hfeed := Lexeme.head?_capitals_beq '\n' (by decide) rest
        rw [Bool.eq_iff_iff, beq_iff_eq, beq_iff_eq] at hfeed
        rw [toUpper_eq_iff (by decide), hfeed]
      rw [capitals_cons, advance_cons, advance_cons, ih, ih, ih]
      simp only [hreturn, isLineBreak_toUpper]

def Token.upcased (token : Token) : Token := { token with literal := upcase token.literal }

namespace Lexeme

def upcased (lexeme : Lexeme) : Lexeme := { lexeme with taken := capitals lexeme.taken }

theorem span_upcased (lexeme : Lexeme) : lexeme.upcased.span = lexeme.span := by
  simp only [span, upcased, stop, Position.advance_capitals, length_capitals]

theorem token?_upcased (lexeme : Lexeme) :
    lexeme.upcased.token? = lexeme.token?.map Token.upcased := by
  have hspan := lexeme.span_upcased
  unfold token? asToken
  rw [hspan]
  cases hshape : lexeme.shape <;> simp [upcased, hshape, Token.upcased, upcase_ofList]

theorem comment?_upcased (lexeme : Lexeme) :
    lexeme.upcased.comment? = lexeme.comment?.map Token.upcased := by
  have hspan := lexeme.span_upcased
  unfold comment? asToken
  rw [hspan]
  cases hshape : lexeme.shape <;> simp [upcased, hshape, Token.upcased, upcase_ofList]

theorem scan_capitals (previous : Option Token.Kind) (start : Position) (text : List Char) :
    scan previous start (capitals text) = (scan previous start text).map upcased := by
  fun_induction scan previous start text with
  | case1 => simp [scan]
  | case2 previous start first rest shape length hcut lexeme ih =>
      have hkind : lexeme.upcased.token?.map Token.kind = lexeme.token?.map Token.kind := by
        rw [token?_upcased, Option.map_map]
        rfl
      have hstop : lexeme.upcased.stop = lexeme.stop := Position.advance_capitals _ _
      have hlexeme : lexeme.upcased =
          ⟨shape, first.toUpper :: capitals (rest.take length), start⟩ := rfl
      rw [capitals_cons, scan]
      simp only [cut_capitals, hcut, take_capitals, drop_capitals]
      rw [List.map_cons, ← ih, ← hlexeme, hkind, hstop]

theorem scan_unexpected (previous : Option Token.Kind) (start : Position) (text : List Char) :
    ∀ lexeme ∈ scan previous start text, lexeme.shape = .unexpectedCharacter ->
      (lexeme.taken.headD ' ').isAlpha = false := by
  fun_induction scan previous start text with
  | case1 => simp
  | case2 previous start first rest shape length hcut lexeme ih =>
      intro l hl hshape
      rcases List.mem_cons.1 hl with rfl | hl
      · cases hfirst : first.isAlpha with
        | false => exact hfirst
        | true =>
            rw [cut_of_isAlpha previous hfirst, word] at hcut
            have hword : shape = _ := (congrArg Prod.fst hcut).symm
            rw [show shape = .unexpectedCharacter from hshape] at hword
            cases hword
      · exact ih l hl hshape

theorem error?_upcased {lexeme : Lexeme}
    (h : lexeme.shape = .unexpectedCharacter -> (lexeme.taken.headD ' ').isAlpha = false) :
    lexeme.upcased.error? = lexeme.error? := by
  have hspan := lexeme.span_upcased
  unfold error?
  rw [hspan]
  cases hshape : lexeme.shape with
  | unexpectedCharacter =>
      have hsame : lexeme.upcased.taken.headD ' ' = lexeme.taken.headD ' ' := by
        have hletter : (lexeme.taken.headD ' ').toUpper = lexeme.taken.headD ' ' := by
          refine (toUpper_cases _).resolve_right fun hcases => ?_
          rw [h hshape] at hcases
          cases hcases.1
        cases htaken : lexeme.taken with
        | nil => simp [upcased, htaken]
        | cons c taken => simpa [upcased, htaken] using hletter
      simp [upcased, hshape] at hsame ⊢
      exact hsame
  | _ => simp [upcased, hshape]

theorem filterMap_error?_upcased {lexemes : List Lexeme}
    (h : ∀ lexeme ∈ lexemes, lexeme.shape = .unexpectedCharacter ->
      (lexeme.taken.headD ' ').isAlpha = false) :
    (lexemes.map upcased).filterMap error? = lexemes.filterMap error? := by
  induction lexemes with
  | nil => rfl
  | cons lexeme lexemes ih =>
      have herror := error?_upcased (h lexeme List.mem_cons_self)
      have htail := ih fun l hl => h l (List.mem_cons_of_mem lexeme hl)
      simp only [List.map_cons, List.filterMap_cons, herror, htail]

end Lexeme

/-- The tokens of a text in capitals are its tokens in capitals, at the same places, and its faults
are the same. -/
theorem tokenize_upcase_eq (text : String) :
    tokenize (upcase text) =
      { tokens := (tokenize text).tokens.map Token.upcased
        comments := (tokenize text).comments.map Token.upcased
        errors := (tokenize text).errors } := by
  have herrors := Lexeme.filterMap_error?_upcased
    (Lexeme.scan_unexpected none .origin text.toList)
  have htokens : Lexeme.token? ∘ Lexeme.upcased = fun lexeme =>
      lexeme.token?.map Token.upcased := funext Lexeme.token?_upcased
  have hcomments : Lexeme.comment? ∘ Lexeme.upcased = fun lexeme =>
      lexeme.comment?.map Token.upcased := funext Lexeme.comment?_upcased
  simp only [tokenize, toList_upcase, Lexeme.scan_capitals, Position.advance_capitals, herrors,
    List.map_append, List.filterMap_map, List.map_filterMap, htokens, hcomments]
  rfl

end Asm6502
