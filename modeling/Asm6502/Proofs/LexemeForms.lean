import Asm6502.Token.Lexer

/-!
# Forms of lexemes

What is cut off a text has one of a few forms, which say what its characters are and how the text
may go on behind them.  Any text with such a front is cut that way.  So all that is known of lexemes
follows from their forms, and a text can be changed as long as the forms in it stay.
-/

namespace Asm6502

def EndsRow (rest : List Char) : Prop :=
  ∀ c ∈ rest.head?, isLineBreak c = true

/-- The text is over or goes on with a character that no word holds. -/
def EndsWord (rest : List Char) : Prop :=
  ∀ c ∈ rest.head?, isWordChar c = false

/-- The characters of a word.  The first is no digit, or it is a dot with more behind it. -/
def IsWord : List Char -> Prop
  | [] => False
  | first :: rest =>
      (if first = '.' then rest ≠ [] else isWordChar first = true ∧ first.isDigit = false) ∧
        rest.all isWordChar = true

instance (w : List Char) : Decidable (IsWord w) :=
  match w with
  | [] => inferInstanceAs (Decidable False)
  | _ :: _ => inferInstanceAs (Decidable (_ ∧ _))

variable {c mark : Char} {rest : List Char}

theorem isWordChar_of_isDigit (h : c.isDigit = true) : isWordChar c = true := by
  have hsmall : c.toNat < 128 := by
    have hnine : c.toNat ≤ 57 := (Char.isDigit_iff_toNat.1 h).2
    omega
  simp [isWordChar, isAlphanumeric, Char.isAlphanum, hsmall, h]

/-- What holds of each blank, of which there are few. -/
theorem of_isBlank {p : Char -> Bool} (h : isBlank c = true)
    (hall : ∀ n ∈ List.range' 9 5 ++ List.range' 0x2000 11 ++
      [0x20, 0x85, 0xA0, 0x1680, 0x2028, 0x2029, 0x202F, 0x205F, 0x3000],
      p (Char.ofNat n) = true) : p c = true := by
  have hcode := hall c.toNat (by
    simp only [isBlank, Bool.or_eq_true, Bool.and_eq_true, decide_eq_true_eq, beq_iff_eq] at h
    simp only [List.mem_append, List.mem_range'_1, List.mem_cons]
    omega)
  rwa [Char.ofNat_toNat] at hcode

theorem isWordChar_of_isBlank (h : isBlank c = true) : isWordChar c = false := by
  simpa using of_isBlank (p := fun c => !isWordChar c) h (by decide +kernel)

theorem isBlank_of_isWordChar (h : isWordChar c = true) : isBlank c = false := by
  refine Bool.eq_false_iff.2 fun hblank => ?_
  rw [isWordChar_of_isBlank hblank] at h
  cases h

theorem ne_of_isWordChar (hmark : isWordChar mark = false)
    (h : isWordChar c = true) : (c == mark) = false := by
  rw [beq_eq_false_iff_ne]
  rintro rfl
  rw [h] at hmark
  cases hmark

namespace Lexeme

/-! ## Forms -/

/-- The letter of an index register, in either case, that starts no longer word. -/
def IndexAhead (letter : Char) : List Char -> Prop
  | [] => False
  | c :: rest => c.toUpper = letter ∧ EndsWord rest

def IndexBehindComma (rest : List Char) : Prop :=
  ∃ more, rest = ',' :: more ∧ IndexAhead 'Y' more

def isOctalMark (next : Option Char) : Bool := next.any fun c => c.isDigit && c != '0'

/-- How a number of a kind starts.  A `%` starts one only where no operand ends. -/
def StartsNumber (previous : Option Token.Kind) (first : Char) (next : Option Char) :
    Token.Kind -> Prop
  | .binary => first = '%' ∧ next.any Char.isDigit = true ∧
      previous.any Token.Kind.endsOperand = false
  | .hex => first = '$' ∧ next.isSome = true
  | .octal => first = '0' ∧ isOctalMark next = true
  | .decimal => first.isDigit = true ∧ (first == '0' && isOctalMark next) = false
  | _ => False

/-- A character that starts neither a word nor a number nor anything with an end of its own. -/
structure IsMark (c : Char) : Prop where
  blank : isBlank c = false
  word : isWordChar c = false
  digit : c.isDigit = false
  other : c ∉ ['\n', '\r', ';', '"', '\'', '.', ',', ')']

/-- Whether a mark and the character behind it open a comment or a number. -/
def opens (previous : Option Token.Kind) (first : Char) (next : Option Char) : Bool :=
  (first == '/' && next == some '*') ||
    (first == '%' && next.any Char.isDigit && !previous.any Token.Kind.endsOperand) ||
    (first == '$' && next.any isWordChar)

/-- Lexemes that their last character ends. -/
inductive Whole : List Char -> Shape -> Prop where
  | feed : Whole ['\n'] (.token .newline)
  | returnFeed : Whole ['\r', '\n'] (.token .newline)
  | blockComment {body : List Char} (h : throughCommentEnd? body = some body.length) :
      Whole ('/' :: '*' :: body) .comment
  | string {body : List Char} (h : ∀ c ∈ body, c ≠ '"' ∧ isLineBreak c = false) :
      Whole ('"' :: (body ++ ['"'])) (.token .stringLiteral)
  | char {c : Char} (h : isLineBreak c = false) : Whole ['\'', c] (.token .charLiteral)
  | tripleDot : Whole ['.', '.', '.'] (.token .tripleDot)
  | commaXParen {c : Char} (hc : c.toUpper = 'X') : Whole [',', c, ')'] (.token .commaXParen)
  | sign {first c : Char} {kind : Token.Kind} (h : Lexeme.sign first [c] = (.token kind, 1)) :
      Whole [first, c] (.token kind)

/-- Tokens that go on as long as a word would, and the characters behind which they end. -/
inductive Worded (previous : Option Token.Kind) : List Char -> Token.Kind -> Prop where
  | number {first : Char} {inner : List Char} {kind : Token.Kind}
      (hinner : ∀ c ∈ inner, isWordChar c = true)
      (h : StartsNumber previous first inner.head? kind) : Worded previous (first :: inner) kind
  | word {taken : List Char} (h : IsWord taken) : Worded previous taken (wordKind taken)
  | dot : Worded previous ['.'] .dot
  | commaX {c : Char} (hc : c.toUpper = 'X') : Worded previous [',', c] .commaX
  | commaY {c : Char} (hc : c.toUpper = 'Y') : Worded previous [',', c] .commaY
  | parenCommaY {c : Char} (hc : c.toUpper = 'Y') : Worded previous [')', ',', c] .parenCommaY

/-- Lexemes that go on to the end of their row. -/
inductive Rowed : List Char -> Shape -> Prop where
  | comment {body : List Char} (h : ∀ c ∈ body, isLineBreak c = false) :
      Rowed (';' :: body) .comment
  | openString {body : List Char} (h : ∀ c ∈ body, c ≠ '"' ∧ isLineBreak c = false) :
      Rowed ('"' :: body) .unclosedString
  | missingCharacter : Rowed ['\''] .missingCharacter

/-- The characters of a lexeme, behind a token of the kind before it, the rest of the text and the
shape of the lexeme. -/
inductive Form (previous : Option Token.Kind) : List Char -> List Char -> Shape -> Prop where
  | whole {taken : List Char} {shape : Shape} (h : Whole taken shape) (rest : List Char) :
      Form previous taken rest shape
  | worded {taken rest : List Char} {kind : Token.Kind} (h : Worded previous taken kind)
      (hrest : EndsWord rest) (hmark : (kind = .dot -> rest.head? ≠ some '.') ∧
        (kind = .commaX -> rest.head? ≠ some ')')) : Form previous taken rest (.token kind)
  | rowed {taken rest : List Char} {shape : Shape} (h : Rowed taken shape)
      (hrest : EndsRow rest) : Form previous taken rest shape
  | carriageReturn {rest : List Char} (hrest : rest.head? ≠ some '\n') :
      Form previous ['\r'] rest (.token .newline)
  | blanks {first : Char} {inner rest : List Char}
      (h : ∀ c ∈ first :: inner, isInlineBlank c = true)
      (hrest : ∀ c ∈ rest.head?, isInlineBlank c = false) :
      Form previous (first :: inner) rest (.token .whitespace)
  | openComment {body : List Char} (h : throughCommentEnd? body = none) :
      Form previous ('/' :: '*' :: body) [] .unclosedComment
  | doubleDot {rest : List Char} (hrest : rest.head? ≠ some '.') :
      Form previous ['.', '.'] rest (.token .doubleDot)
  | comma {rest : List Char} (hrest : ∀ letter ∈ ['X', 'Y'], ¬ IndexAhead letter rest) :
      Form previous [','] rest (.token .comma)
  | parenRight {rest : List Char} (hrest : ¬ IndexBehindComma rest) :
      Form previous [')'] rest (.token .parenRight)
  | sign {first : Char} {rest : List Char} {shape : Shape} (hfirst : IsMark first)
      (hrest : opens previous first rest.head? = false)
      (h : Lexeme.sign first rest.head?.toList = (shape, 0)) : Form previous [first] rest shape

variable {previous : Option Token.Kind} {first : Char} {inner : List Char} {shape : Shape}
  {condition : Char -> Bool}

/-! ## Runs -/

theorem take_run (condition : Char -> Bool) (text : List Char) :
    text.take (run condition text) = text.takeWhile condition := by
  unfold run
  induction text with
  | nil => rfl
  | cons c rest ih => by_cases h : condition c <;> simp [h, ih]

theorem drop_run (condition : Char -> Bool) (text : List Char) :
    text.drop (run condition text) = text.dropWhile condition := by
  unfold run
  induction text with
  | nil => rfl
  | cons c rest ih => by_cases h : condition c <;> simp [h, ih]

variable {text other : List Char}

theorem of_mem_take_run (h : c ∈ text.take (run condition text)) :
    condition c = true := by
  rw [take_run] at h
  exact List.all_eq_true.1 List.all_takeWhile c h

/-- Behind a run the text is over or goes on with a character outside the run. -/
theorem head?_drop_run (h : c ∈ (text.drop (run condition text)).head?) :
    condition c = false := by
  rw [drop_run] at h
  have := List.head?_dropWhile_not condition text
  rw [h] at this
  exact this

theorem run_append {text more : List Char} (htext : ∀ c ∈ text, condition c = true)
    (hmore : ∀ c ∈ more.head?, condition c = false) :
    run condition (text ++ more) = text.length := by
  have hstop : more.takeWhile condition = [] := by
    cases more with
    | nil => rfl
    | cons c more => simp [hmore c rfl]
  rw [run, List.takeWhile_append_of_pos htext, hstop, List.append_nil]

/-! ## What is looked at -/

theorem endsWord_drop_iff {n : Nat} : EndsWord (rest.drop n) ↔ wordAt rest n = false := by
  rw [EndsWord, List.head?_drop, wordAt]
  cases rest[n]? <;> simp

theorem indexAhead_iff {letter : Char} :
    IndexAhead letter rest ↔
      rest.head?.map Char.toUpper = some letter ∧ wordAt rest 1 = false := by
  rw [← endsWord_drop_iff]
  cases rest <;> simp [IndexAhead]

theorem indexBehindComma_iff : IndexBehindComma rest ↔
    (rest.head? == some ',' && rest[1]?.any (·.toUpper == 'Y') && !wordAt rest 2) = true := by
  rcases rest with _ | ⟨d, more⟩
  · simp [IndexBehindComma]
  · have hword : wordAt (d :: more) 2 = wordAt more 1 := rfl
    simp [IndexBehindComma, indexAhead_iff, List.head?_eq_getElem?, and_assoc, hword,
      Option.any_eq_true]

/-- A run of word characters starts with the first character of the text if that is one. -/
theorem head?_any_take_run (h : ∀ c, condition c = true -> isWordChar c = true)
    (rest : List Char) :
    (rest.take (run isWordChar rest)).head?.any condition = rest.head?.any condition := by
  rw [take_run]
  cases rest with
  | nil => rfl
  | cons c rest =>
      cases hc : isWordChar c with
      | true => simp [hc]
      | false =>
          have hcondition : condition c = false :=
            Bool.eq_false_iff.2 fun hcondition => by simp [h c hcondition] at hc
          simp [hc, hcondition]

theorem head?_any_append (h : ∀ c, condition c = true -> isWordChar c = true)
    (hrest : EndsWord rest) (front : List Char) :
    (front ++ rest).head?.any condition = front.head?.any condition := by
  rcases front with _ | ⟨c, front⟩
  · rcases rest with _ | ⟨c, rest⟩
    · rfl
    · refine Bool.eq_false_iff.2 fun hc => ?_
      have hword := hrest c rfl
      rw [h c hc] at hword
      cases hword
  · rfl

theorem isWordChar_of_octal (c : Char) (h : (c.isDigit && c != '0') = true) : isWordChar c = true :=
  isWordChar_of_isDigit (Bool.and_eq_true_iff.1 h).1

/-- A sign looks at most at one character behind its first. -/
theorem sign_cons (first c : Char) (rest : List Char) :
    sign first (c :: rest) = sign first [c] := by
  unfold sign
  split <;> simp_all

theorem sign_singleton (first : Char) (h : c ≠ '&' ∧ c ≠ '|' ∧ c ≠ '=' ∧ c ≠ '<' ∧ c ≠ '>') :
    sign first [c] = sign first [] := by
  unfold sign
  split <;> simp_all

theorem sign_head? (first : Char) (rest : List Char) :
    sign first rest.head?.toList = sign first rest := by
  cases rest with
  | nil => rfl
  | cons c rest => exact (sign_cons first c rest).symm

theorem throughCommentEnd?_cons (h : ∀ tail, c = '*' -> rest = '/' :: tail -> False) :
    throughCommentEnd? (c :: rest) = (throughCommentEnd? rest).map (· + 1) := by
  rw [throughCommentEnd?]
  exact h

theorem throughCommentEnd?_append {length : Nat}
    (h : throughCommentEnd? text = some length) (more : List Char) :
    throughCommentEnd? (text ++ more) = some length := by
  induction text using throughCommentEnd?.induct generalizing length with
  | case1 => cases h
  | case2 rest => exact h
  | case3 c rest hend ih =>
      rw [throughCommentEnd?_cons hend] at h
      obtain ⟨shorter, hshorter, rfl⟩ := Option.map_eq_some_iff.1 h
      rw [List.cons_append, throughCommentEnd?_cons, ih hshorter]
      · rfl
      · intro tail hstar hslash
        cases rest with
        | nil => cases hshorter
        | cons d rest => exact hend rest hstar (by rw [(List.cons.inj hslash).1])

theorem throughCommentEnd?_take {length : Nat} (h : throughCommentEnd? text = some length) :
    throughCommentEnd? (text.take length) = some (text.take length).length := by
  induction text using throughCommentEnd?.induct generalizing length with
  | case1 => cases h
  | case2 rest =>
      cases h
      rfl
  | case3 c rest hend ih =>
      rw [throughCommentEnd?_cons hend] at h
      obtain ⟨shorter, hshorter, rfl⟩ := Option.map_eq_some_iff.1 h
      rw [List.take_succ_cons, throughCommentEnd?_cons, ih hshorter]
      · rfl
      · intro tail hstar hslash
        cases rest with
        | nil => cases hshorter
        | cons d rest =>
            cases shorter with
            | zero => cases hslash
            | succ shorter => exact hend rest hstar (by rw [(List.cons.inj hslash).1])

/-! ## What is cut off has a form -/

/-- A shape and a length that cut a form off a text behind its first character. -/
def Cuts (previous : Option Token.Kind) (first : Char) (rest : List Char)
    (front : Shape × Nat) : Prop :=
  Form previous (first :: rest.take front.2) (rest.drop front.2) front.1

theorem cuts_ite {condition : Bool} {a b : Shape × Nat}
    (hthen : condition = true -> Cuts previous first rest a)
    (helse : condition = false -> Cuts previous first rest b) :
    Cuts previous first rest (if condition then a else b) := by
  cases condition with
  | true => exact hthen rfl
  | false => exact helse rfl

theorem endsWord_drop_run (rest : List Char) : EndsWord (rest.drop (run isWordChar rest)) :=
  fun _ hc => head?_drop_run hc

theorem number_cuts {kind : Token.Kind}
    (h : StartsNumber previous first (rest.take (run isWordChar rest)).head? kind) :
    Cuts previous first rest (.token kind, run isWordChar rest) := by
  refine .worded (.number (fun c hc => of_mem_take_run hc) h) (endsWord_drop_run rest) ?_
  constructor <;> rintro rfl <;> cases h

theorem wordKind_ne (w : List Char) : wordKind w ≠ .dot ∧ wordKind w ≠ .commaX := by
  unfold wordKind Token.Kind.ofKeyword?
  split <;> decide

theorem word_cuts (hfirst : if first = '.' then wordAt rest 0 = true
      else isWordChar first = true ∧ first.isDigit = false) :
    Cuts previous first rest (word first rest) := by
  have hne := wordKind_ne (first :: rest.take (run isWordChar rest))
  refine .worded (.word ⟨?_, List.all_eq_true.2 fun c hc => of_mem_take_run hc⟩)
    (endsWord_drop_run rest) ⟨fun h => absurd h hne.1, fun h => absurd h hne.2⟩
  split
  · next hdot =>
    -- A word that starts with a dot has a character behind it.
    rw [if_pos hdot] at hfirst
    cases rest with
    | nil => cases hfirst
    | cons c rest =>
        have hc : isWordChar c = true := hfirst
        simp [word, run, hc]
  · next hdot => rwa [if_neg hdot] at hfirst

theorem string_cuts (rest : List Char) : Cuts previous '"' rest (string rest) := by
  have hbody : ∀ c ∈ rest.take (run (fun c => c != '"' && !isLineBreak c) rest),
      c ≠ '"' ∧ isLineBreak c = false := by
    intro c hc
    simpa using of_mem_take_run hc
  refine cuts_ite (fun hquote => ?_) fun hquote => ?_
  · rw [Cuts, List.take_add_one, beq_iff_eq.1 hquote]
    exact .whole (.string hbody) _
  · refine .rowed (.openString hbody) fun c hc => ?_
    have hstop := head?_drop_run hc
    have hne : c ≠ '"' := by
      rintro rfl
      rw [List.head?_drop] at hc
      exact Bool.eq_false_iff.1 hquote (beq_iff_eq.2 hc)
    simpa [hne] using hstop

theorem blockComment_cuts (hstar : rest.head? = some '*') :
    Cuts previous '/' rest (blockComment rest) := by
  obtain ⟨tail, rfl⟩ := List.head?_eq_some_iff.1 hstar
  unfold blockComment
  split
  · next hend => exact .whole (.blockComment (throughCommentEnd?_take hend)) _
  · next hend =>
    rw [Cuts, List.take_length, List.drop_length]
    exact .openComment hend

theorem quotedChar_cuts (rest : List Char) : Cuts previous '\'' rest (quotedChar rest) := by
  cases rest with
  | nil => exact .rowed .missingCharacter (by simp [EndsRow])
  | cons c rest =>
      refine cuts_ite (fun hbreak => ?_) fun hbreak => .whole (.char hbreak) rest
      exact .rowed .missingCharacter (by simpa [EndsRow] using hbreak)

theorem comma_cuts (rest : List Char) : Cuts previous ',' rest (comma rest) := by
  unfold comma
  refine cuts_ite (fun hword => .comma (by simp [indexAhead_iff, hword])) fun hword => ?_
  rw [← endsWord_drop_iff] at hword
  rcases rest with _ | ⟨c, rest⟩
  · exact .comma (by simp [IndexAhead])
  simp only [List.head?_cons, Option.map_some, List.getElem?_cons_succ, ← List.head?_eq_getElem?]
  split
  · next hx =>
    have hx := Option.some.inj hx
    refine cuts_ite (fun hparen => ?_) fun hparen =>
      .worded (.commaX hx) hword ⟨by rintro ⟨⟩, fun _ => beq_eq_false_iff_ne.1 hparen⟩
    obtain ⟨after, rfl⟩ := List.head?_eq_some_iff.1 (beq_iff_eq.1 hparen)
    exact .whole (.commaXParen hx) after
  · next hy =>
    exact .worded (.commaY (Option.some.inj hy)) hword ⟨by rintro ⟨⟩, by rintro ⟨⟩⟩
  · next hx hy =>
    refine .comma ?_
    simpa [indexAhead_iff] using ⟨fun h => absurd h (by simpa using hx),
      fun h => absurd h (by simpa using hy)⟩

theorem parenRight_cuts (rest : List Char) : Cuts previous ')' rest (parenRight rest) := by
  refine cuts_ite (fun h => ?_) fun h => .parenRight ?_
  · obtain ⟨more, rfl, hindex⟩ := indexBehindComma_iff.2 h
    cases more with
    | nil => exact hindex.elim
    | cons c more => exact .worded (.parenCommaY hindex.1) hindex.2 ⟨nofun, nofun⟩
  · rw [List.drop_zero, indexBehindComma_iff, h]
    decide

theorem dots_cuts (hword : wordAt rest 0 = false) : Cuts previous '.' rest (dots rest) := by
  rw [← endsWord_drop_iff] at hword
  unfold dots
  split
  · exact .whole .tripleDot _
  · next hdot =>
    refine .doubleDot fun hhead => ?_
    obtain ⟨tail, htail⟩ := List.head?_eq_some_iff.1 hhead
    exact hdot tail htail
  · next hdot =>
    refine .worded .dot hword ⟨fun _ hhead => ?_, nofun⟩
    obtain ⟨tail, htail⟩ := List.head?_eq_some_iff.1 hhead
    exact hdot tail htail

theorem sign_cuts (hfirst : IsMark first) (hrest : opens previous first rest.head? = false) :
    Cuts previous first rest (sign first rest) := by
  have hcases : sign first rest = ((sign first rest).1, 0) ∨
      ∃ c tail kind, rest = c :: tail ∧ sign first rest = (.token kind, 1) := by
    unfold sign
    split <;> simp
  obtain hone | ⟨c, tail, kind, rfl, htwo⟩ := hcases
  · rw [hone]
    exact .sign hfirst hrest (by rw [List.drop_zero, sign_head?, hone])
  · rw [htwo]
    rw [sign_cons] at htwo
    exact .whole (.sign htwo) tail

/-- What is cut off a text has a form. -/
theorem cut_cuts (previous : Option Token.Kind) (first : Char) (rest : List Char) :
    Cuts previous first rest (cut previous first rest) := by
  unfold cut
  refine cuts_ite (fun h => beq_iff_eq.1 h ▸ .whole .feed rest) fun hfeed => ?_
  refine cuts_ite (fun h => ?carriageReturn) fun hreturn => ?_
  case carriageReturn =>
    rw [beq_iff_eq.1 h]
    split
    · next hhead =>
      obtain ⟨tail, rfl⟩ := List.head?_eq_some_iff.1 (beq_iff_eq.1 hhead)
      exact .whole .returnFeed tail
    · next hhead => exact .carriageReturn (by simpa using hhead)
  refine cuts_ite (fun h => ?blanks) fun hblank => ?_
  case blanks =>
    refine .blanks (List.forall_mem_cons.2 ⟨?_, fun c hc => of_mem_take_run hc⟩)
      fun c hc => head?_drop_run hc
    simp [isInlineBlank, isLineBreak, h, hfeed, hreturn]
  refine cuts_ite (fun h => ?comment) fun hcomment => ?_
  case comment =>
    rw [beq_iff_eq.1 h]
    refine .rowed (.comment fun c hc => ?_) fun c hc => ?_
    · simpa using of_mem_take_run hc
    · simpa using head?_drop_run hc
  refine cuts_ite (fun h => ?blockComment) fun hslash => ?_
  case blockComment =>
    rw [Bool.and_eq_true, beq_iff_eq, beq_iff_eq] at h
    exact h.1 ▸ blockComment_cuts h.2
  refine cuts_ite (fun h => beq_iff_eq.1 h ▸ string_cuts rest) fun hquote => ?_
  refine cuts_ite (fun h => beq_iff_eq.1 h ▸ quotedChar_cuts rest) fun happ => ?_
  refine cuts_ite (fun h => number_cuts ?_) fun hpercent => ?_
  · simp only [Bool.and_eq_true, beq_iff_eq, Bool.not_eq_true'] at h
    exact ⟨h.1.1, by rw [head?_any_take_run fun _ => isWordChar_of_isDigit, h.1.2], h.2⟩
  refine cuts_ite (fun h => number_cuts ?_) fun hdollar => ?_
  · rw [Bool.and_eq_true, beq_iff_eq, wordAt, ← List.head?_eq_getElem?,
      ← head?_any_take_run fun _ => id] at h
    exact ⟨h.1, Option.isSome_of_any h.2⟩
  refine cuts_ite (fun hdigit => cuts_ite (fun h => number_cuts ?_) fun h =>
    number_cuts ⟨hdigit, ?_⟩) fun hdigit => ?_
  · rw [Bool.and_eq_true, beq_iff_eq] at h
    exact ⟨h.1, by rw [isOctalMark, head?_any_take_run isWordChar_of_octal, h.2]⟩
  · rwa [isOctalMark, head?_any_take_run isWordChar_of_octal]
  refine cuts_ite (fun hdot => cuts_ite (fun hat => word_cuts ?_) fun hat =>
    beq_iff_eq.1 hdot ▸ dots_cuts hat) fun hdot => ?_
  · rw [if_pos (beq_iff_eq.1 hdot)]
    exact hat
  refine cuts_ite (fun hchar => word_cuts ?_) fun hword => ?_
  · rw [if_neg (beq_eq_false_iff_ne.1 hdot)]
    exact ⟨hchar, hdigit⟩
  refine cuts_ite (fun h => beq_iff_eq.1 h ▸ comma_cuts rest) fun hcomma => ?_
  refine cuts_ite (fun h => beq_iff_eq.1 h ▸ parenRight_cuts rest) fun hparen => ?_
  refine sign_cuts ⟨hblank, hword, hdigit, ?_⟩ ?_
  · simp only [beq_eq_false_iff_ne] at *
    simp [*]
  · rw [wordAt, ← List.head?_eq_getElem?] at hdollar
    simp [opens, hslash, hpercent, hdollar]

/-! ## Whatever has a form is cut off -/

theorem cut_blanks (hfirst : isInlineBlank first = true) :
    cut previous first rest = (.token .whitespace, run isInlineBlank rest) := by
  obtain ⟨hblank, hbreak⟩ := Bool.and_eq_true_iff.1 hfirst
  have hfeed : first ≠ '\n' ∧ first ≠ '\r' := by simpa [isLineBreak] using hbreak
  simp [cut, hfeed.1, hfeed.2, hblank]

theorem cut_of_isWordChar (hword : isWordChar first = true) (rest : List Char) :
    cut previous first rest =
      if first.isDigit then
        (.token (if first == '0' && isOctalMark rest.head? then .octal else .decimal),
          run isWordChar rest)
      else word first rest := by
  have hmark (mark : Char) (hmark : isWordChar mark = false) : (first == mark) = false :=
    ne_of_isWordChar hmark hword
  simp only [cut, isBlank_of_isWordChar hword, hword, hmark '\n' (by decide),
    hmark '\r' (by decide), hmark ';' (by decide), hmark '/' (by decide), hmark '"' (by decide),
    hmark '\'' (by decide), hmark '%' (by decide), hmark '$' (by decide), hmark '.' (by decide),
    Bool.false_and, Bool.false_eq_true, if_false, if_true]
  split
  · split <;> simp_all [isOctalMark]
  · rfl

theorem IsMark.cut_eq (h : IsMark first) (hrest : opens previous first rest.head? = false) :
    cut previous first rest = sign first rest := by
  have hmark : ∀ mark ∈ ['\n', '\r', ';', '"', '\'', '.', ',', ')'], (first == mark) = false := by
    rintro mark hmark
    rw [beq_eq_false_iff_ne]
    rintro rfl
    exact h.other hmark
  have hat : wordAt rest 0 = rest.head?.any isWordChar := by rw [wordAt, List.head?_eq_getElem?]
  simp only [opens, Bool.or_eq_false_iff] at hrest
  simp only [List.forall_mem_cons] at hmark
  simp only [cut, h.blank, h.word, h.digit, hmark, hat, hrest, Bool.false_eq_true, if_false]

theorem Whole.cut_eq (h : Whole (first :: inner) shape) (rest : List Char) :
    cut previous first (inner ++ rest) = (shape, inner.length) := by
  cases h with
  | feed | returnFeed | tripleDot => rfl
  | @blockComment body h =>
      show Lexeme.blockComment ('*' :: (body ++ rest)) = _
      simp [Lexeme.blockComment, throughCommentEnd?_append h]
  | @string body h =>
      have hrun : run (fun c => c != '"' && !isLineBreak c) (body ++ '"' :: rest) = body.length :=
        run_append (by simpa using h) (by simp)
      show Lexeme.string (body ++ ['"'] ++ rest) = _
      simp [Lexeme.string, hrun]
  | @char c h =>
      show quotedChar (c :: rest) = _
      simp [quotedChar, h]
  | @commaXParen c hc =>
      have hword : wordAt (c :: ')' :: rest) 1 = false := rfl
      show Lexeme.comma (c :: ')' :: rest) = _
      simp [Lexeme.comma, hc, hword]
  | @sign first c kind h =>
      have hfirst : first ∈ ['&', '|', '!', '=', '<', '>'] := by
        unfold Lexeme.sign at h
        split at h <;> simp_all
      have hsign := (sign_cons first c rest).trans h
      simp only [List.mem_cons, List.not_mem_nil, or_false] at hfirst
      rcases hfirst with rfl | rfl | rfl | rfl | rfl | rfl <;> exact hsign

theorem Worded.cut_eq {kind : Token.Kind} (h : Worded previous (first :: inner) kind)
    (hrest : EndsWord rest) (hmark : (kind = .dot -> rest.head? ≠ some '.') ∧
      (kind = .commaX -> rest.head? ≠ some ')')) :
    cut previous first (inner ++ rest) = (.token kind, inner.length) := by
  have hat (front : List Char) : wordAt (front ++ rest) front.length = false :=
    endsWord_drop_iff.1 (by rwa [List.drop_left])
  cases h with
  | number hinner h =>
      rw [← run_append hinner hrest]
      have hdigit := head?_any_append (fun _ => isWordChar_of_isDigit) hrest inner
      have hoctal : isOctalMark (inner ++ rest).head? = isOctalMark inner.head? :=
        head?_any_append isWordChar_of_octal hrest inner
      cases kind with
      | binary =>
          obtain ⟨rfl, hnext, hprevious⟩ := h
          show (if (inner ++ rest).head?.any Char.isDigit && _ then _ else _) = _
          rw [hdigit, hnext, hprevious]
          rfl
      | hex =>
          obtain ⟨rfl, hnext⟩ := h
          obtain ⟨c, hc⟩ := Option.isSome_iff_exists.1 hnext
          obtain ⟨inner, rfl⟩ := List.head?_eq_some_iff.1 hc
          show (if isWordChar c then _ else _) = _
          rw [if_pos (hinner c List.mem_cons_self)]
      | octal =>
          obtain ⟨rfl, hnext⟩ := h
          rw [cut_of_isWordChar (by decide), hoctal, hnext]
          rfl
      | decimal =>
          rw [cut_of_isWordChar (isWordChar_of_isDigit h.1), hoctal, h.1, h.2]
          rfl
      | _ => exact h.elim
  | word h =>
      obtain ⟨hfirst, hall⟩ := h
      have hinner : ∀ c ∈ inner, isWordChar c = true := List.all_eq_true.1 hall
      have hword : Lexeme.word first (inner ++ rest) =
          (.token (wordKind (first :: inner)), inner.length) := by
        simp [Lexeme.word, run_append hinner hrest]
      rw [← hword]
      by_cases hdot : first = '.'
      · subst hdot
        obtain ⟨c, inner, rfl⟩ := List.exists_cons_of_ne_nil hfirst
        show (if isWordChar c then _ else _) = _
        rw [if_pos (hinner c List.mem_cons_self)]
      · rw [if_neg hdot] at hfirst
        rw [cut_of_isWordChar hfirst.1, hfirst.2]
        rfl
  | dot =>
      show (if wordAt rest 0 then _ else dots rest) = _
      have hdot := hmark.1 rfl
      rw [show wordAt rest 0 = false from hat [], if_neg (by decide)]
      unfold dots
      split <;> simp_all
  | @commaX c hc =>
      show Lexeme.comma (c :: rest) = _
      have hparen := hmark.2 rfl
      rw [List.head?_eq_getElem?] at hparen
      simp [Lexeme.comma, show wordAt (c :: rest) 1 = false from hat [c], hc, hparen]
  | @commaY c hc =>
      show Lexeme.comma (c :: rest) = _
      simp [Lexeme.comma, show wordAt (c :: rest) 1 = false from hat [c], hc]
  | @parenCommaY c hc =>
      show Lexeme.parenRight (',' :: c :: rest) = _
      simp [Lexeme.parenRight, show wordAt (',' :: c :: rest) 2 = false from hat [',', c], hc]

theorem Rowed.cut_eq (h : Rowed (first :: inner) shape) (hrest : EndsRow rest) :
    cut previous first (inner ++ rest) = (shape, inner.length) := by
  cases h with
  | comment h =>
      have hrun : run (fun c => !isLineBreak c) (inner ++ rest) = inner.length :=
        run_append (by simpa using h) fun c hc => by simp [hrest c hc]
      rw [← hrun]
      rfl
  | openString h =>
      have hrun : run (fun c => c != '"' && !isLineBreak c) (inner ++ rest) = inner.length :=
        run_append (by simpa using h) fun c hc => by simp [hrest c hc]
      have hquote : (inner ++ rest)[inner.length]? ≠ some '"' := by
        rw [List.getElem?_append_right (Nat.le_refl _), Nat.sub_self, ← List.head?_eq_getElem?]
        exact fun hhead => absurd (hrest _ hhead) (by decide)
      show Lexeme.string (inner ++ rest) = _
      simp [Lexeme.string, hrun, hquote]
  | missingCharacter =>
      show quotedChar rest = _
      cases rest with
      | nil => rfl
      | cons c rest => simp [quotedChar, hrest c rfl]

theorem Form.cut_eq (h : Form previous (first :: inner) rest shape) :
    cut previous first (inner ++ rest) = (shape, inner.length) := by
  cases h with
  | whole h => exact h.cut_eq rest
  | worded h hrest hmark => exact h.cut_eq hrest hmark
  | rowed h hrest => exact h.cut_eq hrest
  | carriageReturn hrest => simp [cut, hrest]
  | blanks h hrest =>
      obtain ⟨hfirst, hinner⟩ := List.forall_mem_cons.1 h
      rw [cut_blanks hfirst, run_append hinner hrest]
  | @openComment body h =>
      show blockComment ('*' :: (body ++ [])) = _
      simp [blockComment, h]
  | doubleDot hrest =>
      show dots ('.' :: rest) = _
      unfold dots
      split <;> simp_all
  | comma hrest =>
      show Lexeme.comma rest = _
      simp only [List.forall_mem_cons, indexAhead_iff] at hrest
      unfold Lexeme.comma
      split
      · rfl
      · split <;> simp_all
  | parenRight hrest =>
      rw [indexBehindComma_iff] at hrest
      exact if_neg hrest
  | sign hfirst hrest h =>
      rw [sign_head?] at h
      exact (hfirst.cut_eq hrest).trans h

/-! ## Other texts behind a lexeme -/

/-- In the second text a lexeme sees nothing that it would not see in the first. -/
structure Shows (rest other : List Char) : Prop where
  word : EndsWord rest -> EndsWord other
  head : ∀ c, other.head? = some c -> isBlank c = false -> rest.head? = some c
  index : ∀ letter ∈ ['X', 'Y'], IndexAhead letter other -> IndexAhead letter rest
  behind : IndexBehindComma other -> IndexBehindComma rest

theorem shows_blank (h : ∀ c ∈ other.head?, isBlank c = true)
    (rest : List Char) : Shows rest other := by
  cases other with
  | nil => exact ⟨by simp [EndsWord], nofun, nofun, nofun⟩
  | cons c other =>
      have hc : isBlank c = true := h c rfl
      have hne {mark : Char} (hmark : isBlank mark = false) : c ≠ mark := by
        rintro rfl
        rw [hc] at hmark
        cases hmark
      refine ⟨fun _ d hd => ?_, ?_, ?_, ?_⟩
      · cases hd
        exact isWordChar_of_isBlank hc
      · rintro _ ⟨⟩ hblank
        rw [hc] at hblank
        cases hblank
      · rintro letter hletter ⟨hupper, -⟩
        have hno := of_isBlank (p := fun c => decide (c.toUpper ∉ ['X', 'Y'])) hc (by decide)
        exact absurd (hupper ▸ hletter) (of_decide_eq_true hno)
      · rintro ⟨more, hmore, -⟩
        exact absurd (List.cons.inj hmore).1 (hne (by decide))

theorem shows_cons (hword : EndsWord other -> EndsWord rest)
    (hindex : IndexAhead 'Y' other -> IndexAhead 'Y' rest) (c : Char) :
    Shows (c :: rest) (c :: other) := by
  refine ⟨id, fun _ h _ => h, fun _ _ h => ⟨h.1, hword h.2⟩, ?_⟩
  rintro ⟨_, ⟨⟩, h⟩
  exact ⟨rest, rfl, hindex h⟩

theorem Shows.head_or_blank (h : Shows rest other) :
    rest.head? = other.head? ∨ ∀ c ∈ other.head?, isBlank c = true := by
  cases hother : other.head? with
  | none => exact .inr nofun
  | some c =>
      cases hc : isBlank c with
      | false => exact .inl (h.head c hother hc)
      | true => exact .inr fun _ hd => Option.some.inj hd ▸ hc

theorem Shows.opens_eq_false (h : Shows rest other)
    (hopens : opens previous first rest.head? = false) :
    opens previous first other.head? = false := by
  rcases h.head_or_blank with hsame | hblank
  · rwa [← hsame]
  · cases hother : other.head? with
    | none => simp [opens]
    | some c =>
        have hword := isWordChar_of_isBlank (hblank c hother)
        have hdigit : c.isDigit = false :=
          Bool.eq_false_iff.2 fun hdigit => by simp [isWordChar_of_isDigit hdigit] at hword
        have hstar : c ≠ '*' := by
          rintro rfl
          cases hblank _ hother
        simp [opens, hword, hdigit, hstar]

theorem Shows.sign_eq (h : Shows rest other) (hsign : sign first rest.head?.toList = (shape, 0)) :
    sign first other.head?.toList = (shape, 0) := by
  rcases h.head_or_blank with hsame | hblank
  · rwa [← hsame]
  · have hnil : sign first [] = (shape, 0) := by
      unfold sign at hsign
      split at hsign <;> simp_all [sign]
    cases hother : other.head? with
    | none => exact hnil
    | some c =>
        have hc := of_isBlank (p := fun c => decide (c ∉ ['&', '|', '=', '<', '>']))
          (hblank c hother) (by decide)
        exact (sign_singleton first (by simpa using hc)).trans hnil

/-- A form stays in front of a text that shows it nothing more. -/
theorem Form.shows {taken other : List Char} (h : Form previous taken rest shape)
    (hother : Shows rest other) (hrow : Rowed taken shape -> EndsRow rest -> EndsRow other)
    (hfeed : taken = ['\r'] -> rest.head? ≠ some '\n' -> other.head? ≠ some '\n')
    (hblank : shape = .token .whitespace -> (∀ c ∈ rest.head?, isInlineBlank c = false) ->
      ∀ c ∈ other.head?, isInlineBlank c = false)
    (hopen : shape = .unclosedComment -> rest = [] -> other = []) :
    Form previous taken other shape := by
  have hhead {mark : Char} (hmark : isBlank mark = false) (hrest : rest.head? ≠ some mark) :
      other.head? ≠ some mark :=
    fun hsome => hrest (hother.head mark hsome hmark)
  cases h with
  | whole h => exact .whole h other
  | worded h hrest hmark =>
      exact .worded h (hother.word hrest)
        ⟨fun hdot => hhead (by decide) (hmark.1 hdot), fun hx => hhead (by decide) (hmark.2 hx)⟩
  | rowed h hrest => exact .rowed h (hrow h hrest)
  | carriageReturn hrest => exact .carriageReturn (hfeed rfl hrest)
  | blanks h hrest => exact .blanks h (hblank rfl hrest)
  | openComment h =>
      rw [hopen rfl rfl]
      exact .openComment h
  | doubleDot hrest => exact .doubleDot (hhead (by decide) hrest)
  | comma hrest =>
      exact .comma fun letter hletter h => hrest letter hletter (hother.index letter hletter h)
  | parenRight hrest => exact .parenRight fun h => hrest (hother.behind h)
  | sign hfirst hrest h => exact .sign hfirst (hother.opens_eq_false hrest) (hother.sign_eq h)

/-! ## Lexemes of a text -/

def kindBehind (lexeme : Lexeme) (previous : Option Token.Kind) : Option Token.Kind :=
  (lexeme.token?.map Token.kind).or previous

/-- Lexemes of a text from a position on, behind a token of the kind before it, by their forms. -/
inductive Scans : Option Token.Kind -> Position -> List Char -> List Lexeme -> Prop where
  | nil (previous : Option Token.Kind) (start : Position) : Scans previous start [] []
  | cons {previous : Option Token.Kind} {lexeme : Lexeme} {rest : List Char}
      {lexemes : List Lexeme} (h : Form previous lexeme.taken rest lexeme.shape)
      (hrest : Scans (lexeme.kindBehind previous) lexeme.stop rest lexemes) :
      Scans previous lexeme.start (lexeme.taken ++ rest) (lexeme :: lexemes)

theorem Form.ne_nil {taken : List Char} (h : Form previous taken rest shape) : taken ≠ [] := by
  rintro rfl
  cases h with
  | whole h | rowed h => cases h
  | worded h =>
      obtain _ | ⟨⟨⟩⟩ := h

theorem scan_scans (previous : Option Token.Kind) (start : Position) (text : List Char) :
    Scans previous start text (scan previous start text) := by
  fun_induction scan previous start text with
  | case1 => exact .nil _ _
  | case2 previous start first rest shape length hcut lexeme ih =>
      have hform := cut_cuts previous first rest
      rw [hcut] at hform
      have hscans : Scans previous lexeme.start _ (lexeme :: _) := .cons hform ih
      rwa [show lexeme.taken ++ rest.drop length = first :: rest by simp [lexeme]] at hscans

theorem Scans.scan_eq {start : Position} {lexemes : List Lexeme}
    (h : Scans previous start text lexemes) : scan previous start text = lexemes := by
  induction h with
  | nil => rw [scan]
  | @cons previous lexeme rest lexemes hform _ ih =>
      obtain ⟨shape, taken, start⟩ := lexeme
      obtain ⟨first, inner, rfl⟩ := List.exists_cons_of_ne_nil hform.ne_nil
      rw [List.cons_append, scan, hform.cut_eq]
      simp only [List.take_left, List.drop_left]
      rw [← ih]
      rfl

end Lexeme

end Asm6502
