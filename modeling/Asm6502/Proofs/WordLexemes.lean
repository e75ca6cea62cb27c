import Asm6502.Proofs.LetterCase
import Asm6502.Proofs.LexemeCharacters

/-!
# Words in a text

What a word is can be said by its characters alone.  Wherever such characters stand in front of one
that does not go on with them they are cut off as one token, and every token of a word's kind is
made of such characters.  Behind a comma a word is a token of its own, unless it is the letter of an
index register: then the comma and the letter are one token.
-/

namespace Asm6502

/-- The name of an index register, in either case. -/
def IsIndexName (w : List Char) : Prop := capitals w = ['X'] ∨ capitals w = ['Y']

instance (w : List Char) : Decidable (IsIndexName w) :=
  inferInstanceAs (Decidable (_ ∨ _))

/-- The text is over or goes on with a character that belongs neither to a word nor to an ending. -/
def EndsName (rest : List Char) : Prop :=
  ∀ c ∈ rest.head?, isWordChar c = false ∧ c ≠ ')'

theorem endsName_cons {c : Char} (hword : isWordChar c = false) (hparen : c ≠ ')')
    (rest : List Char) : EndsName (c :: rest) := by
  intro d hd
  cases hd
  exact ⟨hword, hparen⟩

theorem EndsName.endsWord {rest : List Char} (h : EndsName rest) : EndsWord rest :=
  fun c hc => (h c hc).1

namespace Lexeme

/-! ## Cutting words off a text -/

variable {w more : List Char} {more : List Char}

/-- A word is cut off whole. -/
theorem form_word (h : IsWord w) (hmore : EndsWord more)
    (previous : Option Token.Kind) : Form previous w more (.token (wordKind w)) :=
  .worded (.word h) hmore
    ⟨fun hdot => absurd hdot (wordKind_ne w).1, fun hx => absurd hx (wordKind_ne w).2⟩

/-- A comma in front of a word that names no index register stands alone. -/
theorem form_comma {w : List Char} (h : IsWord w) (hindex : ¬ IsIndexName w) (more : List Char)
    (previous : Option Token.Kind) : Form previous [','] (w ++ more) (.token .comma) := by
  refine .comma fun letter hletter hahead => ?_
  rcases w with _ | ⟨c, _ | ⟨d, rest⟩⟩
  · exact h
  · -- Behind the first character the word is over, so it is that character alone.
    refine hindex ?_
    rcases hahead with ⟨rfl, -⟩
    simpa [IsIndexName, capitals] using hletter
  · have hd : isWordChar d = true := List.all_eq_true.1 h.2 d List.mem_cons_self
    rw [hahead.2 d rfl] at hd
    cases hd

/-- The kind of the ending that a comma makes with the name of an index register. -/
def endingKind (w : List Char) : Token.Kind := if capitals w = ['X'] then .commaX else .commaY

theorem endingKind_cases (w : List Char) :
    endingKind w = .commaX ∨ endingKind w = .commaY := by
  unfold endingKind
  split
  · exact .inl rfl
  · exact .inr rfl

/-- A comma takes the name of an index register behind it. -/
theorem form_index (h : IsIndexName w) (hmore : EndsName more)
    (previous : Option Token.Kind) : Form previous (',' :: w) more (.token (endingKind w)) := by
  have hparen : more.head? ≠ some ')' := fun hparen => (hmore ')' hparen).2 rfl
  rcases h with h | h
  all_goals
    obtain ⟨c, rest, rfl, hc, hrest⟩ := List.map_eq_cons_iff.1 h
    obtain rfl := List.map_eq_nil_iff.1 hrest
    simp only [endingKind, h]
  · exact .worded (.commaX hc) hmore.endsWord ⟨nofun, fun _ => hparen⟩
  · exact .worded (.commaY hc) hmore.endsWord ⟨nofun, nofun⟩

/-! ## Tokens by their kinds and texts -/

/-- The kinds and texts of tokens that follow one another, wherever they stand. -/
abbrev Spelling := List (Token.Kind × List Char)

def spelling (token : Token) : Token.Kind × List Char := (token.kind, token.literal.toList)

def CutsInto (text more : List Char) (pieces : Spelling) : Prop :=
  ∀ previous start, ∃ lexemes previous' stop,
    scan previous start (text ++ more) = lexemes ++ scan previous' stop more ∧
      lexemes.map (fun lexeme => (lexeme.shape, lexeme.taken)) =
        pieces.map fun piece => (.token piece.1, piece.2)

theorem cutsInto_nil (more : List Char) : CutsInto [] more [] :=
  fun previous start => ⟨[], previous, start, rfl, rfl⟩

theorem CutsInto.append {front back more : List Char} {a b : Spelling}
    (ha : CutsInto front (back ++ more) a) (hb : CutsInto back more b) :
    CutsInto (front ++ back) more (a ++ b) := by
  intro previous start
  obtain ⟨lexemes, middle, p, hscan, hmap⟩ := ha previous start
  obtain ⟨others, last, stop, hscan', hmap'⟩ := hb middle p
  refine ⟨lexemes ++ others, last, stop, ?_, ?_⟩
  · rw [List.append_assoc, hscan, hscan', List.append_assoc]
  · rw [List.map_append, hmap, hmap', List.map_append]

theorem cutsInto_of_cut {first : Char} {rest more : List Char} {kind : Token.Kind}
    (h : ∀ previous, cut previous first (rest ++ more) = (.token kind, rest.length)) :
    CutsInto (first :: rest) more [(kind, first :: rest)] := by
  intro previous start
  refine ⟨[⟨.token kind, first :: rest, start⟩], some kind, start.advance (first :: rest), ?_, rfl⟩
  rw [List.cons_append, scan, h previous]
  simp only [List.take_left, List.drop_left, List.singleton_append]
  rfl

theorem cutsInto_of_form {taken more : List Char} {kind : Token.Kind}
    (h : ∀ previous, Form previous taken more (.token kind)) :
    CutsInto taken more [(kind, taken)] := by
  obtain ⟨first, rest, rfl⟩ := List.exists_cons_of_ne_nil (h none).ne_nil
  exact cutsInto_of_cut fun previous => (h previous).cut_eq

def joint (w : List Char) : Spelling :=
  if IsIndexName w then [(endingKind w, ',' :: w)] else [(.comma, [',']), (wordKind w, w)]

theorem cutsInto_joint (h : IsWord w) (hmore : EndsName more) :
    CutsInto (',' :: w) more (joint w) := by
  unfold joint
  split
  · next hindex =>
    exact cutsInto_of_form (form_index hindex hmore)
  · next hindex =>
    exact (cutsInto_of_form (form_comma h hindex more)).append
      (cutsInto_of_form (form_word h hmore.endsWord))

theorem endsName_joints (words : List (List Char)) (hmore : EndsName more) :
    EndsName (words.flatMap (',' :: ·) ++ more) := by
  cases words with
  | nil => exact hmore
  | cons w words => exact endsName_cons isWordChar_comma (by decide) _

theorem cutsInto_joints {words : List (List Char)}
    (h : ∀ w ∈ words, IsWord w) (hmore : EndsName more) :
    CutsInto (words.flatMap (',' :: ·)) more (words.flatMap joint) := by
  induction words with
  | nil => exact cutsInto_nil more
  | cons w words ih =>
      obtain ⟨hw, hwords⟩ := List.forall_mem_cons.1 h
      exact (cutsInto_joint hw (endsName_joints words hmore)).append (ih hwords)

/-- Words with commas in between. -/
theorem cutsInto_words {w : List Char} {words : List (List Char)}
    (h : ∀ v ∈ w :: words, IsWord v) (hmore : EndsName more) :
    CutsInto (w ++ words.flatMap (',' :: ·)) more ((wordKind w, w) :: words.flatMap joint) := by
  obtain ⟨hw, hwords⟩ := List.forall_mem_cons.1 h
  exact (cutsInto_of_form (form_word hw (endsName_joints words hmore).endsWord)).append
    (cutsInto_joints hwords hmore)

theorem inner_of_mem_joint {w : List Char} {piece : Token.Kind × List Char} (h : piece ∈ joint w) :
    Inner piece.1 := by
  unfold joint at h
  split at h
  · have hinner : Inner (endingKind w) := by
      rcases endingKind_cases w with hkind | hkind <;> rw [hkind] <;> decide
    rw [List.mem_singleton.1 h]
    exact hinner
  · rcases List.mem_cons.1 h with rfl | h
    · decide
    · rw [List.mem_singleton.1 h]
      dsimp only
      exact inner_wordKind w

theorem tokens_of_spelling {lexemes : List Lexeme} {pieces : Spelling}
    (h : lexemes.map (fun lexeme => (lexeme.shape, lexeme.taken)) =
      pieces.map fun piece => (.token piece.1, piece.2)) :
    (lexemes.filterMap token?).map spelling = pieces ∧ lexemes.filterMap comment? = [] ∧
      lexemes.filterMap error? = [] := by
  induction pieces generalizing lexemes with
  | nil =>
      obtain rfl := List.map_eq_nil_iff.1 h
      exact ⟨rfl, rfl, rfl⟩
  | cons piece pieces ih =>
      obtain ⟨lexeme, others, rfl, hpiece, hothers⟩ := List.map_eq_cons_iff.1 h
      obtain ⟨htokens, hcomments, herrors⟩ := ih hothers
      obtain ⟨shape, taken, start⟩ := lexeme
      cases hpiece
      refine ⟨?_, by simpa [comment?] using hcomments, by simpa [error?] using herrors⟩
      simp [token?, asToken, spelling, htokens]

theorem start_of_head?_scan {previous : Option Token.Kind} {start : Position} {text : List Char}
    {lexeme : Lexeme} (h : lexeme ∈ (scan previous start text).head?) : lexeme.start = start := by
  cases text with
  | nil =>
      rw [scan] at h
      cases h
  | cons first rest =>
      rw [scan] at h
      cases h
      rfl

end Lexeme

open Lexeme

theorem tokenize_worded (source : String) : ∀ token ∈ (tokenize source).tokens,
    (token.kind.isWord = true ->
      IsWord token.literal.toList ∧ token.kind = wordKind token.literal.toList) ∧
    (token.kind = .commaX ∨ token.kind = .commaY ->
      ∃ w, token.literal.toList = ',' :: w ∧ IsIndexName w) := by
  intro token htoken
  rcases tokenize_writes source token htoken with hstring | hwrites
  · rw [hstring]
    exact ⟨fun h => absurd h (by decide), fun h => absurd h (by decide)⟩
  · refine ⟨hwrites.word, fun h => ?_⟩
    obtain ⟨c, hc, hletter⟩ := hwrites.ending h
    exact ⟨[c], hc, by simpa [IsIndexName, capitals] using hletter⟩

theorem tokenize_of_cutsInto {source : String} {pieces : Spelling}
    (h : CutsInto source.toList [] pieces) :
    ∃ tokens, tokenize source =
        ⟨tokens ++ [Token.endOfText (Position.origin.advance source.toList)], [], []⟩ ∧
      tokens.map spelling = pieces ∧ ∀ token ∈ tokens.head?, token.span.start = .origin := by
  obtain ⟨lexemes, previous, stop, hscan, hspelling⟩ := h none .origin
  rw [List.append_nil, scan, List.append_nil] at hscan
  obtain ⟨htokens, hcomments, herrors⟩ := tokens_of_spelling hspelling
  refine ⟨lexemes.filterMap token?, ?_, htokens, ?_⟩
  · simp only [tokenize, hscan, hcomments, herrors]
  · intro token htoken
    cases lexemes with
    | nil => cases htoken
    | cons lexeme lexemes =>
        have hstart : lexeme.start = .origin := start_of_head?_scan (by rw [hscan]; rfl)
        cases pieces with
        | nil => cases hspelling
        | cons piece pieces =>
            obtain ⟨shape, taken, start⟩ := lexeme
            have hshape : shape = .token piece.1 :=
              congrArg Prod.fst (List.cons.inj hspelling).1
            subst hshape
            cases htoken
            rw [asToken, span_eq]
            exact hstart

end Asm6502
