import Mathlib.Data.List.Forall2
import Asm6502.Concrete.Row
import Asm6502.Proofs.ExprGrammar

/-!
# Reworded tokens

A rewording changes how the tokens of a text are written, but nothing that the reader looks at: the
kinds of tokens, where they start, and whether one touches the other.  Expressions, labels and
faults are reworded token by token, and their spans stay alike.
-/

namespace Asm6502

namespace Concrete

/-- A change to the way in which tokens are written that reading does not notice. -/
structure Rewording where
  token : Token -> Token
  /-- The bodies of macros, which are read as text. -/
  body : String -> String
  /-- A span of the text and the one that stands for it in the other text. -/
  Alike : Span -> Span -> Prop
  kind_token : ∀ t, (token t).kind = t.kind
  stop_token : ∀ t, t.kind ≠ .newline -> (token t).span.stop = t.span.stop
  dotted_token : ∀ t, t.kind = .identifier ->
    ((token t).literal.toList.head? = some '.' ↔ t.literal.toList.head? = some '.')
  suffix_token : ∀ t, t.kind = .identifier ->
    (Extension.ofSuffix? (token t).literal).isNone = (Extension.ofSuffix? t.literal).isNone
  fragment_token : ∀ t, t.kind = .commaX ∨ t.kind = .commaY ->
    endingFragment (token t) = token (endingFragment t)
  alike_token : ∀ t, Alike t.span (token t).span
  alike_empty : ∀ p, Alike (.empty p) (.empty p)
  alike_union : ∀ {a b c d : Span}, Alike a b -> Alike c d -> Alike (a.union c) (b.union d)
  start_eq : ∀ {a b : Span}, Alike a b -> b.start = a.start

namespace Rewording

/-- A rewording that keeps all spans. -/
def inPlace (token : Token -> Token) (body : String -> String)
    (kind_token : ∀ t, (token t).kind = t.kind) (span_token : ∀ t, (token t).span = t.span)
    (dotted_token : ∀ t, t.kind = .identifier ->
      ((token t).literal.toList.head? = some '.' ↔ t.literal.toList.head? = some '.'))
    (suffix_token : ∀ t, t.kind = .identifier ->
      (Extension.ofSuffix? (token t).literal).isNone = (Extension.ofSuffix? t.literal).isNone)
    (fragment_token : ∀ t, t.kind = .commaX ∨ t.kind = .commaY ->
      endingFragment (token t) = token (endingFragment t)) : Rewording where
  token := token
  body := body
  Alike := Eq
  kind_token := kind_token
  stop_token t _ := by rw [span_token]
  dotted_token := dotted_token
  suffix_token := suffix_token
  fragment_token := fragment_token
  alike_token t := (span_token t).symm
  alike_empty _ := rfl
  alike_union h h' := by rw [h, h']
  start_eq h := by rw [h]

variable (w : Rewording)

/-! ## Reworded trees -/

def expr : Expr -> Expr
  | .atom token => .atom (w.token token)
  | .label fragments => .label (fragments.map w.token)
  | .macroArgument opening number closing =>
      .macroArgument (w.token opening) (w.token number) (w.token closing)
  | .unary operator operand => .unary (w.token operator) (expr operand)
  | .binary left operator right => .binary (expr left) (w.token operator) (expr right)
  | .round opening inner closing => .round (w.token opening) (expr inner) (w.token closing)
  | .square opening inner closing => .square (w.token opening) (expr inner) (w.token closing)

def argument : Argument -> Argument
  | .immediate hash value => .immediate (w.token hash) (w.expr value)
  | .address value ending => .address (w.expr value) (ending.map w.token)
  | .indirect opening value closing =>
      .indirect (w.token opening) (w.expr value) (w.token closing)

def label (label : Label) : Label :=
  ⟨w.token label.first, label.others.map w.token, label.colon.map w.token⟩

def error : ParseError -> ParseError
  | .unexpectedToken expected found => .unexpectedToken expected (w.token found)
  | .unterminatedBlock expected opened => .unterminatedBlock expected (w.token opened)
  | .unknownExtension token => .unknownExtension (w.token token)
  | .nestingTooDeep token => .nestingTooDeep (w.token token)

theorem start_token (t : Token) : (w.token t).span.start = t.span.start :=
  w.start_eq (w.alike_token t)

/-! ## Spans -/

theorem getLastD_map (tokens : List Token) (first : Token) :
    (tokens.map w.token).getLastD (w.token first) = w.token (tokens.getLastD first) := by
  rw [List.getLastD_eq_getLast?, List.getLastD_eq_getLast?, List.getLast?_map]
  cases tokens.getLast? <;> rfl

theorem alike_expr (e : Expr) : w.Alike e.span (w.expr e).span := by
  induction e with
  | atom token => exact w.alike_token token
  | label fragments =>
      cases fragments with
      | nil => exact w.alike_empty _
      | cons first rest =>
          have hspan : (w.expr (.label (first :: rest))).span =
              (w.token first).span.union
                (((first :: rest).map w.token).getLastD (w.token first)).span := rfl
          rw [hspan, w.getLastD_map]
          exact w.alike_union (w.alike_token _) (w.alike_token _)
  | macroArgument | round | square =>
      exact w.alike_union (w.alike_token _) (w.alike_token _)
  | unary operator operand ih => exact w.alike_union (w.alike_token _) ih
  | binary left operator right ihleft ihright => exact w.alike_union ihleft ihright

theorem alike_argument (a : Argument) : w.Alike a.span (w.argument a).span := by
  cases a with
  | immediate hash value => exact w.alike_union (w.alike_token _) (w.alike_expr value)
  | address value ending =>
      cases ending with
      | none => exact w.alike_expr value
      | some ending => exact w.alike_union (w.alike_expr value) (w.alike_token _)
  | indirect => exact w.alike_union (w.alike_token _) (w.alike_token _)

theorem alike_label (l : Label) : w.Alike l.span (w.label l).span := by
  obtain ⟨first, others, colon⟩ := l
  have hnamed : w.Alike (first.span.union (others.getLastD first).span)
      ((w.token first).span.union ((others.map w.token).getLastD (w.token first)).span) := by
    rw [w.getLastD_map]
    exact w.alike_union (w.alike_token _) (w.alike_token _)
  cases colon with
  | none => exact hnamed
  | some colon => exact w.alike_union hnamed (w.alike_token _)

theorem alike_foldl_union {spans spans' : List Span} (h : List.Forall₂ w.Alike spans spans')
    {a b : Span} (hab : w.Alike a b) :
    w.Alike (spans.foldl Span.union a) (spans'.foldl Span.union b) := by
  induction h generalizing a b with
  | nil => exact hab
  | cons hspan _ ih => exact ih (w.alike_union hab hspan)

theorem alike_cover? {spans spans' : List Span} (h : List.Forall₂ w.Alike spans spans')
    (p : Position) :
    w.Alike ((Span.cover? spans).getD (.empty p)) ((Span.cover? spans').getD (.empty p)) := by
  cases h with
  | nil => exact w.alike_empty p
  | cons hspan hrest => exact w.alike_foldl_union hrest hspan

section Parts

variable {α : Type} {span : α -> Span} {change : α -> α}
  (h : ∀ part, w.Alike (span part) (span (change part)))

include h

theorem alike_map (parts : List α) :
    List.Forall₂ w.Alike (parts.map span) ((parts.map change).map span) := by
  simp [List.forall₂_map_left_iff, List.forall₂_map_right_iff, List.forall₂_same, h]

theorem alike_toList (part : Option α) :
    List.Forall₂ w.Alike (part.toList.map span) ((part.map change).toList.map span) := by
  rw [Option.toList_map]
  exact w.alike_map h part.toList

end Parts

/-! ## Rows -/

/-- A command and the one that is read in its place. -/
structure CommandLike (a b : Command) : Prop where
  name : b.name = a.name.map w.token
  extension : b.extension = a.extension.map w.token
  arguments : b.arguments = a.arguments.map w.argument
  span : w.Alike a.span b.span

/-- The content of a row and the one that is read in its place. -/
inductive ContentLike : Content -> Content -> Prop where
  | bare : ContentLike (.command none) (.command none)
  | command {a b : Command} (h : w.CommandLike a b) :
      ContentLike (.command (some a)) (.command (some b))
  | conditional (keyword : Token) (condition : Option Expr) :
      ContentLike (.conditional keyword condition)
        (.conditional (w.token keyword) (condition.map w.expr))
  | repetition (keyword : Token) (count : Option Expr) :
      ContentLike (.repetition keyword count)
        (.repetition (w.token keyword) (count.map w.expr))
  | macroBlock (keyword : Token) (name : Option Token) :
      ContentLike (.macroBlock keyword name)
        (.macroBlock (w.token keyword) (name.map w.token))

def row (row : Row) : Row := ⟨row.tokens.map w.token, w.token row.stop⟩

theorem rowsUpTo_map (mark : Token) (tokens : List Token) :
    rowsUpTo (w.token mark) (tokens.map w.token) = (rowsUpTo mark tokens).map w.row := by
  fun_induction rowsUpTo mark tokens with
  | case1 => rfl
  | case2 token rest h => simp [rowsUpTo, w.kind_token, h]
  | case3 token rest heof hnewline ih => simp [rowsUpTo, w.kind_token, hnewline, ih, row]
  | case4 token rest heof hnewline hrows ih =>
      simp [rowsUpTo, w.kind_token, heof, hnewline, ih, hrows, row]
  | case5 token rest heof hnewline first rows hrows ih =>
      rw [hrows] at ih
      simp [rowsUpTo, w.kind_token, heof, hnewline, ih, row]

theorem rows_map {tokens : List Token} (h : ∃ token ∈ tokens, token.kind = .eof) :
    rows (tokens.map w.token) = (rows tokens).map w.row := by
  have hmark : endMark (tokens.map w.token) = w.token (endMark tokens) := by
    have hfind : (tokens.map w.token).find? (fun token => token.kind == .eof) =
        (tokens.find? fun token => token.kind == .eof).map w.token := by
      rw [List.find?_map]
      congr 2
      funext token
      simp [w.kind_token]
    obtain ⟨token, htoken, hkind⟩ := h
    have hsome : (tokens.find? fun token => token.kind == .eof).isSome = true := by
      rw [List.find?_isSome]
      exact ⟨token, htoken, by simp [hkind]⟩
    obtain ⟨first, hfirst⟩ := Option.isSome_iff_exists.1 hsome
    simp [endMark, hfind, hfirst]
  rw [rows, hmark, w.rowsUpTo_map]
  rfl

end Rewording

end Concrete

end Asm6502
