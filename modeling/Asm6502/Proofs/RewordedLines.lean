import Asm6502.Proofs.LaidRows
import Asm6502.Proofs.SpanOrder

/-!
# Lines laid out in another way

The rows of tokens that are laid out in another way make the same lines and blocks as the rows of
the tokens themselves, reworded.  The two states go through the rows side by side, with the same
blocks open.
-/

namespace Asm6502

/-! ## Spans that cover each other -/

theorem Span.foldl_union_base (front back : List Span) (base part : Span) :
    (front ++ base.union part :: back).foldl Span.union base =
      (front ++ part :: back).foldl Span.union base := by
  have hall := Span.inside_foldl_union (front ++ part :: back) base
  have hall' := Span.inside_foldl_union (front ++ base.union part :: back) base
  refine Span.eq_of_inside (Span.foldl_union_inside hall.1 fun other hother => ?_)
    (Span.foldl_union_inside hall'.1 fun other hother => ?_)
  · rcases List.mem_append.1 hother with hother | hother
    · exact hall.2 other (List.mem_append_left _ hother)
    rcases List.mem_cons.1 hother with rfl | hother
    · exact Span.union_inside hall.1 (hall.2 part (by simp))
    · exact hall.2 other (by simp [hother])
  · rcases List.mem_append.1 hother with hother | hother
    · exact hall'.2 other (List.mem_append_left _ hother)
    rcases List.mem_cons.1 hother with rfl | hother
    · exact (Span.inside_union_right base other).trans (hall'.2 _ (by simp))
    · exact hall'.2 other (by simp [hother])

namespace Concrete

namespace Rewording

variable (w : Rewording)

/-! ## Lines -/

/-- A margin and the one that is made in its place. -/
structure MarginLike (a b : Margin) : Prop where
  label : b.label = a.label.map w.label
  comment : b.comment = a.comment.map w.token
  span : w.Alike a.span b.span

/-- The definition of a macro and the one that is made in its place. -/
structure MacroLike (a b : MacroBlock) : Prop where
  keyword : b.keyword = w.token a.keyword
  name : b.name = a.name.map w.token
  body : b.body = w.body a.body
  ending : b.ending = a.ending.map w.token
  span : w.Alike a.span b.span

mutual

/-- A line and the one that is made in its place. -/
inductive LineLike : Line -> Line -> Prop where
  | bare {m m' : Margin} (hmargin : w.MarginLike m m') :
      LineLike (.command m none) (.command m' none)
  | command {m m' : Margin} {c c' : Command} (hmargin : w.MarginLike m m')
      (hcommand : w.CommandLike c c') : LineLike (.command m (some c)) (.command m' (some c'))
  | macroBlock {m m' : Margin} {b b' : MacroBlock} (hmargin : w.MarginLike m m')
      (hblock : w.MacroLike b b') : LineLike (.macroBlock m b) (.macroBlock m' b')
  | conditional {m m' : Margin} {keyword : Token} {condition : Option Expr}
      {thenLines thenLines' elseLines elseLines' : List Line} {elseKeyword ending : Option Token}
      {span span' : Span} (hmargin : w.MarginLike m m') (hthen : LinesLike thenLines thenLines')
      (helse : LinesLike elseLines elseLines') (hspan : w.Alike span span') :
      LineLike (.conditional m keyword condition thenLines elseKeyword elseLines ending span)
        (.conditional m' (w.token keyword) (condition.map w.expr) thenLines'
          (elseKeyword.map w.token) elseLines' (ending.map w.token) span')
  | repetition {m m' : Margin} {keyword : Token} {count : Option Expr} {body body' : List Line}
      {ending : Option Token} {span span' : Span} (hmargin : w.MarginLike m m')
      (hbody : LinesLike body body') (hspan : w.Alike span span') :
      LineLike (.repetition m keyword count body ending span)
        (.repetition m' (w.token keyword) (count.map w.expr) body' (ending.map w.token) span')

inductive LinesLike : List Line -> List Line -> Prop where
  | nil : LinesLike [] []
  | cons {line line' : Line} {lines lines' : List Line} (hline : LineLike line line')
      (hlines : LinesLike lines lines') : LinesLike (line :: lines) (line' :: lines')

end

variable {w}

theorem LineLike.alike {a b : Line} (h : w.LineLike a b) : w.Alike a.span b.span := by
  cases h with
  | bare hmargin | command hmargin | macroBlock hmargin | conditional hmargin
  | repetition hmargin => exact hmargin.span

namespace LinesLike

theorem alike {a b : List Line} (h : w.LinesLike a b) :
    List.Forall₂ w.Alike (a.map Line.span) (b.map Line.span) :=
  match h with
  | .nil => .nil
  | .cons hline hlines => .cons hline.alike hlines.alike

theorem append {a b c d : List Line} (h : w.LinesLike a b) (h' : w.LinesLike c d) :
    w.LinesLike (a ++ c) (b ++ d) :=
  match h with
  | .nil => h'
  | .cons hline hlines => .cons hline (hlines.append h')

end LinesLike

/-! ## Starts of lines -/

variable (w)

inductive AlikeIfAny : Option Span -> Option Span -> Prop where
  | none : AlikeIfAny none none
  | some {a b : Span} (h : w.Alike a b) : AlikeIfAny (some a) (some b)

theorem AlikeIfAny.toList {w : Rewording} {a b : Option Span} (h : w.AlikeIfAny a b) :
    List.Forall₂ w.Alike a.toList b.toList := by
  cases h with
  | none => exact .nil
  | some h => exact .cons h .nil

def lineStart (start : LineStart) : LineStart := ⟨start.label.map w.label, start.number⟩

/-- The rows of a text and those of the text in its place, from which the bodies of macros are
taken. -/
structure SourceLike (source source' : List (List Char)) : Prop where
  length : source'.length = source.length
  body : ∀ first stop, rowText source' first stop = w.body (rowText source first stop)

theorem onRow_lineStart (start : LineStart) (comment : Token) :
    (w.lineStart start).onRow (w.token comment) = start.onRow comment := by
  rw [LineStart.onRow, w.start_token]
  rfl

theorem marginLike (start : LineStart) {content content' : Option Span}
    (hcontent : w.AlikeIfAny content content') (comment : Option Token) :
    w.MarginLike (start.margin content comment)
      ((w.lineStart start).margin content' (comment.map w.token)) := by
  refine ⟨rfl, rfl, ?_⟩
  have hlabel := w.alike_toList w.alike_label start.label
  have hcomment := w.alike_toList w.alike_token comment
  rw [← Option.toList_map, ← Option.toList_map] at hlabel hcomment
  exact w.alike_cover? (List.rel_append (List.rel_append hlabel hcontent.toList) hcomment) _

end Rewording

namespace Layout

/-! ## States -/

variable (w : Layout)

/-- The last spans of two macro bodies.  They count only together with the word that opened the
macro. -/
inductive LastLike (keyword : Token) : Option Span -> Option Span -> Prop where
  | none : LastLike keyword none none
  | some {a b : Span} (h : w.Alike (keyword.span.union a) ((w.token keyword).span.union b)) :
      LastLike keyword (some a) (some b)

theorem LastLike.alike {w : Layout} {keyword : Token} {last last' : Option Span}
    (h : w.LastLike keyword last last') (name ending : Option Token) :
    w.Alike
      ((name.toList.map Token.span ++ last.toList ++ ending.toList.map Token.span).foldl Span.union
        keyword.span)
      (((name.map w.token).toList.map Token.span ++ last'.toList ++
        (ending.map w.token).toList.map Token.span).foldl Span.union (w.token keyword).span) := by
  have hname := w.alike_toList w.alike_token name
  have hending := w.alike_toList w.alike_token ending
  cases h with
  | none =>
      exact w.alike_foldl_union (List.rel_append (List.rel_append hname .nil) hending)
        (w.alike_token keyword)
  | some h =>
      rw [List.append_assoc, List.append_assoc, Option.toList_some, Option.toList_some,
        List.singleton_append, List.singleton_append, ← Span.foldl_union_base _ _ keyword.span,
        ← Span.foldl_union_base _ _ (w.token keyword).span]
      exact w.alike_foldl_union (List.rel_append hname (.cons h hending)) (w.alike_token keyword)

inductive BlockLike : OpenBlock -> OpenBlock -> Prop where
  | thenPart (start : LineStart) (keyword : Token) (condition : Option Expr) :
      BlockLike (.thenPart start keyword condition)
        (.thenPart (w.lineStart start) (w.token keyword) (condition.map w.expr))
  | elsePart (start : LineStart) (keyword : Token) (condition : Option Expr)
      {thenLines thenLines' : List Line} (elseKeyword : Token)
      (hthen : w.LinesLike thenLines thenLines') :
      BlockLike (.elsePart start keyword condition thenLines elseKeyword)
        (.elsePart (w.lineStart start) (w.token keyword) (condition.map w.expr) thenLines'
          (w.token elseKeyword))
  | repetition (start : LineStart) (keyword : Token) (count : Option Expr) :
      BlockLike (.repetition start keyword count)
        (.repetition (w.lineStart start) (w.token keyword) (count.map w.expr))
  | macroBlock (start : LineStart) (keyword : Token) (name : Option Token)
      {last last' : Option Span} (hlast : w.LastLike keyword last last') :
      BlockLike (.macroBlock start keyword name last)
        (.macroBlock (w.lineStart start) (w.token keyword) (name.map w.token) last')

structure FrameLike (a b : Frame) : Prop where
  before : w.LinesLike a.before b.before
  block : w.BlockLike a.block b.block

structure StateLike (a b : State) : Prop where
  frames : List.Forall₂ w.FrameLike a.frames b.frames
  lines : w.LinesLike a.lines b.lines
  errors : List.Forall₂ w.ErrorLike a.errors b.errors
  comments : b.comments = a.comments.map w.token
  rawRows : b.rawRows = a.rawRows

variable {w}

namespace StateLike

variable {state state' : State}

theorem fresh (comments : List Token) :
    w.StateLike (.fresh comments) (.fresh (comments.map w.token)) :=
  ⟨.nil, .nil, .nil, rfl, rfl⟩

theorem addLine (h : w.StateLike state state') (start : LineStart) {content content' : Option Span}
    (hcontent : w.AlikeIfAny content content') {build build' : Margin -> Line}
    (hbuild : ∀ m m', w.MarginLike m m' -> w.LineLike (build m) (build' m')) :
    w.StateLike (state.addLine start content build)
      (state'.addLine (w.lineStart start) content' build') := by
  have hfind : state'.comments.find? (w.lineStart start).onRow =
      (state.comments.find? start.onRow).map w.token := by
    rw [h.comments, List.find?_map]
    congr 2
    funext comment
    exact w.onRow_lineStart start comment
  have hfilter : state'.comments.filter (fun comment => !(w.lineStart start).onRow comment) =
      (state.comments.filter fun comment => !start.onRow comment).map w.token := by
    rw [h.comments, List.filter_map]
    congr 2
    funext comment
    simp [w.onRow_lineStart start comment]
  rw [State.addLine_eq, State.addLine_eq, hfind, hfilter]
  have hline := hbuild _ _ (w.marginLike start hcontent (state.comments.find? start.onRow))
  exact ⟨h.frames, h.lines.append (.cons hline .nil), h.errors, rfl, h.rawRows⟩

theorem fault (h : w.StateLike state state') {faults faults' : List ParseError}
    (hfaults : List.Forall₂ w.ErrorLike faults faults') :
    w.StateLike (state.fault faults) (state'.fault faults') :=
  ⟨h.frames, h.lines, List.rel_append h.errors hfaults, h.comments, h.rawRows⟩

theorem opened (h : w.StateLike state state') {block block' : OpenBlock}
    (hblock : w.BlockLike block block') :
    w.StateLike (state.opened block) (state'.opened block') :=
  ⟨.cons ⟨h.lines, hblock⟩ h.frames, .nil, h.errors, h.comments, h.rawRows⟩

/-- A block is closed on both sides. -/
theorem close (h : w.StateLike state state') {source source' : List (List Char)}
    (hsource : w.SourceLike source source') {frame frame' : Frame} {frames frames' : List Frame}
    (hframe : w.FrameLike frame frame') (hframes : List.Forall₂ w.FrameLike frames frames')
    (ending : Option Token) (endRow : Nat) :
    w.StateLike (state.close source frame frames ending endRow)
      (state'.close source' frame' frames' (ending.map w.token) endRow) := by
  obtain ⟨before, block⟩ := frame
  obtain ⟨before', block'⟩ := frame'
  obtain ⟨hbefore, hblock⟩ := hframe
  have houter : w.StateLike { state with frames := frames, lines := before }
      { state' with frames := frames', lines := before' } :=
    ⟨hframes, hbefore, h.errors, h.comments, h.rawRows⟩
  have hending := w.alike_toList w.alike_token ending
  have hinner := h.lines.alike
  cases hblock with
  | thenPart start keyword condition =>
      have hspan := w.alike_foldl_union
        (List.rel_append (List.rel_append (w.alike_toList w.alike_expr condition) hinner) hending)
        (w.alike_token keyword)
      exact houter.addLine start (.some hspan) fun _ _ hmargin =>
        .conditional hmargin h.lines .nil hspan
  | elsePart start keyword condition elseKeyword hthen =>
      have hlast : List.Forall₂ w.Alike [(ending.getD elseKeyword).span]
          [((ending.map w.token).getD (w.token elseKeyword)).span] := by
        cases ending with
        | none => exact .cons (w.alike_token elseKeyword) .nil
        | some ending => exact .cons (w.alike_token ending) .nil
      have hspan := w.alike_foldl_union
        (List.rel_append (List.rel_append
          (List.rel_append (w.alike_toList w.alike_expr condition) hthen.alike) hinner) hlast)
        (w.alike_token keyword)
      exact houter.addLine start (.some hspan) fun _ _ hmargin =>
        .conditional hmargin hthen h.lines hspan
  | repetition start keyword count =>
      have hspan := w.alike_foldl_union
        (List.rel_append (List.rel_append (w.alike_toList w.alike_expr count) hinner) hending)
        (w.alike_token keyword)
      exact houter.addLine start (.some hspan) fun _ _ hmargin =>
        .repetition hmargin h.lines hspan
  | macroBlock start keyword name hlast =>
      have hspan := hlast.alike name ending
      simp only [State.close, w.start_token, hsource.body]
      have hraw : w.StateLike
          { state with
            frames := frames, lines := before
            rawRows := state.rawRows ++ [(keyword.span.start.line + 1,
              max endRow (keyword.span.start.line + 1))] }
          { state' with
            frames := frames', lines := before'
            rawRows := state'.rawRows ++ [(keyword.span.start.line + 1,
              max endRow (keyword.span.start.line + 1))] } :=
        ⟨hframes, hbefore, h.errors, h.comments, by rw [h.rawRows]⟩
      exact hraw.addLine start (.some hspan) fun _ _ hmargin =>
        .macroBlock hmargin ⟨rfl, rfl, rfl, rfl, hspan⟩

theorem readRow (h : w.StateLike state state') {row row' : Row} (hrow : w.RowLike row row')
    (hshown : showsLabel row'.tokens = showsLabel row.tokens) :
    w.StateLike (state.readRow row) (state'.readRow row') := by
  obtain ⟨hlabel, hcontent, herrors⟩ := hrow.read hshown
  have hfault := h.fault herrors
  rw [State.readRow_eq, State.readRow_eq, hlabel, hrow.number]
  generalize row.read.2.1 = content at hcontent ⊢
  generalize row'.read.2.1 = content' at hcontent ⊢
  have hstart : (⟨row.read.1.map w.label, row.number⟩ : LineStart) =
      w.lineStart ⟨row.read.1, row.number⟩ := rfl
  rw [hstart]
  cases hcontent with
  | bare => exact hfault.addLine _ .none fun _ _ hmargin => .bare hmargin
  | command hcommand =>
      exact hfault.addLine _ (.some hcommand.span) fun _ _ hmargin =>
        .command hmargin hcommand
  | conditional keyword condition => exact hfault.opened (.thenPart _ keyword condition)
  | repetition keyword count => exact hfault.opened (.repetition _ keyword count)
  | macroBlock keyword name => exact hfault.opened (.macroBlock _ keyword name .none)

end StateLike

/-! ## Steps -/

variable (w)

/-- What a block makes of a row and what the block in its place makes of the row in its place. -/
inductive TurnLike : Turn -> Turn -> Prop where
  | read : TurnLike .read .read
  | close (token : Token) {rest rest' : List Token} (h : w.Laid rest rest') :
      TurnLike (.close token rest) (.close (w.token token) rest')
  | divide (start : LineStart) (keyword : Token) (condition : Option Expr) (token : Token)
      {rest rest' : List Token} (h : w.Laid rest rest') :
      TurnLike (.divide start keyword condition token rest)
        (.divide (w.lineStart start) (w.token keyword) (condition.map w.expr) (w.token token) rest')
  | pass (start : LineStart) (keyword : Token) (name : Option Token) {last last' : Span}
      (hlast : w.LastLike keyword (some last) (some last')) :
      TurnLike (.pass start keyword name last)
        (.pass (w.lineStart start) (w.token keyword) (name.map w.token) last')

def EndsAlike (row row' : Row) (block : OpenBlock) : Prop :=
  ∀ start keyword name last, block = .macroBlock start keyword name last ->
    w.LastLike keyword (some row.lastSpan) (some row'.lastSpan)

variable {w}

theorem BlockLike.turn {block block' : OpenBlock} (h : w.BlockLike block block') {row row' : Row}
    (hrow : w.RowLike row row') (hends : w.EndsAlike row row' block) :
    w.TurnLike (block.turn row) (block'.turn row') := by
  unfold OpenBlock.turn
  obtain ⟨hhead, hhead'⟩ | ⟨token, rest, rest', hhead, hhead', hrest⟩ := hrow.head?_cases
  · rw [hhead, hhead']
    cases h with
    | thenPart | elsePart | repetition => exact .read
    | macroBlock start keyword name => exact .pass start keyword name (hends _ _ _ _ rfl)
  · rw [hhead, hhead']
    cases h with
    | thenPart start keyword condition =>
        simp only [w.kind_token]
        split
        · exact .divide start keyword condition token hrest
        split
        · exact .close token hrest
        · exact .read
    | elsePart | repetition =>
        simp only [w.kind_token]
        split
        · exact .close token hrest
        · exact .read
    | macroBlock start keyword name =>
        simp only [w.kind_token]
        split
        · exact .close token hrest
        · exact .pass start keyword name (hends _ _ _ _ rfl)

theorem BlockLike.missing {block block' : OpenBlock} (h : w.BlockLike block block') :
    w.ErrorLike (State.missing block) (State.missing block') := by
  cases h <;> exact .unterminatedBlock _ _

namespace StateLike

variable {state state' : State} {source source' : List (List Char)} {row row' : Row}

theorem take (h : w.StateLike state state') (hsource : w.SourceLike source source')
    {frame frame' : Frame} {frames frames' : List Frame} (hframe : w.FrameLike frame frame')
    (hframes : List.Forall₂ w.FrameLike frames frames') (hrow : w.RowLike row row')
    {turn turn' : Turn} (hturn : w.TurnLike turn turn')
    (hshown : turn = .read -> showsLabel row'.tokens = showsLabel row.tokens) :
    w.StateLike (state.take source frame frames row turn)
      (state'.take source' frame' frames' row' turn') := by
  cases hturn with
  | read => exact h.readRow hrow (hshown rfl)
  | close token hrest =>
      simp only [State.take, hrow.number]
      exact (h.fault (hrow.restErrors hrest)).close hsource hframe hframes (some token) row.number
  | divide start keyword condition token hrest =>
      exact ⟨.cons ⟨hframe.before, .elsePart start keyword condition token h.lines⟩ hframes, .nil,
        (h.fault (hrow.restErrors hrest)).errors, h.comments, h.rawRows⟩
  | pass start keyword name hlast =>
      exact ⟨.cons ⟨hframe.before, .macroBlock start keyword name hlast⟩ hframes, h.lines,
        h.errors, h.comments, h.rawRows⟩

theorem step (h : w.StateLike state state') (hsource : w.SourceLike source source')
    (hrow : w.RowLike row row')
    (hends : ∀ frame ∈ state.frames, ∀ frame' ∈ state'.frames,
      w.BlockLike frame.block frame'.block -> w.EndsAlike row row' frame.block)
    (hshown : (∀ frame ∈ state.frames.head?, frame.block.turn row = .read) ->
      showsLabel row'.tokens = showsLabel row.tokens) :
    w.StateLike (state.step source row) (state'.step source' row') := by
  have hframes := h.frames
  cases hstate : state.frames with
  | nil =>
      rw [hstate, List.forall₂_nil_left_iff] at hframes
      rw [State.step_of_no_frames source hstate, State.step_of_no_frames source' hframes]
      exact h.readRow hrow (hshown (by simp [hstate]))
  | cons frame frames =>
      rw [hstate, List.forall₂_cons_left_iff] at hframes
      obtain ⟨frame', frames', hframe, hrest, hstate'⟩ := hframes
      rw [State.step_of_frames source hstate, State.step_of_frames source' hstate']
      have hturn := hframe.block.turn hrow
        (hends frame (by simp [hstate]) frame' (by simp [hstate']) hframe.block)
      exact h.take hsource hframe hrest hrow hturn
        fun hread => hshown (by simpa [hstate] using hread)

theorem closeAll (h : w.StateLike state state') (hsource : w.SourceLike source source')
    {frames frames' : List Frame} (hframes : List.Forall₂ w.FrameLike frames frames') :
    w.StateLike (State.closeAll source frames state) (State.closeAll source' frames' state') := by
  induction hframes generalizing state state' with
  | nil => exact h
  | @cons frame frame' frames frames' hframe hframes ih =>
      rw [State.closeAll, State.closeAll, hsource.length]
      exact ih ((h.fault (.cons hframe.block.missing .nil)).close hsource hframe hframes none
        source.length)

end StateLike

end Layout

/-! ## Reworded tokens -/

namespace Rewording

variable (w : Rewording)

/-- The layout in which every token, blanks too, is the reworded one. -/
def layout : Layout where
  toRewording := w
  Same t t' := t' = w.token t
  same_token _ := rfl

theorem laid_map (tokens : List Token) : w.layout.Laid tokens (tokens.map w.token) := by
  induction hlength : tokens.length using Nat.strongRecOn generalizing tokens with
  | ind n ih =>
    cases tokens with
    | nil => exact .nil
    | cons token rest =>
        rw [List.length_cons] at hlength
        by_cases htoken : token.kind = .whitespace
        · have hskip : skipBlanks (rest.map w.token) = (skipBlanks rest).map w.token := by
            unfold skipBlanks
            rw [List.dropWhile_map]
            congr 2
            funext t
            simp [w.kind_token]
          have hfewer := length_skipBlanks_le rest
          refine .blank htoken (by rw [w.kind_token, htoken]) rfl (w.start_token token) ?_
          rw [hskip]
          exact ih _ (by omega) _ rfl
        · exact .solid htoken (ih _ (by omega) rest rfl)

theorem showsLabel_map (tokens : List Token) :
    showsLabel (tokens.map w.token) = showsLabel tokens := by
  rcases tokens with _ | ⟨first, _ | ⟨name, _ | ⟨colon, rest⟩⟩⟩
  · rfl
  · simp [showsLabel, labelInFront?]
  · simp [showsLabel, labelInFront?]
  · simp only [showsLabel, labelInFront?, List.map_cons, w.kind_token]
    split <;> rfl

theorem errors_of_layout {errors errors' : List ParseError}
    (h : List.Forall₂ w.layout.ErrorLike errors errors') : errors' = errors.map w.error := by
  induction h with
  | nil => rfl
  | cons herror _ ih =>
      rw [ih, List.map_cons]
      congr 1
      cases herror with
      | unterminatedBlock => rfl
      | unexpectedToken _ h | unknownExtension h | nestingTooDeep h =>
          rw [show _ = w.token _ from h]
          rfl

theorem alike_lastSpan (row : Row) : w.Alike row.lastSpan (w.row row).lastSpan := by
  have hlast : (if (w.row row).stop.kind = .newline then (w.row row).stop
        else (w.row row).tokens.getLastD (w.row row).stop) =
      w.token (if row.stop.kind = .newline then row.stop else row.tokens.getLastD row.stop) := by
    simp only [Rewording.row, w.kind_token, w.getLastD_map]
    split <;> rfl
  rw [Row.lastSpan, Row.lastSpan, hlast]
  exact w.alike_token _

theorem stateLike_foldl {state state' : State} (h : w.layout.StateLike state state')
    {source source' : List (List Char)} (hsource : w.SourceLike source source') (rows : List Row) :
    w.layout.StateLike (rows.foldl (State.step source) state)
      ((rows.map w.row).foldl (State.step source') state') := by
  induction rows generalizing state state' with
  | nil => exact h
  | cons row rows ih =>
      refine ih (h.step hsource ⟨w.laid_map row.tokens, rfl⟩ ?_
        fun _ => w.showsLabel_map row.tokens)
      exact fun _ _ _ _ _ _ keyword _ _ _ =>
        .some (w.alike_union (w.alike_token keyword) (w.alike_lastSpan row))

/-- The file that is read from reworded tokens has the same lines, reworded, the same faults about
the reworded tokens and the same rows of macro bodies. -/
theorem ofTokens_map {tokens : List Token}
    (heof : ∃ token ∈ tokens, token.kind = .eof) (comments : List Token) {source source' : String}
    (hsource : w.SourceLike (sourceRows source.toList) (sourceRows source'.toList)) :
    w.LinesLike (ConcreteFile.ofTokens tokens comments source).lines
        (ConcreteFile.ofTokens (tokens.map w.token) (comments.map w.token) source').lines ∧
      (ConcreteFile.ofTokens (tokens.map w.token) (comments.map w.token) source').errors =
        (ConcreteFile.ofTokens tokens comments source).errors.map w.error ∧
      (ConcreteFile.ofTokens (tokens.map w.token) (comments.map w.token) source').rawRows =
        (ConcreteFile.ofTokens tokens comments source).rawRows := by
  have hrows := w.stateLike_foldl (.fresh comments) hsource (rows tokens)
  have hclosed := hrows.closeAll hsource hrows.frames
  rw [ConcreteFile.ofTokens_eq, ConcreteFile.ofTokens_eq, w.rows_map heof]
  exact ⟨hclosed.lines, w.errors_of_layout hclosed.errors, hclosed.rawRows⟩

end Rewording

end Concrete

end Asm6502
