import Asm6502.Proofs.BlankRuns
import Asm6502.Proofs.RowContents

/-!
# Lines with merged blanks

Tokens are divided into rows at the same places when their blanks are merged, and the rows make the
same lines and blocks as long as no row that is read hides its label.  Only the rows of a macro body
are not read; of them the last span counts.
-/

namespace Asm6502

namespace Concrete

/-! ## Dividing into rows -/

def Row.merged (row : Row) : Row := ⟨mergeBlanks row.tokens, row.stop⟩

variable {row : Row}

theorem Row.like_merged (row : Row) : blankLayout.RowLike row row.merged :=
  ⟨laid_mergeBlanks row.tokens, rfl⟩

def mergeInto (blank : Token) : List Token -> List Token
  | [] => [blank]
  | next :: others =>
      if next.kind = .whitespace then
        ⟨.whitespace, blank.literal ++ next.literal, ⟨blank.span.start, next.span.stop⟩⟩ :: others
      else blank :: next :: others

theorem mergeBlanks_eq_mergeInto {blank : Token} (h : blank.kind = .whitespace)
    (rest : List Token) : mergeBlanks (blank :: rest) = mergeInto blank (mergeBlanks rest) := by
  rw [mergeBlanks]
  cases mergeBlanks rest with
  | nil => rfl
  | cons next others => simp only [mergeInto, h, true_and]

theorem rowsUpTo_mergeInto (mark : Token) {blank : Token} (hblank : blank.kind = .whitespace)
    (tokens : List Token) :
    rowsUpTo mark (mergeInto blank tokens) =
      match rowsUpTo mark tokens with
      | [] => [⟨[blank], mark⟩]
      | row :: rows => ⟨mergeInto blank row.tokens, row.stop⟩ :: rows := by
  have hinline {token : Token} (h : token.kind = .whitespace) (rest : List Token) :
      rowsUpTo mark (token :: rest) =
        match rowsUpTo mark rest with
        | [] => [⟨[token], mark⟩]
        | row :: rows => ⟨token :: row.tokens, row.stop⟩ :: rows := by
    cases hrows : rowsUpTo mark rest <;> simp [rowsUpTo, h, hrows]
  cases tokens with
  | nil => exact hinline hblank []
  | cons next others =>
      rw [mergeInto]
      by_cases hnext : next.kind = .whitespace
      · rw [if_pos hnext, hinline rfl, hinline hnext]
        cases rowsUpTo mark others <;> simp [mergeInto, hnext]
      · rw [if_neg hnext, hinline hblank]
        by_cases heof : next.kind = .eof
        · simp [rowsUpTo, heof]
        by_cases hnewline : next.kind = .newline
        · simp [rowsUpTo, hnewline, mergeInto]
        · simp only [rowsUpTo, heof, hnewline, if_false]
          cases rowsUpTo mark others <;> simp [mergeInto, hnext]

theorem rowsUpTo_mergeBlanks (mark : Token) (tokens : List Token) :
    rowsUpTo mark (mergeBlanks tokens) = (rowsUpTo mark tokens).map Row.merged := by
  induction tokens with
  | nil => rfl
  | cons token rest ih =>
      by_cases htoken : token.kind = .whitespace
      · rw [mergeBlanks_eq_mergeInto htoken, rowsUpTo_mergeInto mark htoken, ih, rowsUpTo,
          if_neg (by simp [htoken]), if_neg (by simp [htoken])]
        cases rowsUpTo mark rest with
        | nil => rfl
        | cons row rows => simp [Row.merged, mergeBlanks_eq_mergeInto htoken]
      · rw [mergeBlanks_solid htoken, rowsUpTo, rowsUpTo, ih]
        split
        · rfl
        split
        · rfl
        · cases rowsUpTo mark rest with
          | nil => simp [Row.merged, mergeBlanks]
          | cons row rows => simp [Row.merged, mergeBlanks_solid htoken]

theorem stop_getLast?_mergeBlanks (tokens : List Token) :
    (mergeBlanks tokens).getLast?.map (fun token => token.span.stop) =
      tokens.getLast?.map fun token => token.span.stop := by
  induction tokens with
  | nil => rfl
  | cons token rest ih =>
      rw [mergeBlanks]
      cases hmerged : mergeBlanks rest with
      | nil =>
          have hrest := (laid_mergeBlanks rest).isEmpty
          rw [hmerged, List.isEmpty_nil, eq_comm, List.isEmpty_iff] at hrest
          rw [hrest]
      | cons next others =>
          have hrest : rest ≠ [] := by
            rintro rfl
            cases hmerged
          rw [hmerged] at ih
          rw [List.getLast?_cons_of_ne_nil hrest, ← ih]
          simp only
          split
          · cases others with
            | nil => rfl
            | cons => simp
          · simp

theorem endMark_mergeBlanks (tokens : List Token) :
    endMark (mergeBlanks tokens) = endMark tokens := by
  have hfind : (mergeBlanks tokens).find? (fun token => token.kind == .eof) =
      tokens.find? fun token => token.kind == .eof := by
    induction tokens with
    | nil => rfl
    | cons token rest ih =>
        by_cases htoken : token.kind = .whitespace
        · rw [mergeBlanks_eq_mergeInto htoken, List.find?_cons_of_neg (by simp [htoken]), ← ih]
          cases mergeBlanks rest with
          | nil => simp [mergeInto, htoken]
          | cons next others =>
              by_cases hnext : next.kind = .whitespace <;> simp [mergeInto, htoken, hnext]
        · rw [mergeBlanks_solid htoken, List.find?_cons, List.find?_cons, ih]
  rw [endMark, hfind, stop_getLast?_mergeBlanks, endMark]

theorem rows_mergeBlanks (tokens : List Token) :
    rows (mergeBlanks tokens) = (rows tokens).map Row.merged := by
  rw [rows, endMark_mergeBlanks, rowsUpTo_mergeBlanks, rows]

/-! ## Steps -/

namespace State

/-- The word that opened the macro of which the rows are passed over. -/
def openMacro? (state : State) : Option Token :=
  match state.frames with
  | ⟨_, .macroBlock _ keyword _ _⟩ :: _ => some keyword
  | _ => none

theorem openMacro?_of_frames {state : State} {frame : Frame} {frames : List Frame}
    (h : state.frames = frame :: frames) :
    state.openMacro? =
      match frame.block with
      | .macroBlock _ keyword _ _ => some keyword
      | _ => none := by
  unfold openMacro?
  rw [h]
  obtain ⟨before, block⟩ := frame
  cases block <;> rfl

end State

theorem Layout.StateLike.openMacro? {w : Layout} {s s' : State} (h : w.StateLike s s') :
    s'.openMacro? = s.openMacro?.map w.token := by
  have hframes := h.frames
  unfold State.openMacro?
  generalize s.frames = frames at hframes ⊢
  generalize s'.frames = frames' at hframes ⊢
  cases hframes with
  | nil => rfl
  | @cons frame frame' _ _ hframe =>
      obtain ⟨before, block⟩ := frame
      obtain ⟨before', block'⟩ := frame'
      cases hframe.block <;> rfl

/-- The row of a macro body ends in a span that starts no earlier than the word that opened the
macro. -/
def Follows (row : Row) (block : OpenBlock) : Prop :=
  ∀ start keyword name last, block = .macroBlock start keyword name last ->
    keyword.span.start ≤ row.lastSpan.start

theorem Row.stop_lastSpan_merged (row : Row) :
    row.merged.lastSpan.stop = row.lastSpan.stop := by
  have hlast : ((mergeBlanks row.tokens).getLastD row.stop).span.stop =
      (row.tokens.getLastD row.stop).span.stop := by
    rw [List.getLastD_eq_getLast?, List.getLastD_eq_getLast?,
      ← Option.getD_map fun token : Token => token.span.stop,
      ← Option.getD_map fun token : Token => token.span.stop, stop_getLast?_mergeBlanks]
  unfold lastSpan merged
  split
  · rfl
  · exact hlast

/-- Of the last span of a macro body only the end is seen. -/
theorem union_lastSpan_merged {keyword : Token} (h : keyword.span.start ≤ row.lastSpan.start)
    (h' : keyword.span.start ≤ row.merged.lastSpan.start) :
    keyword.span.union row.lastSpan = keyword.span.union row.merged.lastSpan := by
  have hmin {p q : Position} (h : p ≤ q) : min p q = p := if_pos h
  rw [Span.union, Span.union, hmin h, hmin h', row.stop_lastSpan_merged]

theorem endsAlike_merged {block block' : OpenBlock} (hblock : blankLayout.BlockLike block block')
    (h : Follows row block) (h' : Follows row.merged block') :
    blankLayout.EndsAlike row row.merged block := by
  rintro start keyword name last rfl
  cases hblock
  exact .some (union_lastSpan_merged (h _ _ _ _ rfl) (h' _ _ _ _ rfl))

theorem stateLike_step_merged {s s' : State} (hstate : blankLayout.StateLike s s')
    (source : List (List Char)) (h : ∀ frame ∈ s.frames, Follows row frame.block)
    (h' : ∀ frame ∈ s'.frames, Follows row.merged frame.block)
    (hseen : s.openMacro? = none -> hidesLabel row.tokens = false) :
    blankLayout.StateLike (s.step source row) (s'.step source row.merged) := by
  refine hstate.step ⟨rfl, fun _ _ => rfl⟩ row.like_merged
    (fun frame hframe frame' hframe' hblock => ?_) fun hread => ?_
  · exact endsAlike_merged hblock (h frame hframe) (h' frame' hframe')
  · refine showsLabel_mergeBlanks (hseen ?_)
    cases hs : s.frames with
    | nil => rw [State.openMacro?, hs]
    | cons frame frames =>
        have hisMacro := frame.block.turn_spec row
        rw [hread frame (by simp [hs])] at hisMacro
        rw [State.openMacro?_of_frames hs]
        cases hkind : frame.block with
        | macroBlock => simp [hkind, OpenBlock.Allows, OpenBlock.isMacro] at hisMacro
        | _ => rfl

/-! ## Rows of ordered tokens -/

def RowsFollow (rows : List Row) : Prop :=
  rows.Pairwise fun a b => ∀ token ∈ a.tokens, token.span.start ≤ b.lastSpan.start

theorem Row.exists_mem_taken {tokens : List Token} (h : row ∈ rows tokens) :
    ∃ token ∈ row.taken, row.lastSpan = token.span := by
  unfold Row.taken Row.lastSpan
  rcases stop_of_mem_rowsUpTo row h with hstop | ⟨hstop, htokens⟩
  · exact ⟨row.stop, by simp [hstop], by simp [hstop]⟩
  · have hkind : row.stop.kind ≠ .newline := by
      rw [hstop, kind_endMark]
      decide
    rw [if_neg hkind, if_neg hkind]
    refine ⟨_, ?_, rfl⟩
    rw [List.getLastD_eq_getLast?, List.getLast?_eq_some_getLast htokens]
    exact List.getLast_mem htokens

theorem rowsFollow_of_ordered {tokens : List Token}
    (h : tokens.Pairwise fun a b => a.span.start ≤ b.span.start) : RowsFollow (rows tokens) := by
  have htaken := h.sublist (flatMap_taken_isPrefix tokens).sublist
  rw [List.flatMap_def, List.pairwise_flatten, List.pairwise_map] at htaken
  refine htaken.2.imp_of_mem fun ha hb hab token htoken => ?_
  obtain ⟨last, hlast, hspan⟩ := Row.exists_mem_taken hb
  rw [hspan]
  exact hab token (Row.tokens_sublist_taken _ |>.subset htoken) last hlast

/-- An open macro was opened by a row that was read. -/
theorem FramesBuilt.exists_macro {comments : List Token} {source : List (List Char)}
    {roles : List Role} {frames : List Frame} {bodies : List (Nat × Nat)}
    (h : FramesBuilt comments source roles frames bodies) {frame : Frame} (hframe : frame ∈ frames)
    {start : LineStart} {keyword : Token} {name : Option Token} {last : Option Span}
    (hblock : frame.block = .macroBlock start keyword name last) :
    ∃ row : Row, .read row ∈ roles ∧ row.read.2.1 = .macroBlock keyword name := by
  induction h with
  | nil => cases hframe
  | cons _ _ block ih =>
      rcases List.mem_cons.1 hframe with rfl | hframe
      · rw [hblock] at block
        obtain ⟨row, passed, rfl, -, -, hread, -⟩ := block
        exact ⟨row, by simp, hread⟩
      · obtain ⟨row, hrow, hread⟩ := ih hframe
        exact ⟨row, by simp [hrow], hread⟩

namespace State

variable {source : List (List Char)} {comments : List Token}

def SeesLabels (source : List (List Char)) : State -> List Row -> Prop
  | _, [] => True
  | state, row :: rows =>
      (state.openMacro? = none -> hidesLabel row.tokens = false) ∧
        SeesLabels source (state.step source row) rows

theorem follows_of_rowsFollow {before after : List Row} {row : Row}
    (h : RowsFollow (before ++ row :: after)) :
    ∀ frame ∈ (before.foldl (step source) (fresh comments)).frames, Follows row frame.block := by
  obtain ⟨roles, rfl, hbuilt⟩ := exists_built comments source before
  obtain ⟨⟨outer, inner, _, _, rfl, -, hframes, -⟩, -⟩ := hbuilt
  rintro frame hframe start keyword name last hblock
  obtain ⟨other, hother, hread⟩ := hframes.exists_macro hframe hblock
  have hmade := other.read_spec.2.madeOf
  rw [hread] at hmade
  refine (List.pairwise_append.1 h).2.2 other ?_ row List.mem_cons_self keyword hmade.1
  exact List.mem_map.2 ⟨_, List.mem_append_left _ hother, rfl⟩

/-- Two states that look the same still do after the rows, when no row that is read hides its
label. -/
theorem stateLike_foldl {before rows after : List Row}
    (h : blankLayout.StateLike (before.foldl (step source) (fresh comments))
      ((before.map Row.merged).foldl (step source) (fresh comments)))
    (hfollow : RowsFollow (before ++ rows ++ after))
    (hfollow' : RowsFollow ((before ++ rows ++ after).map Row.merged))
    (hsees : (before.foldl (step source) (fresh comments)).SeesLabels source rows) :
    blankLayout.StateLike ((before ++ rows).foldl (step source) (fresh comments))
      (((before ++ rows).map Row.merged).foldl (step source) (fresh comments)) := by
  induction rows generalizing before with
  | nil => simpa using h
  | cons row rows ih =>
      have hsplit : before ++ row :: rows = (before ++ [row]) ++ rows := by simp
      have hrow : RowsFollow (before ++ row :: (rows ++ after)) := by simpa using hfollow
      have hrow' : RowsFollow (before.map Row.merged ++ row.merged ::
          (rows ++ after).map Row.merged) := by simpa using hfollow'
      have hstep := stateLike_step_merged h source (follows_of_rowsFollow hrow)
        (follows_of_rowsFollow hrow') hsees.1
      rw [hsplit] at hfollow hfollow' ⊢
      refine ih ?_ hfollow hfollow' ?_
      · simpa using hstep
      · simpa using hsees.2

end State

end Concrete

end Asm6502
