import TidyUse.Proofs.Keeping

/-!
# A survey among other lines

* `State.upTo` : a survey with other lines from a row on; `Run.upTo`, `Run.passes` : it takes the
  same course up to there;
* `Run.exists_at_row` : a survey stops at the start of a row that no sighting straddles;
* `Alike` : surveys that differ in what is above; `Alike.organized_eq_nil`;
* `walk_within` : where the items of some lines stand.
-/

namespace TidyUse.Document

open Text

/-! ## What a sight depends on -/

theorem isCommentLine_of_isBlank {line : Line} (h : isBlank line = true) :
    isCommentLine line = false := by
  rw [isCommentLine, trimStart_eq_nil_iff.2 h]
  rfl

theorem isCommentLine_of_isAttributeLine {line : Line} (h : isAttributeLine line = true) :
    isCommentLine line = false := by
  obtain ⟨cs, hcs⟩ := isAttributeLine_iff.1 h
  exact isCommentLine_eq_false_of_cons hcs (by decide)

theorem isCommentLine_of_not_isPassable {line : Line} (h : isPassable line = false) :
    isCommentLine line = false := by
  rw [isPassable, Bool.or_eq_false_iff] at h
  exact h.2

/-- Only a comment depends on the lines around. -/
theorem sight_eq {line : Line} (h : isCommentLine line = false) (found : Bool)
    (above above' below below' : List Line) :
    (⟨above, line, below⟩ : Cursor).sight found 0 = (⟨above', line, below'⟩ : Cursor).sight found 0 := by
  simp only [Cursor.sight, commentLines_eq_none_iff.2 h]

theorem isCommentLine_of_sight_nothing {cur : Cursor} {found : Bool}
    (h : cur.sight found 0 = .nothing) : isCommentLine cur.line = false := by
  rcases sight_eq_nothing h with hblank | hattr | ⟨-, hpass, -⟩
  · exact isCommentLine_of_isBlank hblank
  · exact isCommentLine_of_isAttributeLine hattr
  · exact isCommentLine_of_not_isPassable hpass

theorem isCommentLine_of_sight_start {cur : Cursor} {found : Bool} {start : Nat}
    (h : cur.sight found 0 = .start start) : isCommentLine cur.line = false :=
  isCommentLine_of_not_isPassable (sight_eq_start h).2.1

theorem linesToClose_append {text : List Char} {more : List Line} {next : Line}
    {below : List Line} (h : linesToClose text (more ++ next :: below) = more.length)
    (below' : List Line) : linesToClose text (more ++ below') = more.length := by
  induction more generalizing text with
  | nil =>
    rw [List.nil_append, linesToClose] at h
    split at h
    · rename_i hclose
      cases below' with
      | nil => rfl
      | cons l below' => exact if_pos hclose
    · cases h
  | cons l more ih =>
    rw [List.cons_append, linesToClose] at h ⊢
    split at h
    · cases h
    · rename_i hclose
      rw [if_neg hclose, ih (Nat.succ.inj h)]
      rfl

/-- A comment that ends above some line ends there whatever follows. -/
theorem commentLines_append {line : Line} {more : List Line} {next : Line} {below : List Line}
    (h : commentLines line (more ++ next :: below) = some more.length) (below' : List Line) :
    commentLines line (more ++ below') = some more.length := by
  rw [commentLines] at h ⊢
  split at h
  · exact h
  · rw [Option.some.injEq] at h ⊢
    exact linesToClose_append h below'
  · cases h

theorem isBlank_of_sight_comment {cur : Cursor} {found : Bool} {k : Nat}
    (h : cur.sight found 0 = .comment k) : isBlank cur.line = false := by
  have hc := sight_eq_comment h
  rw [Bool.eq_false_iff]
  intro hb
  rw [commentLines_eq_none_iff.2 (isCommentLine_of_isBlank hb)] at hc
  cases hc

theorem sight_comment_append {found : Bool} {above : List Line} {line : Line} {more : List Line}
    {next : Line} {below : List Line}
    (h : (⟨above, line, more ++ next :: below⟩ : Cursor).sight found 0 = .comment more.length)
    (below' : List Line) :
    (⟨above, line, more ++ below'⟩ : Cursor).sight found 0 = .comment more.length := by
  have hc : commentLines line (more ++ next :: below) = some more.length := sight_eq_comment h
  have hb : isBlank line = false := isBlank_of_sight_comment h
  simp only [Cursor.sight, hb, commentLines_append hc below']
  rfl

namespace Layout

variable {ls : List Line} {ss : List Sighting} (h : Layout ls ss)

include h

theorem isBlank_comment {above : List Line} {line : Line} {more : List Line}
    (hs : .comment above line more ∈ ss) : isBlank line = false := by
  obtain ⟨st, hrun⟩ := h.run
  obtain ⟨a, b, rfl⟩ := List.append_of_mem hs
  obtain ⟨st₁, st₂, -, hstep, -⟩ := hrun.split
  cases hstep with
  | comment sight => exact isBlank_of_sight_comment sight

/-- What is met ends behind its start. -/
theorem start_lt_span_stop {s : Sighting} (hs : s ∈ ss) {i : Item} (hi : s.item? = some i) :
    s.start < i.span.stop := by
  cases s with
  | passed _ _ => cases hi
  | comment above line more =>
    cases hi
    cases more with
    | nil =>
      have hpos : 0 < line.length := by
        refine List.length_pos_iff.2 fun hnil => ?_
        have hblank := h.isBlank_comment hs
        rw [hnil] at hblank
        cases hblank
      refine Or.inr ⟨rfl, ?_⟩
      exact Int.natCast_pos.2 hpos
    | cons next more =>
      refine Or.inl ?_
      show (above.length : Int) < (above.length + (next :: more).length : Nat)
      rw [List.length_cons]
      omega
  | declaration above before first more after =>
    cases hi
    exact h.start_lt_stop hs rfl

/-- A comment with something below it is closed. -/
theorem commentLines_of_before {above : List Line} {line : Line} {more : List Line} {t : Sighting}
    (hst : Before ss (.comment above line more) t) (below : List Line) :
    commentLines line (more ++ below) = some more.length := by
  obtain ⟨st, hrun⟩ := h.run
  obtain ⟨a, b, c, rfl⟩ := hst
  obtain ⟨st₁, st₂, -, hstep, hrest⟩ := hrun.split
  cases hstep with
  | @comment found _ _ _ below sight =>
    cases below with
    | cons next below => exact commentLines_append (sight_eq_comment sight) _
    | nil =>
      generalize hbs : b ++ t :: c = bs at hrest
      cases hrest with
      | nil => simp at hbs
      | cons step _ => cases step

end Layout

/-! ## Other lines from a row on -/

/-- The place with other lines behind the next `n`. -/
def Place.upTo (n : Nat) (rest : List Line) : Place → Place
  | line below => line (below.take n ++ rest)
  | declaration before after below => declaration before after (below.take (n - 1) ++ rest)
  | code before after below => code before after below

/-- The survey with other lines from a row on. -/
def State.upTo (row : Nat) (rest : List Line) (st : State) : State :=
  { st with place := st.place.upTo (row - st.above.length) rest }

/-- The survey has not come further than to the start of a row. -/
def State.Within (row : Nat) (st : State) : Prop :=
  match st.place with
  | .line _ => st.above.length ≤ row
  | .declaration _ _ _ => st.above.length < row
  | .code _ _ _ => False

theorem length_rows (before first : List Char) (more : List Line) (after : List Char) :
    (rows before first more after).length = more.length + 1 := by
  rw [← fringe_cons, length_fringe, List.length_cons]

theorem Step.within {st st' : State} {ss : List Sighting} (h : Step st ss st') {row : Nat}
    (hst : st'.Within row) : st.Within row := by
  cases h with
  | skip _ =>
    simp only [State.Within, List.length_cons] at *
    omega
  | comment _ =>
    simp only [State.Within, List.length_append, List.length_reverse, List.length_cons] at *
    omega
  | start _ =>
    simp only [State.Within] at *
    omega
  | finish _ _ =>
    simp only [State.Within, List.length_append, List.length_reverse, length_rows] at *
    omega
  | next _ _ _ =>
    simp only [State.Within, List.length_append, List.length_reverse, length_leadRows] at *
    omega
  | stop _ _ => exact absurd hst id

theorem Stands.upTo {before rest first after : List Char} {below more below' : List Line}
    (h : Stands before rest below first more after below') {n : Nat} (hn : more.length < n)
    (rest' : List Line) :
    Stands before rest (below.take (n - 1) ++ rest') first more after
      (below'.take (n - more.length - 1) ++ rest') := by
  refine ⟨h.ends, ?_⟩
  have htake := congrArg (List.take n) h.rows
  obtain ⟨m, rfl⟩ : ∃ m, n = m + 1 := ⟨n - 1, by omega⟩
  have hrows : (Document.rows before first more after).take (m + 1) =
      Document.rows before first more after :=
    List.take_of_length_le (by rw [length_rows]; omega)
  rw [List.take_succ_cons, List.take_append, length_rows, hrows] at htake
  rw [Nat.add_sub_cancel, ← List.cons_append, htake, List.append_assoc,
    show m + 1 - (more.length + 1) = m + 1 - more.length - 1 by omega]

/-- Up to the start of a row, a step is the same whatever stands from there on. -/
theorem Step.upTo {st st' : State} {ss : List Sighting} (h : Step st ss st') {row : Nat}
    (hst : st'.Within row) (hrow : row < st.lines.length) (others : List Line) :
    Step (st.upTo row others) ss (st'.upTo row others) := by
  cases h with
  | @skip found above line below sight =>
    have hlt : above.length + 1 ≤ row := hst
    have hn : row - above.length = row - (above.length + 1) + 1 := by omega
    simp only [State.upTo, Place.upTo, List.length_cons]
    rw [hn, List.take_succ_cons]
    exact .skip ((sight_eq (isCommentLine_of_sight_nothing sight) found above above _ _).symm.trans
      sight)
  | @comment found above line more below sight =>
    simp only [State.Within, List.length_append, List.length_reverse, List.length_cons] at hst
    simp only [State.lines, Place.lines, List.length_append, List.length_reverse,
      List.length_cons] at hrow
    obtain ⟨next, below, rfl⟩ : ∃ next below', below = next :: below' :=
      List.exists_cons_of_length_pos (by omega)
    simp only [State.upTo, Place.upTo, List.length_append, List.length_reverse, List.length_cons]
    have hn : row - above.length = more.length + (row - (more.length + (above.length + 1))) + 1 := by
      omega
    rw [hn, List.take_succ_cons, List.take_length_add_append, List.cons_append, List.append_assoc]
    exact .comment (sight_comment_append sight _)
  | @start found above before rest below sight =>
    have hlt : above.length < row := hst
    have hn : row - above.length = row - above.length - 1 + 1 := by omega
    simp only [State.upTo, Place.upTo]
    nth_rewrite 1 [hn]
    rw [List.take_succ_cons]
    exact .start ((sight_eq (isCommentLine_of_sight_start sight) found above above _ _).symm.trans
      sight)
  | @finish found above before rest first after below more below' stands trailing =>
    simp only [State.Within, List.length_append, List.length_reverse, length_rows] at hst
    simp only [State.upTo, Place.upTo, List.length_append, List.length_reverse, length_rows]
    rw [show row - (more.length + 1 + above.length) = row - above.length - more.length - 1 by omega]
    exact .finish (stands.upTo (by omega) others) trailing
  | @next found above before rest first gap rest' below more below' stands blank opens =>
    simp only [State.Within, List.length_append, List.length_reverse, length_leadRows] at hst
    simp only [State.upTo, Place.upTo, List.length_append, List.length_reverse, length_leadRows]
    rw [show row - (more.length + above.length) - 1 = row - above.length - more.length - 1 by omega]
    exact .next (stands.upTo (by omega) others) blank opens
  | stop _ _ => exact absurd hst id

theorem Run.within {st st' : State} {ss : List Sighting} (h : Run st ss st') {row : Nat}
    (hst : st'.Within row) : st.Within row := by
  induction h with
  | nil => exact hst
  | cons step _ ih => exact step.within (ih hst)

/-- Up to the start of a row, a survey is the same whatever stands from there on. -/
theorem Run.upTo {st st' : State} {ss : List Sighting} (h : Run st ss st') (row : Nat)
    (hst : st'.Within row) (hrow : row < st.lines.length) (rest : List Line) :
    Run (st.upTo row rest) ss (st'.upTo row rest) := by
  induction h with
  | nil => exact .nil
  | cons step run ih =>
    exact .cons (step.upTo (run.within hst) hrow rest) (ih hst (by rwa [step.lines_eq]))

/-- Lines that a survey has behind it, with more below, are passed. -/
theorem Run.passes {found found' : Bool} {above ls below : List Line} {ss : List Sighting}
    (h : Run ⟨found, above, .line (ls ++ below)⟩ ss ⟨found', ls.reverse ++ above, .line below⟩)
    (hne : below ≠ []) :
    Passes (.body found) above ls (ss.filterMap Sighting.item?) (.body found') := by
  intro rest
  have hlen : 0 < below.length := List.length_pos_iff.2 hne
  have hrun := h.upTo (ls.length + above.length) (by simp [State.Within])
    (by simp [State.lines, Place.lines]; omega) rest
  have hstart : (⟨found, above, .line (ls ++ below)⟩ : State).upTo (ls.length + above.length) rest =
      ⟨found, above, .line (ls ++ rest)⟩ := by
    simp [State.upTo, Place.upTo]
  have hstop : (⟨found', ls.reverse ++ above, .line below⟩ : State).upTo
      (ls.length + above.length) rest = ⟨found', ls.reverse ++ above, .line rest⟩ := by
    simp [State.upTo, Place.upTo]
  rw [hstart, hstop] at hrun
  exact hrun.survey_eq

/-! ## At the start of a row -/

/-- A survey stops at the start of every row that no sighting straddles. -/
theorem Run.exists_at_row {st st' : State} {ss : List Sighting} (h : Run st ss st') {row : Nat}
    (hst : st.Within row) (hst' : row ≤ st'.above.length)
    (hno : ∀ s ∈ ss, s.bottom < row ∨ row ≤ s.top) :
    ∃ ss₁ ss₂ found above below, ss = ss₁ ++ ss₂ ∧ above.length = row ∧
      Run st ss₁ ⟨found, above, .line below⟩ ∧ Run ⟨found, above, .line below⟩ ss₂ st' := by
  induction h with
  | @nil st =>
    obtain ⟨found, above, place⟩ := st
    cases place with
    | line below =>
      exact ⟨[], [], found, above, below, rfl, Nat.le_antisymm hst hst', .nil, .nil⟩
    | declaration before rest below => exact absurd hst' (Nat.not_le.2 hst)
    | code before rest below => exact absurd hst id
  | @cons st st₁ st₂ as bs step run ih =>
    by_cases hat : ∃ found above below, st = ⟨found, above, .line below⟩ ∧ above.length = row
    · obtain ⟨found, above, below, rfl, hlen⟩ := hat
      exact ⟨[], _, found, above, below, rfl, hlen, .nil, .cons step run⟩
    have hnot : ∀ {found : Bool} {above below : List Line},
        st = ⟨found, above, .line below⟩ → above.length ≠ row := fun hst hlen =>
      hat ⟨_, _, _, hst, hlen⟩
    have hwithin : st₁.Within row := by
      cases step with
      | skip _ =>
        have hne := hnot rfl
        simp only [State.Within, List.length_cons] at *
        omega
      | @comment found above line more below _ =>
        have hne := hnot rfl
        have hs := hno (.comment above line more) List.mem_cons_self
        simp only [Sighting.bottom, Sighting.top, Sighting.above, Sighting.height] at hs
        simp only [State.Within, List.length_append, List.length_reverse, List.length_cons] at *
        omega
      | start _ =>
        have hne := hnot rfl
        simp only [State.Within] at *
        omega
      | @finish found above before rest first after below more below' _ _ =>
        have hs := hno (.declaration above before first more after) List.mem_cons_self
        simp only [Sighting.bottom, Sighting.top, Sighting.above, Sighting.height] at hs
        simp only [State.Within, List.length_append, List.length_reverse, length_rows] at *
        omega
      | @next found above before rest first gap rest' below more below' _ _ _ =>
        have hs := hno (.declaration above before first more (gap ++ rest')) List.mem_cons_self
        simp only [Sighting.bottom, Sighting.top, Sighting.above, Sighting.height] at hs
        simp only [State.Within, List.length_append, List.length_reverse, length_leadRows] at *
        omega
      | @stop found above before rest first after below more below' _ _ =>
        have hs := hno (.declaration above before first more after) List.mem_cons_self
        simp only [Sighting.bottom, Sighting.top, Sighting.above, Sighting.height] at hs
        -- behind other code the survey has ended, and above the row
        cases run with
        | nil =>
          simp only [State.Within, List.length_append, List.length_reverse, length_leadRows] at *
          omega
        | cons step _ => cases step
    obtain ⟨ss₁, ss₂, found, above, below, rfl, hlen, hrun, hrest⟩ := ih hwithin hst' fun s hs =>
      hno s (List.mem_append_right _ hs)
    exact ⟨as ++ ss₁, ss₂, found, above, below, by rw [List.append_assoc], hlen, .cons step hrun,
      hrest⟩

/-! ## Other lines above -/

/-- The text of a declaration is understood. -/
def Reading.isParsed : Reading → Bool
  | parsed _ _ => true
  | _ => false

/-- Where a text stands has no influence on whether it is understood. -/
theorem isParsed_ofText (base base' : Position) (text : List Char) :
    (Reading.ofText base text).isParsed = (Reading.ofText base' text).isParsed := by
  have hagree := (Parser.agree_declaration base base' (Token.tokenize text) (Token.tokenize text)
    rfl).1
  rw [Reading.ofText, Reading.ofText]
  split
  · rfl
  · cases hrun : ((Parser.declaration base).runOn (Token.tokenize text)).1 <;>
      cases hrun' : ((Parser.declaration base').runOn (Token.tokenize text)).1 <;>
      rw [hrun, hrun'] at hagree
    · rfl
    · cases hagree
    · cases hagree
    · rfl

theorem isStatement_declared (above : List Line) (before first : List Char) (more : List Line)
    (after : List Char) :
    (declared above before first more after).isStatement =
      ((Reading.ofText ⟨0, 0⟩ (unlines (first :: more))).isParsed &&
        (Trailing.ofRest after != Trailing.comment)) := by
  have hread : (declared above before first more after).reading =
      .ofText ⟨above.length, before.length⟩ (unlines (first :: more)) := rfl
  rw [isParsed_ofText _ ⟨above.length, before.length⟩, Declaration.isStatement, hread]
  cases Reading.ofText ⟨above.length, before.length⟩ (unlines (first :: more)) <;> rfl

/-- Two surveys have the same before them, whatever they have behind them. -/
inductive Alike : State → State → Prop
  | line {found : Bool} {above above' below : List Line} :
    Alike ⟨found, above, .line below⟩ ⟨found, above', .line below⟩
  | declaration {found : Bool} {above above' : List Line} {before before' rest : List Char}
    {below : List Line} :
    Alike ⟨found, above, .declaration before rest below⟩
      ⟨found, above', .declaration before' rest below⟩
  | code {found : Bool} {above above' : List Line} {before before' rest : List Char}
    {below : List Line} :
    Alike ⟨found, above, .code before rest below⟩ ⟨found, above', .code before' rest below⟩

theorem Stands.behind {before rest first after : List Char} {below more below' : List Line}
    (h : Stands before rest below first more after below') (before' : List Char) :
    Stands before' rest below first more after below' := by
  refine ⟨h.ends, ?_⟩
  have hrows := h.rows
  cases more with
  | nil =>
    rw [rows_nil, List.singleton_append, List.append_assoc] at *
    obtain ⟨hline, rfl⟩ := List.cons.inj hrows
    rw [List.append_cancel_left hline]
  | cons next more =>
    rw [rows_cons, List.cons_append] at *
    obtain ⟨hline, rfl⟩ := List.cons.inj hrows
    rw [List.append_cancel_left hline]

/-- Surveys with the same before them go on alike. -/
theorem Step.alike {st st' : State} {ss : List Sighting} (h : Step st ss st') {st₁ : State}
    (ha : Alike st st₁) : ∃ ss₁ st₁', Step st₁ ss₁ st₁' ∧ Alike st' st₁' ∧
      ss₁.map Sighting.isOrganized = ss.map Sighting.isOrganized := by
  have hsame : ∀ above above' before before' first more after,
      (declared above before first more after).isStatement =
        (declared above' before' first more after).isStatement := by
    intro above above' before before' first more after
    rw [isStatement_declared, isStatement_declared]
  cases h with
  | skip sight =>
    cases ha with
    | @line _ _ above' _ =>
      exact ⟨_, _, .skip ((sight_eq (isCommentLine_of_sight_nothing sight) _ _ _ _ _).symm.trans
        sight), .line, rfl⟩
  | comment sight =>
    cases ha with
    | @line _ _ above' _ => exact ⟨_, _, Step.comment sight, .line, rfl⟩
  | start sight =>
    cases ha with
    | @line _ _ above' _ =>
      exact ⟨_, _, .start ((sight_eq (isCommentLine_of_sight_start sight) _ _ _ _ _).symm.trans
        sight), .declaration, rfl⟩
  | @finish found above before rest first after below more below' stands trailing =>
    cases ha with
    | @declaration _ _ above' _ before' _ _ =>
      refine ⟨_, _, .finish (stands.behind before') trailing, ?_, ?_⟩
      · rw [hsame above' above before' before]
        exact .line
      · simp only [List.map_cons, List.map_nil, Sighting.isOrganized_declaration]
        rw [hsame above' above before' before]
  | @next found above before rest first gap rest' below more below' stands blank opens =>
    cases ha with
    | @declaration _ _ above' _ before' _ _ =>
      refine ⟨_, _, .next (stands.behind before') blank opens, ?_, ?_⟩
      · rw [hsame above' above before' before]
        exact .declaration
      · simp only [List.map_cons, List.map_nil, Sighting.isOrganized_declaration]
        rw [hsame above' above before' before]
  | @stop found above before rest first after below more below' stands trailing =>
    cases ha with
    | @declaration _ _ above' _ before' _ _ =>
      refine ⟨_, _, .stop (stands.behind before') trailing, ?_, ?_⟩
      · rw [hsame above' above before' before]
        exact .code
      · simp only [List.map_cons, List.map_nil, Sighting.isOrganized_declaration]
        rw [hsame above' above before' before]

theorem Alike.symm {st st' : State} (h : Alike st st') : Alike st' st := by
  cases h with
  | line => exact .line
  | declaration => exact .declaration
  | code => exact .code

theorem organized_items_eq_nil {ss : List Sighting} :
    (ss.filterMap Sighting.item?).filterMap Item.organized? = [] ↔
      ∀ b ∈ ss.map Sighting.isOrganized, b = false := by
  rw [List.filterMap_filterMap, List.filterMap_eq_nil_iff]
  simp [Sighting.isOrganized]

/-- Surveys with the same before them find something to organize, or do not. -/
theorem Alike.organized_eq_nil {st st' : State} (h : Alike st st')
    (hnone : st.survey.organized = []) : st'.survey.organized = [] := by
  rcases exists_step st' with ⟨ss', st₁', step'⟩ | hnil
  · have := step'.left_lt
    obtain ⟨ss, st₁, step, halike, hmap⟩ := step'.alike h.symm
    rw [Survey.organized, step.survey_eq, Survey.prepend_items, List.filterMap_append,
      List.append_eq_nil_iff, organized_items_eq_nil, hmap] at hnone
    rw [Survey.organized, step'.survey_eq, Survey.prepend_items, List.filterMap_append,
      List.append_eq_nil_iff, organized_items_eq_nil]
    exact ⟨hnone.1, halike.symm.organized_eq_nil hnone.2⟩
  · rw [Survey.organized, hnil]
    rfl
termination_by st'.left

/-! ## Where items stand -/

/-- The attributes of a declaration stand below lines without attributes in sight. -/
theorem Headed.length_le_of_clear {above base block above' : List Line} {before : List Char}
    (h : Headed (above ++ base) before block above') (hc : Clear base) :
    base.length ≤ above'.length := by
  by_contra hlt
  have hsuffix : above' <:+ base := List.suffix_of_suffix_length_le
    ⟨block.reverse, h.above_eq.symm⟩ (List.suffix_append above base) (by omega)
  obtain ⟨part, rfl⟩ := hsuffix
  have hsplit : above ++ part = block.reverse := by
    have habove := h.above_eq
    rw [← List.append_assoc] at habove
    exact List.append_cancel_right habove
  have hne : part ≠ [] := by
    rintro rfl
    simp at hlt
  -- the topmost line of the block is an attribute, and in sight
  obtain ⟨part, top, rfl⟩ := (List.eq_nil_or_concat' part).resolve_left hne
  have hblock : block = top :: (above ++ part).reverse := by
    rw [← List.reverse_reverse block, ← hsplit]
    simp
  have hpass : ∀ l ∈ part ++ [top], isPassable l = true := by
    intro l hl
    refine h.passable l ?_
    rw [← List.mem_reverse, ← hsplit]
    exact List.mem_append_right _ hl
  have hattr := (h.topped top (by rw [hblock]; rfl)).1
  have hclear := hc top (by rw [List.takeWhile_append_of_pos hpass]; simp)
  rw [hattr] at hclear
  cases hclear

theorem Step.above_suffix {st st' : State} {ss : List Sighting} (h : Step st ss st') :
    ∃ ls, st'.above = ls ++ st.above := by
  cases h with
  | skip _ => exact ⟨[_], rfl⟩
  | @comment _ _ line more _ _ => exact ⟨more.reverse ++ [line], by simp⟩
  | start _ => exact ⟨[], rfl⟩
  | finish _ _ => exact ⟨_, rfl⟩
  | next _ _ _ => exact ⟨_, rfl⟩
  | stop _ _ => exact ⟨_, rfl⟩

theorem Run.above_suffix {st st' : State} {ss : List Sighting} (h : Run st ss st') :
    ∃ ls, st'.above = ls ++ st.above := by
  induction h with
  | nil => exact ⟨[], rfl⟩
  | cons step _ ih =>
    obtain ⟨ls, hls⟩ := ih
    obtain ⟨ms, hms⟩ := step.above_suffix
    exact ⟨ls ++ ms, by rw [hls, hms, List.append_assoc]⟩

/-- An item stands on some rows, and what is kept of it. -/
structure Item.Between (i : Item) (low high : Nat) : Prop where
  start : (low : Int) ≤ i.span.start.line
  le : i.span.start.line ≤ i.span.stop.line
  stop : i.span.stop.line < high
  kept : ∀ k, i.kept? = some k →
    (low : Int) ≤ k.start.line ∧ k.start.line ≤ k.stop.line ∧ k.stop.line < high

theorem Sighting.between {s : Sighting} {above base ls : List Line}
    (habove : s.above = above ++ base) (hc : Clear base) (hlies : s.Lies ls) {i : Item}
    (hi : s.item? = some i) :
    i.Between base.length ls.length := by
  have hlen : s.bottom < ls.length := by
    obtain ⟨below, rfl⟩ := hlies
    have hlines := s.length_lines
    rw [List.length_append, List.length_append, hlines, List.length_reverse, Sighting.bottom,
      Sighting.top]
    omega
  have htop : base.length ≤ s.top := by
    rw [Sighting.top, habove, List.length_append]
    omega
  cases s with
  | passed _ _ => cases hi
  | comment above₁ line more =>
    cases hi
    simp only [Sighting.bottom, Sighting.top, Sighting.above, Sighting.height] at hlen htop
    refine ⟨?_, ?_, ?_, ?_⟩
    · show (base.length : Int) ≤ (above₁.length : Int)
      omega
    · show (above₁.length : Int) ≤ ((above₁.length + more.length : Nat) : Int)
      omega
    · show ((above₁.length + more.length : Nat) : Int) < _
      omega
    · rintro k ⟨⟩
      simp only
      omega
  | declaration above₁ before first more after =>
    cases hi
    have hrow : above₁ = above ++ base := habove
    obtain ⟨block, above', hblock⟩ := exists_headed above₁ before
    have hfoot := hblock.line_footprint first more after
    have hlen' := hblock.length_above
    rw [hrow] at hblock
    have hle := hblock.length_le_of_clear hc
    simp only [Sighting.bottom, Sighting.top, Sighting.above, Sighting.height] at hlen htop
    refine ⟨?_, ?_, ?_, ?_⟩
    · show (base.length : Int) ≤ (above₁.length : Int)
      omega
    · show (above₁.length : Int) ≤ ((above₁.length + more.length : Nat) : Int)
      omega
    · show ((above₁.length + more.length : Nat) : Int) < _
      omega
    · intro k hk
      obtain ⟨-, hstart, hstop⟩ := Declaration.kept?_eq_some hk
      have hline : k.stop.line = (above₁.length + more.length : Nat) := by
        rcases hstop with ⟨-, hstop⟩ | ⟨-, hstop⟩ <;> rw [hstop] <;> rfl
      rw [hstart, hfoot, hline]
      omega

theorem State.between (st : State) {above base : List Line} (habove : st.above = above ++ base)
    (hc : Clear base) {i : Item} (hi : i ∈ st.survey.items) :
    i.Between base.length st.lines.length := by
  obtain ⟨ss, st', hrun, hitems⟩ := st.exists_run
  rw [hitems] at hi
  obtain ⟨s, hs, hitem⟩ := List.mem_filterMap.1 hi
  obtain ⟨ss₁, ss₂, rfl⟩ := List.append_of_mem hs
  obtain ⟨st₁, st₂, hrun', hstep, -⟩ := hrun.split
  obtain ⟨ms, hms⟩ := hrun'.above_suffix
  have hs' : s.above = (ms ++ above) ++ base := by
    rw [hstep.lies.1, hms, habove, List.append_assoc]
  exact Sighting.between hs' hc (hrun.lies hs) hitem

/-- The items of some lines stand on these lines. -/
theorem walk_within (stage : Stage) {above ls : List Line} (hc : Clear above) {i : Item}
    (hi : i ∈ (stage.walk above ls).items) : i.Between above.length (above.length + ls.length) := by
  cases stage with
  | body found =>
    have hbetween := State.between ⟨found, above, .line ls⟩ (List.nil_append above).symm hc hi
    rwa [State.lines, Place.lines, List.length_append, List.length_reverse] at hbetween
  | preamble =>
    have hbetween := State.between ⟨false, (ls.take (preambleLength ls)).reverse ++ above,
      .line (ls.drop (preambleLength ls))⟩ rfl hc hi
    have hlen : (⟨false, (ls.take (preambleLength ls)).reverse ++ above,
        .line (ls.drop (preambleLength ls))⟩ : State).lines.length = above.length + ls.length := by
      rw [State.lines, Place.lines, List.reverse_append, List.reverse_reverse, List.append_assoc,
        List.take_append_drop, List.length_append, List.length_reverse]
    rwa [hlen] at hbetween

theorem Passes.between {stage stage' : Stage} {above ls : List Line} {items : List Item}
    (h : Passes stage above ls items stage') (hc : Clear above) {i : Item} (hi : i ∈ items) :
    i.Between above.length (above.length + ls.length) := by
  apply walk_within stage hc
  have hwalk := h []
  rw [List.append_nil] at hwalk
  rw [hwalk, Survey.prepend_items]
  exact List.mem_append_left _ hi

end TidyUse.Document
