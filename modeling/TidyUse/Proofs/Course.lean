import TidyUse.Document.Splice
import TidyUse.Proofs.Walk

/-!
# The course of a survey

* `Sighting` : what a survey meets, with the lines above it: a line, a comment or a declaration;
* `State`, `Step`, `Run` : where a survey stands and how it goes on;
* `exists_run` : every survey is a run, and its items are those of the sightings.
-/

namespace TidyUse.Document

open Text

/-- What a survey meets below some lines. -/
inductive Sighting
  /-- A line without interest. -/
  | passed (above : List Line) (line : Line)
  | comment (above : List Line) (line : Line) (more : List Line)
  | declaration (above : List Line) (before first : List Char) (more : List Line)
    (after : List Char)

def Sighting.item? : Sighting → Option Item
  | passed _ _ => none
  | comment above line more => some (commentItem above line more)
  | declaration above before first more after =>
    some (.declaration above.length (declared above before first more after))

/-- Where on its line a survey stands. -/
inductive Place
  /-- At the start of the first of some lines. -/
  | line (below : List Line)
  /-- At a declaration behind `before`. -/
  | declaration (before rest : List Char) (below : List Line)
  /-- Behind the last declaration, at other code. -/
  | code (before rest : List Char) (below : List Line)

def Place.lines : Place → List Line
  | line below => below
  | declaration before rest below => (before ++ rest) :: below
  | code before rest below => (before ++ rest) :: below

structure State where
  /-- A declaration has been found. -/
  found : Bool
  /-- The lines above, nearest first. -/
  above : List Line
  place : Place

def State.lines (st : State) : List Line := st.above.reverse ++ st.place.lines

/-- A declaration on its lines, and what stands below it. -/
structure Stands (before rest : List Char) (below : List Line) (first : List Char)
    (more : List Line) (after : List Char) (below' : List Line) : Prop where
  ends : Ends 0 first more
  rows : (before ++ rest) :: below = rows before first more after ++ below'

inductive Step : State → List Sighting → State → Prop
  | skip {found : Bool} {above : List Line} {line : Line} {below : List Line}
    (sight : (⟨above, line, below⟩ : Cursor).sight found 0 = .nothing) :
    Step ⟨found, above, .line (line :: below)⟩ [.passed above line]
      ⟨found, line :: above, .line below⟩
  | comment {found : Bool} {above : List Line} {line : Line} {more below : List Line}
    (sight : (⟨above, line, more ++ below⟩ : Cursor).sight found 0 = .comment more.length) :
    Step ⟨found, above, .line (line :: (more ++ below))⟩ [.comment above line more]
      ⟨found, more.reverse ++ line :: above, .line below⟩
  | start {found : Bool} {above : List Line} {before rest : List Char} {below : List Line}
    (sight : (⟨above, before ++ rest, below⟩ : Cursor).sight found 0 = .start before.length) :
    Step ⟨found, above, .line ((before ++ rest) :: below)⟩ []
      ⟨found, above, .declaration before rest below⟩
  /-- Nothing, or a comment, follows a declaration on its line. -/
  | finish {found : Bool} {above : List Line} {before rest first after : List Char}
    {below more below' : List Line} (stands : Stands before rest below first more after below')
    (trailing : isBlank after = true ∨ isCommentLine after = true) :
    Step ⟨found, above, .declaration before rest below⟩
      [.declaration above before first more after]
      ⟨found || (declared above before first more after).isStatement,
        (Document.rows before first more after).reverse ++ above, .line below'⟩
  /-- Another declaration follows. -/
  | next {found : Bool} {above : List Line} {before rest first gap rest' : List Char}
    {below more below' : List Line}
    (stands : Stands before rest below first more (gap ++ rest') below')
    (blank : isBlank gap = true) (opens : opensUse rest' = true) :
    Step ⟨found, above, .declaration before rest below⟩
      [.declaration above before first more (gap ++ rest')]
      ⟨found || (declared above before first more (gap ++ rest')).isStatement,
        (leadRows before first more).reverse ++ above,
        .declaration (lastRow before first more ++ gap) rest' below'⟩
  /-- Other code follows. -/
  | stop {found : Bool} {above : List Line} {before rest first after : List Char}
    {below more below' : List Line} (stands : Stands before rest below first more after below')
    (trailing : Trailing.ofRest after = .code) :
    Step ⟨found, above, .declaration before rest below⟩
      [.declaration above before first more after]
      ⟨found || (declared above before first more after).isStatement,
        (leadRows before first more).reverse ++ above,
        .code (lastRow before first more) after below'⟩

inductive Run : State → List Sighting → State → Prop
  | nil {st : State} : Run st [] st
  | cons {st st' st'' : State} {ss ss' : List Sighting} (step : Step st ss st')
    (run : Run st' ss' st'') : Run st (ss ++ ss') st''

/-- A step keeps the lines of the document. -/
theorem Step.lines_eq {st st' : State} {ss : List Sighting} (h : Step st ss st') :
    st'.lines = st.lines := by
  cases h with
  | skip _ => simp [State.lines, Place.lines]
  | comment _ => simp [State.lines, Place.lines]
  | start _ => rfl
  | finish stands _ => simp [State.lines, Place.lines, stands.rows]
  | next stands _ _ => simp [State.lines, Place.lines, stands.rows, Document.rows]
  | stop stands _ => simp [State.lines, Place.lines, stands.rows, Document.rows]

theorem Run.lines_eq {st st' : State} {ss : List Sighting} (h : Run st ss st') :
    st'.lines = st.lines := by
  induction h with
  | nil => rfl
  | cons step _ ih => rw [ih, step.lines_eq]

theorem Step.run {st st' : State} {ss : List Sighting} (h : Step st ss st') : Run st ss st' := by
  simpa using Run.cons h .nil

/-! ## Finding the end of a declaration -/

theorem splitComment_fst_append {cs : List Char} (h : (Token.splitComment cs).2 ≠ [])
    (ds : List Char) :
    Token.splitComment ((Token.splitComment cs).1 ++ ds) = ((Token.splitComment cs).1, ds) := by
  fun_induction Token.splitComment cs with
  | case1 cs => rfl
  | case2 c cs hne r ih =>
    have hih := ih h
    have hhead : ∀ d l, (Token.splitComment cs).1 ++ ds = d :: l → ∃ l', cs = d :: l' := by
      intro d l hl
      cases cs with
      | nil => exact absurd rfl h
      | cons x xs =>
        have hsplit := Token.splitComment_append (x :: xs)
        cases hfst : (Token.splitComment (x :: xs)).1 with
        | nil =>
          unfold Token.splitComment at hfst
          split at hfst
          · simp at hfst
          · simp at hfst
          · rename_i heq
            cases heq
        | cons y ys =>
          rw [hfst] at hl hsplit
          exact ⟨xs, by rw [← (List.cons.inj hl).1, (List.cons.inj hsplit).1]⟩
    show Token.splitComment (c :: ((Token.splitComment cs).1 ++ ds)) = _
    rw [Token.splitComment]
    · rw [hih]
    · intro tail hc htail
      obtain ⟨l', hl'⟩ := hhead _ _ htail
      exact hne l' hc hl'
  | case3 => exact absurd rfl h

/-- The text up to the end of a declaration ends there. -/
theorem exists_findEnd_eq {depth : Int} {column e : Nat} {cs : List Char}
    (h : (findEnd depth column cs).1 = some e) :
    ∃ first after, cs = first ++ after ∧ (findEnd depth column first).1 = some e ∧
      e = column + first.length := by
  fun_induction findEnd depth column cs with
  | case1 => cases h
  | case2 => cases h
  | case3 depth column cs ih =>
    obtain ⟨first, after, hcs, hfirst, he⟩ := ih h
    have hne : (Token.splitComment cs).2 ≠ [] := by
      intro hnil
      rw [hnil, findEnd] at h
      cases h
    refine ⟨'/' :: '*' :: ((Token.splitComment cs).1 ++ first), after, ?_, ?_, ?_⟩
    · rw [List.cons_append, List.cons_append, List.append_assoc, ← hcs, Token.splitComment_append]
    · rw [findEnd, splitComment_fst_append hne]
      exact hfirst
    · simp only [List.length_cons, List.length_append]
      omega
  | case4 depth column c cs hne hne' hc =>
    refine ⟨[c], cs, rfl, ?_, ?_⟩
    · rw [findEnd, if_pos hc]
      · exact h
      · simp
      · simp
    · simp only [Option.some.injEq] at h
      simp [← h]
  | case5 depth column c cs hne hne' hc ih =>
    obtain ⟨first, after, rfl, hfirst, he⟩ := ih h
    obtain ⟨d, first, rfl⟩ : ∃ d first', first = d :: first' := by
      cases first with
      | nil =>
        rw [findEnd] at hfirst
        cases hfirst
      | cons d first => exact ⟨d, first, rfl⟩
    refine ⟨c :: d :: first, after, rfl, ?_, ?_⟩
    · rw [findEnd, if_neg hc]
      · exact hfirst
      · intro tail hslash htail
        exact hne _ hslash (by rw [(List.cons.inj htail).1]; rfl)
      · intro tail hslash htail
        exact hne' _ hslash (by rw [(List.cons.inj htail).1]; rfl)
    · simp only [List.length_cons] at he ⊢
      omega

theorem exists_rows_of_endBelow {depth : Int} {below : List Line} {e : Nat × Nat}
    (h : endBelow depth below = some e) :
    ∃ first more after below', below = rows [] first more after ++ below' ∧
      Ends depth first more := by
  induction below generalizing depth e with
  | nil => cases h
  | cons line below ih =>
    rw [endBelow] at h
    split at h
    · rename_i column _ heq
      obtain ⟨first, after, rfl, hfirst, hlen⟩ := exists_findEnd_eq (show (findEnd depth 0 line).1 =
        some column by rw [heq])
      refine ⟨first, [], after, below, rfl, ?_⟩
      rw [Ends, hfirst, hlen, Nat.zero_add]
    · rename_i depth' heq
      obtain ⟨e', he', rfl⟩ := Option.map_eq_some_iff.1 h
      obtain ⟨first, more, after, below', rfl, hends⟩ := ih he'
      refine ⟨line, first :: more, after, below', ?_, ?_, ?_⟩
      · rw [rows_cons, List.nil_append, List.cons_append]
      · rw [heq]
      · rw [heq]
        exact hends

theorem exists_stands {above : List Line} {before rest : List Char} {below : List Line}
    {e : Nat × Nat}
    (h : (⟨above, before ++ rest, below⟩ : Cursor).declarationEnd before.length = some e) :
    ∃ first more after below', Stands before rest below first more after below' := by
  rw [Cursor.declarationEnd] at h
  simp only [List.drop_left] at h
  rw [findEnd_column] at h
  split at h
  · rename_i column _ heq
    obtain ⟨c, hc, -⟩ := Option.map_eq_some_iff.1 (Prod.mk.inj heq).1
    obtain ⟨first, after, rfl, hfirst, hlen⟩ := exists_findEnd_eq hc
    refine ⟨first, [], after, below, ?_, ?_⟩
    · rw [Ends, hfirst, hlen, Nat.zero_add]
    · rw [rows_nil, List.append_assoc]
      rfl
  · rename_i depth heq
    obtain ⟨hnone, hdepth⟩ := Prod.mk.inj heq
    obtain ⟨first, more, after, below', rfl, hends⟩ := exists_rows_of_endBelow h
    refine ⟨rest, first :: more, after, below', ⟨Option.map_eq_none_iff.1 hnone, ?_⟩, ?_⟩
    · rw [hdepth]
      exact hends
    · rw [rows_cons]
      rfl

/-! ## Every survey is a run -/

theorem findEnd_last {depth : Int} {column : Nat} {cs : List Char}
    (h : (findEnd depth column cs).1 = some (column + cs.length)) : ∃ x, cs = x ++ [';'] := by
  fun_induction findEnd depth column cs with
  | case1 => cases h
  | case2 => cases h
  | case3 depth column cs ih =>
    have hlen := congrArg List.length (Token.splitComment_append cs)
    rw [List.length_append] at hlen
    obtain ⟨x, hx⟩ := ih (by rw [h]; simp only [List.length_cons]; congr 1; omega)
    refine ⟨'/' :: '*' :: ((Token.splitComment cs).1 ++ x), ?_⟩
    rw [List.cons_append, List.cons_append, List.append_assoc, ← hx, Token.splitComment_append]
  | case4 depth column c cs hne hne' hc =>
    simp only [Option.some.injEq, List.length_cons] at h
    have hnil : cs = [] := List.length_eq_zero_iff.1 (by omega)
    rw [Bool.and_eq_true, beq_iff_eq] at hc
    exact ⟨[], by rw [hnil, hc.1]; rfl⟩
  | case5 depth column c cs hne hne' hc ih =>
    obtain ⟨x, rfl⟩ := ih (by rw [h]; simp only [List.length_cons]; congr 1; omega)
    exact ⟨c :: x, rfl⟩

/-- The last line of a declaration ends with `;`. -/
theorem Ends.last {depth : Int} {first : Line} {more : List Line} (h : Ends depth first more)
    (before : List Char) : ∃ x, lastRow before first more = x ++ [';'] := by
  induction more generalizing depth before first with
  | nil =>
    obtain ⟨x, rfl⟩ := findEnd_last (show (findEnd depth 0 first).1 = some (0 + first.length) by
      rw [Nat.zero_add]; exact h)
    exact ⟨before ++ x, by rw [lastRow, List.append_assoc]⟩
  | cons next more ih => exact ih h.2 []

theorem firstUse_shift (column k : Nat) (behindWord : Bool) (cs : List Char) :
    firstUse (column + k) behindWord cs = (firstUse column behindWord cs).map (· + k) := by
  induction cs generalizing column behindWord with
  | nil => rfl
  | cons c cs ih =>
    rw [firstUse, firstUse]
    split
    · rfl
    · rw [← ih]
      congr 1
      omega

/-- Behind a `;` declarations are found as on a line of their own. -/
theorem findStart_shift (x cs : List Char) :
    findStart (x ++ [';'] ++ cs) (x ++ [';']).length =
      (findStart cs 0).map (· + (x ++ [';']).length) := by
  have hword : ((x ++ [';']).getLast?.any isWordChar) = false := by
    rw [List.getLast?_append_of_ne_nil _ (List.cons_ne_nil _ _)]
    decide +kernel
  have hshift := firstUse_shift 0 (x ++ [';']).length false cs
  rw [Nat.zero_add] at hshift
  unfold findStart
  simp only [Int.toNat_natCast, Int.toNat_zero, List.take_left, List.drop_left, hword, hshift,
    clip_natCast, List.take_zero, List.drop_zero, List.getLast?_nil, Option.any_none]
  cases firstUse 0 false cs with
  | none => rfl
  | some start =>
    have htake : ((x ++ [';'] ++ cs).take (start + (x ++ [';']).length)).drop (x ++ [';']).length =
        cs.take start := by
      rw [Nat.add_comm, List.take_length_add_append, List.drop_left]
    have hclip : (cs.take start).drop (clip cs.length 0) = cs.take start := rfl
    rw [Option.map_some, Option.filter_some, Option.filter_some, htake, hclip]
    split <;> rfl

theorem indent_of_opensUse {gap rest : List Char} (hgap : isBlank gap = true)
    (ho : opensUse rest = true) : indent (gap ++ rest) = gap.length := by
  obtain ⟨c, r, rfl, hc⟩ := opensUse_head ho
  have hspace : isSpace c = false := by rcases hc with rfl | rfl <;> decide
  rw [indent_append hgap, indent, List.takeWhile_cons_of_neg (by rw [hspace]; exact Bool.false_ne_true)]
  rfl

/-- What follows a declaration is another one. -/
theorem ofRest_next {gap rest : List Char} (hgap : isBlank gap = true)
    (ho : opensUse rest = true) : Trailing.ofRest (gap ++ rest) = .nothing := by
  obtain ⟨-, hcomment, hblank, -⟩ := sight_start hgap ho false [] []
  rw [Trailing.ofRest, hblank, hcomment, findStart_blank hgap ho, indent_of_opensUse hgap ho,
    if_neg Bool.false_ne_true, if_neg Bool.false_ne_true, if_pos rfl]

def State.survey (st : State) : Survey :=
  match st.place with
  | .line below => walk st.found st.above below
  | .declaration before rest below =>
    surveyStart st.found ⟨st.above, before ++ rest, below⟩ before.length
  | .code _ _ _ => ⟨[], .code⟩

/-- A step gives its items, and the survey goes on from there. -/
theorem Step.survey_eq {st st' : State} {ss : List Sighting} (h : Step st ss st') :
    st.survey = st'.survey.prepend (ss.filterMap Sighting.item?) := by
  cases h with
  | skip sight => exact surveyFrom_nothing sight
  | comment sight => exact surveyFrom_comment sight
  | start sight => exact surveyFrom_eq_surveyStart sight
  | finish stands trailing => exact surveyStart_finish stands.ends stands.rows trailing
  | @next found above before rest first gap rest' below more below' stands blank opens =>
    refine (surveyStart_rows stands.ends stands.rows).trans ?_
    rw [ofRest_next blank opens]
    obtain ⟨x, hx⟩ := stands.ends.last before
    have hsight : (⟨(leadRows before first more).reverse ++ above,
        lastRow before first more ++ (gap ++ rest'), below'⟩ : Cursor).sight
          (found || (declared above before first more (gap ++ rest')).isStatement)
          (lastRow before first more).length = .start (lastRow before first more ++ gap).length := by
      rw [Cursor.sight, if_neg (by rw [hx]; simp)]
      simp only []
      have hlen : (x ++ [';'] ++ gap).length = gap.length + (x ++ [';']).length := by
        rw [List.length_append, Nat.add_comm]
      rw [hx, findStart_shift, findStart_blank blank opens, hlen]
      rfl
    dsimp only
    rw [surveyFrom_eq_surveyStart hsight, ← List.append_assoc]
    rfl
  | stop stands trailing =>
    refine (surveyStart_rows stands.ends stands.rows).trans ?_
    rw [trailing]
    rfl

theorem Run.survey_eq {st st' : State} {ss : List Sighting} (h : Run st ss st') :
    st.survey = st'.survey.prepend (ss.filterMap Sighting.item?) := by
  induction h with
  | nil => rfl
  | cons step _ ih =>
    rw [step.survey_eq, ih, ← Survey.prepend_append, ← List.filterMap_append]

theorem opensUse_of_firstUse {column c : Nat} {behindWord : Bool} {cs : List Char}
    (h : firstUse column behindWord cs = some c) : opensUse (cs.drop (c - column)) = true := by
  induction cs generalizing column behindWord with
  | nil => cases h
  | cons d cs ih =>
    rw [firstUse] at h
    split at h
    · rename_i ho
      rw [Option.some.injEq] at h
      rw [Bool.and_eq_true] at ho
      rw [h, Nat.sub_self]
      exact ho.2
    · have hle := firstUse_le h
      have hdrop : c - column = (c - (column + 1)) + 1 := by omega
      rw [hdrop, List.drop_succ_cons]
      exact ih h

/-- Where a declaration starts, the line opens with one. -/
theorem opensUse_of_findStart {line : Line} {start : Nat} (h : findStart line 0 = some start) :
    opensUse (line.drop start) = true := by
  rw [findStart, Option.filter_eq_some_iff] at h
  exact opensUse_of_firstUse h.1

theorem ofRest_cases (after : List Char) :
    (isBlank after = true ∨ isCommentLine after = true) ∨
      (∃ gap rest, after = gap ++ rest ∧ isBlank gap = true ∧ opensUse rest = true) ∨
      Trailing.ofRest after = .code := by
  by_cases hblank : isBlank after = true
  · exact Or.inl (Or.inl hblank)
  by_cases hcomment : isCommentLine after = true
  · exact Or.inl (Or.inr hcomment)
  by_cases hstart : findStart after 0 = some (indent after)
  · have hgap : isBlank (after.take (indent after)) = true := by
      have htake : after.take (indent after) = after.takeWhile isSpace := by
        nth_rewrite 2 [← List.takeWhile_append_dropWhile (p := isSpace) (l := after)]
        exact List.take_left
      rw [htake, isBlank]
      exact List.all_takeWhile
    exact Or.inr (Or.inl ⟨_, _, (List.take_append_drop (indent after) after).symm, hgap,
      opensUse_of_findStart hstart⟩)
  · right
    right
    rw [Trailing.ofRest, if_neg hblank, if_neg hcomment, if_neg hstart]

theorem sight_eq_comment {cur : Cursor} {found : Bool} {k : Nat}
    (h : cur.sight found 0 = .comment k) : commentLines cur.line cur.below = some k := by
  rw [Cursor.sight, if_pos rfl] at h
  split at h
  · cases h
  · split at h
    · rename_i k' hk
      cases h
      exact hk
    · split at h
      · cases h
      · split at h
        · split at h <;> cases h
        · split at h <;> cases h

/-- What is known of a line on which a declaration is sighted. -/
theorem sight_eq_start {cur : Cursor} {found : Bool} {start : Nat}
    (h : cur.sight found 0 = .start start) :
    findStart cur.line 0 = some start ∧ isPassable cur.line = false ∧
      (found = true → isBlank (cur.line.take start) = true) := by
  rw [Cursor.sight, if_pos rfl] at h
  split at h
  · cases h
  · rename_i hblank
    split at h
    · cases h
    · rename_i hcomment
      split at h
      · cases h
      · rename_i hattr
        split at h
        · split at h <;> cases h
        · rename_i start' hstart
          split at h
          · cases h
          · rename_i hfound
            cases h
            refine ⟨hstart, ?_, fun hf => ?_⟩
            · rw [isPassable, commentLines_eq_none_iff.1 hcomment]
              simp [hblank, hattr]
            · simpa [hf] using hfound

/-- What is known of a line without interest. -/
theorem sight_eq_nothing {cur : Cursor} {found : Bool} (h : cur.sight found 0 = .nothing) :
    isBlank cur.line = true ∨ isAttributeLine cur.line = true ∨
      found = false ∧ isPassable cur.line = false ∧ findStart cur.line 0 = none := by
  rw [Cursor.sight, if_pos rfl] at h
  split at h
  · rename_i hblank
    exact Or.inl hblank
  · rename_i hblank
    split at h
    · cases h
    · rename_i hcomment
      split at h
      · rename_i hattr
        exact Or.inr (Or.inl hattr)
      · rename_i hattr
        split at h
        · rename_i hstart
          split at h
          · cases h
          · rename_i hfound
            refine Or.inr (Or.inr ⟨by simpa using hfound, ?_, hstart⟩)
            rw [isPassable, commentLines_eq_none_iff.1 hcomment]
            simp [hblank, hattr]
        · split at h <;> cases h

theorem commentLines_le {line : Line} {below : List Line} {k : Nat}
    (h : commentLines line below = some k) : k ≤ below.length := by
  rw [commentLines] at h
  split at h
  · cases h
    exact Nat.zero_le _
  · cases h
    exact linesToClose_le _ _
  · cases h

theorem findStart_lt {line : Line} {start : Nat} (h : findStart line 0 = some start) :
    start < line.length := by
  obtain ⟨c, r, hr, -⟩ := opensUse_head (opensUse_of_findStart h)
  have hlen := congrArg List.length hr
  rw [List.length_drop, List.length_cons] at hlen
  omega

/-- A survey has come to its end: at other code, at the end of the document, or at a declaration
without an end. -/
inductive State.Stuck : State → Prop
  | ended {found : Bool} {above : List Line} {before rest : List Char} {below : List Line} :
    Stuck ⟨found, above, .code before rest below⟩
  | exhausted {found : Bool} {above : List Line} : Stuck ⟨found, above, .line []⟩
  | code {found : Bool} {above : List Line} {line : Line} {below : List Line}
    (sight : (⟨above, line, below⟩ : Cursor).sight found 0 = .code) :
    Stuck ⟨found, above, .line (line :: below)⟩
  | unterminated {found : Bool} {above : List Line} {before rest : List Char} {below : List Line}
    (endless : (⟨above, before ++ rest, below⟩ : Cursor).declarationEnd before.length = none) :
    Stuck ⟨found, above, .declaration before rest below⟩

theorem State.Stuck.items_eq_nil {st : State} (h : st.Stuck) : st.survey.items = [] := by
  cases h with
  | ended => rfl
  | exhausted => rfl
  | code sight => simp only [State.survey, walk, surveyFrom_code sight]
  | unterminated endless => simp only [State.survey, surveyStart, endless]

/-- A survey goes on until it has come to its end. -/
theorem exists_step_or_stuck (st : State) : (∃ ss st', Step st ss st') ∨ st.Stuck := by
  obtain ⟨found, above, place⟩ := st
  cases place with
  | code before rest below => exact Or.inr .ended
  | declaration before rest below =>
    cases hend : (⟨above, before ++ rest, below⟩ : Cursor).declarationEnd before.length with
    | none => exact Or.inr (.unterminated hend)
    | some e =>
      obtain ⟨first, more, after, below', stands⟩ := exists_stands hend
      rcases ofRest_cases after with h | ⟨gap, rest', rfl, hgap, ho⟩ | h
      · exact Or.inl ⟨_, _, .finish stands h⟩
      · exact Or.inl ⟨_, _, .next stands hgap ho⟩
      · exact Or.inl ⟨_, _, .stop stands h⟩
  | line below =>
    cases below with
    | nil => exact Or.inr .exhausted
    | cons line below =>
      cases hsight : (⟨above, line, below⟩ : Cursor).sight found 0 with
      | nothing => exact Or.inl ⟨_, _, .skip hsight⟩
      | code => exact Or.inr (.code hsight)
      | comment k =>
        have hk := commentLines_le (sight_eq_comment hsight)
        obtain ⟨more, below, rfl, rfl⟩ : ∃ more below', below = more ++ below' ∧ k = more.length :=
          ⟨below.take k, below.drop k, (List.take_append_drop k below).symm, by simp [hk]⟩
        exact Or.inl ⟨_, _, .comment hsight⟩
      | start start =>
        have hstart := findStart_lt (sight_eq_start hsight).1
        obtain ⟨before, rest, rfl, rfl⟩ : ∃ before rest, line = before ++ rest ∧
            start = before.length :=
          ⟨line.take start, line.drop start, (List.take_append_drop start line).symm, by
            rw [List.length_take]; exact (Nat.min_eq_left hstart.le).symm⟩
        exact Or.inl ⟨_, _, .start hsight⟩

/-- A survey goes on as long as there is something to be met. -/
theorem exists_step (st : State) : (∃ ss st', Step st ss st') ∨ st.survey.items = [] :=
  (exists_step_or_stuck st).imp_right State.Stuck.items_eq_nil

theorem size_append (ls ms : List Line) : size (ls ++ ms) = size ls + size ms := by
  induction ls with
  | nil => simp [size]
  | cons l ls ih =>
    rw [List.cons_append, size_cons, ih, size_cons]
    omega

theorem size_rows (before first : List Char) (more : List Line) (after : List Char) :
    size (rows before first more after) = before.length + size (first :: more) + after.length := by
  induction more generalizing before first with
  | nil =>
    rw [rows_nil, size_cons, size_cons, List.length_append, List.length_append]
    omega
  | cons next more ih =>
    rw [rows_cons, size_cons, ih, size_cons first, List.length_append, List.length_nil]
    omega

theorem Ends.size_pos {depth : Int} {first : Line} {more : List Line} (h : Ends depth first more) :
    2 ≤ size (first :: more) := by
  cases more with
  | nil =>
    have hpos := h.pos []
    rw [lastRow, List.nil_append] at hpos
    rw [size_cons]
    omega
  | cons next more =>
    rw [size_cons, size_cons]
    omega

def State.left (st : State) : Nat :=
  match st.place with
  | .line below => 2 * size below + 1
  | .declaration _ rest below => 2 * (rest.length + 1 + size below)
  | .code _ _ _ => 0

theorem Stands.size_eq {before rest first after : List Char} {below more below' : List Line}
    (h : Stands before rest below first more after below') :
    rest.length + 1 + size below = size (first :: more) + after.length + size below' := by
  have hsize := congrArg size h.rows
  rw [size_cons, size_append, size_rows, List.length_append] at hsize
  omega

theorem Step.left_lt {st st' : State} {ss : List Sighting} (h : Step st ss st') :
    st'.left < st.left := by
  cases h with
  | skip _ =>
    simp only [State.left, size_cons]
    omega
  | comment _ =>
    simp only [State.left, size_cons, size_append]
    omega
  | start _ =>
    simp only [State.left, size_cons, List.length_append]
    omega
  | finish stands _ =>
    have hsize := stands.size_eq
    have hpos := stands.ends.size_pos
    simp only [State.left]
    omega
  | next stands _ _ =>
    have hsize := stands.size_eq
    have hpos := stands.ends.size_pos
    rw [List.length_append] at hsize
    simp only [State.left]
    omega
  | stop stands _ =>
    simp only [State.left]
    omega

/-- From every state there is a run that meets all that is left. -/
theorem State.exists_run (st : State) :
    ∃ ss st', Run st ss st' ∧ st.survey.items = ss.filterMap Sighting.item? := by
  rcases exists_step st with ⟨ss, st', step⟩ | hnil
  · have := step.left_lt
    obtain ⟨ss', st'', run, hitems⟩ := st'.exists_run
    refine ⟨ss ++ ss', st'', .cons step run, ?_⟩
    rw [step.survey_eq, Survey.prepend_items, hitems, List.filterMap_append]
  · exact ⟨[], st, .nil, hnil⟩
termination_by st.left

/-- Where the survey of a document starts: below the preamble. -/
def State.initial (lines : List Line) : State :=
  ⟨false, (lines.take (preambleLength lines)).reverse,
    .line (lines.drop (preambleLength lines))⟩

theorem lines_initial (lines : List Line) : (State.initial lines).lines = lines := by
  rw [State.initial, State.lines, List.reverse_reverse]
  exact List.take_append_drop _ _

theorem survey_initial (lines : List Line) : survey lines = (State.initial lines).survey := by
  rw [survey_eq_walk, Stage.walk, List.append_nil]
  rfl

/-- Every survey is a run. -/
theorem exists_run (lines : List Line) :
    ∃ ss st, Run (.initial lines) ss st ∧ (survey lines).items = ss.filterMap Sighting.item? := by
  rw [survey_initial]
  exact (State.initial lines).exists_run

end TidyUse.Document
