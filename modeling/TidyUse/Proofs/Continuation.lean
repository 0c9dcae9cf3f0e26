import TidyUse.Proofs.KeptLines
import TidyUse.Proofs.Outcome
import TidyUse.Proofs.Replay
import TidyUse.Proofs.Scanning

/-!
# Code below the imports

* `State.extend` : a survey of a document that goes on below; `survey_append` : if other code ends
  the survey, what follows makes no difference to it;
* `Keeps.append` : nor to what stands in the text;
* `Layout.cut_written` : other code stands behind the imports;
* `organize_append` : the new imports are the same, and what follows stays as it is.
-/

namespace TidyUse.Document

open Text

/-! ## A survey with more lines below -/

def Place.extend (ms : List Line) : Place → Place
  | line below => line (below ++ ms)
  | declaration before rest below => declaration before rest (below ++ ms)
  | code before rest below => code before rest (below ++ ms)

/-- The survey of a document that goes on below. -/
def State.extend (ms : List Line) (st : State) : State := { st with place := st.place.extend ms }

theorem Stands.append {before rest first after : List Char} {below more below' : List Line}
    (h : Stands before rest below first more after below') (ms : List Line) :
    Stands before rest (below ++ ms) first more after (below' ++ ms) :=
  ⟨h.ends, by rw [← List.cons_append, h.rows, List.append_assoc]⟩

theorem Step.ending_eq {st st' : State} {ss : List Sighting} (h : Step st ss st') :
    st'.survey.ending = st.survey.ending := by
  rw [h.survey_eq]
  rfl

theorem Run.ending_eq {st st' : State} {ss : List Sighting} (h : Run st ss st') :
    st'.survey.ending = st.survey.ending := by
  rw [h.survey_eq]
  rfl

/-- A step before other code is met is the same if the document goes on. -/
theorem Step.extend {st st' : State} {ss : List Sighting} (h : Step st ss st')
    (hend : st'.survey.ending = .code) (ms : List Line) :
    Step (st.extend ms) ss (st'.extend ms) := by
  cases h with
  | @skip found above line below sight =>
    exact .skip ((sight_eq (isCommentLine_of_sight_nothing sight) found above above _ _).symm.trans
      sight)
  | @comment found above line more below sight =>
    -- the comment is closed, since the survey goes on below it
    cases below with
    | nil => cases hend
    | cons next below =>
      show Step ⟨found, above, .line (line :: ((more ++ next :: below) ++ ms))⟩ _ _
      rw [List.append_assoc]
      exact .comment (sight_comment_append sight _)
  | @start found above before rest below sight =>
    exact .start ((sight_eq (isCommentLine_of_sight_start sight) found above above _ _).symm.trans
      sight)
  | finish stands trailing => exact .finish (stands.append ms) trailing
  | next stands blank opens => exact .next (stands.append ms) blank opens
  | stop stands trailing => exact .stop (stands.append ms) trailing

theorem isCommentLine_of_sight_code {cur : Cursor} {found : Bool}
    (h : cur.sight found 0 = .code) : isCommentLine cur.line = false := by
  rw [Cursor.sight, if_pos rfl] at h
  split at h
  · cases h
  · split at h
    · cases h
    · rename_i hcomment
      exact commentLines_eq_none_iff.1 hcomment

/-- If other code ends a survey, what follows makes no difference. -/
theorem State.survey_extend (st : State) (hend : st.survey.ending = .code) (ms : List Line) :
    (st.extend ms).survey = st.survey := by
  rcases exists_step_or_stuck st with ⟨ss, st', step⟩ | hstuck
  · have := step.left_lt
    have hend' : st'.survey.ending = .code := step.ending_eq.trans hend
    rw [(step.extend hend' ms).survey_eq, st'.survey_extend hend' ms, step.survey_eq]
  · cases hstuck with
    | ended => rfl
    | exhausted => cases hend
    | @code found above line below sight =>
      have hsight := (sight_eq (isCommentLine_of_sight_code sight) found above above below
        (below ++ ms)).symm.trans sight
      exact (surveyFrom_code hsight).trans (surveyFrom_code sight).symm
    | unterminated endless =>
      simp only [State.survey, surveyStart, endless] at hend
      cases hend
termination_by st.left

/-- A preamble with lines below it ends there. -/
theorem preambleLength_append {ls : List Line} (h : preambleLength ls < ls.length)
    (ms : List Line) : preambleLength (ls ++ ms) = preambleLength ls := by
  fun_induction preambleLength ls with
  | case1 => cases h
  | case2 line below k hk ih =>
    have hle := commentLines_le hk
    rw [List.length_cons] at h
    obtain ⟨more, rest, rfl, rfl⟩ : ∃ more rest, below = more ++ rest ∧ k = more.length :=
      ⟨below.take k, below.drop k, (List.take_append_drop k below).symm, by simp [hle]⟩
    rw [List.drop_left] at ih h ⊢
    rw [List.length_append] at h
    cases rest with
    | nil =>
      rw [List.length_nil] at h
      omega
    | cons next rest =>
      have hk' := commentLines_append hk (next :: rest ++ ms)
      rw [List.cons_append, List.append_assoc, preambleLength, hk']
      dsimp only
      rw [List.drop_left, ih (by omega)]
  | case3 line below hk hpre ih =>
    have hk' : commentLines line (below ++ ms) = none :=
      commentLines_eq_none_iff.2 (commentLines_eq_none_iff.1 hk)
    rw [List.length_cons] at h
    rw [List.cons_append, preambleLength, hk']
    dsimp only
    rw [if_pos hpre, ih (by omega)]
  | case4 line below hk hpre =>
    have hk' : commentLines line (below ++ ms) = none :=
      commentLines_eq_none_iff.2 (commentLines_eq_none_iff.1 hk)
    rw [List.cons_append, preambleLength, hk']
    dsimp only
    rw [if_neg hpre]

/-- If other code ends the survey of a document, what follows makes no difference. -/
theorem survey_append {ls : List Line} (hend : (survey ls).ending = .code) (ms : List Line) :
    survey (ls ++ ms) = survey ls := by
  have hlt : preambleLength ls < ls.length := by
    by_contra hle
    rw [survey_initial, State.initial, List.drop_of_length_le (Nat.le_of_not_lt hle)] at hend
    cases hend
  have hinitial : State.initial (ls ++ ms) = (State.initial ls).extend ms := by
    simp only [State.initial, State.extend, Place.extend, preambleLength_append hlt,
      List.take_append_of_le_length hlt.le, List.drop_append_of_le_length hlt.le]
  rw [survey_initial, hinitial, State.survey_extend _ (survey_initial ls ▸ hend), ← survey_initial]

/-! ## Code behind the imports -/

theorem walk_blank (found : Bool) (above : List Line) {below : List Line}
    (h : below.all isBlank = true) : (walk found above below).ending = .exhausted := by
  induction below generalizing above with
  | nil => rfl
  | cons line below ih =>
    rw [List.all_cons, Bool.and_eq_true] at h
    have hsight : (⟨above, line, below⟩ : Cursor).sight found 0 = .nothing := by
      rw [Cursor.sight, if_pos rfl, if_pos h.1]
    rw [walk, surveyFrom_nothing hsight]
    exact ih (line :: above) h.2

/-- Other code stands behind every declaration, on its line or below. -/
theorem Layout.cut_written {ls : List Line} {ss : List Sighting} (h : Layout ls ss)
    (hend : (survey ls).ending = .code) {above : List Line} {before first : List Char}
    {more : List Line} {after : List Char} (hs : .declaration above before first more after ∈ ss) :
    ∃ below, Cut ls (placed above before (first :: more)).stop
        ((leadRows before first more).reverse ++ above) (lastRow before first more) after below ∧
      (after :: below).all isBlank = false := by
  obtain ⟨below, hcut⟩ := (h.lies hs).cut_stop
  refine ⟨below, hcut, ?_⟩
  obtain ⟨st, hrun⟩ := h.run
  obtain ⟨a, b, rfl⟩ := List.append_of_mem hs
  obtain ⟨st₁, st₂, hrun₁, hstep, hrun₂⟩ := hrun.split
  have hend₂ : st₂.survey.ending = .code := by
    rw [hstep.ending_eq, hrun₁.ending_eq, ← survey_initial, hend]
  have hlines : st₂.lines = ls := by
    rw [hstep.lines_eq, hrun₁.lines_eq, lines_initial]
  rw [List.all_cons, Bool.and_eq_false_iff]
  cases hstep with
  | @finish found _ _ rest _ _ below₁ _ below₂ stands trailing =>
    refine Or.inr ?_
    have hbelow : below₂ = below := by
      have hls := hlines.trans hcut.1
      simp only [State.lines, Place.lines, rows, List.reverse_append, List.reverse_reverse,
        List.append_assoc] at hls
      simpa using hls
    rw [Bool.eq_false_iff]
    intro hblank
    rw [← hbelow] at hblank
    exact absurd ((walk_blank _ _ hblank).symm.trans hend₂) (by decide)
  | next stands blank opens =>
    refine Or.inl ?_
    obtain ⟨-, -, hblank, -⟩ := sight_start blank opens false [] []
    exact hblank
  | stop stands trailing =>
    refine Or.inl ?_
    rw [Bool.eq_false_iff]
    intro hblank
    rw [Trailing.ofRest, if_pos hblank] at trailing
    cases trailing

/-! ## Places in a document that goes on -/

section Text

variable {text : List Char} {p : Position} {above : List Line} {x y : Line} {below : List Line}

theorem Keeps.append {ls : List Line} {k : Span} {parts : List Line} (h : Keeps ls k parts)
    (ms : List Line) : Keeps (ls ++ ms) k parts := by
  obtain ⟨hne, above, ws, after, below, hk, hls⟩ := h
  exact ⟨hne, above, ws, after, below ++ ms, hk, by simp only [hls, List.append_assoc]⟩

/-- All that is kept is made of parts of lines. -/
theorem Layout.exists_keeps {ls : List Line} {ss : List Sighting} (h : Layout ls ss) {k : Span}
    (hk : k ∈ (survey ls).preserved) : ∃ parts, Keeps ls k parts := by
  rw [h.preserved_eq] at hk
  have hmem := (exists_contains_foldl_preserve [] (ss.filterMap Sighting.kept?)).2 k hk
  obtain ⟨s, hs, hkept⟩ := List.mem_filterMap.1 hmem
  cases s with
  | passed _ _ => cases hkept
  | comment above line more => exact ⟨_, keeps_comment (h.lies hs) hkept⟩
  | declaration above before first more after =>
    obtain ⟨block, above', hblock⟩ := exists_headed above before
    exact ⟨_, keeps_declaration (h.lies hs) hkept hblock⟩

theorem Cut.charsBefore_append (h : Cut (lines text) p above x y below) (u : List Char) :
    charsBefore (text ++ '\n' :: u) p = charsBefore text p := by
  obtain ⟨hlines, rfl⟩ := h
  have hlines' : lines (text ++ '\n' :: u) = above.reverse ++ (x ++ y) :: (below ++ lines u) := by
    rw [lines_append, hlines, List.append_assoc, List.cons_append]
  rw [charsBefore_eq hlines, charsBefore_eq hlines']

theorem Cut.lineAt_append (h : Cut (lines text) p above x y below) (u : List Char) :
    lineAt (text ++ '\n' :: u) p = lineAt text p := by
  obtain ⟨hlines, rfl⟩ := h
  have hlines' : lines (text ++ '\n' :: u) = above.reverse ++ (x ++ y) :: (below ++ lines u) := by
    rw [lines_append, hlines, List.append_assoc, List.cons_append]
  rw [lineAt_eq hlines, lineAt_eq hlines']

end Text

/-! ## The document with new imports -/

theorem closeGap_append (head : List Char) {tail : List Char} (h : isBlank tail = false)
    (rest : List Char) : closeGap head (tail ++ rest) = closeGap head tail ++ rest := by
  cases tail with
  | nil => cases h
  | cons c tail =>
    by_cases hc : c = '\n'
    · subst hc
      cases tail with
      | nil => exact absurd h (by decide)
      | cons d tail =>
        by_cases hd : d = '\n'
        · subst hd
          simp only [closeGap, List.cons_append]
          split <;> simp
        · simp [closeGap, hd]
    · simp [closeGap, hc]

theorem dropWhile_isGap_append {tail : List Char} (h : isBlank tail = false) (rest : List Char) :
    (tail ++ rest).dropWhile isGap = tail.dropWhile isGap ++ rest := by
  refine dropWhile_append_of_ne ?_ rest
  rw [Ne, dropWhile_eq_nil, not_all_isGap h]
  exact Bool.false_ne_true

/-- If code stands behind the imports, a document that goes on below is changed as the document. -/
theorem replaceRegion_append {text : List Char} {r : Span} {above above' : List Line}
    {x y x' y' : Line} {below below' : List Line}
    (hstart : Cut (lines text) r.start above x y below)
    (hstop : Cut (lines text) r.stop above' x' y' below')
    (hwritten : (y' :: below').all isBlank = false) {trailingBlank trailingBlank' : Bool}
    (hsame : isBlank y' = true → trailingBlank' = trailingBlank) (block u : List Char) :
    replaceRegion (text ++ '\n' :: u) r block trailingBlank' =
      replaceRegion text r block trailingBlank ++ '\n' :: u := by
  have htail : isBlank (text.drop (charsBefore text r.stop)) = false := by
    rw [hstop.2, drop_charsBefore hstop.1, isBlank_unlines, hwritten]
  have hline : (lineAt text r.stop).2 = y' := by
    rw [hstop.2, lineAt_eq hstop.1]
  generalize hhead : text.take (charsBefore text r.start) = head
  generalize htext : text.drop (charsBefore text r.stop) = tail at htail
  have hrest : (if (!isBlank y') = true then '\n' :: '\n' :: (tail ++ '\n' :: u).dropWhile isGap
      else if trailingBlank' = true then tail ++ '\n' :: u else '\n' :: (tail ++ '\n' :: u)) =
      (if (!isBlank y') = true then '\n' :: '\n' :: tail.dropWhile isGap
        else if trailingBlank = true then tail else '\n' :: tail) ++ '\n' :: u := by
    split
    · rw [dropWhile_isGap_append htail]
      rfl
    · rename_i hblank
      rw [hsame (by simpa using hblank)]
      split <;> rfl
  simp only [replaceRegion, hstart.charsBefore_append, hstop.charsBefore_append,
    hstart.lineAt_append, hstop.lineAt_append, List.take_append_of_le_length hstart.charsBefore_le,
    List.drop_append_of_le_length hstop.charsBefore_le, hline, hhead, htext, hrest]
  split
  · split
    · rw [List.append_assoc]
    · exact closeGap_append _ htail _
  · rw [List.append_assoc, List.append_assoc, List.append_assoc]

/-- The line below the imports, if one is there, tells whether a blank line follows them. -/
theorem trailingBlank_append {ls : List Line} {s : Survey} {r : Span} (hr : s.region = some r)
    (hlt : r.stop.line.toNat + 1 < ls.length) (ms : List Line) :
    s.trailingBlank (ls ++ ms) = s.trailingBlank ls := by
  obtain ⟨first, last, -, hlast, rfl⟩ := region_eq_some hr
  rw [Survey.trailingBlank, Survey.trailingBlank, hlast]
  dsimp only
  rw [List.getElem?_append_left hlt]

/-- The kept text is the same if the document goes on. -/
theorem blockHeaders_append {text : List Char} (hend : (survey (lines text)).ending = .code)
    (u : List Char) :
    blockHeaders (text ++ '\n' :: u) (scan (text ++ '\n' :: u)).value =
      blockHeaders text (scan text).value := by
  have hsurvey : survey (lines (text ++ '\n' :: u)) = survey (lines text) := by
    rw [lines_append, survey_append hend]
  have hexcerpt : ∀ k ∈ (survey (lines text)).preserved,
      excerpt (text ++ '\n' :: u) k = excerpt text k := by
    intro k hk
    obtain ⟨ss, h⟩ := exists_layout (lines text)
    obtain ⟨parts, hparts⟩ := h.exists_keeps hk
    have hparts' : Keeps (lines (text ++ '\n' :: u)) k parts := by
      rw [lines_append]
      exact hparts.append _
    rw [hparts.excerpt_eq, hparts'.excerpt_eq]
  simp only [blockHeaders, scan, Scan.ofLines, hsurvey]
  congr 2
  refine List.filterMap_congr fun k hk => ?_
  rw [hexcerpt k (List.mem_filter.1 hk).1]

/-- What follows the imports is left alone when they are replaced. -/
theorem replaceRegion_region_append {text : List Char} {r : Span}
    (hr : (survey (lines text)).region = some r) (hend : (survey (lines text)).ending = .code)
    (u block : List Char) :
    replaceRegion (text ++ '\n' :: u) r block (scan (text ++ '\n' :: u)).value.trailingBlank =
      replaceRegion text r block (scan text).value.trailingBlank ++ '\n' :: u := by
  obtain ⟨ss, h⟩ := exists_layout (lines text)
  obtain ⟨first, last, hbounds, rfl⟩ := h.exists_bounds hr
  obtain ⟨above, before, d, more, after, rfl, -⟩ :=
    Sighting.exists_of_isOrganized hbounds.first_organized
  obtain ⟨above₁, x, y, below₁, hstart⟩ := (h.lies hbounds.mem_first).cut_footprint
  obtain ⟨above', before', d', more', after', rfl, -⟩ :=
    Sighting.exists_of_isOrganized hbounds.last_organized
  obtain ⟨below₂, hstop, hwritten⟩ := h.cut_written hend hbounds.mem_last
  refine replaceRegion_append (r := ⟨_, _⟩) hstart hstop hwritten (fun hblank => ?_) _ u
  -- nothing follows the imports on their line, so another line does
  have hlt : above'.length + more'.length + 1 < (lines text).length := by
    cases below₂ with
    | nil => simp [hblank] at hwritten
    | cons next below₂ =>
      rw [hstop.1]
      simp
      omega
  show (survey (lines (text ++ '\n' :: u))).trailingBlank _ = (survey (lines text)).trailingBlank _
  rw [lines_append, survey_append hend]
  exact trailingBlank_append hr hlt _

/-- The code below the imports has no influence on what becomes of them, and stays as it is. -/
theorem organize_append (formatter : Formatter) (setting : Setting) (unused : Option (List Span))
    (suggestions : Option (List Suggestion)) {text : List Char}
    (hfound : (scan text).value.statements ≠ []) (hend : (survey (lines text)).ending = .code)
    (u : List Char) :
    (organize formatter setting unused suggestions (text ++ '\n' :: u)).run.value =
        (organize formatter setting unused suggestions text).run.value.map (· ++ '\n' :: u) ∧
      (organize formatter setting unused suggestions (text ++ '\n' :: u)).run.events =
        (organize formatter setting unused suggestions text).run.events := by
  have hsurvey : survey (lines (text ++ '\n' :: u)) = survey (lines text) := by
    rw [lines_append, survey_append hend]
  obtain ⟨r, hr⟩ : ∃ r, (survey (lines text)).region = some r := by
    rw [← Option.ne_none_iff_exists', Ne, region_eq_none]
    intro hnone
    have hspans := map_span_statements (survey (lines text))
    rw [hnone, List.map_nil, List.map_eq_nil_iff] at hspans
    exact hfound hspans
  have hr' : (survey (lines (text ++ '\n' :: u))).region = some r := by rw [hsurvey, hr]
  have hblock : newBlock setting unused suggestions (text ++ '\n' :: u)
      (scan (text ++ '\n' :: u)).value =
      newBlock setting unused suggestions text (scan text).value := by
    have hheaders := blockHeaders_append hend u
    have hstatements : (scan (text ++ '\n' :: u)).value.statements = (scan text).value.statements :=
      congrArg Survey.statements hsurvey
    simp only [newBlock, renderRegion, hheaders, hstatements]
  constructor
  · rw [organize_eq_region formatter unused suggestions hr', hblock,
      organize_eq_region formatter unused suggestions hr]
    cases (formatBlock formatter setting.options
      (newBlock setting unused suggestions text (scan text).value).value).run.value with
    | error e => rfl
    | ok b => exact congrArg Except.ok (replaceRegion_region_append hr hend u b.toList)
  · rw [events_organize formatter unused suggestions hr', hblock,
      events_organize formatter unused suggestions hr]
    show (survey (lines (text ++ '\n' :: u))).notes.map _ ++ _ = _
    rw [hsurvey]
    rfl

/-- An unused import, a comment between two others, and code on the line of the last one. -/
def sampleStopped : List Char := "use c;\nuse b;\n// d\nuse a; fn f() {}".toList

theorem organize_append_sampleStopped :
    (scan sampleStopped).value.statements ≠ [] ∧
      (survey (lines sampleStopped)).ending = .code ∧
      ∀ u, (organize .absent {} (some [⟨⟨0, 4⟩, ⟨0, 5⟩⟩]) none (sampleStopped ++ '\n' :: u)).run.value =
        .ok ("use b;\n\n// d\nuse a;\n\nfn f() {}".toList ++ '\n' :: u) := by
  have hfound : (scan sampleStopped).value.statements ≠ [] := by
    rw [← List.isEmpty_eq_false_iff]
    decide +kernel
  have hend : (survey (lines sampleStopped)).ending = .code := by decide +kernel
  have hout : (organize .absent {} (some [⟨⟨0, 4⟩, ⟨0, 5⟩⟩]) none sampleStopped).run.value =
      .ok "use b;\n\n// d\nuse a;\n\nfn f() {}".toList := by decide +kernel
  refine ⟨hfound, hend, fun u => ?_⟩
  rw [(organize_append .absent {} (some [⟨⟨0, 4⟩, ⟨0, 5⟩⟩]) none hfound hend u).1, hout]
  rfl

end TidyUse.Document
