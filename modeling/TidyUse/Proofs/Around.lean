import TidyUse.Proofs.Orderly

/-!
# The code around the imports

* `passes_preamble`, `Run.passes_head` : the lines above some place are passed again;
* `Chain.cut`, `Chain.passes` : so are the declarations of a line when the line is cut behind them;
* `Layout.exists_head` : nothing is found above the imports once they are organized;
* `Layout.exists_tail` : nothing is found below them.
-/

namespace TidyUse.Document

open Text

/-! ## The opening lines -/

/-- A line with which the body of a document can start. -/
structure OpensBody (line : Line) : Prop where
  comment : isCommentLine line = false
  blank : isBlank line = false
  inner : isInnerAttributeLine line = false

theorem passes_inner {line : Line} (h : isInnerAttributeLine line = true) (above : List Line) :
    Passes .preamble above [line] [] .preamble := by
  intro below
  obtain ⟨cs, hcs⟩ := isInnerAttributeLine_iff.1 h
  have hc := isCommentLine_eq_false_of_cons hcs (by decide)
  have hlen : preambleLength (line :: below) = 1 + preambleLength below := by
    rw [preambleLength.eq_def]
    simp only [commentLines_eq_none_iff.2 hc, h, Bool.or_true, if_true]
  rw [List.singleton_append, Stage.walk, hlen, Nat.add_comm, List.take_succ_cons,
    List.drop_succ_cons, List.reverse_cons, List.append_assoc]
  rfl

/-- The opening lines of a document are passed again, whatever follows. -/
theorem passes_preamble {ls : List Line} (h : preambleLength ls < ls.length) (above : List Line) :
    Passes .preamble above (ls.take (preambleLength ls)) [] .preamble ∧
      ∃ line below, ls.drop (preambleLength ls) = line :: below ∧ OpensBody line := by
  fun_induction preambleLength ls generalizing above with
  | case1 => cases h
  | case2 line below k hk ih =>
    rw [List.length_cons] at h
    have hlen : (below.take k).length = k := List.length_take_of_le (by omega)
    obtain ⟨next, others, hnext⟩ := List.exists_cons_of_length_pos
      (show 0 < (below.drop k).length by rw [List.length_drop]; omega)
    have hclosed : ∀ others, commentLines line (below.take k ++ others) =
        some (below.take k).length := by
      have hk' : commentLines line (below.take k ++ next :: others) =
          some (below.take k).length := by
        rw [← hnext, List.take_append_drop, hlen]
        exact hk
      exact commentLines_append hk'
    obtain ⟨hpass, hrest⟩ := ih (by rw [List.length_drop]; omega)
      ((line :: below.take k).reverse ++ above)
    have hcount : k + 1 + preambleLength (below.drop k) =
        (k + preambleLength (below.drop k)) + 1 := by omega
    rw [hcount, List.take_succ_cons, List.drop_succ_cons, List.take_add, ← List.drop_drop]
    have hfirst : Passes .preamble above (line :: below.take k) [] .preamble := passes_comment hclosed
    exact ⟨hfirst.append hpass, hrest⟩
  | case3 line below hc hline ih =>
    rw [Nat.add_comm, List.take_succ_cons, List.drop_succ_cons]
    obtain ⟨hpass, hrest⟩ := ih (by rw [List.length_cons] at h; omega) (line :: above)
    refine ⟨?_, hrest⟩
    have hfirst : Passes .preamble above [line] [] .preamble := by
      rcases Bool.or_eq_true_iff.1 hline with hblank | hinner
      · exact passes_blank hblank
      · exact passes_inner hinner above
    exact hfirst.append hpass
  | case4 line below hc hline =>
    obtain ⟨hblank, hinner⟩ := Bool.or_eq_false_iff.1 (Bool.eq_false_iff.2 hline)
    exact ⟨.nil, line, below, rfl, commentLines_eq_none_iff.1 hc, hblank, hinner⟩

/-- What a survey has behind it is passed again, whatever follows. -/
theorem Run.passes_head {ls above : List Line} {line : Line} {below : List Line} {found : Bool}
    {ss : List Sighting} (h : Run (.initial ls) ss ⟨found, above, .line (line :: below)⟩) :
    ∃ stage, Passes .preamble [] above.reverse (ss.filterMap Sighting.item?) stage ∧
      stage.found = found ∧ (stage = .preamble → OpensBody line) := by
  obtain ⟨ms, hms⟩ := h.above_suffix
  obtain ⟨ms, rfl⟩ : ∃ ms', ms = ms'.reverse := ⟨ms.reverse, ms.reverse_reverse.symm⟩
  have habove : above = ms.reverse ++ (ls.take (preambleLength ls)).reverse := hms
  have hdrop : ls.drop (preambleLength ls) = ms ++ line :: below := by
    have hlines := h.lines_eq
    rw [lines_initial, State.lines, habove] at hlines
    refine (List.append_right_inj (ls.take (preambleLength ls))).1 ?_
    rw [List.take_append_drop]
    refine hlines.symm.trans ?_
    simp [Place.lines]
  have hlt : preambleLength ls < ls.length := by
    have hlen := congrArg List.length hdrop
    simp only [List.length_drop, List.length_append, List.length_cons] at hlen
    omega
  obtain ⟨hpre, first, others, hfirst, hopens⟩ := passes_preamble hlt []
  rw [State.initial, hdrop, habove] at h
  have hbody := h.passes (List.cons_ne_nil _ _)
  rw [habove, List.reverse_append, List.reverse_reverse, List.reverse_reverse]
  rw [hdrop] at hfirst
  cases ms with
  | nil =>
    obtain ⟨rfl, -⟩ := List.cons.inj hfirst
    have hitems : ss.filterMap Sighting.item? = [] := by
      have hwalk := congrArg Survey.items (hbody [])
      rw [List.append_nil, Stage.walk_nil, Stage.walk_nil, Survey.prepend_items,
        List.append_nil] at hwalk
      exact hwalk.symm
    have hfound := h.found_eq
    have hany : ss.any Sighting.isOrganized = false := by
      have hnone := organized_items_eq_nil.1 (show (ss.filterMap Sighting.item?).filterMap
        Item.organized? = [] by rw [hitems]; rfl)
      simpa using hnone
    rw [hany] at hfound
    rw [hitems, List.append_nil]
    exact ⟨.preamble, hpre, hfound.symm, fun _ => hopens⟩
  | cons m ms =>
    obtain ⟨rfl, -⟩ := List.cons.inj hfirst
    refine ⟨.body found, ?_, rfl, Stage.noConfusion⟩
    have hleave : Passes .preamble (ls.take (preambleLength ls)).reverse (m :: ms)
        (ss.filterMap Sighting.item?) (.body found) := by
      intro rest
      rw [List.cons_append, walk_leave hopens.comment hopens.blank hopens.inner]
      exact hbody rest
    rw [← List.append_nil (ls.take (preambleLength ls)).reverse] at hleave
    exact hpre.append hleave

/-! ## Code before the imports -/

/-- A part of a line before its first declaration holds none. -/
theorem firstUse_append_left {xs ys : List Char} {column start : Nat} {behindWord : Bool}
    (h : firstUse column behindWord (xs ++ ys) = some start) (hle : column + xs.length ≤ start) :
    firstUse column behindWord xs = none := by
  induction xs generalizing column behindWord with
  | nil => rfl
  | cons x xs ih =>
    rw [List.cons_append, firstUse] at h
    rw [List.length_cons] at hle
    rw [firstUse]
    split at h
    · cases h
      omega
    · rename_i hnot
      rw [if_neg fun hopens => ?_]
      · exact ih h (by omega)
      · rw [Bool.and_eq_true] at hopens hnot
        exact hnot ⟨hopens.1, opensUse_append hopens.2 ys⟩

theorem findStart_append_left {xs ys : List Char} {start : Nat}
    (h : findStart (xs ++ ys) 0 = some start) (hle : xs.length ≤ start) :
    findStart xs 0 = none := by
  rw [findStart, Option.filter_eq_some_iff] at h
  have hnone : firstUse 0 false xs = none := firstUse_append_left h.1 (by omega)
  rw [findStart]
  exact congrArg _ hnone

/-- A part of a line that is not blank has no kind that the line does not have. -/
theorem kinds_append {x : Line} (hx : isBlank x = false) (y : Line) :
    (isCommentLine x = true → isCommentLine (x ++ y) = true) ∧
      (isAttributeLine x = true → isAttributeLine (x ++ y) = true) ∧
      (isInnerAttributeLine x = true → isInnerAttributeLine (x ++ y) = true) := by
  have hne : trimStart x ≠ [] := by
    rw [Ne, trimStart_eq_nil_iff, hx]
    exact Bool.false_ne_true
  have htrim := trimStart_append_of_ne hne y
  refine ⟨fun h => ?_, fun h => ?_, fun h => ?_⟩
  · rw [isCommentLine] at h ⊢
    obtain ⟨r, hr | hr⟩ := opensComment_eq_true h
    · rw [htrim, hr]
      rfl
    · rw [htrim, hr]
      rfl
  · obtain ⟨cs, hcs⟩ := isAttributeLine_iff.1 h
    exact isAttributeLine_iff.2 ⟨cs ++ y, by rw [htrim, hcs]; rfl⟩
  · obtain ⟨cs, hcs⟩ := isInnerAttributeLine_iff.1 h
    exact isInnerAttributeLine_iff.2 ⟨cs ++ y, by rw [htrim, hcs]; rfl⟩

/-- Code that is left alone is passed while no declaration has been found. -/
theorem passes_code {stage : Stage} (hstage : stage.found = false) {line : Line}
    (hpass : isPassable line = false) (hstart : findStart line 0 = none)
    (hinner : stage = .preamble → isInnerAttributeLine line = false) (above : List Line) :
    Passes stage above [line] [] (.body false) := by
  rw [isPassable, Bool.or_eq_false_iff, Bool.or_eq_false_iff] at hpass
  obtain ⟨⟨hattr, hblank⟩, hcomment⟩ := hpass
  have hwalk : ∀ below, walk false above (line :: below) = walk false (line :: above) below := by
    intro below
    refine surveyFrom_nothing ?_
    simp only [Cursor.sight, hblank, commentLines_eq_none_iff.2 hcomment, hattr, hstart]
    rfl
  intro below
  cases stage with
  | preamble =>
    rw [List.singleton_append, walk_leave hcomment hblank (hinner rfl)]
    exact hwalk below
  | body found =>
    cases hstage
    exact hwalk below

/-- Code that stood before a declaration is passed on a line of its own. -/
theorem passes_before {stage : Stage} (hfound : stage.found = false) {above below : List Line}
    {before rest : List Char}
    (hsight : (⟨above, before ++ rest, below⟩ : Cursor).sight false 0 = .start before.length)
    (hb : isBlank before = false) (hopens : stage = .preamble → OpensBody (before ++ rest)) :
    Passes stage above [dropEndWhile isGap before, []] [] (.body false) ∧
      Clear ([] :: dropEndWhile isGap before :: above) := by
  obtain ⟨hstart, hpassable, -⟩ := sight_eq_start hsight
  obtain ⟨gap, hgap, hbefore⟩ := dropEndWhile_append isGap before
  set x := dropEndWhile isGap before with hx
  have hblank : isBlank x = false := by
    rw [Bool.eq_false_iff]
    intro hblank
    have hall : isBlank gap = true :=
      List.all_eq_true.2 fun c hc => isSpace_of_isGap (List.all_eq_true.1 hgap c hc)
    rw [← hbefore, isBlank, List.all_append, ← isBlank, ← isBlank, hblank, hall] at hb
    cases hb
  have hline : before ++ rest = x ++ (gap ++ rest) := by rw [← hbefore, List.append_assoc]
  obtain ⟨hcomment, hattr, hinner⟩ := kinds_append hblank (gap ++ rest)
  rw [← hline] at hcomment hattr hinner
  have hpass : isPassable x = false := by
    rw [isPassable, Bool.or_eq_false_iff, Bool.or_eq_false_iff] at hpassable ⊢
    refine ⟨⟨?_, hblank⟩, ?_⟩
    · exact Bool.eq_false_iff.2 fun hx => Bool.eq_false_iff.1 hpassable.1.1 (hattr hx)
    · exact Bool.eq_false_iff.2 fun hx => Bool.eq_false_iff.1 hpassable.2 (hcomment hx)
  have hnone : findStart x 0 = none := by
    change findStart (before ++ rest) 0 = _ at hstart
    rw [hline] at hstart
    refine findStart_append_left hstart ?_
    rw [← hbefore, List.length_append]
    omega
  have hcode : Passes stage above [x] [] (.body false) := passes_code hfound hpass hnone
    (fun hstage => Bool.eq_false_iff.2 fun hx => Bool.eq_false_iff.1 (hopens hstage).inner (hinner hx))
    above
  have hempty : Passes (.body false) ([x].reverse ++ above) [[]] [] (.body false) := passes_blank rfl
  exact ⟨hcode.append hempty, clear_cons rfl (clear_cons_of_not_isPassable hpass above)⟩

/-- A line is cut behind the start of its first declaration, and still opens with it. -/
theorem firstUse_cut {xs y z : List Char} {column : Nat} {behindWord : Bool}
    (h : firstUse column behindWord (xs ++ (y ++ z)) = some (column + xs.length))
    (ho : opensUse y = true) :
    firstUse column behindWord (xs ++ y) = some (column + xs.length) := by
  induction xs generalizing column behindWord with
  | nil =>
    obtain ⟨c, r, rfl, -⟩ := opensUse_head ho
    rw [List.nil_append, List.cons_append, firstUse] at h
    rw [List.nil_append, firstUse]
    split at h
    · rename_i hopens
      rw [Bool.and_eq_true] at hopens
      rw [if_pos (by rw [hopens.1, ho]; rfl)]
      rfl
    · have hle := firstUse_le h
      simp at hle
  | cons x xs ih =>
    rw [List.cons_append, firstUse, List.length_cons] at h
    rw [List.cons_append, firstUse, List.length_cons]
    have hcol : column + (xs.length + 1) = column + 1 + xs.length := by omega
    split at h
    · rw [Option.some.injEq] at h
      omega
    · rename_i hnot
      rw [if_neg fun hopens => ?_]
      · rw [hcol] at h ⊢
        exact ih h
      · rw [Bool.and_eq_true] at hopens hnot
        refine hnot ⟨hopens.1, ?_⟩
        rw [← List.append_assoc]
        exact opensUse_append hopens.2 z

theorem findStart_cut {x y z : List Char} (h : findStart (x ++ (y ++ z)) 0 = some x.length)
    (ho : opensUse y = true) : findStart (x ++ y) 0 = some x.length := by
  have hbetween : ∀ w, ((x ++ w).take x.length).drop (clip (x ++ w).length 0) = x := by
    intro w
    rw [List.take_left]
    rfl
  rw [findStart, Option.filter_eq_some_iff] at h ⊢
  obtain ⟨hfirst, htest⟩ := h
  simp only [hbetween] at htest ⊢
  refine ⟨?_, htest⟩
  rw [← Nat.zero_add x.length] at hfirst ⊢
  exact firstUse_cut hfirst ho

/-- A line that is cut behind the start of its first declaration is still sighted as one. -/
theorem sight_cut {x y z : List Char} {above below : List Line}
    (h : (⟨above, x ++ (y ++ z), below⟩ : Cursor).sight false 0 = .start x.length)
    (ho : opensUse y = true) (above' below' : List Line) :
    (⟨above', x ++ y, below'⟩ : Cursor).sight false 0 = .start x.length ∧
      (isInnerAttributeLine (x ++ (y ++ z)) = false → isInnerAttributeLine (x ++ y) = false) := by
  obtain ⟨hstart, hpass, -⟩ := sight_eq_start h
  have hblank : isBlank (x ++ y) = false := by
    rw [isBlank, List.all_append, Bool.and_eq_false_iff]
    have hy : isBlank ([] ++ y) = false := (sight_start rfl ho false [] []).2.2.1
    exact Or.inr hy
  obtain ⟨hcomment, hattr, hinner⟩ := kinds_append hblank z
  rw [List.append_assoc] at hcomment hattr hinner
  rw [isPassable, Bool.or_eq_false_iff, Bool.or_eq_false_iff] at hpass
  have hcomment' : isCommentLine (x ++ y) = false :=
    Bool.eq_false_iff.2 fun hx => Bool.eq_false_iff.1 hpass.2 (hcomment hx)
  have hattr' : isAttributeLine (x ++ y) = false :=
    Bool.eq_false_iff.2 fun hx => Bool.eq_false_iff.1 hpass.1.1 (hattr hx)
  refine ⟨?_, fun hnot => Bool.eq_false_iff.2 fun hx => Bool.eq_false_iff.1 hnot (hinner hx)⟩
  simp only [Cursor.sight, hblank, commentLines_eq_none_iff.2 hcomment', hattr',
    findStart_cut hstart ho]
  rfl

theorem dropEndWhile_behind {p : Char → Bool} {c : Char} (h : p c = false) (cs ds : List Char) :
    dropEndWhile p (cs ++ [c] ++ ds) = cs ++ [c] ++ dropEndWhile p ds := by
  by_cases hnil : dropEndWhile p ds = []
  · rw [dropEndWhile_append_of_nil hnil, hnil, dropEndWhile_concat h, List.append_nil]
  · exact dropEndWhile_append_of_ne hnil _

/-- The lines of a declaration, with a part only of what follows it. -/
theorem Stands.exists_cut {before rest first after : List Char} {below more below' : List Line}
    (h : Stands before rest below first more after below') (ho : opensUse first = true)
    {w v : List Char} (hafter : after = w ++ v) :
    ∃ y z mid, rest = y ++ z ∧ opensUse y = true ∧
      Document.rows before first more w = (before ++ y) :: mid := by
  have hrows := h.rows
  cases more with
  | nil =>
    rw [rows_nil, List.singleton_append, List.append_assoc, hafter] at hrows
    refine ⟨first ++ w, v, [], ?_, opensUse_append ho w, ?_⟩
    · rw [List.append_cancel_left (List.cons.inj hrows).1, List.append_assoc]
    · rw [rows_nil, List.append_assoc]
  | cons next more =>
    rw [rows_cons, List.cons_append] at hrows
    refine ⟨first, [], _, ?_, ho, rows_cons ..⟩
    rw [List.append_cancel_left (List.cons.inj hrows).1, List.append_nil]

/-- A declaration that stays as it is stays so without what follows it. -/
theorem not_isStatement_of_next {above : List Line} {before first : List Char} {more : List Line}
    {gap rest : List Char}
    (h : (declared above before first more (gap ++ rest)).isStatement = false)
    (hgap : isBlank gap = true) (ho : opensUse rest = true) (after : List Char) :
    (declared above before first more after).isStatement = false := by
  rw [isStatement_declared, ofRest_next hgap ho, Bool.and_eq_false_iff] at h
  rw [isStatement_declared, h.resolve_right (by decide)]
  rfl

/-- Of what follows a declaration on its line, only the part `w` is left there. -/
theorem Stands.clear_cut {above : List Line} {before rest first w v after : List Char}
    {below more below' : List Line} (stands : Stands before rest below first more after below')
    (ho : opensUse first = true) (hlines : Clear (Document.rows before first more after).reverse)
    (htop : ∀ y z, rest = y ++ z → opensUse y = true → Clear ((before ++ y) :: above))
    (hw : after = w ++ v) :
    Clear ((lastRow before first more ++ w) :: ((leadRows before first more).reverse ++ above)) ∧
      ∃ y z mid, rest = y ++ z ∧ opensUse y = true ∧
        ∀ behind, Stands before y (mid ++ behind) first more w behind := by
  obtain ⟨y, z, mid, hrest, hy, hrows⟩ := stands.exists_cut ho hw
  have hshut := clear_rows stands.ends hlines hrows (htop y z hrest hy)
  rw [Document.rows, List.reverse_append, List.reverse_singleton] at hshut
  refine ⟨hshut, y, z, mid, hrest, hy, fun behind => ⟨stands.ends, ?_⟩⟩
  rw [hrows, List.cons_append]

/-- Declarations that stay as they are are met again once the line is cut behind them. -/
theorem Chain.cut {found found' : Bool} {above above' : List Line}
    {before before' rest rest' : List Char} {below below' : List Line} {ss : List Sighting}
    (h : Chain ⟨found, above, .declaration before rest below⟩ ss
      ⟨found', above', .declaration before' rest' below'⟩) (hne : ss ≠ [])
    (hnot : ss.any Sighting.isOrganized = false)
    (hkept : ∀ above before first more after, .declaration above before first more after ∈ ss →
      opensUse first = true ∧ Clear (rows before first more after).reverse)
    (htop : ∀ y z, rest = y ++ z → opensUse y = true → Clear ((before ++ y) :: above)) :
    Clear (dropEndWhile isGap before' :: above') ∧
      ∃ y z mid ss', rest = y ++ z ∧ opensUse y = true ∧ ss'.any Sighting.isOrganized = false ∧
        ∀ behind, Run ⟨found, above, .declaration before y (mid ++ behind)⟩ ss'
          ⟨found, dropEndWhile isGap before' :: above', .line behind⟩ := by
  generalize hst : (⟨found, above, .declaration before rest below⟩ : State) = st at h
  generalize hst' : (⟨found', above', .declaration before' rest' below'⟩ : State) = st' at h
  induction h generalizing found above before rest below with
  | nil => exact absurd rfl hne
  | @cons found above before rest first gap rest₁ below more below₁ ss _ stands blank opens chain ih =>
    cases hst
    obtain ⟨ho, hlines⟩ := hkept _ _ _ _ _ List.mem_cons_self
    rw [List.any_cons, Bool.or_eq_false_iff, Sighting.isOrganized_declaration] at hnot
    have hstays := not_isStatement_of_next hnot.1 blank opens
    rcases eq_or_ne ss [] with rfl | hss
    · cases chain
      cases hst'
      obtain ⟨x, hx⟩ := stands.ends.last before
      have hdrop : dropEndWhile isGap (lastRow before first more ++ gap) =
          lastRow before first more ++ dropEndWhile isGap gap := by
        rw [hx]
        exact dropEndWhile_behind rfl x gap
      obtain ⟨v, -, hgap⟩ := dropEndWhile_append isGap gap
      obtain ⟨hshut, y, z, mid, hrest, hy, hstands⟩ := stands.clear_cut ho hlines htop
        (w := dropEndWhile isGap gap) (v := v ++ rest') (by rw [← List.append_assoc, hgap])
      rw [hdrop]
      refine ⟨hshut, y, z, mid, [.declaration above before first more (dropEndWhile isGap gap)],
        hrest, hy, ?_, fun behind => ?_⟩
      · rw [List.any_cons, Sighting.isOrganized_declaration, hstays]
        rfl
      · have hblank : isBlank (dropEndWhile isGap gap) = true := by
          refine List.all_eq_true.2 fun c hc => List.all_eq_true.1 blank c ?_
          rw [← hgap]
          exact List.mem_append_left _ hc
        have hstep : Step ⟨found, above, .declaration before y (mid ++ behind)⟩ _ _ :=
          .finish (hstands behind) (Or.inl hblank)
        rw [hstays, Bool.or_false, rows, List.reverse_append, List.reverse_singleton] at hstep
        exact hstep.run
    · have hfound : (found || (declared above before first more (gap ++ rest₁)).isStatement) = found := by
        rw [hnot.1, Bool.or_false]
      obtain ⟨hshut, y₁, z₁, mid₁, ss', hrest₁, hy₁, hnot', hrun⟩ := ih hss hnot.2
        (fun _ _ _ _ _ hs => hkept _ _ _ _ _ (List.mem_cons_of_mem _ hs))
        (fun y z hrest hy => by
          have hclear' := (stands.clear_cut ho hlines htop (w := gap ++ y) (v := z)
            (by rw [hrest, List.append_assoc])).1
          rwa [← List.append_assoc] at hclear') rfl hst'
      refine ⟨hshut, ?_⟩
      obtain ⟨-, y, z, mid, hrest, hy, hstands⟩ := stands.clear_cut ho hlines htop
        (w := gap ++ y₁) (v := z₁) (by rw [hrest₁, List.append_assoc])
      refine ⟨y, z, mid ++ mid₁, .declaration above before first more (gap ++ y₁) :: ss', hrest, hy,
        ?_, fun behind => ?_⟩
      · rw [List.any_cons, Sighting.isOrganized_declaration, hstays, hnot']
        rfl
      · rw [List.append_assoc]
        have hstep : Step ⟨found, above, .declaration before y (mid ++ (mid₁ ++ behind))⟩ _ _ :=
          .next (hstands (mid₁ ++ behind)) blank hy₁
        rw [hstays, Bool.or_false] at hstep
        rw [hfound] at hrun
        exact .cons hstep (hrun behind)

theorem organized_eq_nil_of_any {ss : List Sighting} (h : ss.any Sighting.isOrganized = false) :
    (ss.filterMap Sighting.item?).filterMap Item.organized? = [] := by
  rw [organized_items_eq_nil]
  simpa using h

/-- Code and declarations that stood before a declaration are passed on lines of their own. -/
theorem Chain.passes {stage : Stage} (hstage : stage.found = false) {found : Bool}
    {above above' : List Line} {before before' rest rest' : List Char} {below below' : List Line}
    {ss : List Sighting}
    (h : Chain ⟨false, above, .declaration before rest below⟩ ss
      ⟨found, above', .declaration before' rest' below'⟩)
    (hsight : (⟨above, before ++ rest, below⟩ : Cursor).sight false 0 = .start before.length)
    (hbody : stage = .preamble → OpensBody (before ++ rest))
    (hnot : ss.any Sighting.isOrganized = false)
    (hkept : ∀ above before first more after, .declaration above before first more after ∈ ss →
      opensUse first = true ∧ Clear (rows before first more after).reverse)
    (hb : isBlank before' = false) :
    Clear ([] :: dropEndWhile isGap before' :: above') ∧
      ∃ ls items, ls.reverse ++ above = [] :: dropEndWhile isGap before' :: above' ∧
        Passes stage above ls items (.body false) ∧ items.filterMap Item.organized? = [] := by
  rcases eq_or_ne ss [] with rfl | hne
  · cases h
    obtain ⟨hcode, hclear'⟩ := passes_before hstage hsight hb hbody
    exact ⟨hclear', [dropEndWhile isGap before, []], [], rfl, hcode, rfl⟩
  · have htop : ∀ y z, rest = y ++ z → opensUse y = true → Clear ((before ++ y) :: above) := by
      rintro y z rfl hy
      have hstart := (sight_cut hsight hy above below).1
      exact clear_cons_of_not_isPassable (sight_eq_start hstart).2.1 _
    obtain ⟨hshut, y, z, mid, ss', rfl, hy, hnot', hrun⟩ := h.cut hne hnot hkept htop
    set x := dropEndWhile isGap before' with hx
    have hlines : ((before ++ y) :: mid).reverse ++ above = x :: above' := by
      have heq := (hrun []).lines_eq
      rw [← List.reverse_inj]
      simpa [State.lines, Place.lines] using heq.symm
    have hstarts : ∀ behind, Run ⟨false, above, .line ((before ++ y) :: (mid ++ behind))⟩ ss'
        ⟨false, x :: above', .line behind⟩ := fun behind =>
      .cons (.start (sight_cut hsight hy above _).1) (hrun behind)
    have hpass : Passes (.body false) above ((before ++ y) :: mid) (ss'.filterMap Sighting.item?)
        (.body false) := by
      intro behind
      rw [hlines]
      exact (hstarts behind).survey_eq
    have hleave : Passes stage above ((before ++ y) :: mid) (ss'.filterMap Sighting.item?)
        (.body false) := by
      intro behind
      cases stage with
      | body found =>
        cases hstage
        exact hpass behind
      | preamble =>
        obtain ⟨hstart, hinner⟩ := sight_cut hsight hy above []
        have hkinds := (sight_eq_start hstart).2.1
        rw [isPassable, Bool.or_eq_false_iff, Bool.or_eq_false_iff] at hkinds
        rw [List.cons_append, walk_leave hkinds.2 hkinds.1.2 (hinner (hbody rfl).inner)]
        exact hpass behind
    have hempty : Passes (.body false) (((before ++ y) :: mid).reverse ++ above) [[]] []
        (.body false) := passes_blank rfl
    refine ⟨clear_cons rfl hshut, (before ++ y) :: mid ++ [[]], _, ?_, hleave.append hempty, ?_⟩
    · rw [List.reverse_append, List.reverse_singleton, List.append_assoc, hlines]
      rfl
    · rw [List.append_nil]
      exact organized_eq_nil_of_any hnot'

theorem isBlank_keptIndent {before : List Char} (h : isBlank before = true) (block : List Line) :
    isBlank (keptIndent block before) = true := by
  cases block with
  | nil => exact h
  | cons top _ => exact List.all_takeWhile

namespace Layout

variable {text : List Char} {ss : List Sighting} (h : Layout (lines text) ss) {r : Span}
  (ho : Orderly text r) {first last : Sighting} (hb : Bounds ss first last)
  (hstop : first.stop ≤ r.stop)

include h ho hb hstop

/-- Code and declarations before the first import on its line are passed on lines of their own. -/
theorem exists_head_of_code {above : List Line} {before cs : List Char} {more : List Line}
    {after : List Char} (hfirst : first = .declaration above before cs more after)
    (hbefore : isBlank before = false) :
    (∃ items stage, Passes .preamble [] (above.reverse ++ [dropEndWhile isGap before, []]) items stage ∧
      items.filterMap Item.organized? = []) ∧ Clear ([] :: dropEndWhile isGap before :: above) := by
  obtain ⟨a, b, hss, ha⟩ := hb.first_split
  obtain ⟨a₁, a₂, found', above₁, before₁, rest₁, below₁, found, rest, below, rfl, hline, hsight,
    hchain⟩ := h.exists_chain (hfirst ▸ hss)
  rw [List.any_append, Bool.or_eq_false_iff] at ha
  have hfound : found' = false := by
    have hsame := hline.found_eq
    rw [ha.1] at hsame
    exact hsame
  subst hfound
  have hbefore₂ : ∀ s ∈ a₂, Before ss s first := fun s hs =>
    hss ▸ before_of_mem_left (List.mem_append_right a₁ hs)
  obtain ⟨stage, hpass, hstage, hbody⟩ := hline.passes_head
  have hkept : ∀ above before first more after, .declaration above before first more after ∈ a₂ →
      opensUse first = true ∧ Clear (rows before first more after).reverse := by
    intro above before d more after hs
    have hprior := hbefore₂ _ hs
    have hle := Position.le_trans (h.stop_le_start hprior)
      (Position.le_trans (Sighting.start_le_stop first) hstop)
    have hstays : (declared above before d more after).isStatement = false := by
      rw [← Sighting.isOrganized_declaration]
      exact Bool.eq_false_iff.2 (List.any_eq_false.1 ha.2 _ hs)
    exact ⟨h.opensUse_of_stays ho hprior.mem_left hle hstays,
      h.closed_upTo ho hb.mem_first hstop (Or.inr hprior) _ rfl⟩
  obtain ⟨hclear, ls, items, hls, hrest, hnone⟩ :=
    hchain.passes hstage hsight hbody ha.2 hkept hbefore
  refine ⟨⟨a₁.filterMap Sighting.item? ++ items, .body false, ?_, ?_⟩, hclear⟩
  · have hlines : above₁.reverse ++ ls = above.reverse ++ [dropEndWhile isGap before, []] := by
      rw [← List.reverse_inj, List.reverse_append, List.reverse_reverse, hls]
      simp
    rw [← hlines]
    refine hpass.append ?_
    rwa [List.reverse_reverse, List.append_nil]
  · rw [List.filterMap_append, organized_eq_nil_of_any ha.1, hnone]
    rfl

/-- Above the imports nothing is found to organize, once they are organized. -/
theorem exists_head : ∃ above x y below, Cut (lines text) first.footprint above x y below ∧
    (∃ items stage, Passes .preamble [] (headOf above x).1 items stage ∧
      items.filterMap Item.organized? = []) ∧ Clear (headOf above x).1.reverse := by
  obtain ⟨above, before, cs, more, after, hfirst, -⟩ :=
    Sighting.exists_of_isOrganized hb.first_organized
  have hlies := h.lies hb.mem_first
  rw [hfirst] at hlies ⊢
  obtain ⟨block, above', hblock⟩ := exists_headed above before
  obtain ⟨y, below, hcut⟩ := hlies.cut_headed hblock
  refine ⟨above', keptIndent block before, y, below, hcut, ?_⟩
  by_cases hblank : isBlank before = true
  · obtain ⟨a, b, hss, ha⟩ := hb.first_split
    rw [hfirst] at hss
    have hclosed : ∀ s ∈ a, s.Closed := by
      intro s hs
      have hprior : Before ss s first := hfirst ▸ hss ▸ before_of_mem_left hs
      exact h.closed_upTo ho hb.mem_first hstop (Or.inr hprior)
    obtain ⟨a₁, a₂, found, found', below', rfl, hne, hrun, -⟩ :=
      h.exists_block_run ho.preamble hss hclosed hblank hblock
    obtain ⟨line, rest, hline⟩ := List.exists_cons_of_ne_nil
      (List.append_ne_nil_of_right_ne_nil block hne)
    rw [hline] at hrun
    obtain ⟨stage, hpass, -⟩ := hrun.passes_head
    rw [List.any_append, Bool.or_eq_false_iff] at ha
    rw [headOf, if_pos (isBlank_keptIndent hblank block)]
    refine ⟨⟨_, stage, hpass, organized_eq_nil_of_any ha.1⟩, ?_⟩
    rw [List.reverse_reverse]
    exact hblock.clear hblank
  · have hbare : block = [] := by
      by_contra hne
      exact hblank (hblock.blank hne)
    have habove := hblock.above_eq
    rw [hbare, List.reverse_nil, List.nil_append] at habove
    rw [hbare, ← habove, keptIndent, headOf, if_neg hblank]
    have hnot := Bool.eq_false_iff.2 hblank
    obtain ⟨hpass, hclear⟩ := h.exists_head_of_code ho hb hstop hfirst hnot
    refine ⟨hpass, ?_⟩
    rw [List.reverse_append, List.reverse_reverse]
    exact hclear

end Layout

/-! ## Code behind the imports -/

theorem trimStart_dropWhile_isGap (cs : List Char) :
    trimStart (cs.dropWhile isGap) = trimStart cs := by
  have hgap : isBlank (cs.takeWhile isGap) = true := by
    refine List.all_eq_true.2 fun c hc => isSpace_of_isGap ?_
    exact List.all_eq_true.1 List.all_takeWhile c hc
  conv_rhs => rw [← List.takeWhile_append_dropWhile (p := isGap) (l := cs)]
  exact (trimStart_append hgap _).symm

/-- Code that stood behind a declaration ends the imports on a line of its own. -/
theorem sight_code {after : List Char} (h : Trailing.ofRest after = .code)
    (hattr : isAttributeLine after = false) (above below : List Line) :
    (⟨above, after.dropWhile isGap, below⟩ : Cursor).sight true 0 = .code := by
  have htrim := trimStart_dropWhile_isGap after
  have hblank : isBlank after = false := by
    rw [Bool.eq_false_iff]
    intro hblank
    rw [Trailing.ofRest, if_pos hblank] at h
    cases h
  have hcomment : isCommentLine after = false := by
    rw [Bool.eq_false_iff]
    intro hcomment
    rw [Trailing.ofRest, hblank, if_neg Bool.false_ne_true, if_pos hcomment] at h
    cases h
  set y := after.dropWhile isGap with hy
  have hkinds : isBlank y = false ∧ isCommentLine y = false ∧ isAttributeLine y = false := by
    refine ⟨?_, ?_, ?_⟩
    · rw [Bool.eq_false_iff, Ne, ← trimStart_eq_nil_iff, htrim, trimStart_eq_nil_iff, hblank]
      exact Bool.false_ne_true
    · rwa [isCommentLine, htrim]
    · rwa [isAttributeLine, htrim]
  simp only [Cursor.sight, hkinds.1, commentLines_eq_none_iff.2 hkinds.2.1, hkinds.2.2]
  cases hstart : findStart y 0 with
  | none => rfl
  | some start =>
    -- white space before the declaration would make it follow the import
    have hbefore : isBlank (y.take start) = false := by
      rw [Bool.eq_false_iff]
      intro hbefore
      have hopens := opensUse_of_findStart hstart
      have hgap : isBlank (after.takeWhile isGap ++ y.take start) = true := by
        rw [isBlank, List.all_append, Bool.and_eq_true]
        refine ⟨List.all_eq_true.2 fun c hc => isSpace_of_isGap ?_, hbefore⟩
        exact List.all_eq_true.1 List.all_takeWhile c hc
      have hafter : after = after.takeWhile isGap ++ y.take start ++ y.drop start := by
        rw [List.append_assoc, List.take_append_drop, hy, List.takeWhile_append_dropWhile]
      have hfind := findStart_blank hgap hopens
      have hindent := indent_of_opensUse hgap hopens
      rw [← hafter] at hfind hindent
      rw [Trailing.ofRest, hblank, hcomment, hfind, hindent] at h
      simp at h
    simp [hbefore]

/-- Behind the last import, nothing is found to organize. -/
theorem Layout.exists_behind {ls : List Line} {ss : List Sighting} (h : Layout ls ss)
    {first last : Sighting} (hb : Bounds ss first last) :
    ∃ st₁ st₂, Step st₁ [last] st₂ ∧ st₂.lines = ls ∧ st₂.found = true ∧
      st₂.survey.organized = [] := by
  obtain ⟨a, b, hss, hnone⟩ := hb.last_split
  obtain ⟨st, hrun⟩ := h.run
  rw [hss] at hrun
  obtain ⟨st₁, st₂, hrun₁, hstep, hrest⟩ := hrun.split
  refine ⟨st₁, st₂, hstep, ?_, ?_, ?_⟩
  · rw [hstep.lines_eq, hrun₁.lines_eq, lines_initial]
  · rw [hstep.found_eq, List.any_cons, hb.last_organized, Bool.true_or, Bool.or_true]
  · have hitems := h.items
    have hsurvey : survey ls = (State.initial ls).survey := by
      rw [survey_eq_walk, Stage.walk, List.append_nil]
      rfl
    rw [hsurvey, hrun₁.survey_eq, hstep.survey_eq, Survey.prepend_items, Survey.prepend_items,
      hss, List.append_cons, List.filterMap_append, List.filterMap_append, List.append_assoc,
      List.append_right_inj, List.append_right_inj] at hitems
    rw [Survey.organized, hitems]
    exact organized_eq_nil_of_any hnone

theorem Layout.getLast?_organized {ls : List Line} {ss : List Sighting} (h : Layout ls ss)
    {first : Sighting} {above : List Line} {before cs : List Char} {more : List Line}
    {after : List Char} (hb : Bounds ss first (.declaration above before cs more after)) :
    (survey ls).organized.getLast? = some (declared above before cs more after) := by
  obtain ⟨a, b, hss, hnone⟩ := hb.last_split
  have hstatement := hb.last_organized
  rw [Sighting.isOrganized_declaration] at hstatement
  have hsome : (Sighting.declaration above before cs more after).item?.bind Item.organized? =
      some (declared above before cs more after) := if_pos hstatement
  have hbehind : (b.filterMap fun s => s.item?.bind Item.organized?) = [] := by
    rw [List.filterMap_eq_nil_iff]
    intro s hs
    have hnot := List.any_eq_false.1 hnone s hs
    simpa [Sighting.isOrganized] using hnot
  rw [h.organized_eq, hss, List.filterMap_append, List.filterMap_cons]
  simp only [hsome, hbehind]
  rw [List.getLast?_append_of_ne_nil _ (List.cons_ne_nil _ _)]
  rfl

theorem cut_stop_of_rows {ls above below : List Line} {before first after : List Char}
    {more : List Line} (h : ls = above.reverse ++ (rows before first more after ++ below)) :
    Cut ls (placed above before (first :: more)).stop ((leadRows before first more).reverse ++ above)
      (lastRow before first more) after below := by
  refine ⟨?_, ?_⟩
  · rw [h, rows]
    simp
  · rw [placed]
    simp [Nat.add_comm]

/-- From some lines on, once a declaration has been found, there is nothing to organize. -/
def Ended (below : List Line) : Prop :=
  ∀ above, ((Stage.body true).walk above below).organized = []

theorem Ended.cons {line : Line} (h : isBlank line = true) {below : List Line} (hb : Ended below) :
    Ended (line :: below) := by
  intro above
  have hpass : Passes (.body true) above [line] [] (.body true) := passes_blank h
  have hwalk := hpass below
  rw [List.singleton_append, Survey.prepend_nil] at hwalk
  rw [hwalk]
  exact hb _

theorem ended_of_line {above below : List Line}
    (h : (⟨true, above, .line below⟩ : State).survey.organized = []) : Ended below :=
  fun _ => Alike.line.organized_eq_nil h

/-- Another declaration behind the imports gets a line of its own. -/
theorem ended_of_declaration {above below : List Line} {before rest : List Char}
    (h : (⟨true, above, .declaration before rest below⟩ : State).survey.organized = [])
    (ho : opensUse rest = true) {gap : List Char} (hgap : isBlank gap = true) :
    Ended ((gap ++ rest).dropWhile isGap :: below) := by
  have hdrop : (gap ++ rest).dropWhile isGap = gap.dropWhile isGap ++ rest := by
    obtain ⟨c, r, rfl, hc⟩ := opensUse_head ho
    have hstays : (c :: r).dropWhile isGap = c :: r :=
      List.dropWhile_cons_of_neg (by rcases hc with rfl | rfl <;> decide)
    rw [List.dropWhile_append, hstays]
    split
    · rename_i hnil
      rw [List.isEmpty_iff.1 hnil]
      rfl
    · rfl
  have hblank : isBlank (gap.dropWhile isGap) = true :=
    List.all_eq_true.2 fun c hc =>
      List.all_eq_true.1 hgap c ((List.dropWhile_sublist isGap).subset hc)
  rw [hdrop]
  intro above'
  have hstart : Step ⟨true, above', .line ((gap.dropWhile isGap ++ rest) :: below)⟩ []
    ⟨true, above', .declaration (gap.dropWhile isGap) rest below⟩ :=
      .start (sight_start hblank ho true above' below).1
  have hsurvey : (Stage.body true).walk above' ((gap.dropWhile isGap ++ rest) :: below) =
      (⟨true, above', .declaration (gap.dropWhile isGap) rest below⟩ : State).survey :=
    hstart.survey_eq
  rw [hsurvey]
  exact Alike.declaration.organized_eq_nil h

/-- Other code behind the imports gets a line of its own. -/
theorem ended_of_code {after : List Char} (h : Trailing.ofRest after = .code)
    (hattr : isAttributeLine after = false) (below : List Line) :
    Ended (after.dropWhile isGap :: below) := by
  intro above
  have hwalk : (Stage.body true).walk above (after.dropWhile isGap :: below) = ⟨[], .code⟩ :=
    surveyFrom_code (sight_code h hattr above below)
  rw [hwalk]
  rfl

/-- A trailing blank line is the one below the last import. -/
theorem Layout.isBlank_below {text : List Char} {ss : List Sighting} (h : Layout (lines text) ss)
    {first : Sighting} {above : List Line} {before cs : List Char} {more : List Line}
    {after : List Char} (hb : Bounds ss first (.declaration above before cs more after))
    {below : List Line} (hls : lines text = above.reverse ++ (rows before cs more after ++ below))
    (hblank : isBlank after = true) (htb : (scan text).value.trailingBlank = true) :
    below.head?.all isBlank = true := by
  have hrow : (lines text)[above.length + more.length + 1]? = below.head? := by
    have hlen : (above.reverse ++ rows before cs more after).length =
        above.length + more.length + 1 := by
      rw [List.length_append, List.length_reverse, length_rows, Nat.add_assoc]
    rw [hls, ← List.append_assoc, ← hlen, List.getElem?_append_right (Nat.le_refl _),
      Nat.sub_self, List.head?_eq_getElem?]
  change (survey (lines text)).trailingBlank (lines text) = true at htb
  rw [Survey.trailingBlank, h.getLast?_organized hb] at htb
  have hnothing : Trailing.ofRest after = .nothing := if_pos hblank
  have hall : (decide (Trailing.ofRest after = .code) ||
      (lines text)[above.length + more.length + 1]?.all isBlank) = true := htb
  rw [hnothing, hrow] at hall
  exact hall

/-- Below the imports nothing is found to organize, once they are organized. -/
theorem Layout.exists_tail {text : List Char} {ss : List Sighting} (h : Layout (lines text) ss)
    {first last : Sighting} (ho : Orderly text ⟨first.footprint, last.stop⟩)
    (hb : Bounds ss first last) :
    ∃ above x y below, Cut (lines text) last.stop above x y below ∧
      Ended (tailOf (scan text).value.trailingBlank y below).2 ∧
      (tailOf (scan text).value.trailingBlank y below).2.head?.all isBlank = true := by
  obtain ⟨above, before, cs, more, after, rfl, hstatement⟩ :=
    Sighting.exists_of_isOrganized hb.last_organized
  obtain ⟨st₁, st₂, hstep, hlines, hfound, hnone⟩ := h.exists_behind hb
  have htrailing : Trailing.ofRest after ≠ .comment := by
    rw [isStatement_declared, Bool.and_eq_true, bne_iff_ne] at hstatement
    exact hstatement.2
  have hcode : ∀ below, isBlank after = false → Ended (after.dropWhile isGap :: below) →
      Ended (tailOf (scan text).value.trailingBlank after below).2 ∧
        (tailOf (scan text).value.trailingBlank after below).2.head?.all isBlank = true := by
    intro below hblank hended
    rw [tailOf, hblank]
    exact ⟨hended.cons rfl, rfl⟩
  cases hstep with
  | @finish found _ _ rest _ _ below _ below' stands trailing =>
    have hls : lines text = above.reverse ++ (rows before cs more after ++ below') := by
      rw [← hlines]
      simp [State.lines, Place.lines]
    refine ⟨_, _, after, below', cut_stop_of_rows hls, ?_⟩
    have hblank : isBlank after = true := by
      by_contra hblank
      have hcomment := trailing.resolve_left hblank
      exact htrailing (by rw [Trailing.ofRest, if_neg hblank, if_pos hcomment])
    have hended : Ended below' := by
      rw [show (found || (declared above before cs more after).isStatement) = true from hfound]
        at hnone
      exact ended_of_line hnone
    rw [tailOf, if_pos hblank]
    cases htb : (scan text).value.trailingBlank with
    | false => exact ⟨hended.cons hblank, by simp [hblank]⟩
    | true =>
      exact ⟨hended, h.isBlank_below hb hls hblank htb⟩
  | @next found _ _ rest _ gap rest' below _ below' stands blank opens =>
    have hls : lines text = above.reverse ++ (rows before cs more (gap ++ rest') ++ below') := by
      rw [← hlines]
      simp [State.lines, Place.lines, rows]
    refine ⟨_, _, gap ++ rest', below', cut_stop_of_rows hls, hcode below' ?_ ?_⟩
    · exact (sight_start blank opens true [] []).2.2.1
    · rw [show (found || (declared above before cs more (gap ++ rest')).isStatement) = true from
        hfound] at hnone
      exact ended_of_declaration hnone opens blank
  | @stop found _ _ rest _ _ below _ below' stands trailing =>
    have hls : lines text = above.reverse ++ (rows before cs more after ++ below') := by
      rw [← hlines]
      simp [State.lines, Place.lines, rows]
    have hcut := cut_stop_of_rows hls
    refine ⟨_, _, after, below', hcut, hcode below' ?_ (ended_of_code trailing ?_ below')⟩
    · rw [Bool.eq_false_iff]
      intro hblank
      rw [Trailing.ofRest, if_pos hblank] at trailing
      cases trailing
    · have hattr := ho.behind
      change isAttributeLine (lineAt text (placed above before (cs :: more)).stop).2 = false at hattr
      rwa [hcut.2, lineAt_eq hcut.1] at hattr

end TidyUse.Document
