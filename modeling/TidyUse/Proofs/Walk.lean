import Mathlib.Data.List.Basic
import TidyUse.Document.Scan
import TidyUse.Proofs.LineKinds

/-!
# A survey line by line

* `walk` : the survey of the lines below some lines;
* `rows before first more after` : the lines of a text that stands between two others;
* `Ends` : a text ends with the `;` that closes a declaration;
* `surveyFrom_nothing`, `surveyFrom_comment`, `surveyStart_rows` : one step of a survey;
* `Clear` : no attributes are in sight above a line; `attributesAbove_append`;
* `Passes` : what a survey makes of some lines, whatever follows them; `passes_blank`,
  `passes_attribute`, `passes_comment`, `passes_declaration`.
-/

namespace TidyUse.Document

open Text

/-- The survey of the lines below some lines, which are given nearest first. -/
def walk (found : Bool) (above : List Line) : List Line → Survey
  | [] => ⟨[], .exhausted⟩
  | line :: below => surveyFrom found 0 ⟨above, line, below⟩

def Survey.prepend (items : List Item) (s : Survey) : Survey := { s with items := items ++ s.items }

@[simp] theorem Survey.prepend_nil (s : Survey) : s.prepend [] = s := rfl

theorem Survey.prepend_append (items items' : List Item) (s : Survey) :
    s.prepend (items ++ items') = (s.prepend items').prepend items := by
  rw [prepend, prepend, prepend, List.append_assoc]

theorem Survey.cons_eq (item : Item) (s : Survey) : s.cons item = s.prepend [item] := rfl

@[simp] theorem Survey.prepend_items (items : List Item) (s : Survey) :
    (s.prepend items).items = items ++ s.items := rfl

namespace Cursor

/-- Going down some lines. -/
theorem down_of_split (above : List Line) {line next : Line} {below pre below' : List Line}
    (h : line :: below = pre ++ next :: below') :
    (⟨above, line, below⟩ : Cursor).down pre.length = some ⟨pre.reverse ++ above, next, below'⟩ := by
  induction pre generalizing above line below with
  | nil =>
    obtain ⟨rfl, rfl⟩ := List.cons.inj h
    rfl
  | cons l pre ih =>
    obtain ⟨rfl, hbelow⟩ := List.cons.inj h
    rw [List.length_cons]
    cases below with
    | nil => simp at hbelow
    | cons b below =>
      rw [down]
      simp only []
      rw [ih _ hbelow, List.reverse_cons, List.append_assoc]
      rfl

theorem down_eq_none {above : List Line} {line : Line} {below : List Line} {k : Nat}
    (h : below.length < k) : (⟨above, line, below⟩ : Cursor).down k = none := by
  induction k generalizing above line below with
  | zero => omega
  | succ k ih =>
    cases below with
    | nil => rfl
    | cons b below =>
      rw [List.length_cons] at h
      exact ih (by omega)

theorem lineBelow_of_split {above : List Line} {line next : Line} {below pre below' : List Line}
    (h : line :: below = pre ++ next :: below') :
    (⟨above, line, below⟩ : Cursor).lineBelow pre.length = next := by
  rw [lineBelow]
  simp only [h]
  rw [List.getD_eq_getElem?_getD, List.getElem?_append_right (Nat.le_refl _), Nat.sub_self]
  rfl

end Cursor

/-! ## Steps of a survey -/

section Steps

variable {found : Bool} {column : Nat} {above : List Line} {line : Line} {below : List Line}

/-- Below a line without interest the survey goes on with the next one. -/
theorem surveyFrom_nothing (h : (⟨above, line, below⟩ : Cursor).sight found column = .nothing) :
    surveyFrom found column ⟨above, line, below⟩ = walk found (line :: above) below := by
  rw [surveyFrom.eq_def]
  split <;> rename_i hs <;> rw [h] at hs
  · cases hs
  · cases below <;> rfl
  · cases hs
  · cases hs

theorem surveyFrom_code (h : (⟨above, line, below⟩ : Cursor).sight found column = .code) :
    surveyFrom found column ⟨above, line, below⟩ = ⟨[], .code⟩ := by
  rw [surveyFrom.eq_def]
  split <;> rename_i hs <;> rw [h] at hs <;> first | rfl | cases hs

/-- The item of a comment on some lines, the first of which is `line`. -/
def commentItem (above : List Line) (line : Line) (more : List Line) : Item :=
  .comment ⟨⟨above.length, indent line⟩,
    ⟨(above.length + more.length : Nat), ((line :: more).getLastD []).length⟩⟩

theorem dropLast_append_getLastD {α : Type} {l : List α} (h : l ≠ []) (a : α) :
    l.dropLast ++ [l.getLastD a] = l := by
  rw [List.getLastD_eq_getLast?, List.getLast?_eq_getLast_of_ne_nil h]
  exact List.dropLast_append_getLast h

theorem lineBelow_last (above : List Line) (line : Line) (more below : List Line) :
    (⟨above, line, more ++ below⟩ : Cursor).lineBelow more.length = (line :: more).getLastD [] := by
  have hsplit : line :: (more ++ below) =
      (line :: more).dropLast ++ (line :: more).getLastD [] :: below := by
    rw [List.append_cons, dropLast_append_getLastD (List.cons_ne_nil _ _)]
    rfl
  have hlen : (line :: more).dropLast.length = more.length := by simp
  rw [← hlen]
  exact Cursor.lineBelow_of_split hsplit

/-- A comment is an item, and the survey goes on below it. -/
theorem surveyFrom_comment {more : List Line}
    (h : (⟨above, line, more ++ below⟩ : Cursor).sight found column = .comment more.length) :
    surveyFrom found column ⟨above, line, more ++ below⟩ =
      (walk found (more.reverse ++ line :: above) below).prepend
        [commentItem above line more] := by
  rw [surveyFrom.eq_def]
  split <;> rename_i hs <;> rw [h] at hs
  · cases hs
  · cases hs
  · cases hs
    dsimp only
    rw [lineBelow_last]
    cases below with
    | nil =>
      have hd : (⟨above, line, more ++ []⟩ : Cursor).down (more.length + 1) = none :=
        Cursor.down_eq_none (by simp)
      split
      · rfl
      · rename_i hd'
        rw [hd] at hd'
        cases hd'
    | cons next below =>
      have hd : (⟨above, line, more ++ next :: below⟩ : Cursor).down (more.length + 1) =
          some ⟨(line :: more).reverse ++ above, next, below⟩ :=
        Cursor.down_of_split above (show line :: (more ++ next :: below) =
          (line :: more) ++ next :: below from rfl)
      split
      · rename_i hd'
        rw [hd] at hd'
        cases hd'
      · rename_i hd'
        rw [hd] at hd'
        cases hd'
        rw [Survey.cons_eq, List.reverse_cons, List.append_assoc]
        rfl
  · cases hs

end Steps

/-! ## The end of a declaration -/

theorem findEnd_column (depth : Int) (column : Nat) (cs : List Char) :
    findEnd depth column cs =
      ((findEnd depth 0 cs).1.map (· + column), (findEnd depth 0 cs).2) := by
  have shift : ∀ c d, findEnd depth (c + d) cs =
      ((findEnd depth c cs).1.map (· + d), (findEnd depth c cs).2) := by
    intro c d
    fun_induction findEnd depth c cs with
    | case1 => rw [findEnd]; rfl
    | case2 => rw [findEnd]; rfl
    | case3 depth c cs ih =>
      rw [findEnd, ← ih]
      congr 1
      omega
    | case4 depth c ch cs hne hne' h =>
      rw [findEnd, if_pos h]
      · rw [Option.map_some]
        congr 2
        omega
      · exact hne
      · exact hne'
    | case5 depth c ch cs hne hne' h ih =>
      rw [findEnd, if_neg h, ← ih]
      · congr 1
        omega
      · exact hne
      · exact hne'
  have h := shift 0 column
  rwa [Nat.zero_add] at h

theorem splitComment_append_right {cs : List Char} (h : (Token.splitComment cs).2 ≠ [])
    (rest : List Char) :
    Token.splitComment (cs ++ rest) =
      ((Token.splitComment cs).1, (Token.splitComment cs).2 ++ rest) := by
  fun_induction Token.splitComment cs with
  | case1 cs => rfl
  | case2 c cs hne r ih =>
    have hih := ih h
    cases cs with
    | nil => exact absurd rfl h
    | cons d cs =>
      rw [List.cons_append, List.cons_append, Token.splitComment]
      · rw [List.cons_append] at hih
        rw [hih]
      · intro tail hc hcs
        obtain ⟨rfl, -⟩ := List.cons.inj hcs
        exact hne cs hc rfl
  | case3 => exact absurd rfl h

/-- Once the end is found, what follows has no influence. -/
theorem findEnd_append {depth : Int} {column e : Nat} {cs : List Char}
    (h : (findEnd depth column cs).1 = some e) (rest : List Char) :
    findEnd depth column (cs ++ rest) = findEnd depth column cs := by
  fun_induction findEnd depth column cs with
  | case1 => cases h
  | case2 => cases h
  | case3 depth column cs ih =>
    have hne : (Token.splitComment cs).2 ≠ [] := by
      intro hnil
      rw [hnil, findEnd] at h
      cases h
    rw [List.cons_append, List.cons_append, findEnd, splitComment_append_right hne]
    exact ih h
  | case4 depth column c cs hne hne' hc =>
    have hsemi : c = ';' := by
      rw [Bool.and_eq_true, beq_iff_eq] at hc
      exact hc.1
    rw [List.cons_append, findEnd, if_pos hc]
    · rintro tail rfl
      cases hsemi
    · rintro tail rfl
      cases hsemi
  | case5 depth column c cs hne hne' hc ih =>
    cases cs with
    | nil =>
      rw [findEnd] at h
      cases h
    | cons d cs =>
      rw [List.cons_append, findEnd, if_neg hc]
      · exact ih h
      · intro tail hslash hcs
        obtain ⟨rfl, -⟩ := List.cons.inj hcs
        exact hne cs hslash rfl
      · intro tail hslash hcs
        obtain ⟨rfl, -⟩ := List.cons.inj hcs
        exact hne' cs hslash rfl

/-! ## A declaration on its lines -/

/-- All but the last of the lines of a text that opens with `first`, behind `before`, and goes on
with the lines `more`. -/
def leadRows (before first : List Char) : List Line → List Line
  | [] => []
  | next :: more => (before ++ first) :: leadRows [] next more

/-- The last of these lines. -/
def lastRow (before first : List Char) : List Line → Line
  | [] => before ++ first
  | next :: more => lastRow [] next more

/-- The lines of a text between two others. -/
def rows (before first : List Char) (more : List Line) (after : List Char) : List Line :=
  leadRows before first more ++ [lastRow before first more ++ after]

theorem rows_nil (before first after : List Char) :
    rows before first [] after = [before ++ first ++ after] := rfl

theorem rows_cons (before first : List Char) (next : Line) (more : List Line)
    (after : List Char) :
    rows before first (next :: more) after = (before ++ first) :: rows [] next more after := rfl

@[simp] theorem length_leadRows (before first : List Char) (more : List Line) :
    (leadRows before first more).length = more.length := by
  induction more generalizing before first with
  | nil => rfl
  | cons next more ih => rw [leadRows, List.length_cons, ih, List.length_cons]

theorem leadRows_append_lastRow (first : List Char) (more : List Line) :
    leadRows [] first more ++ [lastRow [] first more] = first :: more := by
  induction more generalizing first with
  | nil => rfl
  | cons next more ih => rw [leadRows, lastRow, List.cons_append, ih]; rfl

/-- Lines with a text before the first and a text behind the last of them. -/
def fringe (before : List Char) : List Line → List Char → List Line
  | [], _ => []
  | first :: more, after => rows before first more after

@[simp] theorem fringe_nil (before after : List Char) : fringe before [] after = [] := rfl

theorem fringe_cons (before first : List Char) (more : List Line) (after : List Char) :
    fringe before (first :: more) after = rows before first more after := rfl

theorem rows_append (before first : List Char) (more : List Line) (next : Line)
    (others : List Line) (after : List Char) :
    rows before first (more ++ next :: others) after =
      rows before first more [] ++ rows [] next others after := by
  induction more generalizing before first with
  | nil => simp [rows_cons, rows_nil]
  | cons l more ih => rw [List.cons_append, rows_cons, ih, rows_cons, List.cons_append]

theorem rows_open (before first : List Char) (more : List Line) :
    rows before first more [] = (before ++ first) :: more := by
  cases more with
  | nil => rw [rows_nil, List.append_nil]
  | cons next more => rw [rows_cons, rows, List.append_nil, leadRows_append_lastRow]

@[simp] theorem fringe_plain (ls : List Line) : fringe [] ls [] = ls := by
  cases ls with
  | nil => rfl
  | cons first more => exact rows_open [] first more

theorem fringe_append (before : List Char) {ls ms : List Line} (hl : ls ≠ []) (hm : ms ≠ [])
    (after : List Char) :
    fringe before (ls ++ ms) after = fringe before ls [] ++ fringe [] ms after := by
  obtain ⟨first, more, rfl⟩ := List.exists_cons_of_ne_nil hl
  obtain ⟨next, others, rfl⟩ := List.exists_cons_of_ne_nil hm
  exact rows_append ..

/-- The text ends with the `;` that closes a declaration, when some braces are open at its start. -/
def Ends (depth : Int) (first : Line) : List Line → Prop
  | [] => (findEnd depth 0 first).1 = some first.length
  | next :: more => (findEnd depth 0 first).1 = none ∧ Ends (findEnd depth 0 first).2 next more

theorem endBelow_rows {depth : Int} {first : Line} {more : List Line} (h : Ends depth first more)
    (after : List Char) (below : List Line) :
    endBelow depth (rows [] first more after ++ below) =
      some (more.length + 1, (lastRow [] first more).length) := by
  induction more generalizing depth first with
  | nil =>
    have hend : findEnd depth 0 (first ++ after) = findEnd depth 0 first := findEnd_append h after
    rw [rows_nil, List.nil_append, List.singleton_append, endBelow, hend]
    split
    · rename_i column _ heq
      rw [Ends, heq] at h
      cases h
      rfl
    · rename_i heq
      rw [Ends, heq] at h
      cases h
  | cons next more ih =>
    obtain ⟨hnone, hmore⟩ := h
    rw [rows_cons, List.nil_append, List.cons_append, endBelow]
    split
    · rename_i heq
      rw [heq] at hnone
      cases hnone
    · rename_i heq
      rw [heq] at hmore
      rw [ih hmore]
      rfl

section Declared

variable {above : List Line} {before first : List Char} {more : List Line} {after : List Char}
  {line : Line} {below below' : List Line}

theorem declarationEnd_rows (h : Ends 0 first more)
    (hrows : line :: below' = rows before first more after ++ below) :
    (⟨above, line, below'⟩ : Cursor).declarationEnd before.length =
      some (more.length, (lastRow before first more).length) := by
  rw [Cursor.declarationEnd]
  cases more with
  | nil =>
    rw [rows_nil, List.singleton_append] at hrows
    obtain ⟨rfl, rfl⟩ := List.cons.inj hrows
    rw [List.append_assoc, List.drop_left, findEnd_column, findEnd_append h, h]
    simp [lastRow, Nat.add_comm]
  | cons next more =>
    obtain ⟨hnone, hmore⟩ := h
    rw [rows_cons, List.cons_append] at hrows
    obtain ⟨rfl, rfl⟩ := List.cons.inj hrows
    rw [List.drop_left, findEnd_column, hnone]
    exact endBelow_rows hmore after below

/-- The text of a declaration. -/
theorem textTo_rows (hrows : line :: below' = rows before first more after ++ below) :
    (⟨above, line, below'⟩ : Cursor).textTo before.length more.length
      (lastRow before first more).length = unlines (first :: more) := by
  cases more with
  | nil =>
    rw [rows_nil, List.singleton_append] at hrows
    obtain ⟨rfl, rfl⟩ := List.cons.inj hrows
    show ((before ++ first ++ after).take (before ++ first).length).drop before.length = _
    rw [List.take_left, List.drop_left, unlines, List.intercalate_singleton]
  | cons next more =>
    have hsplit : line :: below' = leadRows before first (next :: more) ++
        (lastRow before first (next :: more) ++ after) :: below := by
      rw [hrows, rows, List.append_assoc]
      rfl
    have hlast : (⟨above, line, below'⟩ : Cursor).lineBelow _ = _ :=
      Cursor.lineBelow_of_split hsplit
    rw [length_leadRows] at hlast
    rw [rows_cons, List.cons_append] at hrows
    obtain ⟨rfl, rfl⟩ := List.cons.inj hrows
    rw [List.length_cons] at hlast ⊢
    rw [Cursor.textTo, hlast, List.take_left, List.drop_left]
    have htake : (rows [] next more after ++ below).take more.length = leadRows [] next more := by
      rw [rows, List.append_assoc]
      exact List.take_left' (length_leadRows _ _ _)
    show unlines (first :: ((rows [] next more after ++ below).take more.length ++
      [lastRow [] next more])) = _
    rw [htake, leadRows_append_lastRow]

end Declared

/-- The span of some lines below `above`, the first of them behind `before`. -/
def placed (above : List Line) (before : List Char) : List Line → Span
  | [] => ⟨⟨above.length, before.length⟩, ⟨above.length, before.length⟩⟩
  | first :: more =>
    ⟨⟨above.length, before.length⟩,
      ⟨(above.length + more.length : Nat), (lastRow before first more).length⟩⟩

theorem start_placed (above : List Line) (before : List Char) (ls : List Line) :
    (placed above before ls).start = ⟨above.length, before.length⟩ := by
  cases ls <;> rfl

theorem lastRow_eq (before first : List Char) (more : List Line) :
    ∃ p, (p = before ∨ p = []) ∧ lastRow before first more = p ++ lastRow [] first more := by
  cases more with
  | nil => exact ⟨before, Or.inl rfl, rfl⟩
  | cons next more => exact ⟨[], Or.inr rfl, rfl⟩

theorem lastRow_append (before first : List Char) (more : List Line) (next : Line)
    (others : List Line) :
    lastRow before first (more ++ next :: others) = lastRow [] next others := by
  induction more generalizing before first with
  | nil => rfl
  | cons l more ih => exact ih [] l

theorem length_fringe (before : List Char) (ls : List Line) (after : List Char) :
    (fringe before ls after).length = ls.length := by
  cases ls with
  | nil => rfl
  | cons first more => simp [fringe, rows]

theorem stop_placed_append (above : List Line) (before : List Char) {ls ms : List Line}
    (hl : ls ≠ []) (hm : ms ≠ []) :
    (placed above before (ls ++ ms)).stop =
      (placed ((fringe before ls []).reverse ++ above) [] ms).stop := by
  obtain ⟨first, more, rfl⟩ := List.exists_cons_of_ne_nil hl
  obtain ⟨next, others, rfl⟩ := List.exists_cons_of_ne_nil hm
  have hlen : above.length + (more ++ next :: others).length =
      ((fringe before (first :: more) []).reverse ++ above).length + others.length := by
    rw [List.length_append, List.length_append, List.length_reverse, length_fringe,
      List.length_cons, List.length_cons]
    omega
  rw [List.cons_append, placed, placed, lastRow_append, hlen]

/-- The attributes of a declaration behind `before`. -/
def attributesFor (above : List Line) (before : List Char) : Attributes :=
  if isBlank before then attributesAbove above else ⟨[], 0⟩

/-- The declaration on the lines `rows before first more after`. -/
def declared (above : List Line) (before first : List Char) (more : List Line)
    (after : List Char) : Declaration where
  span := placed above before (first :: more)
  footprint :=
    if (attributesFor above before).height = 0 then ⟨above.length, before.length⟩
    else ⟨(above.length - (attributesFor above before).height : Nat),
      indent (above.getD ((attributesFor above before).height - 1) [])⟩
  lineEnd := ⟨(above.length + more.length : Nat), (lastRow before first more ++ after).length⟩
  attributes := (attributesFor above before).texts
  reading := .ofText ⟨above.length, before.length⟩ (unlines (first :: more))
  trailing := .ofRest after

def surveyStart (found : Bool) (cur : Cursor) (start : Nat) : Survey :=
  match cur.declarationEnd start with
  | none => ⟨[], .unterminated cur.row⟩
  | some e =>
    let d := cur.declaration start e.1 e.2
    Survey.prepend [.declaration cur.row d]
      (match d.trailing with
      | .code => ⟨[], .code⟩
      | .comment =>
        match cur.down (e.1 + 1) with
        | none => ⟨[], .exhausted⟩
        | some next => surveyFrom found 0 next
      | .nothing =>
        match cur.down e.1 with
        | none => ⟨[], .exhausted⟩
        | some next => surveyFrom (found || d.isStatement) e.2 next)

theorem surveyFrom_eq_surveyStart {found : Bool} {column start : Nat} {cur : Cursor}
    (h : cur.sight found column = .start start) :
    surveyFrom found column cur = surveyStart found cur start := by
  rw [surveyFrom.eq_def]
  split <;> rename_i hs <;> rw [h] at hs
  · cases hs
  · cases hs
  · cases hs
  · cases hs
    rw [surveyStart]
    split
    · rename_i he
      rw [he]
    · rename_i e he
      rw [he]
      dsimp only
      cases (cur.declaration start e.1 e.2).trailing with
      | code => rfl
      | comment =>
        dsimp only
        split <;> rename_i hd <;> rw [hd] <;> rfl
      | nothing =>
        dsimp only
        split <;> rename_i hd <;> rw [hd] <;> rfl

section Declared

variable {found : Bool} {column : Nat} {above : List Line} {before first : List Char}
  {more : List Line} {after : List Char} {line : Line} {below below' : List Line}

theorem declaration_rows (hrows : line :: below' = rows before first more after ++ below) :
    (⟨above, line, below'⟩ : Cursor).declaration before.length more.length
      (lastRow before first more).length = declared above before first more after := by
  have htext : (⟨above, line, below'⟩ : Cursor).textTo before.length more.length
      (lastRow before first more).length = _ := textTo_rows hrows
  have hsplit : line :: below' = leadRows before first more ++
      (lastRow before first more ++ after) :: below := by
    rw [hrows, rows, List.append_assoc]
    rfl
  have hlast : (⟨above, line, below'⟩ : Cursor).lineBelow _ = _ :=
    Cursor.lineBelow_of_split hsplit
  rw [length_leadRows] at hlast
  have hbefore : line.take before.length = before := by
    cases more with
    | nil =>
      rw [rows_nil, List.singleton_append] at hrows
      rw [(List.cons.inj hrows).1, List.append_assoc, List.take_left]
    | cons next more =>
      rw [rows_cons, List.cons_append] at hrows
      rw [(List.cons.inj hrows).1, List.take_left]
  rw [Cursor.declaration, htext, hlast]
  simp only [hbefore, List.drop_left]
  rfl

/-- A declaration is an item, and what follows it on its last line tells how the survey goes on. -/
theorem surveyStart_rows (h : Ends 0 first more)
    (hrows : line :: below' = rows before first more after ++ below) :
    surveyStart found ⟨above, line, below'⟩ before.length =
      Survey.prepend [.declaration above.length (declared above before first more after)]
        (match Trailing.ofRest after with
        | .code => ⟨[], .code⟩
        | .comment => walk found ((rows before first more after).reverse ++ above) below
        | .nothing =>
          surveyFrom (found || (declared above before first more after).isStatement)
            (lastRow before first more).length
            ⟨(leadRows before first more).reverse ++ above, lastRow before first more ++ after,
              below⟩) := by
  have hend : (⟨above, line, below'⟩ : Cursor).declarationEnd before.length = _ :=
    declarationEnd_rows h hrows
  have hdecl : (⟨above, line, below'⟩ : Cursor).declaration before.length more.length
    (lastRow before first more).length = _ := declaration_rows hrows
  have hsplit : line :: below' = leadRows before first more ++
      (lastRow before first more ++ after) :: below := by
    rw [hrows, rows, List.append_assoc]
    rfl
  have hdown := Cursor.down_of_split above hsplit
  rw [length_leadRows] at hdown
  rw [surveyStart, hend]
  simp only [hdecl]
  rw [hdown, show (declared above before first more after).trailing = Trailing.ofRest after from rfl]
  cases htr : Trailing.ofRest after with
  | code => rfl
  | nothing => rfl
  | comment =>
    dsimp only
    cases below with
    | nil =>
      rw [Cursor.down_eq_none]
      · rfl
      · have hlen := congrArg List.length hrows
        simp [rows] at hlen
        omega
    | cons next below =>
      have hdown' := Cursor.down_of_split above hrows
      simp only [rows, List.length_append, length_leadRows, List.length_singleton] at hdown'
      rw [hdown']
      rfl

end Declared

/-! ## Attributes above a line -/

/-- A line that may stand among the attributes of an item. -/
def isPassable (l : Line) : Bool := isAttributeLine l || isBlank l || isCommentLine l

/-- An item below some lines, nearest first, has no attributes among them. -/
def Clear (above : List Line) : Prop := ∀ l ∈ above.takeWhile isPassable, isAttributeLine l = false

theorem clear_nil : Clear [] := by simp [Clear]

theorem clear_cons_of_not_isPassable {line : Line} (h : isPassable line = false)
    (above : List Line) : Clear (line :: above) := by
  rw [Clear, List.takeWhile_cons_of_neg (by rw [h]; exact Bool.false_ne_true)]
  simp

theorem clear_cons {line : Line} {above : List Line} (hl : isAttributeLine line = false)
    (h : Clear above) : Clear (line :: above) := by
  rw [Clear, List.takeWhile_cons]
  split
  · intro l hm
    rcases List.mem_cons.1 hm with rfl | hm
    · exact hl
    · exact h l hm
  · simp

/-- The attributes in a block of lines that opens with one, below clear lines. -/
theorem attributesAbove_append {above : List Line} (h : Clear above) (block : List Line)
    (hpass : ∀ l ∈ block, isPassable l = true)
    (hhead : ∀ l ∈ block.head?, isAttributeLine l = true) :
    attributesAbove (block.reverse ++ above) =
      ⟨(block.filter isAttributeLine).map fun l => String.ofList (trim l), block.length⟩ := by
  have hrun : (block.reverse ++ above).takeWhile isPassable =
      block.reverse ++ above.takeWhile isPassable :=
    List.takeWhile_append_of_pos fun l hl => hpass l (List.mem_reverse.1 hl)
  have hdrop : ((above.takeWhile isPassable).reverse ++ block).dropWhile
      (fun l => !isAttributeLine l) = block := by
    rw [List.dropWhile_append_of_pos fun l hl => by rw [h l (List.mem_reverse.1 hl)]; rfl]
    cases block with
    | nil => rfl
    | cons l block =>
      rw [List.dropWhile_cons_of_neg]
      rw [hhead l rfl]
      exact Bool.false_ne_true
  rw [attributesAbove]
  change Attributes.mk ((List.filter _ (((_ : List Line).takeWhile isPassable).reverse.dropWhile
    _)).map _) (((_ : List Line).takeWhile isPassable).reverse.dropWhile _).length = _
  rw [hrun, List.reverse_append, List.reverse_reverse, hdrop]

/-- The block of lines that holds the attributes of an item below some lines. -/
theorem exists_attribute_block (above : List Line) :
    ∃ block above' : List Line, above = block.reverse ++ above' ∧ Clear above' ∧
      (∀ l ∈ block, isPassable l = true) ∧ ∀ l ∈ block.head?, isAttributeLine l = true := by
  induction above with
  | nil => exact ⟨[], [], rfl, clear_nil, by simp, by simp⟩
  | cons l above ih =>
    by_cases hpass : isPassable l = true
    · obtain ⟨block, above', rfl, hclear, hblock, hhead⟩ := ih
      by_cases hnew : block = [] ∧ isAttributeLine l = false
      · refine ⟨[], l :: above', by rw [hnew.1]; rfl, clear_cons hnew.2 hclear, by simp, by simp⟩
      · refine ⟨block ++ [l], above', by simp, hclear, by simpa [or_imp, forall_and] using
          ⟨hblock, hpass⟩, ?_⟩
        cases block with
        | nil => simpa using hnew
        | cons top block => exact hhead
    · exact ⟨[], l :: above, rfl, clear_cons_of_not_isPassable (Bool.eq_false_iff.2 hpass) above,
        by simp, by simp⟩

theorem attributesAbove_of_clear {above : List Line} (h : Clear above) :
    attributesAbove above = ⟨[], 0⟩ :=
  attributesAbove_append h [] (by simp) (by simp)

theorem footprint_declared_of_clear {above : List Line} (h : Clear above)
    (before first : List Char) (more : List Line) (after : List Char) :
    (declared above before first more after).footprint = ⟨above.length, before.length⟩ := by
  have hheight : (attributesFor above before).height = 0 := by
    rw [attributesFor, attributesAbove_of_clear h]
    split <;> rfl
  exact if_pos hheight

/-- The footprint of a declaration below a block of lines that opens with an attribute. -/
theorem footprint_declared_append {above : List Line} (h : Clear above) {top : Line}
    {block : List Line} (hpass : ∀ l ∈ top :: block, isPassable l = true)
    (htop : isAttributeLine top = true) {before : List Char} (hb : isBlank before = true)
    (first : List Char) (more : List Line) (after : List Char) :
    (declared ((top :: block).reverse ++ above) before first more after).footprint =
      ⟨above.length, indent top⟩ := by
  have hheight : (attributesFor ((top :: block).reverse ++ above) before).height =
      block.length + 1 := by
    rw [attributesFor, if_pos hb, attributesAbove_append h _ hpass (by simpa using htop)]
    rfl
  have hlen : ((top :: block).reverse ++ above).length - (block.length + 1) = above.length := by
    simp only [List.length_append, List.length_reverse, List.length_cons]
    omega
  have hget : ((top :: block).reverse ++ above).getD block.length [] = top := by
    rw [List.reverse_cons, List.append_assoc, List.getD_eq_getElem?_getD,
      List.getElem?_append_right (by simp)]
    simp
  rw [declared]
  simp only [hheight]
  rw [if_neg (by omega), Nat.add_sub_cancel, hget, hlen]

/-! ## Stages of a survey -/

inductive Stage
  /-- In the lines that open the document. -/
  | preamble
  /-- Below them, when a declaration has or has not been found. -/
  | body (found : Bool)

namespace Stage

def walk : Stage → List Line → List Line → Survey
  | preamble, above, rest =>
    Document.walk false ((rest.take (preambleLength rest)).reverse ++ above)
      (rest.drop (preambleLength rest))
  | body found, above, rest => Document.walk found above rest

/-- The stage below a line that does not belong to the preamble. -/
def leave : Stage → Stage
  | preamble => body false
  | body found => body found

def found : Stage → Bool
  | preamble => false
  | body found => found

end Stage

theorem survey_eq_walk (lines : List Line) : survey lines = Stage.preamble.walk [] lines := by
  rw [survey, Stage.walk, List.append_nil]
  cases lines.drop (preambleLength lines) <;> rfl

@[simp] theorem Stage.walk_nil (stage : Stage) (above : List Line) :
    stage.walk above [] = ⟨[], .exhausted⟩ := by
  cases stage with
  | preamble =>
    rw [Stage.walk, List.drop_nil]
    rfl
  | body found => rfl

/-- A line that does not belong to the preamble ends it. -/
theorem walk_leave {line : Line} {below : List Line} (hc : isCommentLine line = false)
    (hb : isBlank line = false) (hi : isInnerAttributeLine line = false) (stage : Stage)
    (above : List Line) :
    stage.walk above (line :: below) = stage.leave.walk above (line :: below) := by
  cases stage with
  | body found => rfl
  | preamble =>
    have hlen : preambleLength (line :: below) = 0 := by
      rw [preambleLength.eq_def]
      simp only [commentLines_eq_none_iff.2 hc, hb, hi]
      rfl
    rw [Stage.walk, hlen]
    rfl

/-- The lines `ls` below `above` take a survey from a stage to a stage, and give some items. -/
def Passes (stage : Stage) (above ls : List Line) (items : List Item) (stage' : Stage) : Prop :=
  ∀ below, stage.walk above (ls ++ below) = (stage'.walk (ls.reverse ++ above) below).prepend items

section Passes

variable {stage stage' stage'' : Stage} {above ls ms : List Line} {items items' : List Item}
  {line : Line}

theorem Passes.nil : Passes stage above [] [] stage := fun _ => rfl

theorem Passes.append (h : Passes stage above ls items stage')
    (h' : Passes stage' (ls.reverse ++ above) ms items' stage'') :
    Passes stage above (ls ++ ms) (items ++ items') stage'' := by
  intro below
  rw [List.append_assoc, h, h', List.reverse_append, List.append_assoc, Survey.prepend_append]

theorem passes_blank (h : isBlank line = true) : Passes stage above [line] [] stage := by
  intro below
  cases stage with
  | preamble =>
    have hc : commentLines line below = none := by
      rw [commentLines_eq, trimStart_eq_nil_iff.2 h]
    have hlen : preambleLength (line :: below) = 1 + preambleLength below := by
      rw [preambleLength.eq_def]
      simp only [hc, h]
      rfl
    rw [List.singleton_append, Stage.walk, hlen, Nat.add_comm, List.take_succ_cons,
      List.drop_succ_cons, List.reverse_cons, List.append_assoc]
    rfl
  | body found =>
    refine surveyFrom_nothing ?_
    simp only [Cursor.sight, h]
    rfl

theorem passes_attribute (h : isAttributeLine line = true) :
    Passes stage above [line] [] stage.leave := by
  obtain ⟨cs, hcs⟩ := isAttributeLine_iff.1 h
  have hc := isCommentLine_eq_false_of_cons hcs (by decide)
  have hb := isBlank_eq_false_of_cons hcs
  have hi : isInnerAttributeLine line = false := by
    rw [Bool.eq_false_iff]
    intro hi
    obtain ⟨ds, hds⟩ := isInnerAttributeLine_iff.1 hi
    rw [hcs] at hds
    cases hds
  intro below
  rw [List.singleton_append, walk_leave hc hb hi]
  have hwalk : ∀ found, walk found above (line :: below) = walk found (line :: above) below := by
    intro found
    refine surveyFrom_nothing ?_
    simp only [Cursor.sight, hb, commentLines_eq_none_iff.2 hc, h]
    rfl
  cases stage <;> exact hwalk _

/-- The items that a comment gives. In the preamble there are none. -/
def Stage.commentItems (stage : Stage) (above : List Line) (line : Line) (more : List Line) :
    List Item :=
  match stage with
  | preamble => []
  | body _ => [commentItem above line more]

theorem passes_comment {more : List Line}
    (h : ∀ below, commentLines line (more ++ below) = some more.length) :
    Passes stage above (line :: more) (stage.commentItems above line more) stage := by
  intro below
  have hc := h below
  cases stage with
  | preamble =>
    have hlen : preambleLength (line :: (more ++ below)) =
        (line :: more).length + preambleLength below := by
      rw [preambleLength.eq_def]
      simp only [hc, List.drop_left, List.length_cons]
    rw [List.cons_append, Stage.walk, hlen, ← List.cons_append, List.take_length_add_append,
      List.drop_length_add_append, List.reverse_append, List.append_assoc]
    rfl
  | body found =>
    have hb : isBlank line = false := by
      rw [Bool.eq_false_iff]
      intro hb
      rw [commentLines_eq, trimStart_eq_nil_iff.2 hb] at hc
      cases hc
    rw [List.reverse_cons, List.append_assoc]
    refine surveyFrom_comment ?_
    simp only [Cursor.sight, hb, hc]
    rfl

theorem sight_start {before cs : List Char} (hb : isBlank before = true) (ho : opensUse cs = true)
    (found : Bool) (above below : List Line) :
    (⟨above, before ++ cs, below⟩ : Cursor).sight found 0 = .start before.length ∧
      isCommentLine (before ++ cs) = false ∧ isBlank (before ++ cs) = false ∧
      isInnerAttributeLine (before ++ cs) = false := by
  obtain ⟨c, r, rfl, hc⟩ := opensUse_head ho
  have hspace : isSpace c = false := by rcases hc with rfl | rfl <;> decide
  have htrim : trimStart (before ++ c :: r) = c :: r := by
    rw [trimStart_append hb, trimStart_cons hspace]
  have hcomment : isCommentLine (before ++ c :: r) = false :=
    isCommentLine_eq_false_of_cons htrim (by rcases hc with rfl | rfl <;> decide)
  have hblank := isBlank_eq_false_of_cons htrim
  have hattr : isAttributeLine (before ++ c :: r) = false := by
    rw [Bool.eq_false_iff, Ne, isAttributeLine_iff, htrim]
    rintro ⟨cs, hcs⟩
    rw [(List.cons.inj hcs).1] at hc
    exact absurd hc (by decide)
  have hinner : isInnerAttributeLine (before ++ c :: r) = false := by
    rw [Bool.eq_false_iff, Ne, isInnerAttributeLine_iff, htrim]
    rintro ⟨cs, hcs⟩
    rw [(List.cons.inj hcs).1] at hc
    exact absurd hc (by decide)
  refine ⟨?_, hcomment, hblank, hinner⟩
  simp only [Cursor.sight, hblank, commentLines_eq_none_iff.2 hcomment, hattr,
    findStart_blank hb ho, List.take_left, hb]
  simp

theorem findStart_behind {pre ws : List Char} (h : isBlank ws = true) :
    findStart (pre ++ ws) pre.length = none := by
  have hnone : ∀ column behindWord, firstUse column behindWord ws = none := by
    intro column behindWord
    induction ws generalizing column behindWord with
    | nil => rfl
    | cons c ws ih =>
      rw [isBlank, List.all_cons, Bool.and_eq_true] at h
      rw [firstUse, opensUse_eq_false_of_isSpace h.1, Bool.and_false, if_neg Bool.false_ne_true]
      exact ih h.2 _ _
  rw [findStart]
  simp only [Int.toNat_natCast, List.drop_left]
  rw [hnone]
  rfl

theorem Ends.pos {depth : Int} {first : Line} {more : List Line} (h : Ends depth first more)
    (before : List Char) : 0 < (lastRow before first more).length := by
  induction more generalizing depth before first with
  | nil =>
    have hbounds := findEnd_bounds (show (findEnd depth 0 first).1 = some first.length from h)
    rw [lastRow, List.length_append]
    omega
  | cons next more ih => exact ih h.2 []

/-- Behind a declaration that nothing follows on its line, the survey goes on below. -/
theorem surveyFrom_behind {found : Bool} {above below : List Line} {pre ws : List Char}
    (hpre : 0 < pre.length) (h : isBlank ws = true) :
    surveyFrom found pre.length ⟨above, pre ++ ws, below⟩ =
      walk found ((pre ++ ws) :: above) below := by
  refine surveyFrom_nothing ?_
  rw [Cursor.sight, if_neg (by omega), findStart_behind h]

/-- Behind a declaration that nothing, or a comment, follows, the survey goes on below. -/
theorem surveyStart_finish {found : Bool} {above below below' : List Line}
    {before first after : List Char} {more : List Line} {line : Line} (h : Ends 0 first more)
    (hrows : line :: below' = rows before first more after ++ below)
    (hafter : isBlank after = true ∨ isCommentLine after = true) :
    surveyStart found ⟨above, line, below'⟩ before.length =
      (walk (found || (declared above before first more after).isStatement)
        ((rows before first more after).reverse ++ above) below).prepend
          [.declaration above.length (declared above before first more after)] := by
  rw [surveyStart_rows h hrows]
  congr 1
  by_cases hws : isBlank after = true
  · rw [show Trailing.ofRest after = .nothing from if_pos hws]
    dsimp only
    rw [surveyFrom_behind (h.pos before) hws, rows, List.reverse_append]
    rfl
  · have htr : Trailing.ofRest after = .comment := by
      rw [Trailing.ofRest, if_neg hws, if_pos (hafter.resolve_left hws)]
    have hnot : (declared above before first more after).isStatement = false := by
      rw [Declaration.isStatement]
      split
      · rw [show (declared above before first more after).trailing = _ from htr]
        rfl
      · rfl
    rw [htr, hnot, Bool.or_false]

/-- A declaration on lines of its own is passed. -/
theorem passes_declaration {before first after : List Char} {more : List Line}
    (hb : isBlank before = true) (ho : opensUse first = true) (h : Ends 0 first more)
    (hafter : isBlank after = true ∨ isCommentLine after = true) :
    Passes stage above (rows before first more after)
      [.declaration above.length (declared above before first more after)]
      (.body (stage.found || (declared above before first more after).isStatement)) := by
  intro below
  obtain ⟨cs, below', hrows, hcs⟩ : ∃ cs below',
      rows before first more after ++ below = (before ++ cs) :: below' ∧ opensUse cs = true := by
    cases more with
    | nil =>
      refine ⟨first ++ after, below, ?_, opensUse_append ho after⟩
      rw [rows_nil, List.append_assoc]
      rfl
    | cons next more => exact ⟨first, _, by rw [rows_cons]; rfl, ho⟩
  obtain ⟨hsight, hc, hblank, hi⟩ := sight_start hb hcs stage.found above below'
  have hleave : stage.leave.walk above ((before ++ cs) :: below') =
      surveyFrom stage.found 0 ⟨above, before ++ cs, below'⟩ := by cases stage <;> rfl
  rw [hrows, walk_leave hc hblank hi, hleave, surveyFrom_eq_surveyStart hsight,
    surveyStart_finish h hrows.symm hafter]
  rfl

end Passes

end TidyUse.Document
