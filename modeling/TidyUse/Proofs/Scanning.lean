import Mathlib.Data.List.Chain
import TidyUse.Proofs.Layout

/-!
# A scan is faithful to its document

* `Quoted` : a statement is what stands in the document at its span; `exists_quoted`;
* `forall₂_statementsFrom` : statements are the declarations to organize, one by one;
* `blocks_statementsFrom` : blocks are counted without gaps;
* `Scan.Faithful` : the statements, their order, their blocks and the region are those of the
  document; `scan_faithful`.
-/

namespace TidyUse.Document

open Text

/-! ## Statements and their text -/

/-- A position on a line of the document, or at its end. -/
def Inside (text : List Char) (p : Position) : Prop :=
  ∃ (row column : Nat) (line : Line), (lines text)[row]? = some line ∧ column ≤ line.length ∧
    p = ⟨row, column⟩

theorem Cut.inside {text : List Char} {p : Position} {above : List Line} {x y : Line}
    {below : List Line} (h : Cut (lines text) p above x y below) : Inside text p := by
  obtain ⟨hlines, hp⟩ := h
  refine ⟨above.length, x.length, x ++ y, ?_, ?_, hp⟩
  · rw [hlines, List.getElem?_append_right (by simp)]
    simp
  · rw [List.length_append]
    omega

/-- A statement is what the text at a span reads, and this text is a whole declaration without
comments. -/
structure Quoted (text : List Char) (s : Statement) (span : Span) : Prop where
  span_eq : s.span = some span
  start : Inside text span.start
  stop : Inside text span.stop
  start_lt_stop : span.start < span.stop
  terminated : ∃ cs, excerpt text span = cs ++ [';']
  no_line_comment : ¬ ['/', '/'] <:+: excerpt text span
  no_block_comment : ¬ ['/', '*'] <:+: excerpt text span
  parsed : Statement.parse (excerpt text span) s.attributes (some span) s.block = .ok s

theorem not_infix_of_holdsComment {text : List Char} (h : holdsComment text = false) :
    ¬ ['/', '/'] <:+: text ∧ ¬ ['/', '*'] <:+: text := by
  induction text with
  | nil => simp
  | cons c cs ih =>
    unfold holdsComment at h
    obtain ⟨hopen, hrest⟩ := Bool.or_eq_false_iff.1 h
    obtain ⟨hline, hblock⟩ := ih hrest
    constructor
    · intro hinfix
      rcases List.infix_cons_iff.1 hinfix with ⟨tail, htail⟩ | hinfix
      · rw [← htail] at hopen
        cases hopen
      · exact hline hinfix
    · intro hinfix
      rcases List.infix_cons_iff.1 hinfix with ⟨tail, htail⟩ | hinfix
      · rw [← htail] at hopen
        cases hopen
      · exact hblock hinfix

theorem unlines_eq_append_lastRow (first : Line) (more : List Line) :
    ∃ cs, unlines (first :: more) = cs ++ lastRow [] first more := by
  induction more generalizing first with
  | nil => exact ⟨[], by simp [unlines, lastRow]⟩
  | cons next more ih =>
    obtain ⟨cs, hcs⟩ := ih next
    refine ⟨first ++ '\n' :: cs, ?_⟩
    rw [unlines_cons (List.cons_ne_nil _ _), hcs, lastRow, List.append_assoc]
    rfl

/-- The text of a declaration ends with `;`. -/
theorem Ends.terminated {depth : Int} {first : Line} {more : List Line}
    (h : Ends depth first more) :
    ∃ cs, unlines (first :: more) = cs ++ [';'] := by
  obtain ⟨cs, hcs⟩ := unlines_eq_append_lastRow first more
  obtain ⟨x, hx⟩ := h.last []
  exact ⟨cs ++ x, by rw [hcs, hx, List.append_assoc]⟩

namespace Layout

variable {text : List Char} {ss : List Sighting} (h : Layout (lines text) ss)

include h

theorem quoted {above : List Line} {before first : List Char} {more : List Line}
    {after : List Char} (hs : .declaration above before first more after ∈ ss) {k : Nat}
    {s : Statement} (hk : (declared above before first more after).statement? k = some s) :
    Quoted text s (declared above before first more after).span := by
  obtain ⟨-, hread, hattr, hspan, hblock⟩ := Declaration.statement?_eq_some hk
  have hends := h.ends hs
  have hlies := h.lies hs
  obtain ⟨below, hstop⟩ := hlies.cut_stop
  obtain ⟨below', hlines⟩ := hlies
  have hexcerpt : excerpt text (placed above before (first :: more)) = unlines (first :: more) := by
    apply excerpt_placed (List.cons_ne_nil _ _)
    rw [hlines, fringe_cons]
    rfl
  obtain ⟨hcomment, hrun⟩ := ofText_eq_parsed hread
  obtain ⟨hline, hblk⟩ := not_infix_of_holdsComment hcomment
  obtain ⟨y, tail, hy⟩ := exists_rows_eq_cons before first more after
  have hstart : Cut (lines text) ⟨above.length, before.length⟩ above before y (tail ++ below') := by
    refine ⟨?_, rfl⟩
    rw [hlines, Sighting.lines, hy]
    rfl
  have hparsed : Statement.parse (unlines (first :: more)) s.attributes
      (some (placed above before (first :: more))) s.block = .ok s := by
    obtain ⟨tree, visibility, attributes, span, block⟩ := s
    obtain rfl : span = some (placed above before (first :: more)) := hspan
    unfold Statement.parse
    simp only [Option.map_some, Option.getD_some, start_placed, hrun]
    rfl
  rw [← hexcerpt] at hline hblk hparsed
  have hend := hends.terminated
  rw [← hexcerpt] at hend
  exact ⟨hspan, hstart.inside, hstop.inside, h.start_lt_stop hs rfl, hend, hline, hblk, hparsed⟩

theorem footprint_le {d : Declaration} (hd : d ∈ (survey (lines text)).organized) :
    d.footprint ≤ d.span.start := by
  rw [h.organized_eq] at hd
  obtain ⟨s, -, hs⟩ := List.mem_filterMap.1 hd
  obtain ⟨above, before, first, more, after, rfl, rfl⟩ := Sighting.exists_of_organized hs
  exact footprint_le_start above before first more after

/-- The declarations to organize come in the order of the document. -/
theorem pairwise_organized :
    (survey (lines text)).organized.Pairwise fun d e => d.span.stop ≤ e.span.start := by
  obtain ⟨st, hrun⟩ := h.run
  rw [h.organized_eq]
  refine hrun.pairwise.filterMap _ fun s t hst d hd e he => ?_
  obtain ⟨above, before, first, more, after, rfl, rfl⟩ := Sighting.exists_of_organized hd
  obtain ⟨above', before', first', more', after', rfl, rfl⟩ := Sighting.exists_of_organized he
  exact hst

end Layout

/-! ## Statements and declarations -/

/-- Statements are the declarations to organize, one by one. -/
theorem forall₂_statementsFrom (block : Nat) (hasMembers : Bool) (items : List Item) :
    List.Forall₂ (fun s d => ∃ k : Nat, d.statement? k = some s)
      (statementsFrom block hasMembers items) (items.filterMap Item.organized?) := by
  induction items generalizing block hasMembers with
  | nil => exact .nil
  | cons item items ih =>
    unfold statementsFrom
    cases horg : item.organized? with
    | none =>
      rw [List.filterMap_cons_none horg]
      exact ih _ _
    | some d =>
      have hstatement : d.isStatement = true := by
        cases item with
        | comment span => cases horg
        | declaration row d' =>
          rw [Item.organized?] at horg
          split at horg
          · cases horg
            assumption
          · cases horg
      obtain ⟨s, hs⟩ := d.exists_statement? hstatement block
      rw [List.filterMap_cons_some horg, Option.bind_some, hs]
      exact .cons ⟨block, hs⟩ (ih _ _)

theorem map_span_statementsFrom (block : Nat) (hasMembers : Bool) (items : List Item) :
    (statementsFrom block hasMembers items).map Statement.span =
      (items.filterMap Item.organized?).map fun d => some d.span := by
  have hall := forall₂_statementsFrom block hasMembers items
  generalize statementsFrom block hasMembers items = ss, items.filterMap Item.organized? = ds at hall
  induction hall with
  | nil => rfl
  | cons hk _ ih =>
    obtain ⟨k, hk⟩ := hk
    obtain ⟨-, -, -, hspan, -⟩ := Declaration.statement?_eq_some hk
    rw [List.map_cons, List.map_cons, hspan, ih]

theorem map_span_statements (s : Survey) :
    s.statements.map Statement.span = s.organized.map fun d => some d.span :=
  map_span_statementsFrom 0 false s.items

/-- Blocks are counted one by one. The first statement belongs to the block at hand, or opens the
next one if this has members. -/
theorem blocks_statementsFrom (block : Nat) (hasMembers : Bool) (items : List Item) :
    (∀ s, (statementsFrom block hasMembers items).head? = some s →
        s.block = some (block : Int) ∨ hasMembers = true ∧ s.block = some (block + 1 : Int)) ∧
      (statementsFrom block hasMembers items).IsChain fun s t =>
        t.block = s.block ∨ ∃ k, s.block = some k ∧ t.block = some (k + 1) := by
  induction items generalizing block hasMembers with
  | nil => exact ⟨by simp [statementsFrom], .nil⟩
  | cons item items ih =>
    unfold statementsFrom
    split
    · rename_i s hs
      obtain ⟨d, -, hd⟩ := Option.bind_eq_some_iff.1 hs
      obtain ⟨-, -, -, -, hblock⟩ := Declaration.statement?_eq_some hd
      obtain ⟨hhead, hchain⟩ := ih block true
      constructor
      · intro t ht
        cases ht
        exact Or.inl hblock
      · refine hchain.cons fun t ht => ?_
        rcases hhead t ht with hsame | ⟨-, hnext⟩
        · exact Or.inl (hsame.trans hblock.symm)
        · exact Or.inr ⟨block, hblock, hnext⟩
    · obtain ⟨hhead, hchain⟩ := ih (if hasMembers then block + 1 else block) false
      refine ⟨fun s hs => ?_, hchain⟩
      rcases hhead s hs with hblock | ⟨hfalse, -⟩
      · cases hasMembers with
        | false => exact Or.inl hblock
        | true => exact Or.inr ⟨rfl, hblock⟩
      · cases hfalse

/-! ## The scan -/

theorem region_eq_none {s : Survey} : s.region = none ↔ s.organized = [] := by
  unfold Survey.region
  cases s.organized with
  | nil => simp
  | cons d ds => simp [List.getLast?_cons]

/-- A statement of a scan stands in the document. -/
theorem exists_quoted {text : List Char} {s : Statement} (hs : s ∈ (scan text).value.statements) :
    ∃ span, Quoted text s span := by
  obtain ⟨ss, h⟩ := exists_layout (lines text)
  obtain ⟨row, d, k, hd, hk⟩ := mem_statementsFrom hs
  rw [h.items] at hd
  obtain ⟨e, he, hitem⟩ := List.mem_filterMap.1 hd
  cases e with
  | passed _ _ => cases hitem
  | comment _ _ _ => cases hitem
  | declaration above before first more after =>
    cases hitem
    exact ⟨_, h.quoted he hk⟩

/-- What a scan says of its document is true there. -/
structure Scan.Faithful (text : List Char) (scanned : Scan) : Prop where
  /-- Each statement stands in the document as it is given. -/
  quoted : ∀ s ∈ scanned.statements, ∃ span, Quoted text s span
  ordered : scanned.statements.Pairwise fun s t =>
    ∀ a b, s.span = some a → t.span = some b → a.stop ≤ b.start
  /-- Blocks are counted from zero. -/
  first_block : ∀ s, scanned.statements.head? = some s → s.block = some 0
  next_block : scanned.statements.IsChain fun s t =>
    t.block = s.block ∨ ∃ k, s.block = some k ∧ t.block = some (k + 1)
  region_none : scanned.region = none ↔ scanned.statements = []
  /-- The region reaches from the first statement, or from above it, to the end of the last one. -/
  region_some : ∀ region, scanned.region = some region → ∃ first last a b,
    scanned.statements.head? = some first ∧ first.span = some a ∧
      scanned.statements.getLast? = some last ∧ last.span = some b ∧
        region.start ≤ a.start ∧ region.stop = b.stop

/-- Every scan is faithful to its document. -/
theorem scan_faithful (text : List Char) : (scan text).value.Faithful text := by
  obtain ⟨ss, h⟩ := exists_layout (lines text)
  have hspans := map_span_statements (survey (lines text))
  obtain ⟨hfirst, hchain⟩ := blocks_statementsFrom 0 false (survey (lines text)).items
  refine ⟨fun s hs => exists_quoted hs, ?_, ?_, hchain, ?_, ?_⟩
  · have hpair : ((scan text).value.statements.map Statement.span).Pairwise fun o o' =>
        ∀ a b, o = some a → o' = some b → a.stop ≤ b.start := by
      change ((survey (lines text)).statements.map Statement.span).Pairwise _
      rw [hspans, List.pairwise_map]
      refine h.pairwise_organized.imp fun hde a b ha hb => ?_
      cases ha
      cases hb
      exact hde
    exact List.pairwise_map.1 hpair
  · intro s hs
    rcases hfirst s hs with hblock | ⟨hfalse, -⟩
    · exact hblock
    · cases hfalse
  · change (survey (lines text)).region = none ↔ (survey (lines text)).statements = []
    rw [region_eq_none, ← List.map_eq_nil_iff (f := Statement.span), hspans, List.map_eq_nil_iff]
  · intro region hregion
    obtain ⟨d, e, hd, he, rfl⟩ := region_eq_some hregion
    have hhead := congrArg List.head? hspans
    have hlast := congrArg List.getLast? hspans
    rw [List.head?_map, List.head?_map, hd, Option.map_some, Option.map_eq_some_iff] at hhead
    rw [List.getLast?_map, List.getLast?_map, he, Option.map_some, Option.map_eq_some_iff] at hlast
    obtain ⟨first, hfirst, ha⟩ := hhead
    obtain ⟨last, hlast, hb⟩ := hlast
    exact ⟨first, last, d.span, e.span, hfirst, ha, hlast, hb,
      h.footprint_le (List.mem_of_head? hd), rfl⟩

end TidyUse.Document
