import TidyUse.Proofs.Consuming
import TidyUse.Proofs.Places
import TidyUse.Proofs.Scanning

/-!
# Places of targets

* `UseTree.leaves` : the leaves of a tree; `UseTree.markers` : the words for its targets that are no
  names of a path;
* `UseTree.forall₂_targetsBelow` : the names and the places of a target, step by step;
* `UseTree.map_leafSpan_targetsBelow` : targets come in the order of the leaves;
* `Document.Quoted.steps` : the steps of a quoted statement stand in the document;
* `Document.spans_of_scan` : the places of the targets of a document.
-/

namespace TidyUse

namespace UseTree

/-! ## Leaves and targets -/

mutual

/-- The leaves of a tree, from left to right. -/
def leaves : UseTree → List UseTree
  | glob s => [glob s]
  | node s [] => [node s []]
  | node _ (c :: cs) => leavesAll (c :: cs)

def leavesAll : List UseTree → List UseTree
  | [] => []
  | t :: ts => leaves t ++ leavesAll ts

end

theorem leavesAll_eq_flatMap (ts : List UseTree) : leavesAll ts = ts.flatMap leaves := by
  induction ts with
  | nil => simp [leavesAll]
  | cons t ts ih => simp [leavesAll, ih]

theorem leaves_node_cons (s : Segment) (c : UseTree) (cs : List UseTree) :
    leaves (node s (c :: cs)) = (c :: cs).flatMap leaves := by
  rw [leaves, leavesAll_eq_flatMap]

theorem steps_node (s : Segment) (cs : List UseTree) :
    steps (node s cs) = s :: cs.flatMap steps := by
  rw [steps, stepsAll_eq_flatMap]

theorem segment_mem_steps (t : UseTree) : t.segment ∈ t.steps := by
  cases t with
  | glob s => simp [steps, segment]
  | node s cs => simp [steps, segment]

/-- The word of a leaf below another name, if it adds no name to the path. -/
def marker? (t : UseTree) : Option String :=
  if t.isGlob then some globName else if t.isSelf then some selfName else none

/-- For each target of a tree, the word behind the names of its path, if there is one. -/
def markers (t : UseTree) : List (Option String) :=
  if t.isLeaf then [none] else t.leaves.map marker?

theorem targets_of_not_isLeaf {t : UseTree} (h : t.isLeaf = false) :
    t.targets = t.targetsBelow [] [] := by
  rw [targets, h, if_neg Bool.false_ne_true]
  cases t with
  | glob s => cases h
  | node s cs =>
    cases cs with
    | nil => cases h
    | cons c cs => rw [targetsBelow]; rfl

theorem forall₂_flatMap {α β γ : Type} {R : β → γ → Prop} {f : α → List β} {g : α → List γ}
    {l : List α} (h : ∀ a ∈ l, List.Forall₂ R (f a) (g a)) :
    List.Forall₂ R (l.flatMap f) (l.flatMap g) := by
  induction l with
  | nil => exact .nil
  | cons a l ih =>
    rw [List.forall_mem_cons] at h
    exact List.rel_append h.1 (ih h.2)

theorem sublist_flatMap {α β : Type} {f g : α → List β} {l : List α}
    (h : ∀ a ∈ l, (f a).Sublist (g a)) : (l.flatMap f).Sublist (l.flatMap g) := by
  induction l with
  | nil => exact .slnil
  | cons a l ih =>
    rw [List.forall_mem_cons] at h
    exact h.1.append (ih h.2)

/-- What is true of the name and the place of each step is true of each target, name by name. -/
theorem forall₂_targetsBelow {P : String → Option Span → Prop} {t : UseTree}
    (ht : t.GrammaticalBelow) (hsteps : ∀ s ∈ t.steps, P s.name s.span) {path : List String}
    {spans : List (Option Span)} (hpath : List.Forall₂ P path spans) :
    List.Forall₂ (fun e f => List.Forall₂ P (f.path ++ e.marker?.toList) f.spans)
      t.leaves (t.targetsBelow path spans) := by
  -- The names above a subtree, with their places, are what the induction carries along.
  induction t generalizing path spans with
  | glob s =>
    obtain ⟨hname, -⟩ := ht
    have hs : P globName s.span := hname ▸ hsteps s (by simp [steps])
    rw [leaves, targetsBelow]
    exact .cons (List.rel_append hpath (.cons hs .nil)) .nil
  | node s cs ih =>
    rw [steps_node, List.forall_mem_cons] at hsteps
    have hlonger : List.Forall₂ P (path ++ [s.name]) (spans ++ [s.span]) :=
      List.rel_append hpath (.cons hsteps.1 .nil)
    cases ht with
    | leaf name rename =>
      rw [leaves, targetsBelow]
      refine .cons ?_ .nil
      by_cases hself : s.name = selfName
      · simpa [marker?, isGlob, isSelf, hself] using hself ▸ hlonger
      · simpa [marker?, isGlob, isSelf, hself] using hlonger
    | branch name rename some below =>
      obtain ⟨c, cs, rfl⟩ := List.exists_cons_of_ne_nil some
      rw [leaves_node_cons, targetsBelow_node_cons]
      refine forall₂_flatMap fun a ha => ih a ha (below a ha) (fun u hu => ?_) hlonger
      exact hsteps.2 u (List.mem_flatMap.2 ⟨a, ha, hu⟩)

theorem map_leafSpan_targetsBelow (path : List String) (spans : List (Option Span))
    (t : UseTree) :
    (t.targetsBelow path spans).map Target.leafSpan = t.leaves.map fun e => e.segment.span := by
  induction t generalizing path spans with
  | glob s => simp [targetsBelow, leaves, Target.leafSpan, segment]
  | node s cs ih =>
    cases cs with
    | nil => simp [targetsBelow, leaves, Target.leafSpan, segment]
    | cons c cs =>
      rw [targetsBelow_node_cons, leaves_node_cons, List.map_flatMap, List.map_flatMap]
      exact List.flatMap_congr fun a ha => ih a ha _ _

theorem sublist_steps (t : UseTree) : (t.leaves.map segment).Sublist t.steps := by
  induction t with
  | glob s => simp [leaves, steps, segment]
  | node s cs ih =>
    rw [steps_node]
    cases cs with
    | nil => simp [leaves, segment]
    | cons c cs =>
      rw [leaves_node_cons, List.map_flatMap]
      exact .cons _ (sublist_flatMap ih)

end UseTree

theorem Statement.parse_eq_ok {text : List Char} {attributes : List String} {span : Span}
    {block : Option Int} {s : Statement}
    (h : Statement.parse text attributes (some span) block = .ok s) :
    ((Parser.declaration span.start).runOn (Token.tokenize text)).1 =
      .ok (s.visibility, s.tree) := by
  unfold Statement.parse at h
  simp only [Option.map_some, Option.getD_some] at h
  cases hrun : ((Parser.declaration span.start).runOn (Token.tokenize text)).1 with
  | error e =>
    rw [hrun] at h
    cases h
  | ok d =>
    rw [hrun] at h
    cases h
    rfl

/-! ## Words of a document -/

namespace Document

open Text

/-- A word stands at a place in a document, within a range. -/
def Spells (text : List Char) (range : Span) (word : String) (place : Option Span) : Prop :=
  ∃ span, place = some span ∧ excerpt text span = word.toList ∧ range.contains span = true

/-- The first place ends before the second starts. -/
def Apart (o o' : Option Span) : Prop := ∃ a b, o = some a ∧ o' = some b ∧ a.stop ≤ b.start

theorem Inside.exists_append {text : List Char} {p : Position} (h : Inside text p) :
    ∃ before behind, text = before ++ behind ∧ p = positionOf before := by
  obtain ⟨row, column, line, hline, hcolumn, rfl⟩ := h
  obtain ⟨hrow, hget⟩ := List.getElem?_eq_some_iff.1 hline
  have hlines : lines text = (lines text).take row ++ line :: (lines text).drop (row + 1) := by
    rw [← hget, ← List.drop_eq_getElem_cons hrow, List.take_append_drop]
  have hmem : line ∈ lines text := List.mem_of_getElem? hline
  refine ⟨unlines ((lines text).take row ++ [line.take column]),
    unlines (line.drop column :: (lines text).drop (row + 1)), ?_, ?_⟩
  · rw [← unlines_split, List.take_append_drop, ← hlines, unlines_lines]
  · rw [positionOf_unlines (fun l hl => newline_not_mem (List.mem_of_mem_take hl))
      fun hn => newline_not_mem hmem (List.mem_of_mem_take hn), List.length_take, List.length_take,
      Nat.min_eq_left hrow.le, Nat.min_eq_left hcolumn]

/-- The text of a quoted statement in the document. -/
theorem Quoted.exists_append {text : List Char} {s : Statement} {span : Span}
    (h : Quoted text s span) : ∃ before behind, text = before ++ excerpt text span ++ behind ∧
      span = ⟨positionOf before, positionOf (before ++ excerpt text span)⟩ := by
  obtain ⟨p, q, hp, hstart⟩ := h.start.exists_append
  obtain ⟨p', q', hp', hstop⟩ := h.stop.exists_append
  have hlt := h.start_lt_stop
  rw [hstart, hstop] at hlt
  obtain ⟨w, rfl⟩ := prefix_of_positionOf_lt ⟨q, hp.symm⟩ ⟨q', hp'.symm⟩ hlt
  have hspan : span = ⟨positionOf p, positionOf (p ++ w)⟩ := by rw [← hstart, ← hstop]
  have hw : excerpt text span = w := by
    rw [hspan, hp']
    exact excerpt_positionOf p w q'
  rw [hw]
  exact ⟨p, q', hp', hspan⟩

/-- A token of some words of a document, at its place there. -/
theorem spells_of_mem_tokenize (p q : List Char) {w : List Char} {t : Token}
    (ht : t ∈ Token.tokenize w) :
    Spells (p ++ w ++ q) ⟨positionOf p, positionOf (p ++ w)⟩ t.text
      (some (Parser.spanOf (positionOf p) t)) := by
  have hword := (Token.genuine_tokenize w t ht).newline_not_mem
  obtain ⟨pre, post, rfl, hplace, hstop⟩ := Token.cuts_tokenize ht
  rw [Parser.spanOf_eq hplace hstop hword]
  refine ⟨_, rfl, ?_, ?_⟩
  · have htext : p ++ (pre ++ t.text.toList ++ post) ++ q =
        (p ++ pre) ++ t.text.toList ++ (post ++ q) := by
      simp only [List.append_assoc]
    rw [htext]
    exact excerpt_positionOf _ _ _
  · have hstart := positionOf_le p pre
    have hend := positionOf_le (p ++ pre ++ t.text.toList) post
    simp only [List.append_assoc] at hend ⊢
    simp [Span.contains, hstart, hend]

theorem Quoted.grammatical {text : List Char} {s : Statement} {span : Span}
    (h : Quoted text s span) : s.tree.Grammatical :=
  (Parser.ensures_declaration span.start _ (Token.genuine_tokenize _)).2 _
    (Statement.parse_eq_ok h.parsed)

/-- The steps of a quoted statement stand in the document, one behind the other. -/
theorem Quoted.steps {text : List Char} {s : Statement} {span : Span} (h : Quoted text s span) :
    (∀ u ∈ s.tree.steps, Spells text span u.name u.span) ∧
      s.tree.steps.Pairwise fun u v => Apart u.span v.span := by
  obtain ⟨p, q, htext, hspan⟩ := h.exists_append
  have hgen := Token.genuine_tokenize (excerpt text span)
  have hbase : span.start = positionOf p := by rw [hspan]
  have hsub := Parser.sublist_of_declaration span.start hgen (Statement.parse_eq_ok h.parsed)
  constructor
  · intro u hu
    obtain ⟨t, ht, hlabel⟩ := List.mem_map.1 (hsub.subset (List.mem_map_of_mem hu))
    obtain ⟨hname, hplace⟩ := Prod.ext_iff.1 hlabel
    have hspells := spells_of_mem_tokenize p q ht
    rw [← htext, ← hspan, ← hbase] at hspells
    change t.text = u.name at hname
    change some _ = u.span at hplace
    rwa [← hname, ← hplace]
  · have htokens : ((Token.tokenize (excerpt text span)).map (Token.label span.start)).Pairwise
        fun l l' => Apart l.2 l'.2 := by
      rw [List.pairwise_map]
      exact (Token.pairwise_tokenize _).imp fun htu =>
        ⟨_, _, rfl, rfl, Parser.spanOf_stop_le htu span.start⟩
    have hsteps := htokens.sublist hsub
    rwa [List.pairwise_map] at hsteps

/-! ## The scan -/

/-- The targets of a scan point at the right words of the document. The names of a target's path,
and behind them its `self` or `*` if the target comes from one below another name, stand at its
places, all of them within the statement; and the words that stand for different targets of one
statement are apart. -/
theorem spans_of_scan (text : List Char) :
    ∀ s ∈ (scan text).value.statements, ∃ range, s.span = some range ∧
      List.Forall₂ (fun marker f =>
          List.Forall₂ (Spells text range) (f.path ++ marker.toList) f.spans)
        s.tree.markers s.tree.targets ∧
      s.tree.targets.Pairwise fun f g => Apart f.leafSpan g.leafSpan := by
  intro s hs
  obtain ⟨range, h⟩ := exists_quoted hs
  obtain ⟨hspells, hpairs⟩ := h.steps
  refine ⟨range, h.span_eq, ?_⟩
  cases hleaf : s.tree.isLeaf with
  | true =>
    rw [UseTree.markers, UseTree.targets, hleaf, if_pos rfl, if_pos rfl]
    refine ⟨.cons (.cons (hspells _ ?_) .nil) .nil, List.pairwise_singleton _ _⟩
    exact UseTree.segment_mem_steps s.tree
  | false =>
    rw [UseTree.markers, hleaf, if_neg Bool.false_ne_true, UseTree.targets_of_not_isLeaf hleaf]
    refine ⟨?_, ?_⟩
    · rw [List.forall₂_map_left_iff]
      exact UseTree.forall₂_targetsBelow h.grammatical.written hspells .nil
    · have hleaves := hpairs.sublist s.tree.sublist_steps
      rw [List.pairwise_map] at hleaves
      rw [← List.pairwise_map (f := Target.leafSpan) (R := Apart),
        UseTree.map_leafSpan_targetsBelow, List.pairwise_map]
      exact hleaves

/-- A declaration behind other code, over two rows. -/
def sampleNested : List Char :=
  "fn f() \x7b\x7d use a::\x7bself, b::*,\n  c as d\x7d;".toList

theorem spans_of_scan_sampleNested :
    ∃ s ∈ (scan sampleNested).value.statements, s.tree.markers = [some "self", some "*", none] ∧
      ∃ range, s.span = some range ∧
        List.Forall₂ (fun marker f =>
            List.Forall₂ (Spells sampleNested range) (f.path ++ marker.toList) f.spans)
          s.tree.markers s.tree.targets ∧
        s.tree.targets.Pairwise fun f g => Apart f.leafSpan g.leafSpan := by
  have hany : ((scan sampleNested).value.statements.any fun s =>
      s.tree.markers == [some "self", some "*", none]) = true := by decide +kernel
  obtain ⟨s, hs, hmarkers⟩ := List.any_eq_true.1 hany
  exact ⟨s, hs, beq_iff_eq.1 hmarkers, spans_of_scan sampleNested s hs⟩

end Document

end TidyUse
