import TidyUse.Proofs.Around
import TidyUse.Proofs.Scanning
import TidyUse.Proofs.Stacked

/-!
# Documents that are organized already

* `Fit.map_sections` : what is found in sections below each other is printed as these sections;
* `Arranged` : a document with sections below each other, and code around them;
* `Arranged.organize_eq` : such a document stays as it is.
-/

namespace TidyUse.Document

open Text Statement

/-! ## Numbered parts -/

section Numbered

variable {α β κ : Type} [BEq κ] [LawfulBEq κ] {key : β → κ} {tag : Nat → κ}
  (htag : Function.Injective tag) {g : α × Nat → List β}

include htag

/-- One part of a list, by its number. -/
theorem filter_flatMap_zipIdx {xs : List α} {n : Nat}
    (h : ∀ p ∈ xs.zipIdx n, ∀ y ∈ g p, key y = tag p.2) {p : α × Nat} (hp : p ∈ xs.zipIdx n) :
    ((xs.zipIdx n).flatMap g).filter (fun y => key y == tag p.2) = g p := by
  induction xs generalizing n with
  | nil => cases hp
  | cons x xs ih =>
    rw [List.zipIdx_cons] at h hp ⊢
    rw [List.flatMap_cons, List.filter_append]
    have hrest : ∀ q ∈ xs.zipIdx (n + 1), ∀ y ∈ g q, key y = tag q.2 :=
      fun q hq => h q (List.mem_cons_of_mem _ hq)
    have hnumber : ∀ q ∈ xs.zipIdx (n + 1), n < q.2 := fun q hq => (List.mem_zipIdx hq).1
    rcases List.mem_cons.1 hp with rfl | hp
    · have hown : (g (x, n)).filter (fun y => key y == tag n) = g (x, n) :=
        List.filter_eq_self.2 fun y hy => beq_iff_eq.2 (h _ List.mem_cons_self y hy)
      have hother : ((xs.zipIdx (n + 1)).flatMap g).filter (fun y => key y == tag n) = [] := by
        rw [List.filter_eq_nil_iff]
        intro y hy hkey
        obtain ⟨q, hq, hy⟩ := List.mem_flatMap.1 hy
        have heq := htag ((hrest q hq y hy).symm.trans (beq_iff_eq.1 hkey))
        exact absurd (hnumber q hq) (by omega)
      rw [hown, hother, List.append_nil]
    · have hfirst : (g (x, n)).filter (fun y => key y == tag p.2) = [] := by
        rw [List.filter_eq_nil_iff]
        intro y hy hkey
        have heq := htag ((h _ List.mem_cons_self y hy).symm.trans (beq_iff_eq.1 hkey))
        exact absurd (hnumber p hp) (by simp only at heq; omega)
      rw [hfirst, List.nil_append]
      exact ih hrest hp

/-- The numbers of the parts of a list. -/
theorem distinct_flatMap_zipIdx {xs : List α} {n : Nat}
    (h : ∀ p ∈ xs.zipIdx n, g p ≠ [] ∧ ∀ y ∈ g p, key y = tag p.2) :
    distinct (((xs.zipIdx n).flatMap g).map key) = (xs.zipIdx n).map fun p => tag p.2 := by
  induction xs generalizing n with
  | nil => rfl
  | cons x xs ih =>
    rw [List.zipIdx_cons] at h ⊢
    have hrest : ∀ q ∈ xs.zipIdx (n + 1), g q ≠ [] ∧ ∀ y ∈ g q, key y = tag q.2 :=
      fun q hq => h q (List.mem_cons_of_mem _ hq)
    obtain ⟨hne, hown⟩ := h _ List.mem_cons_self
    obtain ⟨y, ys, hy⟩ := List.exists_cons_of_ne_nil hne
    rw [List.flatMap_cons, List.map_append, hy, List.map_cons, List.map_cons, distinct,
      List.cons_append, List.eraseDups_cons, hown y (by rw [hy]; exact List.mem_cons_self),
      List.filter_append]
    have hnil : (ys.map key).filter (fun b => !(b == tag n)) = [] := by
      rw [List.filter_eq_nil_iff]
      intro b hb
      obtain ⟨z, hz, rfl⟩ := List.mem_map.1 hb
      rw [hown z (by rw [hy]; exact List.mem_cons_of_mem _ hz)]
      simp
    have hall : (((xs.zipIdx (n + 1)).flatMap g).map key).filter (fun b => !(b == tag n)) =
        ((xs.zipIdx (n + 1)).flatMap g).map key := by
      rw [List.filter_eq_self]
      intro b hb
      obtain ⟨z, hz, rfl⟩ := List.mem_map.1 hb
      obtain ⟨q, hq, hz⟩ := List.mem_flatMap.1 hz
      rw [(hrest q hq).2 z hz, Bool.not_eq_true', beq_eq_false_iff_ne]
      intro heq
      have hlt := (List.mem_zipIdx hq).1
      exact absurd (htag heq) (by omega)
    rw [hnil, hall, List.nil_append]
    exact congrArg _ (ih hrest)

end Numbered

/-! ## The declarations that are found -/

/-- The declarations of a section, as members of a block. -/
def Found.statements (f : Found) (block : Nat) : List Statement :=
  statementsFrom block false (itemsOf f.ds)

theorem statementsFrom_skip {items : List Item} (h : items.filterMap Item.organized? = [])
    (rest : List Item) (block : Nat) :
    statementsFrom block false (items ++ rest) = statementsFrom block false rest := by
  induction items with
  | nil => rfl
  | cons item items ih =>
    rw [List.filterMap_eq_nil_iff] at h
    have hitem := h item List.mem_cons_self
    rw [List.cons_append, statementsFrom, hitem]
    exact ih (List.filterMap_eq_nil_iff.2 fun i hi => h i (List.mem_cons_of_mem _ hi))

/-- What is kept closes a block. -/
theorem statementsFrom_next {items : List Item} (h : items.filterMap Item.organized? = [])
    (hne : items ≠ []) (rest : List Item) (block : Nat) :
    statementsFrom block true (items ++ rest) = statementsFrom (block + 1) false rest := by
  obtain ⟨item, items, rfl⟩ := List.exists_cons_of_ne_nil hne
  rw [List.filterMap_eq_nil_iff] at h
  have hitem := h item List.mem_cons_self
  rw [List.cons_append, statementsFrom, hitem]
  exact statementsFrom_skip
    (List.filterMap_eq_nil_iff.2 fun i hi => h i (List.mem_cons_of_mem _ hi)) rest (block + 1)

theorem statementsFrom_nothing {items : List Item} (h : items.filterMap Item.organized? = [])
    (block : Nat) (hasMembers : Bool) : statementsFrom block hasMembers items = [] := by
  have hall := forall₂_statementsFrom block hasMembers items
  rw [h] at hall
  exact List.forall₂_nil_right_iff.1 hall

theorem statementsFrom_itemsOf_append {ds : List (Nat × Declaration)} {ss : List Statement}
    (h : List.Forall₂ (fun d s => Shows d.2 s) ds ss) (rest : List Item) (block : Nat)
    (hasMembers : Bool) :
    statementsFrom block hasMembers (itemsOf ds ++ rest) =
      statementsFrom block hasMembers (itemsOf ds) ++
        statementsFrom block (hasMembers || !ds.isEmpty) rest := by
  induction h generalizing hasMembers with
  | nil => rw [List.isEmpty_nil, Bool.not_true, Bool.or_false]; rfl
  | @cons d s ds ss hd _ ih =>
    obtain ⟨t, ht⟩ := d.2.exists_statement? hd.isStatement block
    have hfrom : ∀ items, statementsFrom block hasMembers (.declaration d.1 d.2 :: items) =
        t :: statementsFrom block true items := by
      intro items
      rw [statementsFrom, Item.organized?, if_pos hd.isStatement, Option.bind_some, ht]
    rw [itemsOf, List.map_cons, List.cons_append, hfrom, hfrom]
    have hrest := ih true
    rw [itemsOf, Bool.true_or] at hrest
    rw [hrest, List.isEmpty_cons, Bool.not_false, Bool.or_true]
    rfl

namespace Found.Fits

variable {deps : Option Dependencies} {all : List Line} {low high : Nat} {c : Section} {f : Found}
  (h : f.Fits deps all low high c)

include h

/-- What is kept in a section stands above its declarations. -/
theorem exists_mid : ∃ mid, low ≤ mid ∧ mid ≤ high ∧
    (∀ k ∈ f.spans, (low : Int) ≤ k.start.line ∧ k.start.line ≤ k.stop.line ∧ k.stop.line < mid) ∧
      ∀ d ∈ f.ds, (mid : Int) ≤ d.2.span.start.line ∧ d.2.span.start.line ≤ d.2.span.stop.line ∧
        d.2.span.stop.line < high := by
  obtain ⟨mid, hlow, hhigh, hkept, hds⟩ := h.rows
  refine ⟨mid, hlow, hhigh, fun k hk => ?_, fun d hd => ?_⟩
  · rw [← h.kept] at hk
    obtain ⟨i, hi, hik⟩ := exists_of_mem_keptOf hk
    exact (hkept i hi).kept k hik
  · have hbetween := hds _ (List.mem_map_of_mem hd)
    exact ⟨hbetween.start, hbetween.le, hbetween.stop⟩

theorem keptOf_items : keptOf f.items = f.spans := by
  rw [← h.kept, Found.items, keptOf, List.filterMap_append, kept?_itemsOf h.shows, List.append_nil]
  rfl

theorem organized_itemsOf : (itemsOf f.ds).filterMap Item.organized? = f.ds.map Prod.snd := by
  have hshows := h.shows
  generalize f.ds = ds, c.organized deps = ss at hshows
  induction hshows with
  | nil => rfl
  | @cons d s ds ss hd _ ih =>
    have hsome : (Item.declaration d.1 d.2).organized? = some d.2 := if_pos hd.isStatement
    rw [itemsOf, List.map_cons, List.filterMap_cons_some hsome, List.map_cons, ← itemsOf, ih]

theorem organized_items : f.items.filterMap Item.organized? = f.ds.map Prod.snd := by
  rw [Found.items, List.filterMap_append, h.organized, List.nil_append, h.organized_itemsOf]

theorem mem_statements {block : Nat} {s : Statement} (hs : s ∈ f.statements block) :
    ∃ d ∈ f.ds, s.span = some d.2.span := by
  have hmem := List.mem_map_of_mem (f := Statement.span) hs
  rw [Found.statements, map_span_statementsFrom, h.organized_itemsOf, List.map_map] at hmem
  obtain ⟨d, hd, hspan⟩ := List.mem_map.1 hmem
  exact ⟨d, hd, hspan.symm⟩

/-- The declarations that are found are those of the section, up to what is not printed. -/
theorem statements_bare (hgood : c.Good) (block : Nat) :
    (f.statements block).map bare = (c.organized deps).map bare ∧
      ∀ s ∈ f.statements block, s.block = some (block : Int) := by
  refine statementsFrom_itemsOf h.shows (fun s hs => ?_) block false
  obtain ⟨g, hg, hs⟩ := List.mem_flatMap.1 hs
  exact (Group.comesFrom_of_mem_organize (fun t ht => (hgood.printable t ht).tree) hg hs).2

theorem settled (hgood : c.Good) (block : Nat) :
    Group.Settled (Group.organize .organizer deps (f.statements block)).value := by
  have hbare := (h.statements_bare hgood block).1
  have hown : ∀ s ∈ f.statements block, ∃ t, Printable t ∧ s.bare = t.bare := by
    intro s hs
    have hs' := List.mem_map_of_mem (f := bare) hs
    rw [hbare] at hs'
    obtain ⟨t, ht, hts⟩ := List.mem_map.1 hs'
    obtain ⟨g, hg, ht⟩ := List.mem_flatMap.1 ht
    exact ⟨t, Group.printable_of_mem_organize hgood.printable hg ht, hts.symm⟩
  refine Group.settled_organize (fun s hs => ?_) fun s hs a ha => ?_
  · obtain ⟨t, ht, hst⟩ := hown s hs
    have hplain : [s].map plain = [t].map plain := by
      apply map_plain_of_bare
      rw [List.map_singleton, hst]
      rfl
    exact grammatical_of_plain (List.cons.inj hplain).1 ht.tree
  · obtain ⟨t, ht, hst⟩ := hown s hs
    have hattr : s.bare.attributes = t.bare.attributes := by rw [hst]
    change a ∈ s.bare.attributes at ha
    rw [hattr] at ha
    exact (ht.attributes a ha).line

theorem statements_ne_nil (hgood : c.Good) (block : Nat) : f.statements block ≠ [] := by
  intro hnil
  have hbare := (h.statements_bare hgood block).1
  rw [hnil, List.map_nil, eq_comm, List.map_eq_nil_iff] at hbare
  exact hgood.organized_ne_nil deps hbare

/-- What is found in a section is printed as it stands. -/
theorem lines_eq {text : List Char} (hall : all = lines text) (hgood : c.Good) (block : Nat) :
    (f.spans.flatMap fun k => lines (excerpt text k)) ++
      Group.printedGroups (Group.organize .organizer deps (f.statements block)).value =
        c.lines deps := by
  have hheaders : (f.spans.flatMap fun k => lines (excerpt text k)) = c.headers.flatten := by
    have hkeeps := h.keeps
    rw [hall] at hkeeps
    generalize f.spans = ks, c.headers = lss at hkeeps
    induction hkeeps with
    | nil => rfl
    | cons hk _ ih => rw [List.flatMap_cons, ih, hk.lines_excerpt, List.flatten_cons]
  have hgram : ∀ s ∈ c.members, s.tree.Grammatical := fun s hs => (hgood.printable s hs).tree
  have hbare := (h.statements_bare hgood block).1
  have hrender := Group.render_organize_of_plain hgram hgood.unended (map_plain_of_bare hbare)
  have hlines := congrArg (fun s => lines s.toList) hrender
  rw [Group.lines_render (h.settled hgood block), Group.lines_render (hgood.settled deps)] at hlines
  rw [hheaders, List.append_cancel_right hlines]
  rfl

end Found.Fits

/-! ## Sections below each other -/

section Fit

variable {deps : Option Dependencies} {all : List Line} {row : Nat} {cs : List Section}
  {fs : List Found} (h : Fit deps all row cs fs)

include h

theorem Fit.row_le {i : Item} (hi : i ∈ fs.flatMap Found.items) :
    ∀ k, i.kept? = some k → (row : Int) ≤ k.start.line := by
  induction h with
  | nil => cases hi
  | @cons row low high c cs f fs le fits rest ih =>
    obtain ⟨mid, hlow, hhigh, hkept, hds⟩ := fits.rows
    rw [List.flatMap_cons, Found.items, List.mem_append, List.mem_append] at hi
    intro k hk
    rcases hi with (hi | hi) | hi
    · have hle := ((hkept i hi).kept k hk).1
      omega
    · have hle := ((hds i hi).kept k hk).1
      omega
    · have hle := ih hi k hk
      omega

theorem Fit.row_le_ds {f : Found} (hf : f ∈ fs) {d : Nat × Declaration} (hd : d ∈ f.ds) :
    (row : Int) ≤ d.2.span.start.line ∧ d.2.span.start.line ≤ d.2.span.stop.line := by
  induction h with
  | nil => cases hf
  | @cons row low high c cs f' fs le fits rest ih =>
    obtain ⟨mid, hlow, hhigh, -, hds⟩ := fits.exists_mid
    rcases List.mem_cons.1 hf with rfl | hf
    · have hle := hds d hd
      omega
    · have hle := ih hf
      omega

/-- What is kept in the sections. -/
theorem Fit.keptOf_eq : keptOf (fs.flatMap Found.items) = fs.flatMap Found.spans := by
  induction h with
  | nil => rfl
  | @cons row low high c cs f fs le fits rest ih =>
    obtain ⟨mid, hlow, hhigh, hkept, hds⟩ := fits.rows
    rw [List.flatMap_cons, List.flatMap_cons, ← ih, ← fits.keptOf_items]
    refine keptOf_append high (fun i hi k hk => ?_) fun i hi => rest.row_le hi
    rcases List.mem_append.1 hi with hi | hi
    · have hbetween := (hkept i hi).kept k hk
      omega
    · have hbetween := (hds i hi).kept k hk
      omega

theorem Fit.row_le_span {k : Span} (hk : k ∈ fs.flatMap Found.spans) :
    (row : Int) ≤ k.start.line := by
  rw [← h.keptOf_eq] at hk
  obtain ⟨i, hi, hik⟩ := exists_of_mem_keptOf hk
  exact h.row_le hi k hik

theorem Fit.organized_eq :
    (fs.flatMap Found.items).filterMap Item.organized? = (fs.flatMap Found.ds).map Prod.snd := by
  induction h with
  | nil => rfl
  | cons _ fits _ ih =>
    rw [List.flatMap_cons, List.flatMap_cons, List.filterMap_append, List.map_append, ih,
      fits.organized_items]

/-- The declarations that are found in the sections below others, if something is kept above each
of them. -/
theorem Fit.statementsFrom_eq (hgood : ∀ c ∈ cs, c.Good) (hheaders : ∀ c ∈ cs, c.headers ≠ [])
    {rest : List Item} (hrest : rest.filterMap Item.organized? = []) (block : Nat) :
    statementsFrom block true (fs.flatMap Found.items ++ rest) =
      (fs.zipIdx (block + 1)).flatMap fun p => p.1.statements p.2 := by
  induction h generalizing block with
  | nil => exact statementsFrom_nothing hrest block true
  | @cons row low high c cs f fs _ fits _ ih =>
    have hkept : f.kept ≠ [] := by
      intro hnil
      have hkeeps := fits.keeps
      rw [← fits.kept, hnil] at hkeeps
      exact hheaders c List.mem_cons_self (List.forall₂_nil_left_iff.1 hkeeps)
    have hds : (!f.ds.isEmpty) = true := by
      simpa using fits.ds_ne_nil (hgood c List.mem_cons_self)
    rw [List.flatMap_cons, Found.items, List.append_assoc, List.append_assoc,
      statementsFrom_next fits.organized hkept, statementsFrom_itemsOf_append fits.shows, hds,
      Bool.or_true, List.zipIdx_cons, List.flatMap_cons,
      ih (fun d hd => hgood d (List.mem_cons_of_mem _ hd))
        (fun d hd => hheaders d (List.mem_cons_of_mem _ hd)) (block + 1)]
    rfl

/-- What is kept above a section goes with its declarations. -/
theorem Fit.find_block (hgood : ∀ c ∈ cs, c.Good) {n : Nat} {p : Found × Nat}
    (hp : p ∈ fs.zipIdx n) {k : Span} (hk : k ∈ p.1.spans) :
    (((fs.zipIdx n).flatMap fun p => p.1.statements p.2).find? fun d =>
      d.span.any fun t => decide (k.start < t.start)).map Statement.block = some (some (p.2 : Int)) := by
  induction h generalizing n with
  | nil => cases hp
  | @cons row low high c cs f fs _ fits rest ih =>
    obtain ⟨mid, hlow, hhigh, hkept, hds⟩ := fits.exists_mid
    have hown := hgood c List.mem_cons_self
    rw [List.zipIdx_cons] at hp ⊢
    rw [List.flatMap_cons, List.find?_append]
    rcases List.mem_cons.1 hp with rfl | hp
    · obtain ⟨s, ss, hss⟩ := List.exists_cons_of_ne_nil (fits.statements_ne_nil hown n)
      have hs : s ∈ f.statements n := by
        rw [hss]
        exact List.mem_cons_self
      obtain ⟨d, hd, hspan⟩ := fits.mem_statements hs
      have hlt : (s.span.any fun t => decide (k.start < t.start)) = true := by
        rw [hspan]
        refine decide_eq_true (Or.inl ?_)
        have hk' := hkept k hk
        have hd' := hds d hd
        omega
      rw [hss, List.find?_cons, hlt]
      exact congrArg some ((fits.statements_bare hown n).2 s hs)
    · have hnone : (f.statements n).find? (fun d => d.span.any fun t => decide (k.start < t.start)) =
          none := by
        rw [List.find?_eq_none]
        intro s hs
        obtain ⟨d, hd, hspan⟩ := fits.mem_statements hs
        have hmem : k ∈ fs.flatMap Found.spans :=
          List.mem_flatMap.2 ⟨p.1, List.fst_mem_of_mem_zipIdx hp, hk⟩
        have hk' := rest.row_le_span hmem
        have hd' := hds d hd
        rw [hspan]
        simp only [Option.any_some, decide_eq_true_eq, Position.lt_def]
        omega
      rw [hnone, Option.none_or]
      exact ih (fun d hd => hgood d (List.mem_cons_of_mem _ hd)) hp

theorem Fit.statements_block (hgood : ∀ c ∈ cs, c.Good) {f : Found} (hf : f ∈ fs) (n : Nat) :
    f.statements n ≠ [] ∧ ∀ s ∈ f.statements n, s.block = some (n : Int) := by
  induction h with
  | nil => cases hf
  | cons _ fits _ ih =>
    rcases List.mem_cons.1 hf with rfl | hf
    · have hown := hgood _ List.mem_cons_self
      exact ⟨fits.statements_ne_nil hown n, (fits.statements_bare hown n).2⟩
    · exact ih (fun d hd => hgood d (List.mem_cons_of_mem _ hd)) hf

/-- What is kept stands above the last declaration. -/
theorem Fit.stop_lt (hgood : ∀ c ∈ cs, c.Good) {k : Span} (hk : k ∈ fs.flatMap Found.spans)
    {d : Nat × Declaration} (hd : (fs.flatMap Found.ds).getLast? = some d) :
    k.stop.line < d.2.span.stop.line := by
  induction h with
  | nil => cases hk
  | @cons row low high c cs f fs _ fits rest ih =>
    obtain ⟨mid, hlow, hhigh, hkept, hds⟩ := fits.exists_mid
    rw [List.flatMap_cons] at hk hd
    rcases eq_or_ne (fs.flatMap Found.ds) [] with hnil | hne
    · have hspans : fs.flatMap Found.spans = [] := by
        cases rest with
        | nil => rfl
        | cons _ fits' _ =>
          have hown := fits'.ds_ne_nil (hgood _ (List.mem_cons_of_mem _ List.mem_cons_self))
          exact absurd (List.append_eq_nil_iff.1 hnil).1 hown
      rw [hspans, List.append_nil] at hk
      rw [hnil, List.append_nil] at hd
      have hk' := hkept k hk
      have hd' := hds d (List.mem_of_getLast? hd)
      omega
    · rw [List.getLast?_append_of_ne_nil _ hne] at hd
      rcases List.mem_append.1 hk with hk | hk
      · obtain ⟨f', hf', hd'⟩ := List.mem_flatMap.1 (List.mem_of_getLast? hd)
        have hk' := hkept k hk
        have hrow := rest.row_le_ds hf' hd'
        omega
      · exact ih (fun e he => hgood e (List.mem_cons_of_mem _ he)) hk hd

/-- The sections are printed as they stand. -/
theorem Fit.map_sections {text : List Char} (hall : all = lines text) (hgood : ∀ c ∈ cs, c.Good)
    (n : Nat) :
    ((fs.zipIdx n).map fun p => (p.1.spans.flatMap fun k => lines (excerpt text k)) ++
      Group.printedGroups (Group.organize .organizer deps (p.1.statements p.2)).value) =
        cs.map (Section.lines deps) := by
  induction h generalizing n with
  | nil => rfl
  | @cons row low high c cs f fs _ fits _ ih =>
    rw [List.zipIdx_cons, List.map_cons, List.map_cons,
      fits.lines_eq hall (hgood c List.mem_cons_self),
      ih (fun d hd => hgood d (List.mem_cons_of_mem _ hd))]

end Fit

/-! ## Whole documents -/

/-- A document with sections below each other. No text is kept above the first of them, some is kept
above each other one, and there is nothing else to organize. -/
structure Arranged (deps : Option Dependencies) (text : List Char) (above : List Line)
    (ws : List Char) (c : Section) (cs : List Section) (after : List Char) (below : List Line) :
    Prop where
  lines_eq : lines text = above.reverse ++ (fringe ws (sectionsLines deps (c :: cs)) after ++ below)
  good : ∀ d ∈ c :: cs, d.Good
  first : c.headers = []
  later : ∀ d ∈ cs, d.headers ≠ []
  blank : isBlank ws = true ∧ isBlank after = true
  head : ∃ items stage, Passes .preamble [] above.reverse items stage ∧
    items.filterMap Item.organized? = []
  clear : Clear above
  tail : Ended below
  follows : below.head?.all isBlank = true

/-- What a survey finds in such a document. -/
structure Arranged.Outcome (deps : Option Dependencies) (text : List Char) (above : List Line)
    (ws : List Char) (c : Section) (cs : List Section) (before behind : List Item) (f : Found)
    (fs : List Found) : Prop where
  items : (survey (lines text)).items = before ++ ((f :: fs).flatMap Found.items ++ behind)
  before_organized : before.filterMap Item.organized? = []
  behind_organized : behind.filterMap Item.organized? = []
  before_rows : ∀ i ∈ before, i.Between 0 above.length
  rows : ∀ i ∈ (f :: fs).flatMap Found.items,
    i.Between above.length (above.length + (sectionsLines deps (c :: cs)).length)
  behind_rows : ∀ i ∈ behind,
    i.Between (above.length + (sectionsLines deps (c :: cs)).length) (lines text).length
  fit : Fit deps (lines text) above.length (c :: cs) (f :: fs)
  kept : f.kept = []
  start : ∀ d ∈ f.ds.head?, d.2.footprint = ⟨above.length, ws.length⟩
  stop : ∀ d ∈ ((f :: fs).flatMap Found.ds).getLast?,
    d.2.span.stop = (placed above ws (sectionsLines deps (c :: cs))).stop

namespace Arranged

variable {deps : Option Dependencies} {text : List Char} {above : List Line} {ws : List Char}
  {c : Section} {cs : List Section} {after : List Char} {below : List Line}
  (h : Arranged deps text above ws c cs after below)

include h

theorem exists_outcome : ∃ before behind f fs,
    Outcome deps text above ws c cs before behind f fs := by
  obtain ⟨before, stage, hhead, hbefore⟩ := h.head
  obtain ⟨f, fs, hfinds⟩ := exists_findsAll h.good deps (fun _ : stage = .preamble => h.first)
    h.clear h.blank.1 h.blank.2 h.lines_eq
  set ls := fringe ws (sectionsLines deps (c :: cs)) after with hls
  refine ⟨before, ((Stage.body true).walk (ls.reverse ++ above) below).items, f, fs, ?_, hbefore,
    h.tail _, ?_, ?_, ?_, hfinds.fit, (hfinds.start h.first).1, (hfinds.start h.first).2,
    hfinds.stop⟩
  · have hwalk := hhead (ls ++ below)
    rw [List.reverse_reverse, List.append_nil, hfinds.passes below] at hwalk
    rw [survey_eq_walk, h.lines_eq, ← hls, hwalk]
    rfl
  · intro i hi
    have hbetween := hhead.between clear_nil hi
    rwa [List.length_reverse, List.length_nil, Nat.zero_add] at hbetween
  · intro i hi
    have hbetween := hfinds.passes.between h.clear hi
    rwa [length_fringe] at hbetween
  · intro i hi
    have hbetween := walk_within (.body true) hfinds.clear hi
    rw [List.length_append, List.length_reverse, length_fringe, Nat.add_comm _ above.length] at hbetween
    rwa [h.lines_eq, List.length_append, List.length_append, List.length_reverse, length_fringe,
      ← Nat.add_assoc]

end Arranged

theorem line_stop_placed (above : List Line) (ws : List Char) {ls : List Line} (h : ls ≠ []) :
    (placed above ws ls).stop.line + 1 = (above.length + ls.length : Nat) := by
  obtain ⟨first, more, rfl⟩ := List.exists_cons_of_ne_nil h
  rfl

namespace Arranged.Outcome

variable {deps : Option Dependencies} {text : List Char} {above : List Line} {ws : List Char}
  {c : Section} {cs : List Section} {before behind : List Item} {f : Found} {fs : List Found}
  (ho : Outcome deps text above ws c cs before behind f fs)

include ho

theorem organized_eq :
    (survey (lines text)).organized = ((f :: fs).flatMap Found.ds).map Prod.snd := by
  rw [Survey.organized, ho.items, List.filterMap_append, List.filterMap_append, ho.before_organized,
    ho.behind_organized, List.append_nil, List.nil_append, ho.fit.organized_eq]

theorem ds_ne_nil (hgood : c.Good) : f.ds ≠ [] := by
  cases ho.fit with
  | cons _ fits _ => exact fits.ds_ne_nil hgood

/-- Nothing is kept above the first declaration. -/
theorem row_lt_span (hgood : c.Good) {k : Span} (hk : k ∈ (f :: fs).flatMap Found.spans) :
    (above.length : Int) < k.start.line := by
  cases ho.fit with
  | cons le fits rest =>
    obtain ⟨mid, hlow, hhigh, -, hds⟩ := fits.exists_mid
    have hnil : f.spans = [] := by
      rw [← fits.kept, ho.kept]
      rfl
    rw [List.flatMap_cons, hnil, List.nil_append] at hk
    obtain ⟨d, hd⟩ := List.exists_mem_of_ne_nil _ (fits.ds_ne_nil hgood)
    have hd' := hds d hd
    have hrow := rest.row_le_span hk
    omega

/-- The region is the lines of the sections. -/
theorem region_eq (hgood : c.Good) : (survey (lines text)).region =
    some ⟨⟨above.length, ws.length⟩, (placed above ws (sectionsLines deps (c :: cs))).stop⟩ := by
  have hds := ho.ds_ne_nil hgood
  obtain ⟨first, hfirst⟩ := Option.ne_none_iff_exists'.1 (mt List.head?_eq_none_iff.1 hds)
  have hall : (f :: fs).flatMap Found.ds ≠ [] := List.append_ne_nil_of_left_ne_nil hds _
  obtain ⟨last, hlast⟩ := Option.ne_none_iff_exists'.1 (mt List.getLast?_eq_none_iff.1 hall)
  have hhead : (((f :: fs).flatMap Found.ds).map Prod.snd).head? = some first.2 := by
    rw [List.head?_map, List.flatMap_cons, List.head?_append_of_ne_nil _ hds, hfirst]
    rfl
  have hend : (((f :: fs).flatMap Found.ds).map Prod.snd).getLast? = some last.2 := by
    rw [List.getLast?_map, hlast]
    rfl
  rw [Survey.region, ho.organized_eq, hhead, hend, ← ho.start first hfirst, ← ho.stop last hlast]

theorem statements_eq (hgood : ∀ d ∈ c :: cs, d.Good) (hlater : ∀ d ∈ cs, d.headers ≠ []) :
    (survey (lines text)).statements =
      ((f :: fs).zipIdx).flatMap fun p => p.1.statements p.2 := by
  have hds : (!f.ds.isEmpty) = true := by
    simpa using ho.ds_ne_nil (hgood c List.mem_cons_self)
  have hrest : statementsFrom 0 true (fs.flatMap Found.items ++ behind) =
      (fs.zipIdx 1).flatMap fun p => p.1.statements p.2 := by
    cases ho.fit with
    | cons _ _ rest =>
      exact rest.statementsFrom_eq (fun d hd => hgood d (List.mem_cons_of_mem _ hd)) hlater
        ho.behind_organized 0
  have hshows : List.Forall₂ (fun d s => Shows d.2 s) f.ds (c.organized deps) := by
    cases ho.fit with
    | cons _ fits _ => exact fits.shows
  rw [Survey.statements, ho.items, statementsFrom_skip ho.before_organized, List.flatMap_cons,
    Found.items, ho.kept, List.nil_append, List.append_assoc, statementsFrom_itemsOf_append hshows,
    hds, Bool.or_true, hrest, List.zipIdx_cons, List.flatMap_cons]
  rfl

theorem preserved_eq : (survey (lines text)).preserved =
    keptOf before ++ ((f :: fs).flatMap Found.spans ++ keptOf behind) := by
  have hkept : (survey (lines text)).preserved =
      keptOf (before ++ ((f :: fs).flatMap Found.items ++ behind)) := by
    rw [← ho.items]
    rfl
  rw [hkept, ← ho.fit.keptOf_eq,
    ← keptOf_append (above.length + (sectionsLines deps (c :: cs)).length)]
  · refine keptOf_append above.length (fun i hi k hk => ?_) fun i hi k hk => ?_
    · have hrow := (ho.before_rows i hi).kept k hk
      omega
    · rcases List.mem_append.1 hi with hi | hi
      · exact ((ho.rows i hi).kept k hk).1
      · have hrow := (ho.behind_rows i hi).kept k hk
        omega
  · intro i hi k hk
    have hrow := (ho.rows i hi).kept k hk
    omega
  · exact fun i hi k hk => ((ho.behind_rows i hi).kept k hk).1

/-- What is kept in the region is what is kept in the sections. -/
theorem filter_preserved (hgood : ∀ d ∈ c :: cs, d.Good) :
    ((survey (lines text)).preserved.filter fun s =>
      (survey (lines text)).region.any fun r => r.contains s) = (f :: fs).flatMap Found.spans := by
  have hown := hgood c List.mem_cons_self
  have hstop := line_stop_placed above ws (hown.sectionsLines_ne_nil deps cs)
  rw [ho.preserved_eq, ho.region_eq hown]
  set r : Span := ⟨⟨above.length, ws.length⟩, (placed above ws (sectionsLines deps (c :: cs))).stop⟩
    with hr
  have hbefore : (keptOf before).filter (fun s => (some r).any fun r => r.contains s) = [] := by
    rw [List.filter_eq_nil_iff]
    intro k hk hcontains
    obtain ⟨i, hi, hik⟩ := exists_of_mem_keptOf hk
    have hrow := (ho.before_rows i hi).kept k hik
    have hstart := (contains_iff.1 hcontains).1
    rw [hr, Position.le_def] at hstart
    simp only at hstart
    omega
  have hbehind : (keptOf behind).filter (fun s => (some r).any fun r => r.contains s) = [] := by
    rw [List.filter_eq_nil_iff]
    intro k hk hcontains
    obtain ⟨i, hi, hik⟩ := exists_of_mem_keptOf hk
    have hrow := (ho.behind_rows i hi).kept k hik
    have hend := (contains_iff.1 hcontains).2
    rw [hr, Position.le_def] at hend
    simp only at hend
    omega
  have hmid : ((f :: fs).flatMap Found.spans).filter
      (fun s => (some r).any fun r => r.contains s) = (f :: fs).flatMap Found.spans := by
    rw [List.filter_eq_self]
    intro k hk
    obtain ⟨last, hlast⟩ := Option.ne_none_iff_exists'.1
      (mt List.getLast?_eq_none_iff.1 (List.append_ne_nil_of_left_ne_nil (ho.ds_ne_nil hown) _))
    have hend := ho.fit.stop_lt hgood hk hlast
    rw [ho.stop last hlast] at hend
    exact contains_iff.2 ⟨Or.inl (ho.row_lt_span hown hk), Or.inl hend⟩
  rw [List.filter_append, List.filter_append, hbefore, hmid, hbehind, List.append_nil,
    List.nil_append]

/-- The text above a section is what is kept there. -/
theorem headerSpans_eq (hgood : ∀ d ∈ c :: cs, d.Good) (hlater : ∀ d ∈ cs, d.headers ≠ [])
    {p : Found × Nat} (hp : p ∈ (f :: fs).zipIdx) :
    headerSpans (scan text).value (some (p.2 : Int)) = p.1.spans := by
  have hspans : (f :: fs).flatMap Found.spans =
      ((f :: fs).zipIdx).flatMap fun q => q.1.spans := by
    conv_lhs => rw [← List.zipIdx_map_fst 0 (f :: fs), List.flatMap_map]
  have hnext : ∀ q ∈ (f :: fs).zipIdx, ∀ k ∈ q.1.spans,
      nextBlock (scan text).value k = some (some (q.2 : Int)) := by
    intro q hq k hk
    have hblock := ho.fit.find_block hgood hq hk
    rw [← ho.statements_eq hgood hlater] at hblock
    exact hblock
  have htag : Function.Injective fun n : Nat => some (some (n : Int)) :=
    fun m n hmn => Int.ofNat.inj (Option.some.inj (Option.some.inj hmn))
  have hfilter := ho.filter_preserved hgood
  rw [hspans] at hfilter
  have hall : headerSpans (scan text).value (some (p.2 : Int)) =
      (((f :: fs).zipIdx).flatMap fun q => q.1.spans).filter fun s =>
        nextBlock (scan text).value s == some (some (p.2 : Int)) := by
    rw [← hfilter]
    rfl
  rw [hall]
  exact filter_flatMap_zipIdx htag hnext hp

/-- The members of a block are the declarations of a section. -/
theorem members_eq (hgood : ∀ d ∈ c :: cs, d.Good) (hlater : ∀ d ∈ cs, d.headers ≠ [])
    {p : Found × Nat} (hp : p ∈ (f :: fs).zipIdx) :
    (scan text).value.members (some (p.2 : Int)) = p.1.statements p.2 := by
  have htag : Function.Injective fun n : Nat => some (n : Int) :=
    fun m n hmn => Int.ofNat.inj (Option.some.inj hmn)
  have hstatements : (scan text).value.statements = _ := ho.statements_eq hgood hlater
  rw [Scan.members, hstatements]
  exact filter_flatMap_zipIdx htag (fun q hq =>
    (ho.fit.statements_block hgood (List.fst_mem_of_mem_zipIdx hq) q.2).2) hp

/-- The organized imports are the lines of the sections. -/
theorem regionLines_eq (hgood : ∀ d ∈ c :: cs, d.Good) (hlater : ∀ d ∈ cs, d.headers ≠ []) :
    regionLines deps text (scan text).value = sectionsLines deps (c :: cs) := by
  have htag : Function.Injective fun n : Nat => some (n : Int) :=
    fun m n hmn => Int.ofNat.inj (Option.some.inj hmn)
  have hstatements : (scan text).value.statements = _ := ho.statements_eq hgood hlater
  have hblocks : distinct ((scan text).value.statements.map Statement.block) =
      ((f :: fs).zipIdx).map fun p => some (p.2 : Int) := by
    rw [hstatements]
    exact distinct_flatMap_zipIdx htag fun q hq =>
      ho.fit.statements_block hgood (List.fst_mem_of_mem_zipIdx hq) q.2
  rw [regionLines, sectionsLines, hblocks, List.map_map, ← ho.fit.map_sections rfl hgood 0]
  refine congrArg paragraphs (List.map_congr_left fun p hp => ?_)
  rw [Function.comp_apply, sectionLines, ho.headerSpans_eq hgood hlater hp,
    ho.members_eq hgood hlater hp]

end Arranged.Outcome

namespace Arranged

variable {deps : Option Dependencies} {text : List Char} {above : List Line} {ws : List Char}
  {c : Section} {cs : List Section} {after : List Char} {below : List Line}
  (h : Arranged deps text above ws c cs after below)

include h

/-- Nothing stands on the line below the imports. -/
theorem trailingBlank_eq {before behind : List Item} {f : Found} {fs : List Found}
    (ho : Outcome deps text above ws c cs before behind f fs) :
    (scan text).value.trailingBlank = true := by
  have hown := h.good c List.mem_cons_self
  obtain ⟨last, hlast⟩ := Option.ne_none_iff_exists'.1 (mt List.getLast?_eq_none_iff.1
    (List.append_ne_nil_of_left_ne_nil (ho.ds_ne_nil hown) (fs.flatMap Found.ds)))
  have hend : (survey (lines text)).organized.getLast? = some last.2 := by
    rw [ho.organized_eq, List.getLast?_map, List.flatMap_cons, hlast]
    rfl
  have hrow : last.2.span.stop.line.toNat + 1 =
      above.length + (sectionsLines deps (c :: cs)).length := by
    have hne := hown.sectionsLines_ne_nil deps cs
    have hline := line_stop_placed above ws hne
    have hlen := List.length_pos_of_ne_nil hne
    rw [← ho.stop last hlast] at hline
    omega
  have hget : (lines text)[last.2.span.stop.line.toNat + 1]? = below.head? := by
    rw [h.lines_eq, hrow, ← List.append_assoc, List.getElem?_append_right (by simp [length_fringe]),
      List.length_append, List.length_reverse, length_fringe, Nat.sub_self, List.head?_eq_getElem?]
  show (survey (lines text)).trailingBlank (lines text) = true
  rw [Survey.trailingBlank, hend]
  simp only [hget, h.follows, Bool.or_true]

/-- A document that is organized already stays as it is. -/
theorem organize_eq (formatter : Formatter) :
    (organize formatter { deps } none none text).run.value = .ok text := by
  obtain ⟨before, behind, f, fs, ho⟩ := h.exists_outcome
  have hown := h.good c List.mem_cons_self
  have hregion : (scan text).value.region = _ := ho.region_eq hown
  have hlines := ho.regionLines_eq h.good h.later
  have hstatements : (scan text).value.statements ≠ [] := by
    have heq : (scan text).value.statements = _ := ho.statements_eq h.good h.later
    rw [heq, List.zipIdx_cons, List.flatMap_cons]
    exact List.append_ne_nil_of_left_ne_nil
      (ho.fit.statements_block h.good List.mem_cons_self 0).1 _
  obtain ⟨z, hz⟩ := regionLines_ends deps text (sound_scan text) hstatements
  have hnewline : ∀ l ∈ sectionsLines deps (c :: cs), '\n' ∉ l := by
    intro l hl
    rw [← hlines] at hl
    exact newline_not_mem_regionLines deps text (sound_scan text) hl
  rw [hlines] at hz
  obtain ⟨first, more, hcons⟩ := List.exists_cons_of_ne_nil (hown.sectionsLines_ne_nil deps cs)
  have htext := h.lines_eq
  rw [hcons, fringe_cons] at htext
  obtain ⟨y, tail, hy⟩ := exists_rows_eq_cons ws first more after
  have hstart : lines text = above.reverse ++ (ws ++ y) :: (tail ++ below) := by
    rw [htext, hy, List.cons_append]
  have hstop : lines text = ((leadRows ws first more).reverse ++ above).reverse ++
      (lastRow ws first more ++ after) :: below := by
    rw [htext, rows]
    simp
  have hplace : (placed above ws (sectionsLines deps (c :: cs))).stop =
      ⟨((leadRows ws first more).reverse ++ above).length, (lastRow ws first more).length⟩ := by
    rw [hcons, placed, List.length_append, List.length_reverse, length_leadRows, Nat.add_comm]
  have hout := lines_replaceRegion hstart hstop hnewline hz (by decide) true
  have hhead : headOf above ws = (above.reverse, ws) := if_pos h.blank.1
  have htail : tailOf true after below = (after, below) := if_pos h.blank.2
  rw [hhead, htail, ← hplace] at hout
  rw [value_organize deps formatter hregion, hlines, h.trailingBlank_eq ho, ← unlines_lines
    (replaceRegion _ _ _ _), hout, ← h.lines_eq, unlines_lines]

end Arranged

end TidyUse.Document
