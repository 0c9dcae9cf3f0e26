import TidyUse.Proofs.Lexing
import TidyUse.Statement

/-!
# Reading what is printed

* `Parser.runOn_trees` : the tokens of a tree are read as the tree;
* `UseTree.readable_iff` : the trees that can be read are exactly the grammatical ones;
* `Statement.Visible` : the visibilities that a declaration can have;
* `Statement.read_declarationText` : a printed declaration is read as itself.
-/

namespace TidyUse

open Text

namespace Parser

open UseTree Token

/-- No tree goes on with the tokens. -/
def Closes (ts : List Token) : Prop :=
  ∀ t, ts.head? = some t → t.kind ≠ .pathSep ∧ t.kind ≠ .asWord

theorem closes_cons {t : Token} (h : t.kind ≠ .pathSep) (h' : t.kind ≠ .asWord)
    (ts : List Token) : Closes (t :: ts) := by
  intro u hu
  cases hu
  exact ⟨h, h'⟩

theorem Closes.isNext {ts : List Token} (h : Closes ts) {kind : Token.Kind}
    (hk : kind = .pathSep ∨ kind = .asWord) : (ts.head?.any fun t => t.kind == kind) = false := by
  cases ts with
  | nil => rfl
  | cons t ts =>
    obtain ⟨hsep, has⟩ := h t rfl
    rcases hk with rfl | rfl
    · simpa using hsep
    · simpa using has

theorem runOn_rename {r : Option String} {rest : List Token} (h : Closes rest) :
    rename.runOn (renameTokens r ++ rest) = (.ok r, rest) := by
  cases r with
  | none =>
    rw [renameTokens, List.nil_append, rename, runOn_bind_of_ok (runOn_isNext ..),
      h.isNext (Or.inr rfl)]
    rfl
  | some name => rfl

theorem isSegment_wordKind {word : String} (h : isSegmentWord word = true) :
    (wordKind word).isSegment = true := by
  rw [wordKind]
  split
  · rfl
  · rename_i hid
    simp only [isSegmentWord, hid, Bool.false_or, Bool.or_eq_true, beq_iff_eq] at h
    rcases h with (rfl | rfl) | rfl <;> decide

theorem wordKind_eq_selfWord {word : String} (h : isSegmentWord word = true) :
    wordKind word = .selfWord ↔ word = selfName := by
  constructor
  · intro hk
    rw [wordKind] at hk
    split at hk
    · cases hk
    · exact ofWord_name hk (by decide)
  · rintro rfl
    decide +kernel

theorem runOn_segment (base : Position) {s : Segment} (h : isSegmentWord s.name = true)
    {rest : List Token} (hrest : Closes rest) :
    ∃ s', (segment base).runOn (.ofWord s.name :: (renameTokens s.rename ++ rest)) =
      (.ok s', rest) ∧ s'.bare = s.bare := by
  refine ⟨⟨s.name, s.rename, some (spanOf base (.ofWord s.name))⟩, ?_, rfl⟩
  rw [segment, runOn_bind_of_ok (runOn_advance_cons ..),
    if_pos (show (Token.ofWord s.name).kind.isSegment = true from isSegment_wordKind h),
    runOn_bind_of_ok (runOn_rename hrest)]
  rfl

/-! ## Steps of the tree reader -/

theorem runOn_startsSelfLeaf (t : Token) (ts : List Token) :
    startsSelfLeaf.runOn (t :: ts) =
      (.ok (t.kind == .selfWord && !ts.head?.any fun u => u.kind == .pathSep), t :: ts) := by
  cases ts <;> rfl

section Steps

variable (base : Position) (n : Nat) {nested : Bool} {t : Token} {ts rest : List Token}

theorem runOn_treeWithin_glob (h : t.kind = .star) :
    (treeWithin base (n + 1) true).runOn (t :: ts) =
      (.ok (.glob ⟨globName, none, some (spanOf base t)⟩), ts) := by
  simp only [treeWithin, glob, current, runOn_bind, runOn_peek, runOn_isNext, runOn_advance_cons,
    runOn_pure, List.getElem?_cons_zero, List.head?_cons, Option.isNone_some, Option.any_some, h,
    beq_self_eq_true, Bool.false_eq_true, if_true, if_false]

theorem runOn_treeWithin_self (h : t.kind = .selfWord)
    (hts : (ts.head?.any fun u => u.kind == .pathSep) = false) :
    (treeWithin base (n + 1) true).runOn (t :: ts) = (selfLeaf base).runOn (t :: ts) := by
  have hstar : (t.kind == .star) = false := by rw [h]; rfl
  have hself : (t.kind == .selfWord) = true := by rw [h]; rfl
  simp only [treeWithin, current, runOn_bind, runOn_peek, runOn_isNext, runOn_startsSelfLeaf,
    List.getElem?_cons_zero, List.head?_cons, Option.isNone_some, Option.any_some, hstar, hself, hts,
    Bool.false_eq_true, if_true, if_false, Bool.not_false, Bool.and_true]

/-- A step of a path stands here, not a glob and not a `self` that stands for the path. -/
def StartsStep (nested : Bool) (t : Token) (ts : List Token) : Prop :=
  (t.kind == .star) = false ∧
    (nested && (t.kind == .selfWord && !ts.head?.any fun u => u.kind == .pathSep)) = false

theorem startsStep_ofWord {word : String} (hword : isSegmentWord word = true)
    (h : nested = false ∨ word ≠ selfName ∨ (ts.head?.any fun u => u.kind == .pathSep) = true) :
    StartsStep nested (.ofWord word) ts := by
  have hseg : (Token.ofWord word).kind.isSegment = true := isSegment_wordKind hword
  refine ⟨?_, ?_⟩
  · rw [beq_eq_false_iff_ne]
    intro hstar
    rw [hstar] at hseg
    cases hseg
  · rcases h with hnested | hself | hsep
    · rw [hnested, Bool.false_and]
    · have hk : (Token.ofWord word).kind ≠ .selfWord :=
        fun hk => hself ((wordKind_eq_selfWord hword).1 hk)
      rw [beq_eq_false_iff_ne.2 hk, Bool.false_and, Bool.and_false]
    · rw [hsep, Bool.not_true, Bool.and_false, Bool.and_false]

variable {base n} {s : Segment}

theorem runOn_treeWithin_leaf (h : StartsStep nested t ts)
    (hs : (segment base).runOn (t :: ts) = (.ok s, rest))
    (hrest : (rest.head?.any fun u => u.kind == .pathSep) = false) :
    (treeWithin base (n + 1) nested).runOn (t :: ts) = (.ok (.node s []), rest) := by
  simp only [treeWithin, current, runOn_bind, runOn_peek, runOn_isNext, runOn_startsSelfLeaf,
    List.getElem?_cons_zero, List.head?_cons, Option.isNone_some, Option.any_some, h.1, h.2, hs, hrest,
    Bool.false_eq_true, if_false, runOn_pure]

theorem runOn_treeWithin_braces (h : StartsStep nested t ts) {sep brace close : Token}
    {cs : List UseTree} {inside : List Token}
    (hs : (segment base).runOn (t :: ts) = (.ok s, sep :: brace :: inside))
    (hsep : sep.kind = .pathSep) (hbrace : brace.kind = .openBrace) (hr : s.rename = none)
    (hcs : (treeListWithin base n).runOn inside = (.ok cs, close :: rest))
    (hclose : close.kind = .closeBrace) :
    (treeWithin base (n + 1) nested).runOn (t :: ts) = (.ok (.node s cs), rest) := by
  simp only [treeWithin, current, runOn_bind, runOn_peek, runOn_isNext, runOn_startsSelfLeaf,
    List.getElem?_cons_zero, List.head?_cons, Option.isNone_some, Option.any_some, h.1, h.2, hs, hsep,
    hbrace, hr, hcs, hclose, runOn_advance_cons, runOn_expect_cons, beq_self_eq_true,
    Bool.false_eq_true, if_true, if_false, runOn_pure]

theorem runOn_treeWithin_path (h : StartsStep nested t ts) {sep : Token} {c : UseTree}
    {below : List Token} (hs : (segment base).runOn (t :: ts) = (.ok s, sep :: below))
    (hsep : sep.kind = .pathSep)
    (hbelow : (below.head?.any fun u => u.kind == .openBrace) = false) (hr : s.rename = none)
    (hc : (treeWithin base n true).runOn below = (.ok c, rest)) :
    (treeWithin base (n + 1) nested).runOn (t :: ts) = (.ok (.node s [c]), rest) := by
  simp only [treeWithin, current, runOn_bind, runOn_peek, runOn_isNext, runOn_startsSelfLeaf,
    List.getElem?_cons_zero, List.head?_cons, Option.isNone_some, Option.any_some, h.1, h.2, hs, hsep,
    hbelow, hr, hc, runOn_advance_cons, beq_self_eq_true, Bool.false_eq_true, if_true, if_false,
    runOn_pure]

theorem runOn_treeListWithin_last {comma : Token} {c : UseTree}
    (hts : (ts.head?.any fun u => u.kind == .closeBrace) = false)
    (hc : (treeWithin base n true).runOn ts = (.ok c, comma :: rest)) (hcomma : comma.kind = .comma)
    (hrest : (rest.head?.any fun u => u.kind == .closeBrace) = true) :
    (treeListWithin base (n + 1)).runOn ts = (.ok [c], rest) := by
  simp only [treeListWithin, runOn_bind, runOn_isNext, runOn_advance_cons, runOn_pure, hts, hc,
    hcomma, hrest, List.head?_cons, Option.any_some, beq_self_eq_true, Bool.false_eq_true, if_true,
    if_false]

theorem runOn_treeListWithin_more {comma : Token} {c : UseTree} {cs : List UseTree}
    {more : List Token} (hts : (ts.head?.any fun u => u.kind == .closeBrace) = false)
    (hc : (treeWithin base n true).runOn ts = (.ok c, comma :: more)) (hcomma : comma.kind = .comma)
    (hmore : (more.head?.any fun u => u.kind == .closeBrace) = false)
    (hcs : (treeListWithin base n).runOn more = (.ok cs, rest)) :
    (treeListWithin base (n + 1)).runOn ts = (.ok (c :: cs), rest) := by
  simp only [treeListWithin, runOn_bind, runOn_isNext, runOn_advance_cons, runOn_pure, hts, hc,
    hcomma, hmore, hcs, List.head?_cons, Option.any_some, beq_self_eq_true, Bool.false_eq_true,
    if_true, if_false]

end Steps

theorem tokens_eq_cons (t : UseTree) : ∃ u ts, t.tokens = u :: ts := by
  match t with
  | .glob s => exact ⟨_, _, by rw [tokens]⟩
  | .node s [] => exact ⟨_, _, by rw [tokens]⟩
  | .node s (c :: cs) => exact ⟨_, _, by rw [tokens]⟩

/-- The first token of a tree: the step that it starts with, or a `*`. -/
theorem head_tokens {t : UseTree} (h : t.GrammaticalBelow) {u : Token} {ts : List Token}
    (hu : t.tokens = u :: ts) : u.kind = .star ∧ t.isGlob = true ∨ u.kind.isSegment = true := by
  match t with
  | .glob s =>
    rw [tokens] at hu
    cases hu
    exact Or.inl ⟨rfl, rfl⟩
  | .node s [] =>
    rw [tokens] at hu
    cases hu
    exact Or.inr (isSegment_wordKind h.name_isSegmentWord)
  | .node s (c :: cs) =>
    rw [tokens] at hu
    cases hu
    exact Or.inr (isSegment_wordKind h.name_isSegmentWord)

theorem head_tokens_ne {t : UseTree} (h : t.GrammaticalBelow) (rest : List Token)
    {kind : Token.Kind} (hk : kind = .closeBrace ∨ kind = .openBrace) :
    ((t.tokens ++ rest).head?.any fun u => u.kind == kind) = false := by
  obtain ⟨u, ts, hu⟩ := tokens_eq_cons t
  have hne : u.kind ≠ kind := by
    rcases head_tokens h hu with ⟨hstar, -⟩ | hseg
    · rw [hstar]
      rcases hk with rfl | rfl <;> decide
    · rintro rfl
      rcases hk with hk | hk <;> rw [hk] at hseg <;> cases hseg
  rw [hu]
  simpa using hne

/-- The tokens of a tree are read as the tree, if the depth suffices. -/
def ReadsTree (base : Position) (n : Nat) : Prop :=
  ∀ (t : UseTree) (nested : Bool) (rest : List Token), t.GrammaticalBelow →
    (nested = false → t.isGlob = false) → Closes rest → t.tokens.length < n →
    ∃ t', (treeWithin base n nested).runOn (t.tokens ++ rest) = (.ok t', rest) ∧ t'.bare = t.bare

/-- The same for trees between braces. -/
def ReadsList (base : Position) (n : Nat) : Prop :=
  ∀ (ts : List UseTree) (close : Token) (rest : List Token), ts ≠ [] →
    (∀ t ∈ ts, t.GrammaticalBelow) → close.kind = .closeBrace → (tokensAll ts).length < n →
    ∃ ts', (treeListWithin base n).runOn (tokensAll ts ++ close :: rest) =
      (.ok ts', close :: rest) ∧ ts'.map UseTree.bare = ts.map UseTree.bare

section Trees

variable {base : Position} {n : Nat} {s : Segment} {nested : Bool} {rest : List Token}

theorem exists_runOn_self (hname : isSegmentWord s.name = true) (hself : s.name = selfName)
    (hrest : Closes rest) :
    ∃ t', (treeWithin base (n + 1) true).runOn ((UseTree.node s []).tokens ++ rest) = (.ok t', rest) ∧
      t'.bare = (UseTree.node s []).bare := by
  have hk : (Token.ofWord s.name).kind = .selfWord := (wordKind_eq_selfWord hname).2 hself
  have hsep : ((renameTokens s.rename ++ rest).head?.any fun u => u.kind == .pathSep) = false := by
    cases s.rename with
    | none => exact hrest.isNext (Or.inl rfl)
    | some r => rfl
  rw [tokens]
  refine ⟨.node ⟨selfName, s.rename, some (spanOf base (.ofWord s.name))⟩ [],
    (runOn_treeWithin_self base n hk hsep).trans ?_, ?_⟩
  · rw [selfLeaf, runOn_bind_of_ok (runOn_advance_cons ..), runOn_bind_of_ok (runOn_rename hrest)]
    rfl
  · rw [UseTree.bare_node, UseTree.bare_node, ← hself]
    rfl

theorem exists_runOn_leaf (hname : isSegmentWord s.name = true) (hrest : Closes rest) :
    ∃ t', (treeWithin base (n + 1) nested).runOn ((UseTree.node s []).tokens ++ rest) =
        (.ok t', rest) ∧
      t'.bare = (UseTree.node s []).bare := by
  by_cases hself : nested = true ∧ s.name = selfName
  · obtain ⟨rfl, hself⟩ := hself
    exact exists_runOn_self hname hself hrest
  · obtain ⟨s', hs', hbare⟩ := runOn_segment base hname hrest
    have hstart : StartsStep nested (.ofWord s.name) (renameTokens s.rename ++ rest) := by
      refine startsStep_ofWord hname ?_
      rcases not_and_or.1 hself with hnested | hself
      · exact Or.inl (Bool.not_eq_true _ ▸ hnested)
      · exact Or.inr (Or.inl hself)
    rw [tokens]
    refine ⟨_, runOn_treeWithin_leaf hstart hs' (hrest.isNext (Or.inl rfl)), ?_⟩
    rw [UseTree.bare_node, UseTree.bare_node, hbare]

/-- A segment without a name of its own is read up to the `::`. -/
theorem exists_runOn_step (base : Position) (hname : isSegmentWord s.name = true)
    (hrename : s.rename = none) (below : List Token) :
    ∃ s', (segment base).runOn (.ofWord s.name :: .of .pathSep "::" :: below) =
        (.ok s', .of .pathSep "::" :: below) ∧
      s'.bare = s.bare ∧ s'.rename = none := by
  refine ⟨⟨s.name, none, some (spanOf base (.ofWord s.name))⟩, ?_, ?_, rfl⟩
  · rw [segment, runOn_bind_of_ok (runOn_advance_cons ..),
      if_pos (show (Token.ofWord s.name).kind.isSegment = true from isSegment_wordKind hname)]
    rfl
  · rw [Segment.bare, Segment.bare, hrename]

theorem exists_runOn_branch (htree : ReadsTree base n) (hlist : ReadsList base n)
    (hname : isSegmentWord s.name = true) (hrename : s.rename = none) {c : UseTree}
    {cs : List UseTree} (hbelow : ∀ t ∈ c :: cs, t.GrammaticalBelow) (hrest : Closes rest)
    (hn : (UseTree.node s (c :: cs)).tokens.length < n + 1) :
    ∃ t', (treeWithin base (n + 1) nested).runOn ((UseTree.node s (c :: cs)).tokens ++ rest) =
        (.ok t', rest) ∧
      t'.bare = (UseTree.node s (c :: cs)).bare := by
  have hstart : ∀ below, StartsStep nested (.ofWord s.name) (.of .pathSep "::" :: below) :=
    fun below => startsStep_ofWord hname (Or.inr (Or.inr rfl))
  rw [tokens] at hn ⊢
  cases hb : needsBraces (c :: cs) with
  | true =>
    rw [if_pos hb] at hn
    simp only [List.length_cons, List.length_append] at hn
    obtain ⟨ts', hts', hbares⟩ := hlist (c :: cs) (.of .closeBrace "\x7d") rest
      (List.cons_ne_nil _ _) hbelow rfl (by omega)
    obtain ⟨s', hs', hbare, hr⟩ := exists_runOn_step base hname hrename
      (.of .openBrace "\x7b" :: (tokensAll (c :: cs) ++ .of .closeBrace "\x7d" :: rest))
    refine ⟨.node s' ts', ?_, by rw [UseTree.bare_node, UseTree.bare_node, hbare, hbares]⟩
    rw [if_pos rfl]
    simp only [List.cons_append, List.append_assoc, List.nil_append]
    exact runOn_treeWithin_braces (hstart _) hs' rfl rfl hr hts' rfl
  | false =>
    rw [hb, if_neg Bool.false_ne_true] at hn
    simp only [List.length_cons] at hn
    obtain ⟨rfl, -, hglob⟩ := needsBraces_singleton_of_not hb
    have hc := hbelow c List.mem_cons_self
    obtain ⟨c', hc', hbarec⟩ := htree c true rest hc (fun h => by cases h) hrest (by omega)
    obtain ⟨s', hs', hbare, hr⟩ := exists_runOn_step base hname hrename (c.tokens ++ rest)
    refine ⟨.node s' [c'], ?_, ?_⟩
    · rw [if_neg Bool.false_ne_true, List.cons_append, List.cons_append]
      exact runOn_treeWithin_path (hstart _) hs' rfl (head_tokens_ne hc rest (Or.inr rfl)) hr hc'
    · rw [UseTree.bare_node, UseTree.bare_node, hbare, List.map_singleton, List.map_singleton,
        hbarec]

theorem ReadsTree.succ (htree : ReadsTree base n) (hlist : ReadsList base n) :
    ReadsTree base (n + 1) := by
  intro t nested rest hg hroot hrest hn
  cases hg with
  | @glob s hname hrename =>
    cases nested with
    | false => cases hroot rfl
    | true =>
      refine ⟨_, runOn_treeWithin_glob base n rfl, ?_⟩
      rw [UseTree.bare_glob, UseTree.bare_glob]
      simp [Segment.bare, hname, hrename]
  | leaf hname => exact exists_runOn_leaf hname hrest
  | branch hname hrename hsome hbelow =>
    obtain ⟨c, cs, rfl⟩ := List.exists_cons_of_ne_nil hsome
    exact exists_runOn_branch htree hlist hname hrename hbelow hrest hn

theorem ReadsList.succ (htree : ReadsTree base n) (hlist : ReadsList base n) :
    ReadsList base (n + 1) := by
  intro ts close rest hne hg hclose hn
  obtain ⟨t, ts, rfl⟩ := List.exists_cons_of_ne_nil hne
  have ht := hg t List.mem_cons_self
  have hcomma : ∀ more : List Token, Closes (.of .comma "," :: more) :=
    fun more => closes_cons (by decide) (by decide) more
  rw [tokensAll] at hn ⊢
  simp only [List.length_append, List.length_cons] at hn
  obtain ⟨t', ht', hbare⟩ := htree t true (.of .comma "," :: (tokensAll ts ++ close :: rest))
    ht (fun h => by cases h) (hcomma _) (by omega)
  have hfirst := head_tokens_ne ht (.of .comma "," :: (tokensAll ts ++ close :: rest)) (Or.inl rfl)
  rw [List.append_assoc, List.cons_append]
  cases ts with
  | nil =>
    refine ⟨[t'], runOn_treeListWithin_last hfirst ht' rfl ?_, ?_⟩
    · simp [hclose]
    · rw [List.map_singleton, List.map_singleton, hbare]
  | cons u us =>
    obtain ⟨us', hus', hbares⟩ := hlist (u :: us) close rest (List.cons_ne_nil _ _)
      (fun v hv => hg v (List.mem_cons_of_mem _ hv)) hclose (by omega)
    have hmore : ((tokensAll (u :: us) ++ close :: rest).head?.any
        fun v => v.kind == .closeBrace) = false := by
      rw [tokensAll, List.append_assoc]
      exact head_tokens_ne (hg u (List.mem_cons_of_mem _ List.mem_cons_self)) _ (Or.inl rfl)
    refine ⟨t' :: us', runOn_treeListWithin_more hfirst ht' rfl hmore hus', ?_⟩
    rw [List.map_cons, List.map_cons, hbare, hbares]

end Trees

theorem runOn_trees (base : Position) (n : Nat) : ReadsTree base n ∧ ReadsList base n := by
  induction n with
  | zero => exact ⟨fun _ _ _ _ _ _ hn => absurd hn (Nat.not_lt_zero _),
      fun _ _ _ _ _ _ hn => absurd hn (Nat.not_lt_zero _)⟩
  | succ n ih => exact ⟨ih.1.succ ih.2, ReadsList.succ ih.1 ih.2⟩

end Parser

/-! ## Declarations -/

namespace Parser

open Token

theorem runOn_visibility_word {pub paren word close : Token} {rest : List Token}
    (hpub : pub.kind = .pubWord) (hparen : paren.kind = .openParen)
    (hword : (word.kind == .inWord) = false) (hclose : close.kind = .closeParen) :
    visibility.runOn (pub :: paren :: word :: close :: rest) =
      (.ok (some ("pub(" ++ word.text ++ ")")), rest) := by
  simp only [visibility, runOn_bind, runOn_isNext, runOn_advance_cons, runOn_expect_cons, runOn_pure,
    List.head?_cons, Option.any_some, hpub, hparen, hword, hclose, beq_self_eq_true,
    Bool.false_eq_true, if_true, if_false]

theorem runOn_visibility_path {pub paren inWord close : Token} {inside rest : List Token}
    (hpub : pub.kind = .pubWord) (hparen : paren.kind = .openParen) (hin : inWord.kind = .inWord)
    (hne : inside ≠ []) (hinside : ∀ t ∈ inside, (t.kind != .closeParen) = true)
    (hclose : close.kind = .closeParen) :
    visibility.runOn (pub :: paren :: inWord :: (inside ++ close :: rest)) =
      (.ok (some ("pub(" ++ ("in " ++ String.join (inside.map Token.text)) ++ ")")), rest) := by
  have hparts : restriction.runOn (inside ++ close :: rest) =
      (.ok (inside.map Token.text), close :: rest) := by
    rw [runOn_restriction, List.takeWhile_append_of_pos hinside, List.dropWhile_append_of_pos hinside]
    simp [hclose]
  have hsome : (inside.map Token.text).isEmpty = false := by simpa using hne
  simp only [visibility, runOn_bind, runOn_isNext, runOn_advance_cons, runOn_expect_cons, runOn_pure,
    List.head?_cons, Option.any_some, hpub, hparen, hin, hparts, hsome, hclose, beq_self_eq_true,
    Bool.false_eq_true, if_true, if_false]

theorem runOn_declaration {base : Position} {v : Option String} {t : UseTree} {use semi : Token}
    {ts rest : List Token} (hv : visibility.runOn ts = (.ok v, use :: rest))
    (huse : use.kind = .useWord) (ht : (tree base false).runOn rest = (.ok t, [semi]))
    (hsemi : semi.kind = .semicolon) : (declaration base).runOn ts = (.ok (v, t), []) := by
  simp only [declaration, current, runOn_bind, runOn_isNext, runOn_peek, runOn_advance_cons,
    runOn_expect_cons, runOn_pure, hv, huse, ht, hsemi, List.head?_cons, Option.any_some,
    beq_self_eq_true, if_true, List.getElem?_nil]

/-- The tokens of a tree are read as the tree. -/
theorem runOn_tree (base : Position) {t : UseTree} (ht : t.Grammatical) {rest : List Token}
    (hrest : Closes rest) :
    ∃ t', (tree base false).runOn (t.tokens ++ rest) = (.ok t', rest) ∧ t'.bare = t.bare := by
  have hdepth : t.tokens.length < (t.tokens ++ rest).length + 2 := by
    rw [List.length_append]
    omega
  obtain ⟨t', ht', hbare⟩ := (runOn_trees base _).1 t false rest ht.written (fun _ => ht.rooted)
    hrest hdepth
  exact ⟨t', (runOn_bind_of_ok (runOn_depth _)).trans ht', hbare⟩

end Parser

namespace Statement

open Token

inductive Visible : Option String → Prop
  | hidden : Visible none
  | everywhere : Visible (some "pub")
  | within {word : String} (h : isSegmentWord word = true) : Visible (some ("pub(" ++ word ++ ")"))
  | inPath {path : List String} (nonempty : path ≠ [])
    (words : ∀ n ∈ path, isSegmentWord n = true) :
    Visible (some ("pub(in " ++ Target.joinPath path ++ ")"))

/-- The visibility of a declaration as it stands before `use`. -/
def visibilityChars (v : Option String) : List Char := v.elim [] fun words => words.toList ++ [' ']

def declarationText (v : Option String) (t : UseTree) : List Char :=
  visibilityChars v ++ ("use ".toList ++ ((t.format "").toList ++ [';']))

def pathTokens : List String → List Token
  | [] => []
  | word :: path => .ofWord word :: path.flatMap fun n => [.of .pathSep "::", .ofWord n]

theorem toList_joinPath_cons (word : String) (path : List String) :
    (Target.joinPath (word :: path)).toList =
      word.toList ++ path.flatMap fun n => ':' :: ':' :: n.toList := by
  rw [Target.toList_joinPath]
  induction path generalizing word with
  | nil => rw [List.map_singleton, List.intercalate_singleton, List.flatMap_nil, List.append_nil]
  | cons next path ih =>
    rw [List.map_cons, List.map_cons, List.intercalate_cons_cons, ← List.map_cons, ih,
      List.flatMap_cons, List.append_assoc]
    rfl

theorem lex_path {path : List String} (h : ∀ n ∈ path, isSegmentWord n = true) {rest : List Char}
    (hs : Stops rest) :
    lex ((path.flatMap fun n => ':' :: ':' :: n.toList) ++ rest) =
      (path.flatMap fun n => [.of .pathSep "::", .ofWord n]) ++ lex rest ∧
      Stops ((path.flatMap fun n => ':' :: ':' :: n.toList) ++ rest) := by
  induction path with
  | nil => exact ⟨rfl, hs⟩
  | cons word path ih =>
    obtain ⟨hlex, hstops⟩ := ih fun n hn => h n (List.mem_cons_of_mem _ hn)
    refine ⟨?_, stops_cons (c := ':') (by decide) (by decide) _⟩
    rw [List.flatMap_cons, List.append_assoc, List.cons_append, List.cons_append, lex_pathSep,
      lex_word (h word List.mem_cons_self) hstops, hlex]
    rfl

theorem lex_joinPath {path : List String} (hne : path ≠ [])
    (h : ∀ n ∈ path, isSegmentWord n = true) {rest : List Char} (hs : Stops rest) :
    lex ((Target.joinPath path).toList ++ rest) = pathTokens path ++ lex rest := by
  obtain ⟨word, path, rfl⟩ := List.exists_cons_of_ne_nil hne
  obtain ⟨hlex, hstops⟩ := lex_path (fun n hn => h n (List.mem_cons_of_mem _ hn)) hs
  rw [toList_joinPath_cons, List.append_assoc, lex_word (h word List.mem_cons_self) hstops, hlex]
  rfl

theorem join_pathTokens {path : List String} (hne : path ≠ []) :
    String.join ((pathTokens path).map Token.text) = Target.joinPath path := by
  obtain ⟨word, path, rfl⟩ := List.exists_cons_of_ne_nil hne
  refine String.toList_injective ?_
  rw [String.toList_join, toList_joinPath_cons, pathTokens, List.map_cons, List.flatMap_cons,
    List.map_flatMap, List.flatMap_assoc]
  refine congrArg (List.append _) (List.flatMap_congr fun n _ => ?_)
  simp [of, Token.ofWord]

theorem kind_pathTokens {path : List String} (h : ∀ n ∈ path, isSegmentWord n = true) :
    ∀ t ∈ pathTokens path, (t.kind != .closeParen) = true := by
  have hword : ∀ n ∈ path, ((Token.ofWord n).kind != .closeParen) = true := by
    intro n hn
    have hseg : (Token.ofWord n).kind.isSegment = true := Parser.isSegment_wordKind (h n hn)
    rw [bne_iff_ne]
    intro hk
    rw [hk] at hseg
    cases hseg
  cases path with
  | nil => simp [pathTokens]
  | cons word path =>
    intro t ht
    rcases List.mem_cons.1 ht with rfl | ht
    · exact hword word List.mem_cons_self
    · obtain ⟨n, hn, ht⟩ := List.mem_flatMap.1 ht
      rcases List.mem_cons.1 ht with rfl | ht
      · rfl
      · exact List.mem_singleton.1 ht ▸ hword n (List.mem_cons_of_mem _ hn)

/-- A visibility is read as itself, before a `use`. -/
theorem Visible.read {v : Option String} (h : Visible v) :
    ∃ ts, (∀ rest, lex (visibilityChars v ++ rest) = ts ++ lex rest) ∧
      ∀ (use : Token) rest, use.kind = .useWord →
        Parser.visibility.runOn (ts ++ use :: rest) = (.ok v, use :: rest) := by
  have hpub : ∀ {cs : List Char}, Stops cs →
      lex ('p' :: 'u' :: 'b' :: cs) = of .pubWord "pub" :: lex cs :=
    fun hs => lex_plain (c := 'p') (w := ['u', 'b']) (by decide +kernel) (by decide +kernel) hs
  have hparen : ∀ cs, Stops ('(' :: cs) := fun cs => stops_cons (by decide) (by decide) cs
  have hparen' : ∀ cs, Stops (')' :: cs) := fun cs => stops_cons (by decide) (by decide) cs
  have hspace : ∀ cs, Stops (' ' :: cs) := fun cs => stops_cons (by decide) (by decide) cs
  cases h with
  | hidden =>
    refine ⟨[], fun rest => rfl, fun use rest huse => ?_⟩
    have hne : (use.kind == .pubWord) = false := by rw [huse]; rfl
    simp [Parser.visibility, Parser.runOn_bind, hne]
  | everywhere =>
    refine ⟨[of .pubWord "pub"], fun rest => ?_, fun use rest huse => ?_⟩
    · exact (hpub (hspace rest)).trans (congrArg (List.cons _) (lex_space (by decide) rest))
    · have hne : (use.kind == .openParen) = false := by rw [huse]; rfl
      simp [Parser.visibility, Parser.runOn_bind, hne, of]
  | @within word hword =>
    refine ⟨[of .pubWord "pub", of .openParen "(", .ofWord word, of .closeParen ")"], fun rest => ?_,
      fun use rest _ => ?_⟩
    · have htext : visibilityChars (some ("pub(" ++ word ++ ")")) ++ rest =
          'p' :: 'u' :: 'b' :: '(' :: (word.toList ++ ')' :: ' ' :: rest) := by
        simp [visibilityChars]
      rw [htext, hpub (hparen _), lex_mark .openParen rfl, lex_word hword (hparen' _),
        lex_mark .closeParen rfl, lex_space (by decide)]
      rfl
    · have hseg : (Token.ofWord word).kind.isSegment = true := Parser.isSegment_wordKind hword
      have hin : ((Token.ofWord word).kind == .inWord) = false := by
        rw [beq_eq_false_iff_ne]
        intro hk
        rw [hk] at hseg
        cases hseg
      exact Parser.runOn_visibility_word rfl rfl hin rfl
  | @inPath path hne hwords =>
    refine ⟨of .pubWord "pub" :: of .openParen "(" :: of .inWord "in" ::
      (pathTokens path ++ [of .closeParen ")"]), fun rest => ?_, fun use rest _ => ?_⟩
    · have htext : visibilityChars (some ("pub(in " ++ Target.joinPath path ++ ")")) ++ rest =
          'p' :: 'u' :: 'b' :: '(' :: 'i' :: 'n' :: ' ' ::
            ((Target.joinPath path).toList ++ ')' :: ' ' :: rest) := by
        simp [visibilityChars]
      have hin : ∀ cs : List Char, lex ('i' :: 'n' :: ' ' :: cs) = of .inWord "in" :: lex cs := by
        intro cs
        refine (lex_plain (c := 'i') (w := ['n']) (by decide +kernel) (by decide +kernel)
          (hspace cs)).trans ?_
        rw [lex_space (by decide)]
        rfl
      rw [htext, hpub (hparen _), lex_mark .openParen rfl, hin, lex_joinPath hne hwords (hparen' _),
        lex_mark .closeParen rfl, lex_space (by decide)]
      simp
    · have hsome : pathTokens path ≠ [] := by
        obtain ⟨word, path, rfl⟩ := List.exists_cons_of_ne_nil hne
        exact List.cons_ne_nil _ _
      have htext : "pub(" ++ ("in " ++ Target.joinPath path) ++ ")" =
          "pub(in " ++ Target.joinPath path ++ ")" := String.toList_injective (by simp)
      rw [← htext, ← join_pathTokens hne, List.cons_append, List.cons_append, List.cons_append,
        List.append_assoc]
      exact Parser.runOn_visibility_path rfl rfl rfl hsome (kind_pathTokens hwords) rfl

theorem lex_use (cs : List Char) : lex ("use ".toList ++ cs) = of .useWord "use" :: lex cs := by
  have hspace : Stops (' ' :: cs) := stops_cons (by decide) (by decide) cs
  have hword := lex_plain (c := 'u') (w := ['s', 'e']) (by decide +kernel) (by decide +kernel) hspace
  rw [lex_space (by decide)] at hword
  exact hword

/-- A printed declaration is read as itself. -/
theorem read_declarationText {v : Option String} (hv : Visible v) {t : UseTree}
    (ht : t.Grammatical) (base : Position) :
    ∃ t', ((Parser.declaration base).runOn (tokenize (declarationText v t))).1 = .ok (v, t') ∧
      t'.bare = t.bare := by
  obtain ⟨vs, hlex, hread⟩ := hv.read
  have hsemi : Stops [';'] := stops_cons (by decide) (by decide) _
  have htokens : lex (declarationText v t) =
      vs ++ of .useWord "use" :: (t.tokens ++ [of .semicolon ";"]) := by
    rw [declarationText, hlex, lex_use, UseTree.lex_format ht.written (by decide) hsemi,
      lex_mark .semicolon rfl, lex_nil]
  have hcloses : Parser.Closes [of .semicolon ";"] := Parser.closes_cons (by decide) (by decide) _
  obtain ⟨t', ht', hbare⟩ := Parser.runOn_tree base ht hcloses
  have hrun := Parser.runOn_declaration (hread (of .useWord "use") _ rfl) rfl ht' rfl
  rw [← htokens] at hrun
  have hagree := (Parser.agree_declaration base base (tokenize (declarationText v t))
    (lex (declarationText v t)) (by rw [lex, List.map_map]; rfl)).1
  rw [hrun] at hagree
  cases h : ((Parser.declaration base).runOn (tokenize (declarationText v t))).1 with
  | error e => rw [h] at hagree; cases hagree
  | ok d =>
    rw [h] at hagree
    obtain ⟨hv', hd⟩ := Prod.mk.inj (Except.ok.inj hagree)
    exact ⟨d.2, congrArg (fun w => Except.ok (w, d.2)) hv', hd.trans hbare⟩

end Statement

/-- The trees that can be read are those that can be written. -/
theorem UseTree.readable_iff {t : UseTree} : t.Readable ↔ t.Grammatical := by
  refine ⟨Readable.grammatical, fun h => ?_⟩
  obtain ⟨t', ht', hbare⟩ := Statement.read_declarationText .hidden h ⟨0, 0⟩
  refine ⟨Statement.declarationText none t, [], none, none, { tree := t' }, ?_, hbare⟩
  show ((Parser.declaration ⟨0, 0⟩).runOn
    (Token.tokenize (Statement.declarationText none t))).1 >>= _ = _
  rw [ht']
  rfl

end TidyUse
