import TidyUse.Proofs.Lines
import TidyUse.Proofs.Merging
import TidyUse.Proofs.Walk
import TidyUse.Statement

/-!
# Printed declarations in a document

* `Document.ends_lines` : a text with balanced braces ends with its `;`;
* `Document.Even`, `UseTree.even_format` : the characters of a printed tree;
* `Statement.parse_format` : a printed declaration is read again as itself;
* `Statement.Printable` : a declaration that can be printed and read again;
* `Statement.printedLines` : its lines; `Statement.Printable.passes` : what a survey makes of them.
-/

namespace TidyUse

open Text

namespace Document

/-! ## The end of a printed text -/

theorem findEnd_of_not_mem {cs : List Char} (hslash : '/' ∉ cs) (hsemi : ';' ∉ cs) (depth : Int)
    (column : Nat) (rest : List Char) :
    findEnd depth column (cs ++ rest) =
      findEnd (depth + openBraces cs) (column + cs.length) rest := by
  induction cs generalizing depth column with
  | nil => simp
  | cons c cs ih =>
    have hc : c ≠ '/' ∧ c ≠ ';' := by
      constructor
      · rintro rfl
        exact hslash List.mem_cons_self
      · rintro rfl
        exact hsemi List.mem_cons_self
    rw [List.cons_append, findEnd, if_neg (by simp [hc.2]),
      ih (fun h => hslash (List.mem_cons_of_mem _ h)) fun h => hsemi (List.mem_cons_of_mem _ h),
      openBraces_cons, List.length_cons]
    · congr 1 <;> omega
    · exact fun _ h => absurd h hc.1
    · exact fun _ h => absurd h hc.1

/-- A text without comments in which the braces are balanced ends with its `;`. -/
theorem ends_lines {body : List Char} (hslash : '/' ∉ body) (hsemi : ';' ∉ body) {depth : Int}
    (hdepth : depth + openBraces body = 0) {first : Line} {more : List Line}
    (h : lines (body ++ [';']) = first :: more) : Ends depth first more := by
  induction more generalizing body depth first with
  | nil =>
    obtain ⟨-, rfl⟩ | ⟨rest, -, hrest⟩ := lines_eq_cons h
    · rw [Ends, findEnd_of_not_mem hslash hsemi, hdepth]
      simp [findEnd]
    · exact absurd hrest (lines_ne_nil rest)
  | cons next more ih =>
    obtain ⟨hnil, -⟩ | ⟨rest, htext, hrest⟩ := lines_eq_cons h
    · cases hnil
    · -- the line end is not the last character
      obtain ⟨body', rfl, rfl⟩ : ∃ body', body = first ++ '\n' :: body' ∧ rest = body' ++ [';'] := by
        rcases List.eq_nil_or_concat' rest with rfl | ⟨body', c, rfl⟩
        · exact absurd (List.append_inj' htext rfl).2 (by decide)
        · rw [← List.cons_append, ← List.append_assoc] at htext
          obtain ⟨hbody, hc⟩ := List.append_inj' htext rfl
          exact ⟨body', hbody, by rw [hc]⟩
      rw [List.mem_append, List.mem_cons, not_or, not_or] at hslash hsemi
      rw [openBraces_append, openBraces_cons] at hdepth
      have hfirst := findEnd_of_not_mem hslash.1 hsemi.1 depth 0 []
      rw [List.append_nil, findEnd] at hfirst
      rw [Ends, hfirst]
      refine ⟨rfl, ih hslash.2.2 hsemi.2.2 ?_ hrest⟩
      have hstep : braceStep '\n' = 0 := rfl
      dsimp only
      omega

theorem suffix_lastRow {text first : List Char} {more : List Line}
    (h : lines text = first :: more) : lastRow [] first more <:+ text := by
  induction more generalizing text first with
  | nil =>
    obtain ⟨-, rfl⟩ | ⟨rest, -, hrest⟩ := lines_eq_cons h
    · exact List.suffix_refl _
    · exact absurd hrest (lines_ne_nil rest)
  | cons next more ih =>
    obtain ⟨hnil, -⟩ | ⟨rest, rfl, hrest⟩ := lines_eq_cons h
    · cases hnil
    · exact (ih hrest).trans ((List.suffix_cons _ _).trans (List.suffix_append _ _))

theorem prefix_first {text pre first : List Char} {more : List Line}
    (h : lines text = first :: more) (hpre : pre <+: text) (hn : '\n' ∉ pre) : pre <+: first := by
  obtain ⟨-, rfl⟩ | ⟨rest, rfl, -⟩ := lines_eq_cons h
  · exact hpre
  · rcases List.prefix_or_prefix_of_prefix hpre (List.prefix_append first _) with hp | ⟨ds, rfl⟩
    · exact hp
    · cases ds with
      | nil => simp
      | cons d ds =>
        have hd : d = '\n' := (List.cons_prefix_cons.1 ((List.prefix_append_right_inj first).1 hpre)).1
        exact absurd (by rw [hd]; simp) hn

/-- A line with the `;` of a printed declaration ends the search for attributes. -/
theorem isPassable_eq_false {x : List Char} (h : ∀ c ∈ x, c ∉ ['/', ';', '[']) (after : List Char) :
    isPassable (x ++ ';' :: after) = false := by
  obtain ⟨c, r, htrim, hc, hr⟩ : ∃ c r, trimStart (x ++ ';' :: after) = c :: r ∧ c ≠ '/' ∧
      ∀ cs, c :: r ≠ '#' :: '[' :: cs := by
    induction x with
    | nil => exact ⟨';', after, trimStart_cons (by decide) _, by decide, by simp⟩
    | cons c x ih =>
      have hx : ∀ d ∈ x, d ∉ ['/', ';', '['] := fun d hd => h d (List.mem_cons_of_mem _ hd)
      cases hs : isSpace c with
      | true =>
        obtain ⟨d, r, htrim, hd⟩ := ih hx
        exact ⟨d, r, (List.dropWhile_cons_of_pos hs).trans htrim, hd⟩
      | false =>
        refine ⟨c, x ++ ';' :: after, trimStart_cons hs _, ?_, ?_⟩
        · rintro rfl
          exact h _ List.mem_cons_self (by decide)
        · rintro cs hcs
          cases x with
          | nil => cases hcs
          | cons d x =>
            obtain ⟨rfl, -⟩ := List.cons.inj (List.cons.inj hcs).2
            exact hx _ List.mem_cons_self (by decide)
  have hcomment := isCommentLine_eq_false_of_cons htrim hc
  have hattr : isAttributeLine (x ++ ';' :: after) = false := by
    rw [Bool.eq_false_iff, Ne, isAttributeLine_iff, htrim]
    rintro ⟨cs, hcs⟩
    exact hr cs hcs
  rw [isPassable, hattr, isBlank_eq_false_of_cons htrim, hcomment]
  rfl

/-! ## The characters of printed text -/

/-- A text without comments, attributes and ends of declarations, in which the braces are
balanced. -/
structure Even (cs : List Char) : Prop where
  plain : ∀ c ∈ cs, c ∉ ['/', ';', '[']
  balanced : openBraces cs = 0

theorem Even.append {cs ds : List Char} (hc : Even cs) (hd : Even ds) : Even (cs ++ ds) where
  plain c hm := (List.mem_append.1 hm).elim (hc.plain c) (hd.plain c)
  balanced := by rw [openBraces_append, hc.balanced, hd.balanced]; rfl

theorem Even.braces {cs : List Char} (h : Even cs) : Even ('\x7b' :: (cs ++ ['\x7d'])) where
  plain c hm := by
    rcases List.mem_cons.1 hm with rfl | hm
    · decide
    · rcases List.mem_append.1 hm with hm | hm
      · exact h.plain c hm
      · rw [List.mem_singleton.1 hm]
        decide
  balanced := by rw [openBraces_cons, openBraces_append, h.balanced]; rfl

theorem even_of_forall {cs : List Char}
    (h : ∀ c ∈ cs, c ∉ ['/', ';', '[', '\x7b', '\x7d']) : Even cs where
  plain c hc hm := h c hc (List.mem_append_left ['\x7b', '\x7d'] hm)
  balanced := by
    induction cs with
    | nil => rfl
    | cons c cs ih =>
      have hc := h c List.mem_cons_self
      have hstep : braceStep c = 0 := by
        apply braceStep_eq_zero
        · rintro rfl
          exact hc (by decide)
        · rintro rfl
          exact hc (by decide)
      rw [openBraces_cons, hstep, ih fun d hd => h d (List.mem_cons_of_mem _ hd)]
      rfl

theorem even_blank {ws : List Char} (h : isBlank ws = true) : Even ws := by
  refine even_of_forall fun c hc hm => ?_
  have hs := List.all_eq_true.1 h c hc
  revert hs
  have hmark : ∀ c ∈ ['/', ';', '[', '\x7b', '\x7d'], isSpace c ≠ true :=
    forall_mem_of_all (by decide)
  exact hmark c hm

theorem even_word {w : List Char} (h : ∀ c ∈ w, isIdentContinue c = true ∨ c = '#') : Even w := by
  refine even_of_forall fun c hc hm => ?_
  rcases h c hc with hword | rfl
  · have hmark : ∀ c ∈ ['/', ';', '[', '\x7b', '\x7d'], c ∈ marks := forall_mem_of_all (by decide)
    exact not_mem_marks hword (hmark c hm)
  · exact absurd hm (by decide)

end Document

open Document

namespace UseTree

theorem even_formatLines {cs : List UseTree} {indent : String} (hi : isBlank indent.toList = true)
    (h : ∀ c ∈ cs, Even (c.format indent).toList) : Even (formatLines indent cs).toList := by
  induction cs with
  | nil =>
    rw [formatLines]
    exact ⟨by simp, rfl⟩
  | cons c cs ih =>
    have hsep : Even [',', '\n'] := even_of_forall (forall_mem_of_all (by decide))
    rw [toList_formatLines_cons]
    exact (even_blank hi).append ((h c List.mem_cons_self).append
      (hsep.append (ih fun d hd => h d (List.mem_cons_of_mem _ hd))))

/-- The characters of a printed tree. -/
theorem even_format {t : UseTree} (h : t.GrammaticalBelow) {indent : String}
    (hi : isBlank indent.toList = true) : Even (t.format indent).toList := by
  induction t generalizing indent with
  | glob s =>
    rw [format]
    exact even_of_forall (forall_mem_of_all (by decide))
  | node s cs ih =>
    have hname : Even s.name.toList := even_word (Token.isSegmentWord_chars h.name_isSegmentWord)
    cases cs with
    | nil =>
      cases h with
      | branch _ _ some _ => exact absurd rfl some
      | leaf _ rename =>
        rw [toList_format_leaf indent s fun r hr => isIdentifier_ne_empty (rename r hr)]
        refine hname.append ?_
        cases hr : s.rename with
        | none => exact ⟨by simp, rfl⟩
        | some r =>
          have has : Even " as ".toList := even_of_forall (forall_mem_of_all (by decide))
          exact has.append (even_word (Token.isIdentifier_chars (rename r hr)))
    | cons c cs =>
      have hsep : Even [':', ':'] := even_of_forall (forall_mem_of_all (by decide))
      cases hb : needsBraces (c :: cs) with
      | true =>
        have hi' : isBlank (indent ++ indentStep).toList = true := by
          rw [isBlank, String.toList_append, List.all_append, ← isBlank, hi]
          decide
        have hend : Even ['\n'] := even_of_forall (forall_mem_of_all (by decide))
        rw [toList_format_braces indent s hb]
        have hinner := hend.append ((even_formatLines hi' fun d hd =>
          ih d hd (h.of_mem d hd) hi').append (even_blank hi))
        have hbraces := hname.append (hsep.append hinner.braces)
        simpa using hbraces
      | false =>
        rw [toList_format_path indent s hb]
        exact hname.append (hsep.append (ih c List.mem_cons_self (h.of_mem c List.mem_cons_self) hi))

end UseTree

namespace Statement

/-! ## The lines of a printed declaration -/

theorem mem_joinPath {path : List String} (h : ∀ n ∈ path, Token.isSegmentWord n = true) {c : Char}
    (hc : c ∈ (Target.joinPath path).toList) : isIdentContinue c = true ∨ c ∈ ['#', ':'] := by
  cases path with
  | nil => exact absurd hc (by simp [Target.joinPath])
  | cons word path =>
    have hword : ∀ n ∈ word :: path, c ∈ n.toList → isIdentContinue c = true ∨ c ∈ ['#', ':'] := by
      intro n hn hc
      exact (Token.isSegmentWord_chars (h n hn) c hc).imp id fun hc => by rw [hc]; decide
    rw [toList_joinPath_cons, List.mem_append, List.mem_flatMap] at hc
    rcases hc with hc | ⟨n, hn, hc⟩
    · exact hword word List.mem_cons_self hc
    · simp only [List.mem_cons] at hc
      rcases hc with rfl | rfl | hc
      · exact Or.inr (by decide)
      · exact Or.inr (by decide)
      · exact hword n (List.mem_cons_of_mem _ hn) hc

/-- What stands between the parentheses of a visibility holds none of these marks. -/
theorem Visible.cases_chars {v : Option String} (h : Visible v) :
    visibilityChars v = [] ∨ visibilityChars v = "pub ".toList ∨
      ∃ inside : List Char, visibilityChars v = "pub".toList ++ ('(' :: (inside ++ [')', ' '])) ∧
        ∀ c ∈ inside, c ∉ [')', '\n', '/', ';', '[', '\x7b', '\x7d'] := by
  have hmark : ∀ c ∈ [')', '\n', '/', ';', '[', '\x7b', '\x7d'], c ∈ marks ∧ c ∉ ['#', ':', 'i', 'n', ' '] :=
    forall_mem_of_all (by decide)
  cases h with
  | hidden => exact Or.inl rfl
  | everywhere => exact Or.inr (Or.inl rfl)
  | @within word h =>
    refine Or.inr (Or.inr ⟨word.toList, ?_, fun c hc hm => ?_⟩)
    · rw [visibilityChars, Option.elim_some, String.toList_append, String.toList_append]
      simp
    · rcases Token.isSegmentWord_chars h c hc with hc | rfl
      · exact not_mem_marks hc (hmark c hm).1
      · exact (hmark '#' hm).2 (by decide)
  | @inPath path hne hwords =>
    refine Or.inr (Or.inr ⟨"in ".toList ++ (Target.joinPath path).toList, ?_, fun c hc hm => ?_⟩)
    · rw [visibilityChars, Option.elim_some, String.toList_append, String.toList_append]
      simp
    · rcases List.mem_append.1 hc with hc | hc
      · exact (hmark c hm).2 (List.mem_append_right ['#', ':'] hc)
      · rcases mem_joinPath hwords hc with hc | hc
        · exact not_mem_marks hc (hmark c hm).1
        · exact (hmark c hm).2 (List.mem_append_left ['i', 'n', ' '] hc)

theorem Visible.even {v : Option String} (h : Visible v) : Even (visibilityChars v) := by
  rcases h.cases_chars with hv | hv | ⟨inside, hv, hin⟩ <;> rw [hv]
  · exact even_of_forall (forall_mem_of_all (by decide))
  · exact even_of_forall (forall_mem_of_all (by decide))
  · have hpub : Even "pub(".toList := even_of_forall (forall_mem_of_all (by decide))
    have hclose : Even [')', ' '] := even_of_forall (forall_mem_of_all (by decide))
    have hinside : Even inside := even_of_forall fun c hc hm =>
      hin c hc (List.mem_append_right [')', '\n'] hm)
    exact hpub.append (hinside.append hclose)

theorem Visible.newline_not_mem {v : Option String} (h : Visible v) : '\n' ∉ visibilityChars v := by
  rcases h.cases_chars with hv | hv | ⟨inside, hv, hin⟩ <;> rw [hv]
  · decide
  · decide
  · intro hm
    have hin' : '\n' ∉ inside := fun hc => hin _ hc (by decide)
    simp at hm
    exact hin' hm

/-- A printed declaration opens as one, whatever follows. -/
theorem Visible.opensUse {v : Option String} (h : Visible v) (cs : List Char) :
    opensUse (visibilityChars v ++ ("use ".toList ++ cs)) = true := by
  rcases h.cases_chars with hv | hv | ⟨inside, hv, hin⟩ <;> rw [hv]
  · rfl
  · rfl
  · have hpar : ')' ∉ inside := fun hc => hin _ hc (by decide)
    have hdrop : (inside ++ ')' :: ' ' :: ("use ".toList ++ cs)).dropWhile (· != ')') =
        ')' :: ' ' :: ("use ".toList ++ cs) := by
      rw [List.dropWhile_append_of_pos, List.dropWhile_cons_of_neg (by simp)]
      intro c hc
      rw [bne_iff_ne]
      rintro rfl
      exact hpar hc
    have htext : "pub".toList ++ ('(' :: (inside ++ [')', ' '])) ++ ("use ".toList ++ cs) =
        'p' :: 'u' :: 'b' :: '(' :: (inside ++ ')' :: ' ' :: ("use ".toList ++ cs)) := by
      simp
    rw [htext]
    show opensUseWord (trimStart (skipParens (trimStart ('(' :: _)))) = true
    rw [trimStart_cons (by decide), skipParens, hdrop]
    rfl

theorem declarationText_eq (v : Option String) (t : UseTree) :
    declarationText v t =
      visibilityChars v ++ ("use ".toList ++ (t.format "").toList) ++ [';'] := by
  simp [declarationText]

theorem even_body {v : Option String} (hv : Visible v) {t : UseTree} (ht : t.Grammatical) :
    Even (visibilityChars v ++ ("use ".toList ++ (t.format "").toList)) := by
  have huse : Even "use ".toList := even_of_forall (forall_mem_of_all (by decide))
  exact hv.even.append (huse.append (UseTree.even_format ht.written rfl))

/-- A text on its lines is a declaration that a survey finds. -/
structure Laid (first : Line) (more : List Line) : Prop where
  opens : opensUse first = true
  ends : Ends 0 first more
  last : ∃ x, lastRow [] first more = x ++ [';'] ∧ ∀ c ∈ x, c ∉ ['/', ';', '[']

/-- The lines of a printed declaration. -/
theorem laid_declarationText {v : Option String} (hv : Visible v) {t : UseTree}
    (ht : t.Grammatical) :
    ∃ first more, lines (declarationText v t) = first :: more ∧ Laid first more := by
  obtain ⟨first, more, hlines⟩ := List.exists_cons_of_ne_nil (lines_ne_nil (declarationText v t))
  have heven := even_body hv ht
  have hends : Ends 0 first more := by
    rw [declarationText_eq] at hlines
    refine ends_lines (fun h => heven.plain _ h (by decide)) (fun h => heven.plain _ h (by decide))
      ?_ hlines
    rw [heven.balanced]
    rfl
  have hopens : opensUse first = true := by
    have hpre : visibilityChars v ++ "use ".toList <+: declarationText v t :=
      ⟨(t.format "").toList ++ [';'], by rw [declarationText, List.append_assoc]⟩
    have hn : '\n' ∉ visibilityChars v ++ "use ".toList := by
      rw [List.mem_append, not_or]
      exact ⟨hv.newline_not_mem, by decide⟩
    obtain ⟨cs, rfl⟩ := prefix_first hlines hpre hn
    rw [List.append_assoc]
    exact hv.opensUse cs
  refine ⟨first, more, hlines, hopens, hends, ?_⟩
  obtain ⟨p, hp⟩ := suffix_lastRow hlines
  rcases List.eq_nil_or_concat' (lastRow [] first more) with hnil | ⟨x, c, hx⟩
  · have hpos := hends.pos []
    rw [hnil] at hpos
    exact absurd hpos (Nat.lt_irrefl 0)
  · rw [hx, ← List.append_assoc, declarationText_eq] at hp
    obtain ⟨hbody, hc⟩ := List.append_inj' hp rfl
    rw [List.cons.inj hc |>.1] at hx
    exact ⟨x, hx, fun d hd => heven.plain d (hbody ▸ List.mem_append_right p hd)⟩

/-- An attribute on a line of its own. -/
structure IsAttribute (a : String) : Prop where
  line : '\n' ∉ a.toList
  trimmed : trimmed a = a
  opens : "#[".toList <+: a.toList

/-- A declaration that can be printed and read again. -/
structure Printable (s : Statement) : Prop where
  tree : s.tree.Grammatical
  visibility : Visible s.visibility
  attributes : ∀ a ∈ s.attributes, IsAttribute a

/-- The text of a declaration below its attributes. -/
def printedText (s : Statement) : List Char :=
  s.visibilityWords.toList ++ ("use ".toList ++ ((s.tree.sort.format "").toList ++ [';']))

def printedLines (s : Statement) : List Line :=
  s.attributes.map String.toList ++ lines s.printedText

theorem printedText_eq {s : Statement} (h : Visible s.visibility) :
    s.printedText = declarationText s.visibility s.tree.sort := by
  have hne : s.visibility ≠ some "" := by
    intro hv
    rw [hv] at h
    rcases h.cases_chars with hv | hv | ⟨_, hv, _⟩ <;> simp [visibilityChars] at hv
  have hwords : s.visibilityWords.toList = visibilityChars s.visibility := by
    rw [visibilityWords]
    split
    · rename_i hv
      rw [hv]
      rfl
    · rename_i hv
      exact absurd hv hne
    · rename_i words _ hv
      rw [hv, String.toList_append]
      rfl
  rw [printedText, hwords, declarationText]

/-- A printed declaration is its lines. -/
theorem toList_format (s : Statement) : s.format.toList = unlines s.printedLines := by
  have htext : (s.visibilityWords ++ "use " ++ s.tree.sort.format "" ++ ";").toList =
      unlines (lines s.printedText) := by
    rw [unlines_lines, printedText]
    simp only [String.toList_append, List.append_assoc]
    rfl
  rw [format, String.toList_intercalate, List.map_append, List.map_singleton, htext, printedLines]
  show unlines _ = _
  cases hattrs : s.attributes.map String.toList with
  | nil => rw [List.nil_append, List.nil_append, unlines, List.intercalate_singleton]
  | cons a as =>
    rw [unlines_append (List.cons_ne_nil _ _) (List.cons_ne_nil _ _),
      unlines_append (List.cons_ne_nil _ _) (lines_ne_nil _)]
    congr 2
    rw [unlines, List.intercalate_singleton]

theorem toList_format_of_nil {s : Statement} (hvis : Visible s.visibility)
    (hattr : s.attributes = []) :
    s.format.toList = declarationText s.visibility s.tree.sort := by
  rw [toList_format, printedLines, hattr, List.map_nil, List.nil_append, unlines_lines,
    printedText_eq hvis]

/-- Reading undoes printing: a declaration without attributes is read again, with its visibility
and with its tree in order, whatever place and attributes it is read with. -/
theorem parse_format {s : Statement} (htree : s.tree.Grammatical) (hvis : Visible s.visibility)
    (hattr : s.attributes = []) (attributes : List String) (span : Option Span)
    (block : Option Int) :
    ∃ t, parse s.format.toList attributes span block =
        .ok { tree := t, visibility := s.visibility, attributes, span, block } ∧
      t.bare = s.tree.sort.bare := by
  obtain ⟨t, hread, hbare⟩ :=
    read_declarationText hvis htree.sort ((span.map Span.start).getD ⟨0, 0⟩)
  refine ⟨t, ?_, hbare⟩
  rw [parse, toList_format_of_nil hvis hattr, hread]
  rfl

/-- `pub(in crate::a) use z::{r#type as _, *, self::{b as c, self}, self};`. -/
def sampleUnsorted : Statement where
  visibility := some "pub(in crate::a)"
  tree := .node ⟨"z", none, none⟩
    [.node ⟨"r#type", some "_", none⟩ [], .glob ⟨UseTree.globName, none, none⟩,
     .node ⟨"self", none, none⟩ [.node ⟨"b", some "c", none⟩ [], .node ⟨"self", none, none⟩ []],
     .node ⟨"self", none, none⟩ []]

theorem grammatical_sampleUnsorted : sampleUnsorted.tree.Grammatical := by
  have word : ∀ n ∈ ["z", "r#type", "self", "b"], Token.isSegmentWord n = true := by decide +kernel
  have rename : ∀ n ∈ ["_", "c"], Token.isIdentifier n.toList = true := by decide +kernel
  refine ⟨rfl, .branch (word "z" (by decide)) rfl (List.cons_ne_nil _ _) ?_⟩
  have hself : (UseTree.node ⟨"self", none, none⟩ []).GrammaticalBelow :=
    .leaf (word "self" (by decide)) fun r hr => by cases hr
  have hinner : (UseTree.node ⟨"self", none, none⟩
      [.node ⟨"b", some "c", none⟩ [], .node ⟨"self", none, none⟩ []]).GrammaticalBelow := by
    refine .branch (word "self" (by decide)) rfl (List.cons_ne_nil _ _) fun c hc => ?_
    rcases List.mem_pair.1 hc with rfl | rfl
    · exact .leaf (word "b" (by decide)) fun r hr => by cases hr; exact rename "c" (by decide)
    · exact hself
  intro c hc
  simp only [List.mem_cons, List.not_mem_nil, or_false] at hc
  rcases hc with rfl | rfl | rfl | rfl
  · exact .leaf (word "r#type" (by decide)) fun r hr => by cases hr; exact rename "_" (by decide)
  · exact .glob rfl rfl
  · exact hinner
  · exact hself

theorem parse_format_sampleUnsorted :
    sampleUnsorted.tree.Grammatical ∧ Visible sampleUnsorted.visibility ∧
      ∃ t, parse sampleUnsorted.format.toList [] none none =
          .ok { tree := t, visibility := some "pub(in crate::a)" } ∧
        t.bare = sampleUnsorted.tree.sort.bare := by
  have hwords : ∀ n ∈ ["crate", "a"], Token.isSegmentWord n = true := by decide +kernel
  have hvis : Visible (some "pub(in crate::a)") := .inPath (List.cons_ne_nil _ _) hwords
  exact ⟨grammatical_sampleUnsorted, hvis,
    parse_format grammatical_sampleUnsorted hvis rfl [] none none⟩

/-! ## What a survey makes of them -/

/-- A declaration of a document is a printed one. -/
structure Shows (d : Declaration) (s : Statement) : Prop where
  trailing : d.trailing = .nothing
  attributes : d.attributes = s.attributes
  reading : ∃ t, d.reading = .parsed s.visibility t ∧ t.bare = s.tree.sort.bare

theorem Shows.isStatement {d : Declaration} {s : Statement} (h : Shows d s) :
    d.isStatement = true := by
  obtain ⟨t, ht, -⟩ := h.reading
  rw [Declaration.isStatement, ht]
  simp only [h.trailing]
  rfl

theorem IsAttribute.isAttributeLine {a : String} (h : IsAttribute a) {ws : List Char}
    (hws : isBlank ws = true) :
    isAttributeLine (ws ++ a.toList) = true ∧ String.ofList (trim (ws ++ a.toList)) = a := by
  obtain ⟨cs, hcs⟩ := h.opens
  constructor
  · rw [isAttributeLine_iff]
    refine ⟨cs, ?_⟩
    rw [trimStart_append hws, ← hcs]
    exact trimStart_cons (by decide) _
  · rw [trim, trimStart_append hws]
    exact h.trimmed

theorem passes_attributes {block : List Line} (h : ∀ l ∈ block, isAttributeLine l = true)
    (stage : Stage) (above : List Line) : ∃ stage', Passes stage above block [] stage' := by
  induction block generalizing stage above with
  | nil => exact ⟨stage, .nil⟩
  | cons l block ih =>
    have hl : Passes stage above [l] [] stage.leave := passes_attribute (h l List.mem_cons_self)
    obtain ⟨stage', hblock⟩ := ih (fun m hm => h m (List.mem_cons_of_mem _ hm)) stage.leave
      (l :: above)
    exact ⟨stage', hl.append hblock⟩

theorem holdsComment_of_not_mem {cs : List Char} (h : '/' ∉ cs) : holdsComment cs = false := by
  induction cs with
  | nil => rfl
  | cons c cs ih =>
    have hopen : opensComment (c :: cs) = false := by
      rw [Bool.eq_false_iff]
      intro ho
      refine h ?_
      obtain ⟨r, hr | hr⟩ := opensComment_eq_true ho <;> rw [hr] <;> exact List.mem_cons_self
    rw [holdsComment, hopen, ih fun hm => h (List.mem_cons_of_mem _ hm)]
    rfl

/-- A printed declaration is read as itself, wherever it stands. -/
theorem ofText_declarationText {v : Option String} (hv : Visible v) {t : UseTree}
    (ht : t.Grammatical) (base : Position) :
    ∃ t', Reading.ofText base (declarationText v t) = .parsed v t' ∧ t'.bare = t.bare := by
  have hslash : '/' ∉ declarationText v t := by
    rw [declarationText_eq, List.mem_append, not_or]
    exact ⟨fun h => (even_body hv ht).plain _ h (by decide), by decide⟩
  obtain ⟨t', ht', hbare⟩ := read_declarationText hv ht base
  refine ⟨t', ?_, hbare⟩
  rw [Reading.ofText, holdsComment_of_not_mem hslash, ht']
  rfl

/-- A printed declaration below its attributes. -/
theorem Printable.passes_text {s : Statement} (h : Printable s) {first : Line} {more : List Line}
    (hlines : lines (declarationText s.visibility s.tree.sort) = first :: more)
    (hlaid : Laid first more) {before after : List Char} (hb : isBlank before = true)
    (hafter : isBlank after = true) (stage : Stage) {above : List Line}
    (hattrs : (attributesAbove above).texts = s.attributes) :
    Passes stage above (rows before first more after)
        [.declaration above.length (declared above before first more after)] (.body true) ∧
      Shows (declared above before first more after) s ∧
      Clear ((rows before first more after).reverse ++ above) := by
  have hshows : Shows (declared above before first more after) s := by
    refine ⟨if_pos hafter, ?_, ?_⟩
    · show (attributesFor above before).texts = _
      rw [attributesFor, if_pos hb, hattrs]
    · show ∃ t, Reading.ofText _ (unlines (first :: more)) = _ ∧ _
      rw [← hlines, unlines_lines]
      exact ofText_declarationText h.visibility h.tree.sort _
  refine ⟨?_, hshows, ?_⟩
  · have hpass : Passes stage above _ _ _ :=
      passes_declaration hb hlaid.opens hlaid.ends (Or.inl hafter)
    rwa [hshows.isStatement, Bool.or_true] at hpass
  · obtain ⟨x, hx, hplain⟩ := hlaid.last
    obtain ⟨p, hp, hrow⟩ := lastRow_eq before first more
    rw [rows, List.reverse_append, List.append_assoc]
    refine clear_cons_of_not_isPassable ?_ _
    rw [hrow, hx, ← List.append_assoc, List.append_assoc, List.singleton_append]
    refine isPassable_eq_false (fun c hm => ?_) after
    rcases List.mem_append.1 hm with hm | hm
    · rcases hp with rfl | rfl
      · exact (even_blank hb).plain c hm
      · exact absurd hm (by simp)
    · exact hplain c hm

/-- A printed declaration is passed and found. -/
theorem Printable.passes {s : Statement} (h : Printable s) {ws after : List Char}
    (hws : isBlank ws = true) (hafter : isBlank after = true) (stage : Stage) {above : List Line}
    (hc : Clear above) :
    ∃ row d, Passes stage above (fringe ws s.printedLines after) [.declaration row d] (.body true) ∧
      Shows d s ∧ Span.mk d.footprint d.span.stop = placed above ws s.printedLines ∧
      Clear ((fringe ws s.printedLines after).reverse ++ above) := by
  obtain ⟨first, more, hlines, hlaid⟩ := laid_declarationText h.visibility h.tree.sort
  rw [printedLines, printedText_eq h.visibility, hlines]
  cases hattrs : s.attributes with
  | nil =>
    obtain ⟨hpass, hshows, hclear⟩ := h.passes_text hlines hlaid hws hafter stage
      (by rw [attributesAbove_of_clear hc, hattrs])
    refine ⟨_, _, hpass, hshows, ?_, hclear⟩
    rw [footprint_declared_of_clear hc]
    rfl
  | cons a as =>
    have hattr : ∀ b ∈ a :: as, IsAttribute b := hattrs ▸ h.attributes
    have htop := (hattr a List.mem_cons_self).isAttributeLine hws
    have hrest : ∀ b ∈ as, isAttributeLine b.toList = true ∧ String.ofList (trim b.toList) = b :=
      fun b hb => (hattr b (List.mem_cons_of_mem _ hb)).isAttributeLine (show isBlank [] = true from rfl)
    have hline : ∀ l ∈ (ws ++ a.toList) :: as.map String.toList, isAttributeLine l = true := by
      simpa using ⟨htop.1, fun b hb => (hrest b hb).1⟩
    have hpassable : ∀ l ∈ (ws ++ a.toList) :: as.map String.toList, isPassable l = true := by
      intro l hl
      rw [isPassable, hline l hl]
      rfl
    have htexts : (attributesAbove (((ws ++ a.toList) :: as.map String.toList).reverse ++ above)).texts =
        s.attributes := by
      rw [attributesAbove_append hc _ hpassable (by simpa using htop.1),
        List.filter_eq_self.2 hline, hattrs, List.map_cons, List.map_map, htop.2]
      exact congrArg (List.cons a)
        ((List.map_congr_left fun b hb => (hrest b hb).2).trans (List.map_id as))
    obtain ⟨stage', hblock⟩ := passes_attributes hline stage above
    obtain ⟨hpass, hshows, hclear⟩ := h.passes_text hlines hlaid
      (show isBlank [] = true from rfl) hafter stage' htexts
    have hrows : fringe ws ((a :: as).map String.toList ++ first :: more) after =
        ((ws ++ a.toList) :: as.map String.toList) ++ rows [] first more after := by
      rw [List.map_cons, List.cons_append, fringe_cons, rows_append, rows_open]
    have hall := hblock.append hpass
    rw [← hrows] at hall
    refine ⟨_, _, hall, hshows, ?_, ?_⟩
    · have hindent : indent (ws ++ a.toList) = ws.length := by
        obtain ⟨cs, hcs⟩ := (hattr a List.mem_cons_self).opens
        rw [indent_append hws, ← hcs]
        rfl
      have hlen : (((ws ++ a.toList) :: as.map String.toList).reverse ++ above).length + more.length =
          above.length + (as.map String.toList ++ first :: more).length := by
        simp only [List.length_append, List.length_reverse, List.length_cons, List.length_map]
        omega
      rw [footprint_declared_append hc hpassable htop.1 rfl, hindent, List.map_cons,
        List.cons_append, placed, lastRow_append, ← hlen]
      rfl
    · rw [hrows, List.reverse_append, List.append_assoc]
      exact hclear

end Statement

end TidyUse
