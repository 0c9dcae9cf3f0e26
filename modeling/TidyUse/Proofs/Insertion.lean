import TidyUse.Document.Splice
import TidyUse.Proofs.LineKinds

/-!
# The place of imports in a document without any

Imports go below what belongs to the document as a whole, and above code. The lines that are passed
on the way are comments, blank lines and attributes; an attribute belongs to the item below it.

* `isWholeLine`, `isAsideLine`, `isModuleLine` : what the walk tells apart;
* `leading`, `firstCode` : the lines that are passed, and the line at which the walk ends;
* `Settled` : where imports would go below some lines; `settled_whole`, `Settled.aside`,
  `Settled.concat` : what one more line changes;
* `insertLineFrom_cases` : where the walk puts imports;
* `belowAttribute` : the last line that is neither blank nor a comment is an attribute;
* `insertLine_below_attribute_iff` : when imports come between an attribute and its item.
-/

namespace TidyUse.Document

open Text

/-! ## Kinds of lines -/

/-- The line belongs to the document as a whole. -/
def isWholeLine (l : Line) : Bool := opensWith ["#![", "//!", "extern crate"] (trim l)

def isWholeDoc (l : Line) : Bool := opensWith ["//!"] (trim l)

/-- The line is blank or a comment. -/
def isAsideLine (l : Line) : Bool := isBlank l || opensWith ["//"] (trim l)

def isModuleLine (l : Line) : Bool := opensWith ["use ", "mod ", "pub use ", "pub mod "] (trim l)

/-- The line is passed on the way to the first code. -/
def isPassed (l : Line) : Bool := isWholeLine l || isAsideLine l || isAttributeLine l

theorem opensWith_take {words : List String} {cs : List Char} (n : Nat)
    (hn : ∀ w ∈ words, n ≤ w.toList.length) (h : opensWith words cs = true) :
    cs.take n ∈ words.map fun w => w.toList.take n := by
  obtain ⟨w, hw, hprefix⟩ := List.any_eq_true.1 h
  obtain ⟨rest, rfl⟩ := List.isPrefixOf_iff_prefix.1 hprefix
  rw [List.take_append_of_le_length (hn w hw)]
  exact List.mem_map_of_mem hw

theorem opensWith_attribute (l : Line) : opensWith ["#["] (trim l) = isAttributeLine l := by
  have hopen : opensWith ["#["] (trim l) = "#[".toList.isPrefixOf (trim l) := Bool.or_false _
  rw [hopen, Bool.eq_iff_iff, isAttributeLine_iff, List.isPrefixOf_iff_prefix]
  constructor
  · rintro ⟨cs, hcs⟩
    obtain ⟨ws, -, hws⟩ := dropEndWhile_append isSpace (trimStart l)
    refine ⟨cs ++ ws, ?_⟩
    rw [← hws]
    exact congrArg (· ++ ws) hcs.symm
  · rintro ⟨cs, hcs⟩
    refine ⟨trimEnd cs, ?_⟩
    rw [trim, hcs, trimEnd, trimEnd, dropEndWhile_cons (by decide), dropEndWhile_cons (by decide)]
    rfl

/-! ## What tells them apart -/

theorem opening_of_isWholeLine {l : Line} (h : isWholeLine l = true) :
    (trim l).take 2 ∈ [['#', '!'], ['/', '/'], ['e', 'x']] :=
  opensWith_take 2 (by decide) h

theorem opening_of_isAttributeLine {l : Line} (h : isAttributeLine l = true) :
    (trim l).take 2 = ['#', '['] :=
  List.mem_singleton.1 (opensWith_take 2 (by decide) (opensWith_attribute l ▸ h))

theorem opening_of_isModuleLine {l : Line} (h : isModuleLine l = true) :
    (trim l).take 2 ∈ [['u', 's'], ['m', 'o'], ['p', 'u']] := by
  have hopen := opensWith_take 2 (by decide) h
  exact (by decide : [['u', 's'], ['m', 'o'], ['p', 'u'], ['p', 'u']] ⊆ _) hopen

theorem opening_of_isAsideLine {l : Line} (h : isAsideLine l = true) :
    (trim l).take 2 ∈ [[], ['/', '/']] := by
  rcases Bool.or_eq_true_iff.1 h with hblank | hcomment
  · rw [trim_eq_nil_iff.2 hblank]
    exact List.mem_cons_self
  · exact List.mem_cons_of_mem _ (opensWith_take 2 (by decide) hcomment)

theorem isWholeLine_eq_false_of_isAttributeLine {l : Line} (h : isAttributeLine l = true) :
    isWholeLine l = false := by
  rw [Bool.eq_false_iff]
  intro hwhole
  have hopen := opening_of_isWholeLine hwhole
  rw [opening_of_isAttributeLine h] at hopen
  exact absurd hopen (by decide)

theorem isWholeLine_of_isWholeDoc {l : Line} (h : isWholeDoc l = true) : isWholeLine l = true := by
  obtain ⟨w, hw, hprefix⟩ := List.any_eq_true.1 h
  refine List.any_eq_true.2 ⟨w, ?_, hprefix⟩
  rw [List.mem_singleton.1 hw]
  decide

theorem isAsideLine_of_isWholeDoc {l : Line} (h : isWholeDoc l = true) : isAsideLine l = true := by
  obtain ⟨w, hw, hprefix⟩ := List.any_eq_true.1 h
  rw [List.mem_singleton.1 hw, List.isPrefixOf_iff_prefix] at hprefix
  have hslashes : "//".toList <+: trim l := List.IsPrefix.trans (by decide) hprefix
  have hopen : opensWith ["//"] (trim l) = true :=
    List.any_eq_true.2 ⟨"//", List.mem_singleton_self _, List.isPrefixOf_iff_prefix.2 hslashes⟩
  rw [isAsideLine, hopen, Bool.or_true]

theorem isAsideLine_eq_false_of_isWholeLine {l : Line} (h : isWholeLine l = true)
    (hdoc : isWholeDoc l = false) : isAsideLine l = false := by
  have hother : opensWith ["#![", "extern crate"] (trim l) = true := by
    obtain ⟨w, hw, hprefix⟩ := List.any_eq_true.1 h
    refine List.any_eq_true.2 ⟨w, ?_, hprefix⟩
    have hne : w ≠ "//!" := by
      rintro rfl
      rw [isWholeDoc, opensWith, List.any_cons, hprefix] at hdoc
      cases hdoc
    simpa [hne] using hw
  rw [Bool.eq_false_iff]
  intro haside
  exact (by decide : ∀ o ∈ [['#', '!'], ['e', 'x']], o ∉ [[], ['/', '/']]) _
    (opensWith_take 2 (by decide) hother) (opening_of_isAsideLine haside)

theorem isPassed_eq_false_of_isModuleLine {l : Line} (h : isModuleLine l = true) :
    isPassed l = false := by
  have hopen := opening_of_isModuleLine h
  rw [Bool.eq_false_iff]
  intro hpassed
  rcases Bool.or_eq_true_iff.1 hpassed with hpassed | hattr
  · rcases Bool.or_eq_true_iff.1 hpassed with hwhole | haside
    · exact (by decide : ∀ o ∈ [['#', '!'], ['/', '/'], ['e', 'x']],
        o ∉ [['u', 's'], ['m', 'o'], ['p', 'u']]) _ (opening_of_isWholeLine hwhole) hopen
    · exact (by decide : ∀ o ∈ [[], ['/', '/']],
        o ∉ [['u', 's'], ['m', 'o'], ['p', 'u']]) _ (opening_of_isAsideLine haside) hopen
  · rw [opening_of_isAttributeLine hattr] at hopen
    exact absurd hopen (by decide)

/-! ## The walk -/

def leading (ls : List Line) : List Line := ls.takeWhile isPassed

def firstCode (ls : List Line) : Option Line := (ls.dropWhile isPassed).head?

theorem leading_append (ls : List Line) : leading ls ++ ls.dropWhile isPassed = ls :=
  List.takeWhile_append_dropWhile

theorem take_eq_take_leading {ls : List Line} {n : Nat} (h : n ≤ (leading ls).length) :
    ls.take n = (leading ls).take n :=
  calc ls.take n = (leading ls ++ ls.dropWhile isPassed).take n := by rw [leading_append]
    _ = (leading ls).take n := List.take_append_of_le_length h

theorem leading_cons {l : Line} (h : isPassed l = true) (ls : List Line) :
    leading (l :: ls) = l :: leading ls ∧ firstCode (l :: ls) = firstCode ls := by
  unfold leading firstCode
  rw [List.takeWhile_cons_of_pos h, List.dropWhile_cons_of_pos h]
  exact ⟨rfl, rfl⟩

theorem leading_cons_of_not {l : Line} (h : isPassed l = false) (ls : List Line) :
    leading (l :: ls) = [] ∧ firstCode (l :: ls) = some l := by
  have hno : ¬ isPassed l = true := Bool.eq_false_iff.1 h
  unfold leading firstCode
  rw [List.takeWhile_cons_of_neg hno, List.dropWhile_cons_of_neg hno]
  exact ⟨rfl, rfl⟩

/-- Below some lines, imports would go to line `best`: behind the last line that belongs to the
whole, if there is one, and behind comments and blank lines that follow it. -/
def Settled (head : List Line) (best : Nat) : Prop :=
  ∃ above asides below, head = above ++ asides ++ below ∧ best = (above ++ asides).length ∧
    (∀ l, above.getLast? = some l → isWholeLine l = true) ∧
    (∀ l ∈ asides, isAsideLine l = true) ∧ ∀ l ∈ asides ++ below, isWholeLine l = false

theorem settled_nil : Settled [] 0 :=
  ⟨[], [], [], rfl, rfl, by simp, by simp, by simp⟩

theorem Settled.le_length {head : List Line} {best : Nat} (h : Settled head best) :
    best ≤ head.length := by
  obtain ⟨above, asides, below, rfl, rfl, -⟩ := h
  exact (List.prefix_append (above ++ asides) below).length_le

section Step

variable {head : List Line} {best : Nat} {l : Line}

theorem settled_whole (head : List Line) (hl : isWholeLine l = true) :
    Settled (head ++ [l]) (head.length + 1) := by
  refine ⟨head ++ [l], [], [], by simp, by simp, fun w hw => ?_, by simp, by simp⟩
  rw [List.getLast?_concat, Option.some.injEq] at hw
  exact hw ▸ hl

/-- A line below that settles nothing leaves the place where it is. -/
theorem Settled.concat (h : Settled head best) (hl : isWholeLine l = false) :
    Settled (head ++ [l]) best := by
  obtain ⟨above, asides, below, rfl, rfl, hlast, hasides, hwhole⟩ := h
  refine ⟨above, asides, below ++ [l], by simp, rfl, hlast, hasides, fun m hm => ?_⟩
  rw [← List.append_assoc] at hm
  rcases List.mem_append.1 hm with hm | hm
  · exact hwhole m hm
  · exact List.mem_singleton.1 hm ▸ hl

theorem Settled.aside (h : Settled head best) (hl : isAsideLine l = true)
    (hwhole : isWholeLine l = false) :
    Settled (head ++ [l]) (if best = head.length then head.length + 1 else best) := by
  split
  · rename_i hbest
    obtain ⟨above, asides, below, rfl, rfl, hlast, hasides, hnone⟩ := h
    -- nothing stands below, so the line joins those that follow the whole
    have hbelow : below = [] := by
      simp only [List.length_append] at hbest
      exact List.length_eq_zero_iff.1 (by omega)
    subst hbelow
    refine ⟨above, asides ++ [l], [], by simp, by simp; omega, hlast, fun m hm => ?_, fun m hm => ?_⟩
    · rcases List.mem_append.1 hm with hm | hm
      · exact hasides m hm
      · exact List.mem_singleton.1 hm ▸ hl
    · rw [List.append_nil] at hm
      rcases List.mem_append.1 hm with hm | hm
      · exact hnone m (List.mem_append_left _ hm)
      · exact List.mem_singleton.1 hm ▸ hwhole
  · exact h.concat hwhole

end Step

theorem insertLineFrom_cons (row best : Nat) (l : Line) (ls : List Line) :
    insertLineFrom row best (l :: ls) =
      if isWholeLine l then insertLineFrom (row + 1) (row + 1) ls
      else if isAsideLine l then
        insertLineFrom (row + 1) (if best = row then row + 1 else best) ls
      else if isModuleLine l then row
      else if isAttributeLine l then insertLineFrom (row + 1) best ls
      else best := by
  rw [insertLineFrom, ← opensWith_attribute]
  rfl

/-- Imports go right above a module if that is the first code, and where they are settled else. -/
theorem insertLineFrom_cases (ls : List Line) {head : List Line} {best : Nat}
    (h : Settled head best) :
    ((firstCode ls).any isModuleLine = true →
      insertLineFrom head.length best ls = (head ++ leading ls).length) ∧
    ((firstCode ls).any isModuleLine = false →
      Settled (head ++ leading ls) (insertLineFrom head.length best ls)) := by
  induction ls generalizing head best with
  | nil =>
    rw [show leading [] = [] from rfl, List.append_nil]
    exact ⟨fun hmodule => absurd hmodule (by decide), fun _ => h⟩
  | cons l ls ih =>
    -- what a line that is passed comes to is told by the lines below it
    have passed : ∀ next, isPassed l = true → Settled (head ++ [l]) next →
        insertLineFrom head.length best (l :: ls) = insertLineFrom (head.length + 1) next ls →
        ((firstCode (l :: ls)).any isModuleLine = true →
          insertLineFrom head.length best (l :: ls) = (head ++ leading (l :: ls)).length) ∧
        ((firstCode (l :: ls)).any isModuleLine = false →
          Settled (head ++ leading (l :: ls)) (insertLineFrom head.length best (l :: ls))) := by
      intro next hpassed hnext hwalk
      obtain ⟨hleading, hfirst⟩ := leading_cons hpassed ls
      have hlength : (head ++ [l]).length = head.length + 1 := List.length_append
      rw [hleading, hfirst, hwalk, ← hlength, List.append_cons head l (leading ls)]
      exact ih hnext
    by_cases hwhole : isWholeLine l = true
    · refine passed _ (by rw [isPassed, hwhole]; rfl) (settled_whole head hwhole) ?_
      rw [insertLineFrom_cons, if_pos hwhole]
    have hwhole' := Bool.eq_false_iff.2 hwhole
    by_cases haside : isAsideLine l = true
    · refine passed _ (by rw [isPassed, haside, Bool.or_true]; rfl) (h.aside haside hwhole') ?_
      rw [insertLineFrom_cons, if_neg hwhole, if_pos haside]
    by_cases hattr : isAttributeLine l = true
    · have hpassed : isPassed l = true := by rw [isPassed, hattr, Bool.or_true]
      have hmodule : ¬ isModuleLine l = true := by
        intro hmodule
        rw [isPassed_eq_false_of_isModuleLine hmodule] at hpassed
        cases hpassed
      refine passed best hpassed (h.concat hwhole') ?_
      rw [insertLineFrom_cons, if_neg hwhole, if_neg haside, if_neg hmodule, if_pos hattr]
    · have hstop : isPassed l = false := by
        rw [isPassed, hwhole', Bool.eq_false_iff.2 haside, Bool.eq_false_iff.2 hattr]
        rfl
      obtain ⟨hleading, hfirst⟩ := leading_cons_of_not hstop ls
      rw [hleading, hfirst, List.append_nil, Option.any_some, insertLineFrom_cons, if_neg hwhole,
        if_neg haside, if_neg hattr]
      refine ⟨fun hmodule => if_pos hmodule, fun hmodule => ?_⟩
      rw [if_neg (Bool.eq_false_iff.1 hmodule)]
      exact h

/-! ## Imports below an attribute -/

/-- The last line that is neither blank nor a comment is an attribute. -/
def belowAttribute (head : List Line) : Bool :=
  (head.reverse.find? fun l => !isAsideLine l).any isAttributeLine

theorem belowAttribute_append {asides : List Line} (h : ∀ l ∈ asides, isAsideLine l = true)
    (head : List Line) : belowAttribute (head ++ asides) = belowAttribute head := by
  have hnone : asides.reverse.find? (fun l => !isAsideLine l) = none := by
    rw [List.find?_eq_none]
    intro l hl
    rw [h l (List.mem_reverse.1 hl)]
    decide
  unfold belowAttribute
  rw [List.reverse_append, List.find?_append, hnone, Option.none_or]

theorem belowAttribute_concat {l : Line} (h : isAsideLine l = false) (head : List Line) :
    belowAttribute (head ++ [l]) = isAttributeLine l := by
  unfold belowAttribute
  rw [List.reverse_concat, List.find?_cons_of_pos (by rw [h]; rfl), Option.any_some]

/-- Of the lines that belong to the whole, only documentation lets an attribute above it be seen. -/
theorem belowAttribute_whole {l : Line} (h : isWholeLine l = true) (head : List Line) :
    belowAttribute (head ++ [l]) = (isWholeDoc l && belowAttribute head) := by
  cases hdoc : isWholeDoc l with
  | true =>
    rw [Bool.true_and]
    refine belowAttribute_append (fun m hm => ?_) head
    exact List.mem_singleton.1 hm ▸ isAsideLine_of_isWholeDoc hdoc
  | false =>
    have hattr : isAttributeLine l = false := by
      rw [Bool.eq_false_iff]
      intro hattr
      rw [isWholeLine_eq_false_of_isAttributeLine hattr] at h
      cases h
    rw [belowAttribute_concat (isAsideLine_eq_false_of_isWholeLine h hdoc), hattr, Bool.false_and]

/-- A list has one last member with a property. -/
theorem eq_of_last {p : Line → Bool} {front front' back back' : List Line} {l l' : Line}
    (h : front ++ l :: back = front' ++ l' :: back') (hl : p l = true) (hl' : p l' = true)
    (hback : ∀ m ∈ back, p m = false) (hback' : ∀ m ∈ back', p m = false) :
    front = front' ∧ l = l' := by
  rcases List.append_eq_append_iff.1 h with ⟨between, rfl, heq⟩ | ⟨between, rfl, heq⟩
  · cases between with
    | nil => exact ⟨(List.append_nil _).symm, (List.cons.inj heq).1⟩
    | cons m between =>
      have hmem : l' ∈ back := by
        rw [(List.cons.inj heq).2]
        exact List.mem_append_right _ List.mem_cons_self
      rw [hback l' hmem] at hl'
      cases hl'
  · cases between with
    | nil => exact ⟨List.append_nil _, (List.cons.inj heq).1.symm⟩
    | cons m between =>
      have hmem : l ∈ back' := by
        rw [(List.cons.inj heq).2]
        exact List.mem_append_right _ List.mem_cons_self
      rw [hback' l hmem] at hl
      cases hl

/-- Where imports are settled, an attribute can be seen only above documentation of the whole. -/
theorem Settled.belowAttribute_iff {head : List Line} {best : Nat} (h : Settled head best) :
    belowAttribute (head.take best) = true ↔
      ∃ above doc below, head = above ++ doc :: below ∧ isWholeDoc doc = true ∧
        (∀ l ∈ below, isWholeLine l = false) ∧ belowAttribute above = true := by
  obtain ⟨above, asides, below, rfl, rfl, hlast, hasides, hwhole⟩ := h
  rw [List.take_left, belowAttribute_append hasides]
  rcases List.eq_nil_or_concat' above with rfl | ⟨front, w, rfl⟩
  · -- no line belongs to the whole
    refine ⟨fun hbelow => absurd hbelow (by decide), ?_⟩
    rintro ⟨above, doc, below', heq, hdoc, -, -⟩
    have hmem : doc ∈ asides ++ below := by
      rw [List.nil_append] at heq
      rw [heq]
      exact List.mem_append_right _ List.mem_cons_self
    have hno := hwhole doc hmem
    rw [isWholeLine_of_isWholeDoc hdoc] at hno
    cases hno
  · have hw : isWholeLine w = true := hlast w List.getLast?_concat
    rw [belowAttribute_whole hw, Bool.and_eq_true]
    constructor
    · rintro ⟨hdoc, hattr⟩
      exact ⟨front, w, asides ++ below, by simp, hdoc, hwhole, hattr⟩
    · rintro ⟨above, doc, below', heq, hdoc, hbelow, hattr⟩
      rw [List.append_assoc, List.append_assoc, List.singleton_append] at heq
      obtain ⟨rfl, rfl⟩ := eq_of_last heq hw (isWholeLine_of_isWholeDoc hdoc) hwhole hbelow
      exact ⟨hdoc, hattr⟩

/-- Imports that are put into a document come between an attribute and its item in two cases, and in
no other. Either the first code is a module (or an import that could not be read) and an attribute
stands above it; or else the last of the lines above the first code that belong to the whole is
documentation, and an attribute stands above that. Comments and blank lines may stand between. -/
theorem insertLine_below_attribute_iff (text : List Char) :
    belowAttribute ((lines text).take (insertLine (lines text))) = true ↔
      ((firstCode (lines text)).any isModuleLine = true ∧
        belowAttribute (leading (lines text)) = true) ∨
      ((firstCode (lines text)).any isModuleLine = false ∧
        ∃ above doc below, leading (lines text) = above ++ doc :: below ∧ isWholeDoc doc = true ∧
          (∀ l ∈ below, isWholeLine l = false) ∧ belowAttribute above = true) := by
  generalize lines text = ls
  obtain ⟨hmodule, hsettled⟩ := insertLineFrom_cases ls settled_nil
  rw [List.nil_append] at hmodule hsettled
  cases hfirst : (firstCode ls).any isModuleLine with
  | true =>
    have hplace : insertLine ls = (leading ls).length := hmodule hfirst
    rw [take_eq_take_leading (Nat.le_of_eq hplace), hplace, List.take_length]
    simp
  | false =>
    have hplace : Settled (leading ls) (insertLine ls) := hsettled hfirst
    rw [take_eq_take_leading hplace.le_length, hplace.belowAttribute_iff]
    simp

/-- A module that is compiled for tests only. -/
def sampleTests : List Char := "#[cfg(test)]\nmod tests;".toList

/-- An attribute above documentation of the document. -/
def sampleDocumented : List Char := "#[cfg(test)]\n//! About.\nfn f() \x7b\x7d".toList

/-- Imports that are put in come below the attribute of the module. -/
theorem insertBlock_below_sampleTests :
    (scan sampleTests).value.statements = [] ∧
      belowAttribute ((lines sampleTests).take (insertLine (lines sampleTests))) = true ∧
      (insertBlock sampleTests "use a;".toList).value =
        "#[cfg(test)]\n\nuse a;\n\nmod tests;".toList ∧
    (scan sampleDocumented).value.statements = [] ∧
      belowAttribute ((lines sampleDocumented).take (insertLine (lines sampleDocumented))) = true := by
  decide +kernel

end TidyUse.Document
