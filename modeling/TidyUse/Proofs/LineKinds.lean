import Mathlib.Data.List.Basic
import TidyUse.Document.LineKind
import TidyUse.Proofs.Words

/-!
# What a line opens with

* `Text.trimStart_append`, `Text.dropEndWhile_cons` : trimming piece by piece;
* `commentLines_eq_none_iff`, `isCommentLine_eq_false_of_cons`, `isAttributeLine_iff` : kinds of lines
  by their first characters;
* `opensUse_append`, `opensUse_head` : what a declaration opens with;
* `findStart_blank` : a declaration behind white space is found.
-/

namespace TidyUse

namespace Text

theorem trimStart_append {ws : List Char} (h : isBlank ws = true) (cs : List Char) :
    trimStart (ws ++ cs) = trimStart cs :=
  List.dropWhile_append_of_pos (List.all_eq_true.1 h)

theorem trimStart_append_of_ne {cs : List Char} (h : trimStart cs ≠ []) (ds : List Char) :
    trimStart (cs ++ ds) = trimStart cs ++ ds := by
  rw [trimStart, List.dropWhile_append, if_neg]
  · rfl
  · rw [List.isEmpty_iff]
    exact h

theorem trimStart_cons {c : Char} (h : isSpace c = false) (cs : List Char) :
    trimStart (c :: cs) = c :: cs := by
  rw [trimStart, List.dropWhile_cons_of_neg (by rw [h]; exact Bool.false_ne_true)]

theorem trimStart_eq_nil_iff {l : List Char} : trimStart l = [] ↔ isBlank l = true :=
  dropWhile_eq_nil

theorem isSpace_of_trimStart {l cs : List Char} {c : Char} (h : trimStart l = c :: cs) :
    isSpace c = false := by
  have := List.head?_dropWhile_not isSpace l
  rw [trimStart] at h
  rw [h] at this
  simpa using this

theorem dropEndWhile_cons {p : Char → Bool} {c : Char} (h : p c = false) (cs : List Char) :
    dropEndWhile p (c :: cs) = c :: dropEndWhile p cs := by
  rw [dropEndWhile, dropEndWhile, List.reverse_cons, List.dropWhile_append]
  split
  · rename_i hnil
    rw [List.isEmpty_iff] at hnil
    rw [hnil, List.dropWhile_cons_of_neg (by rw [h]; exact Bool.false_ne_true)]
    rfl
  · rw [List.reverse_append]
    rfl

theorem dropEndWhile_append (p : Char → Bool) (l : List Char) :
    ∃ ws, ws.all p = true ∧ dropEndWhile p l ++ ws = l := by
  refine ⟨(l.reverse.takeWhile p).reverse, ?_, ?_⟩
  · rw [List.all_reverse]
    exact List.all_takeWhile
  · rw [dropEndWhile, ← List.reverse_append, List.takeWhile_append_dropWhile, List.reverse_reverse]

theorem dropEndWhile_append_of_ne {p : Char → Bool} {ds : List Char} (h : dropEndWhile p ds ≠ [])
    (cs : List Char) : dropEndWhile p (cs ++ ds) = cs ++ dropEndWhile p ds := by
  have hne : (ds.reverse.dropWhile p).isEmpty = false := by
    rw [List.isEmpty_eq_false_iff]
    intro hnil
    exact h (by rw [dropEndWhile, hnil]; rfl)
  rw [dropEndWhile, List.reverse_append, List.dropWhile_append, if_neg (by rw [hne]; exact Bool.false_ne_true),
    List.reverse_append, List.reverse_reverse]
  rfl

theorem dropEndWhile_append_of_nil {p : Char → Bool} {ds : List Char}
    (h : dropEndWhile p ds = []) (cs : List Char) :
    dropEndWhile p (cs ++ ds) = dropEndWhile p cs := by
  have hnil : (ds.reverse.dropWhile p).isEmpty = true := by
    rw [List.isEmpty_iff]
    exact List.reverse_eq_nil_iff.1 h
  rw [dropEndWhile, List.reverse_append, List.dropWhile_append, if_pos hnil]
  rfl

theorem dropEndWhile_concat {p : Char → Bool} {c : Char} (h : p c = false) (cs : List Char) :
    dropEndWhile p (cs ++ [c]) = cs ++ [c] := by
  have hc : dropEndWhile p [c] = [c] := dropEndWhile_cons h []
  rw [dropEndWhile_append_of_ne (by rw [hc]; simp), hc]

/-- What is left, if anything, ends with a character on which `p` fails. -/
theorem dropEndWhile_ends (p : Char → Bool) (l : List Char) :
    dropEndWhile p l = [] ∨ ∃ cs c, dropEndWhile p l = cs ++ [c] ∧ p c = false := by
  have hhead := List.head?_dropWhile_not p l.reverse
  rw [dropEndWhile]
  cases hrest : l.reverse.dropWhile p with
  | nil => exact Or.inl rfl
  | cons c cs =>
    rw [hrest] at hhead
    exact Or.inr ⟨cs.reverse, c, List.reverse_cons, by simpa using hhead⟩

theorem dropWhile_append_of_ne {p : Char → Bool} {cs : List Char} (h : cs.dropWhile p ≠ [])
    (ds : List Char) : (cs ++ ds).dropWhile p = cs.dropWhile p ++ ds := by
  rw [List.dropWhile_append, if_neg]
  rw [List.isEmpty_iff]
  exact h

theorem trim_append_right {ws : List Char} (h : isBlank ws = true) (cs : List Char) :
    trim (cs ++ ws) = trim cs := by
  by_cases hcs : isBlank cs = true
  · have hboth : isBlank (cs ++ ws) = true := by
      rw [isBlank, List.all_append, Bool.and_eq_true]
      exact ⟨hcs, h⟩
    rw [trim_eq_nil_iff.2 hcs, trim_eq_nil_iff.2 hboth]
  · have hne : trimStart cs ≠ [] := by rwa [Ne, trimStart_eq_nil_iff]
    rw [trim, trimStart_append_of_ne hne, trimEnd, dropEndWhile_append_of_nil (dropEndWhile_eq_nil.2 h)]
    rfl

theorem trim_append_left {ws : List Char} (h : isBlank ws = true) (cs : List Char) :
    trim (ws ++ cs) = trim cs := by
  rw [trim, trimStart_append h, trim]

theorem indent_append {ws cs : List Char} (h : isBlank ws = true) :
    indent (ws ++ cs) = ws.length + indent cs := by
  rw [indent, List.takeWhile_append_of_pos (List.all_eq_true.1 h), List.length_append, indent]

end Text

namespace Document

open Text

/-! ## Kinds of lines -/

theorem opensComment_eq_true {cs : List Char} (h : opensComment cs = true) :
    ∃ r, cs = '/' :: '/' :: r ∨ cs = '/' :: '*' :: r := by
  unfold opensComment at h
  split at h
  · exact ⟨_, Or.inl rfl⟩
  · exact ⟨_, Or.inr rfl⟩
  · cases h

theorem isCommentLine_eq_false_of_cons {l cs : List Char} {c : Char} (h : trimStart l = c :: cs)
    (hc : c ≠ '/') : isCommentLine l = false := by
  rw [isCommentLine, h, Bool.eq_false_iff]
  intro ho
  obtain ⟨r, hr | hr⟩ := opensComment_eq_true ho
  · exact hc (List.cons.inj hr).1
  · exact hc (List.cons.inj hr).1

theorem isAttributeLine_iff {l : Line} :
    isAttributeLine l = true ↔ ∃ cs, trimStart l = '#' :: '[' :: cs := by
  rw [isAttributeLine, List.isPrefixOf_iff_prefix]
  exact ⟨fun ⟨cs, h⟩ => ⟨cs, h.symm⟩, fun ⟨cs, h⟩ => ⟨cs, h.symm⟩⟩

theorem isInnerAttributeLine_iff {l : Line} :
    isInnerAttributeLine l = true ↔ ∃ cs, trimStart l = '#' :: '!' :: '[' :: cs := by
  rw [isInnerAttributeLine, List.isPrefixOf_iff_prefix]
  exact ⟨fun ⟨cs, h⟩ => ⟨cs, h.symm⟩, fun ⟨cs, h⟩ => ⟨cs, h.symm⟩⟩

theorem isBlank_eq_false_of_cons {l cs : List Char} {c : Char} (h : trimStart l = c :: cs) :
    isBlank l = false := by
  rw [Bool.eq_false_iff]
  intro hb
  rw [trimStart_eq_nil_iff.2 hb] at h
  cases h

/-- The text of the comment that opens a line. -/
theorem commentLines_eq (line : Line) (below : List Line) :
    commentLines line below =
      match trimStart line with
      | '/' :: '/' :: _ => some 0
      | '/' :: '*' :: text => some (linesToClose (trimEnd text) below)
      | _ => none := by
  have hslash : isSpace '/' = false := by decide
  have hstar : isSpace '*' = false := by decide
  obtain ⟨ws, hws, happend⟩ := dropEndWhile_append isSpace (trimStart line)
  rw [commentLines, trim, trimEnd]
  split
  · rename_i r heq
    rw [heq] at happend
    rw [← happend]
    rfl
  · rename_i text heq
    rw [heq] at happend
    have hcons : dropEndWhile isSpace ('/' :: '*' :: (text ++ ws)) = '/' :: '*' :: text := by
      rw [← heq, ← happend]
      rfl
    rw [dropEndWhile_cons hslash, dropEndWhile_cons hstar] at hcons
    rw [← happend]
    simp only [List.cons_append]
    rw [trimEnd, (List.cons.inj (List.cons.inj hcons).2).2]
  · rename_i hline hblock
    split
    · rename_i r heq
      rw [heq, dropEndWhile_cons hslash, dropEndWhile_cons hslash] at hline
      exact absurd rfl (hline _)
    · rename_i text heq
      rw [heq, dropEndWhile_cons hslash, dropEndWhile_cons hstar] at hblock
      exact absurd rfl (hblock _)
    · rfl

theorem commentLines_eq_none_iff {line : Line} {below : List Line} :
    commentLines line below = none ↔ isCommentLine line = false := by
  rw [commentLines_eq, isCommentLine]
  generalize trimStart line = cs
  unfold opensComment
  split <;> simp

/-! ## Where declarations start -/

theorem opensUseWord_append {cs : List Char} (h : opensUseWord cs = true) (ds : List Char) :
    opensUseWord (cs ++ ds) = true := by
  unfold opensUseWord at h
  split at h
  · exact h
  · cases h

theorem opensUseWord_trimStart_append {cs : List Char} (h : opensUseWord (trimStart cs) = true)
    (ds : List Char) : opensUseWord (trimStart (cs ++ ds)) = true := by
  have hne : trimStart cs ≠ [] := by
    intro hnil
    rw [hnil] at h
    cases h
  rw [trimStart_append_of_ne hne]
  exact opensUseWord_append h ds

theorem opensUseWord_skipParens_append {cs : List Char}
    (h : opensUseWord (trimStart (skipParens cs)) = true) (ds : List Char) :
    opensUseWord (trimStart (skipParens (cs ++ ds))) = true := by
  unfold skipParens at h
  split at h
  · rename_i cs
    rw [List.cons_append]
    split at h
    · rename_i c rest heq
      rw [skipParens, List.dropWhile_append, if_neg (by rw [heq]; exact Bool.false_ne_true), heq]
      exact opensUseWord_trimStart_append h ds
    · rw [trimStart_cons (by decide)] at h
      cases h
  · rename_i hne
    cases cs with
    | nil => cases h
    | cons c cs =>
      rw [List.cons_append, skipParens]
      · exact opensUseWord_trimStart_append h ds
      · rintro r hr
        exact hne cs (by rw [(List.cons.inj hr).1])

/-- What follows has no influence on a text that opens with a declaration. -/
theorem opensUse_append {cs : List Char} (h : opensUse cs = true) (ds : List Char) :
    opensUse (cs ++ ds) = true := by
  unfold opensUse at h
  split at h
  · rename_i cs
    have hne : trimStart cs ≠ [] := by
      intro hnil
      rw [hnil] at h
      cases h
    show opensUseWord (trimStart (skipParens (trimStart (cs ++ ds)))) = true
    rw [trimStart_append_of_ne hne]
    exact opensUseWord_skipParens_append h ds
  · unfold opensUseWord at h
    split at h
    · exact h
    · cases h

theorem opensUse_head {cs : List Char} (h : opensUse cs = true) :
    ∃ c r, cs = c :: r ∧ (c = 'p' ∨ c = 'u') := by
  unfold opensUse at h
  split at h
  · exact ⟨_, _, rfl, Or.inl rfl⟩
  · unfold opensUseWord at h
    split at h
    · exact ⟨_, _, rfl, Or.inr rfl⟩
    · cases h

theorem opensUse_eq_false_of_isSpace {c : Char} (h : isSpace c = true) (cs : List Char) :
    opensUse (c :: cs) = false := by
  rw [Bool.eq_false_iff]
  intro ho
  obtain ⟨d, r, hr, hd⟩ := opensUse_head ho
  obtain ⟨rfl, -⟩ := List.cons.inj hr
  rcases hd with rfl | rfl <;> revert h <;> decide

theorem firstUse_blank {ws : List Char} (h : isBlank ws = true) (column : Nat) (cs : List Char) :
    firstUse column false (ws ++ cs) = firstUse (column + ws.length) false cs := by
  induction ws generalizing column with
  | nil => rfl
  | cons c ws ih =>
    rw [isBlank, List.all_cons, Bool.and_eq_true] at h
    have hword : isWordChar c = false := by
      rw [Bool.eq_false_iff]
      intro hw
      rw [not_isSpace_of_isWordChar hw] at h
      exact Bool.false_ne_true h.1
    rw [List.cons_append, firstUse, opensUse_eq_false_of_isSpace h.1, hword, Bool.and_false,
      if_neg Bool.false_ne_true, ih h.2, List.length_cons, Nat.add_assoc, Nat.add_comm 1]

theorem firstUse_of_opensUse {cs : List Char} (h : opensUse cs = true) (column : Nat) :
    firstUse column false cs = some column := by
  obtain ⟨c, r, rfl, -⟩ := opensUse_head h
  rw [firstUse, h, Bool.not_false, Bool.and_self, if_pos rfl]

theorem holdsComment_blank {ws : List Char} (h : isBlank ws = true) : holdsComment ws = false := by
  induction ws with
  | nil => rfl
  | cons c ws ih =>
    rw [isBlank, List.all_cons, Bool.and_eq_true] at h
    have hopen : opensComment (c :: ws) = false := by
      rw [Bool.eq_false_iff]
      intro ho
      have hc : c = '/' := by
        obtain ⟨r, hr | hr⟩ := opensComment_eq_true ho <;> exact (List.cons.inj hr).1
      rw [hc] at h
      exact absurd h.1 (by decide)
    rw [holdsComment, hopen, Bool.false_or]
    exact ih h.2

theorem braceStep_eq_zero {c : Char} (hopen : c ≠ '\x7b') (hclose : c ≠ '\x7d') :
    braceStep c = 0 := by
  unfold braceStep
  rw [if_neg (mt beq_iff_eq.1 hopen), if_neg (mt beq_iff_eq.1 hclose)]

@[simp] theorem openBraces_nil : openBraces [] = 0 := rfl

@[simp] theorem openBraces_cons (c : Char) (cs : List Char) :
    openBraces (c :: cs) = braceStep c + openBraces cs := rfl

@[simp] theorem openBraces_append (cs ds : List Char) :
    openBraces (cs ++ ds) = openBraces cs + openBraces ds := by
  induction cs with
  | nil => simp
  | cons c cs ih => rw [List.cons_append, openBraces_cons, ih, openBraces_cons, Int.add_assoc]

theorem openBraces_blank {ws : List Char} (h : isBlank ws = true) : openBraces ws = 0 := by
  induction ws with
  | nil => rfl
  | cons c ws ih =>
    rw [isBlank, List.all_cons, Bool.and_eq_true] at h
    have hstep : braceStep c = 0 := by
      apply braceStep_eq_zero
      · rintro rfl
        exact absurd h.1 (by decide)
      · rintro rfl
        exact absurd h.1 (by decide)
    rw [openBraces_cons, hstep, ih h.2]
    rfl

/-- A declaration behind white space is found. -/
theorem findStart_blank {ws cs : List Char} (hws : isBlank ws = true) (h : opensUse cs = true) :
    findStart (ws ++ cs) 0 = some ws.length := by
  have hfirst : firstUse 0 false (ws ++ cs) = some ws.length := by
    rw [firstUse_blank hws, firstUse_of_opensUse h, Nat.zero_add]
  have hbetween : ((ws ++ cs).take ws.length).drop (clip (ws ++ cs).length 0) = ws := by
    rw [List.take_left]
    rfl
  rw [findStart]
  show Option.filter _ (firstUse 0 false (ws ++ cs)) = _
  rw [hfirst, Option.filter_some, hbetween, if_pos]
  show (!holdsComment ws && decide (openBraces ws ≤ 0)) = true
  rw [holdsComment_blank hws, openBraces_blank hws]
  rfl

end Document

end TidyUse
