import TidyUse.Proofs.Lexing
import TidyUse.Proofs.Places

/-!
# Tokens stand where they say

* `Token.Cuts.row` : a token cut out of a text is a part of its row;
* `Token.Genuine.lex_append` : the text of a token, with something behind that stops it, is read as
  that token; `Token.lex_spaced` : the same for tokens with spaces between them;
* `Token.tokenize_exact` : tokens are the words of the text at their places, one behind the other,
  and their texts are read as the same tokens again.
-/

namespace TidyUse.Token

open Text Document

/-! ## Rows -/

/-- The token is the part of a row of the text between its columns. -/
def OnRow (text : List Char) (t : Token) : Prop :=
  ∃ row, (lines text)[t.line]? = some row ∧ t.start < t.stop ∧ t.stop ≤ row.length ∧
    (row.take t.stop).drop t.start = t.text.toList

theorem Genuine.text_ne_nil {t : Token} (h : t.Genuine) : t.text.toList ≠ [] := by
  unfold Genuine at h
  split at h
  · intro hnil
    rw [hnil] at h
    cases h
  · rw [h]
    cases t.kind <;> decide

theorem Cuts.row {text : List Char} {t : Token} (h : Cuts (0, 0) text t) (hgen : t.Genuine) :
    OnRow text t := by
  obtain ⟨pre, post, rfl, hplace, hstop⟩ := h
  have hword := hgen.newline_not_mem
  have hpos : 0 < t.text.toList.length := List.length_pos_iff.2 hgen.text_ne_nil
  obtain ⟨ls, x, y, below, -, hy, hlines, hpre⟩ := exists_rows_append pre (t.text.toList ++ post)
  -- the word holds no line end, so that the row behind `pre` opens with it
  obtain ⟨front, word, z, below', hfront, -, hlines', -⟩ := exists_rows_append t.text.toList post
  rw [lines_of_not_mem hword, ← List.nil_append [t.text.toList]] at hfront
  obtain ⟨rfl, hlast⟩ := List.append_inj' hfront rfl
  obtain rfl : t.text.toList = word := List.singleton_inj.1 hlast
  rw [hy, List.nil_append] at hlines'
  obtain rfl : y = t.text.toList ++ z := (List.cons.inj hlines').1
  rw [hplace, Prod.mk.injEq] at hpre
  obtain ⟨hline, hstart⟩ := hpre
  refine ⟨x ++ (t.text.toList ++ z), ?_, by omega, ?_, ?_⟩
  · rw [List.append_assoc, hlines, hline, List.getElem?_append_right (Nat.le_refl _), Nat.sub_self]
    rfl
  · rw [List.length_append, List.length_append]
    omega
  · have hcut : x ++ (t.text.toList ++ z) = (x ++ t.text.toList) ++ z := by
      rw [List.append_assoc]
    rw [hcut, List.take_left' (by rw [List.length_append]; omega), List.drop_left' hstart.symm]

/-! ## Texts of tokens -/

/-- The text of a token is read as that token, if what follows stops it. -/
theorem Genuine.lex_append {t : Token} (h : t.Genuine) {cs : List Char} (hs : Stops cs) :
    lex (t.text.toList ++ cs) = t.bare :: lex cs := by
  unfold Genuine at h
  have hbare : t.bare = of t.kind t.text := rfl
  rw [hbare]
  split at h
  · rename_i hkind
    rw [hkind, lex_identifier h hs]
  · rename_i hne
    rw [h]
    have word : ∀ {c : Char} {w : List Char}, isIdentStart c = true →
        w.all isIdentContinue = true → lex (c :: w ++ cs) =
          of (Kind.ofWord (String.ofList (c :: w))) (String.ofList (c :: w)) :: lex cs :=
      fun hc hw => lex_plain hc hw hs
    cases hkind : t.kind with
    | identifier => exact absurd hkind hne
    | useWord | pubWord | asWord | selfWord | crateWord | superWord | inWord =>
      exact word (by decide +kernel) (by decide +kernel)
    | pathSep => exact lex_pathSep cs
    | openBrace | closeBrace | comma | semicolon | star | openParen | closeParen =>
      exact lex_mark _ rfl cs

/-- Tokens as text, with a space between each two. -/
def spaced (ts : List Token) : List Char := [' '].intercalate (ts.map fun t => t.text.toList)

theorem lex_spaced {ts : List Token} (h : ∀ t ∈ ts, t.Genuine) :
    lex (spaced ts) = ts.map bare := by
  induction ts with
  | nil => exact lex_nil
  | cons t ts ih =>
    rw [List.forall_mem_cons] at h
    cases ts with
    | nil =>
      have hlast : Stops [] := fun c hc => by cases hc
      have hlex := h.1.lex_append hlast
      rw [List.append_nil, lex_nil] at hlex
      unfold spaced
      rw [List.map_singleton, List.intercalate_singleton, hlex, List.map_singleton]
    | cons u ts =>
      have hspace : spaced (t :: u :: ts) = t.text.toList ++ ' ' :: spaced (u :: ts) := by
        unfold spaced
        rw [List.map_cons, List.map_cons, List.intercalate_cons_cons, List.append_assoc]
        rfl
      rw [hspace, h.1.lex_append (stops_cons (by decide) (by decide) _), lex_space (by decide),
        ih h.2]
      rfl

/-- Every token of a text is a part of a row of it, between the columns that the token names. The
tokens come one behind the other without overlap. Written with single spaces between them, they are
read as the same kinds and texts again. -/
theorem tokenize_exact (text : List Char) :
    (∀ t ∈ tokenize text, OnRow text t) ∧
      (tokenize text).Pairwise (fun t u =>
        t.line < u.line ∨ t.line = u.line ∧ t.start < u.start ∧ t.stop ≤ u.start) ∧
      (tokenize (spaced (tokenize text))).map (fun t => (t.kind, t.text)) =
        (tokenize text).map fun t => (t.kind, t.text) := by
  have hgen := genuine_tokenize text
  have hrow : ∀ t ∈ tokenize text, OnRow text t := fun t ht => (cuts_tokenize ht).row (hgen t ht)
  refine ⟨hrow, ?_, ?_⟩
  · refine (pairwise_tokenize text).imp_of_mem fun {t u} ht _ hbefore => ?_
    obtain ⟨row, -, hlt, -⟩ := hrow t ht
    unfold Before at hbefore
    omega
  · have hlex := congrArg (List.map fun t : Token => (t.kind, t.text)) (lex_spaced hgen)
    unfold lex at hlex
    rw [List.map_map, List.map_map] at hlex
    exact hlex

example : (tokenize "use a/* b\n*/::r#in; ".toList).map (fun t => (t.text, t.line, t.start, t.stop)) =
    [("use", 0, 0, 3), ("a", 0, 4, 5), ("::", 1, 2, 4), ("r#in", 1, 4, 8), (";", 1, 8, 9)] := by
  decide +kernel

end TidyUse.Token
