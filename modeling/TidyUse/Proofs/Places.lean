import Mathlib.Data.List.Induction
import TidyUse.Proofs.Parsing
import TidyUse.Proofs.Positions

/-!
# Places of tokens

* `Token.advance_eq` : how far some characters lead, wherever they start;
* `Token.Cuts` : a token is a word of a text, cut out at its place; `Token.cuts_tokenize`;
* `Token.pairwise_tokenize` : tokens come one behind the other;
* `Document.positionOf` : the position behind some characters; `Document.excerpt_positionOf`,
  `Document.positionOf_le`, `Document.prefix_of_positionOf_lt`;
* `Parser.spanOf_eq` : the place of a token in a document around the text.
-/

namespace TidyUse

namespace Token

open Text

theorem advance_append (place : Nat × Nat) (cs ds : List Char) :
    advance place (cs ++ ds) = advance (advance place cs) ds := List.foldl_append

theorem advance_singleton (place : Nat × Nat) (c : Char) :
    advance place [c] = if c = '\n' then (place.1 + 1, 0) else (place.1, place.2 + 1) := by
  show (if (c == '\n') = true then (place.1 + 1, 0) else (place.1, place.2 + 1)) = _
  simp only [beq_iff_eq]

/-- Rows add up. Only on the first row does the column depend on where the text starts. -/
theorem advance_eq (row column : Nat) (cs : List Char) :
    advance (row, column) cs = (row + (advance (0, 0) cs).1,
      if (advance (0, 0) cs).1 = 0 then column + (advance (0, 0) cs).2
      else (advance (0, 0) cs).2) := by
  induction cs using List.reverseRecOn with
  | nil => rfl
  | append_singleton cs c ih =>
    rw [advance_append, advance_append, ih, advance_singleton, advance_singleton]
    generalize advance (0, 0) cs = place
    by_cases hc : c = '\n'
    · simp [hc, Nat.add_assoc]
    · by_cases hrow : place.1 = 0
      · simp [hc, hrow, Nat.add_assoc]
      · simp [hc, hrow]

theorem advance_of_newline_not_mem {w : List Char} (h : '\n' ∉ w) (place : Nat × Nat) :
    advance place w = (place.1, place.2 + w.length) := by
  induction w generalizing place with
  | nil => rfl
  | cons c w ih =>
    rw [List.mem_cons, not_or] at h
    rw [← List.singleton_append, advance_append, advance_singleton, if_neg (Ne.symm h.1),
      ih h.2, List.length_append, List.length_singleton, Nat.add_assoc]

/-- No way leads back. -/
theorem le_advance (place : Nat × Nat) (cs : List Char) :
    place.1 < (advance place cs).1 ∨
      place.1 = (advance place cs).1 ∧ place.2 ≤ (advance place cs).2 := by
  rw [advance_eq]
  by_cases hrow : (advance (0, 0) cs).1 = 0
  · simp [hrow]
  · exact Or.inl (Nat.lt_add_of_pos_right (Nat.pos_of_ne_zero hrow))

theorem Genuine.newline_not_mem {t : Token} (h : t.Genuine) : '\n' ∉ t.text.toList := by
  intro hn
  unfold Genuine at h
  split at h
  · rcases isIdentifier_chars h _ hn with hc | hc
    · exact not_mem_marks hc (by decide)
    · exact absurd hc (by decide)
  · rw [h] at hn
    revert hn
    cases t.kind <;> decide

/-- The token is a word of a text that starts at a place, cut out where the token says. -/
def Cuts (place : Nat × Nat) (cs : List Char) (t : Token) : Prop :=
  ∃ pre post, cs = pre ++ t.text.toList ++ post ∧ advance place pre = (t.line, t.start) ∧
    t.stop = t.start + t.text.toList.length

theorem Cuts.skip {place : Nat × Nat} {w cs : List Char} {t : Token}
    (h : Cuts (advance place w) cs t) : Cuts place (w ++ cs) t := by
  obtain ⟨pre, post, rfl, hplace, hstop⟩ := h
  refine ⟨w ++ pre, post, ?_, ?_, hstop⟩
  · simp only [List.append_assoc]
  · rw [advance_append, hplace]

theorem cons_eq_lexeme (c : Char) (cs : List Char) :
    c :: cs = (c :: (lexeme c cs).tail) ++ (lexeme c cs).rest := by
  rw [List.cons_append, lexeme_append]

theorem cuts_lexFrom (place : Nat × Nat) (cs : List Char) :
    ∀ t ∈ lexFrom place cs, Cuts place cs t := by
  fun_induction lexFrom place cs with
  | case1 => exact fun t ht => absurd ht List.not_mem_nil
  | case2 place c cs first following kind hk ih =>
    intro t ht
    rw [cons_eq_lexeme]
    rcases List.mem_cons.1 ht with rfl | ht
    · refine ⟨[], first.rest, ?_, rfl, ?_⟩
      · rw [String.toList_ofList, List.nil_append]
      · rw [String.toList_ofList, List.length_cons, Nat.add_assoc]
    · exact (ih t ht).skip
  | case3 place c cs first following hk ih =>
    intro t ht
    rw [cons_eq_lexeme]
    exact (ih t ht).skip

def Before (t u : Token) : Prop := t.line < u.line ∨ t.line = u.line ∧ t.stop ≤ u.start

theorem pairwise_lexFrom (place : Nat × Nat) (cs : List Char)
    (hgen : ∀ t ∈ lexFrom place cs, t.Genuine) : (lexFrom place cs).Pairwise Before := by
  fun_induction lexFrom place cs with
  | case1 => exact List.Pairwise.nil
  | case2 place c cs first following kind hk ih =>
    rw [List.forall_mem_cons] at hgen
    refine List.pairwise_cons.2 ⟨fun u hu => ?_, ih hgen.2⟩
    obtain ⟨pre, post, -, hplace, -⟩ := cuts_lexFrom _ _ u hu
    have hword := hgen.1.newline_not_mem
    rw [String.toList_ofList] at hword
    have hle := le_advance (advance place (c :: first.tail)) pre
    rw [hplace, advance_of_newline_not_mem hword] at hle
    simpa only [Before, List.length_cons, ← Nat.add_assoc] using hle
  | case3 place c cs first following hk ih => exact ih hgen

theorem cuts_tokenize {text : List Char} {t : Token} (h : t ∈ tokenize text) :
    Cuts (0, 0) text t := cuts_lexFrom _ _ t h

theorem pairwise_tokenize (text : List Char) : (tokenize text).Pairwise Before :=
  pairwise_lexFrom _ _ (genuine_tokenize text)

end Token

/-! ## Positions behind some characters -/

namespace Document

open Text

def positionOf (cs : List Char) : Position :=
  ⟨(Token.advance (0, 0) cs).1, (Token.advance (0, 0) cs).2⟩

theorem advance_unlines {ls : List Line} (hls : ∀ l ∈ ls, '\n' ∉ l) {x : Line} (hx : '\n' ∉ x)
    (row : Nat) : Token.advance (row, 0) (unlines (ls ++ [x])) = (row + ls.length, x.length) := by
  induction ls generalizing row with
  | nil =>
    rw [List.nil_append, unlines, List.intercalate_singleton,
      Token.advance_of_newline_not_mem hx, Nat.zero_add]
    rfl
  | cons l ls ih =>
    rw [List.forall_mem_cons] at hls
    rw [List.cons_append, unlines_cons (by simp), ← List.singleton_append, Token.advance_append,
      Token.advance_append, Token.advance_of_newline_not_mem hls.1, Token.advance_singleton,
      if_pos rfl, ih hls.2, List.length_cons]
    simp only [Nat.add_assoc, Nat.add_comm 1]

theorem positionOf_unlines {ls : List Line} (hls : ∀ l ∈ ls, '\n' ∉ l) {x : Line}
    (hx : '\n' ∉ x) : positionOf (unlines (ls ++ [x])) = ⟨ls.length, x.length⟩ := by
  rw [positionOf, advance_unlines hls hx, Nat.zero_add]

/-- A text cut in two is cut in one of its rows. -/
theorem exists_rows_append (p q : List Char) :
    ∃ ls x y below, lines p = ls ++ [x] ∧ lines q = y :: below ∧
      lines (p ++ q) = ls ++ (x ++ y) :: below ∧
      Token.advance (0, 0) p = (ls.length, x.length) := by
  obtain ⟨ls, x, hp⟩ := List.eq_nil_or_concat (lines p) |>.resolve_left (lines_ne_nil p)
  obtain ⟨y, below, hq⟩ := List.exists_cons_of_ne_nil (lines_ne_nil q)
  rw [List.concat_eq_append] at hp
  have hpn : ∀ l ∈ ls ++ [x], '\n' ∉ l := fun l hl => newline_not_mem (hp ▸ hl)
  have hqn : ∀ l ∈ y :: below, '\n' ∉ l := fun l hl => newline_not_mem (hq ▸ hl)
  have hrows : p = unlines (ls ++ [x]) := by rw [← hp, unlines_lines]
  refine ⟨ls, x, y, below, hp, hq, ?_, ?_⟩
  · have htext : p ++ q = unlines (ls ++ (x ++ y) :: below) := by
      rw [unlines_split, ← hrows, ← hq, unlines_lines]
    rw [htext]
    refine lines_unlines (fun l hl => ?_) (by simp)
    grind
  · rw [hrows, advance_unlines (fun l hl => hpn l (List.mem_append_left _ hl)) (hpn x (by simp)),
      Nat.zero_add]

theorem charsBefore_positionOf (p q : List Char) :
    charsBefore (p ++ q) (positionOf p) = p.length := by
  obtain ⟨ls, x, y, below, hp, -, hlines, hplace⟩ := exists_rows_append p q
  have hrows : lines (p ++ q) = ls.reverse.reverse ++ (x ++ y) :: below := by
    rw [List.reverse_reverse, hlines]
  have hpos : positionOf p = ⟨ls.reverse.length, x.length⟩ := by
    rw [positionOf, hplace, List.length_reverse]
  rw [hpos, charsBefore_eq hrows, List.reverse_reverse, ← hp, unlines_lines]

theorem excerpt_positionOf (p w q : List Char) :
    excerpt (p ++ w ++ q) ⟨positionOf p, positionOf (p ++ w)⟩ = w := by
  have hstart : charsBefore (p ++ w ++ q) (positionOf p) = p.length := by
    rw [List.append_assoc]
    exact charsBefore_positionOf p (w ++ q)
  rw [excerpt, hstart, charsBefore_positionOf, List.take_left, List.drop_left]

theorem positionOf_le (p w : List Char) : positionOf p ≤ positionOf (p ++ w) := by
  have h := Token.le_advance (Token.advance (0, 0) p) w
  rw [← Token.advance_append] at h
  rw [Position.le_def]
  dsimp only [positionOf]
  omega

theorem prefix_of_positionOf_lt {p q text : List Char} (hp : p <+: text) (hq : q <+: text)
    (h : positionOf p < positionOf q) : p <+: q := by
  rcases List.prefix_or_prefix_of_prefix hp hq with hpq | ⟨w, rfl⟩
  · exact hpq
  · have hle := positionOf_le q w
    rw [Position.le_def] at hle
    rw [Position.lt_def] at h
    omega

end Document

/-! ## The place of a token in a document -/

namespace Parser

open Document

theorem spanOf_eq {t : Token} {p pre : List Char}
    (hplace : Token.advance (0, 0) pre = (t.line, t.start))
    (hstop : t.stop = t.start + t.text.toList.length) (hword : '\n' ∉ t.text.toList) :
    spanOf (positionOf p) t =
      ⟨positionOf (p ++ pre), positionOf (p ++ pre ++ t.text.toList)⟩ := by
  unfold positionOf
  rw [Token.advance_append (0, 0) (p ++ pre), Token.advance_of_newline_not_mem hword,
    Token.advance_append]
  generalize Token.advance (0, 0) p = place
  rw [Token.advance_eq place.1 place.2, hplace, spanOf, hstop]
  by_cases hrow : t.line = 0
  · simp [hrow, Int.add_assoc]
  · simp [hrow]

theorem spanOf_stop_le {t u : Token} (h : t.Before u) (base : Position) :
    (spanOf base t).stop ≤ (spanOf base u).start := by
  rw [Position.le_def]
  dsimp only [spanOf]
  rcases h with h | ⟨hline, h⟩
  · omega
  · rw [hline]
    omega

end Parser

end TidyUse
