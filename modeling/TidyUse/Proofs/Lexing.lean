import TidyUse.Proofs.Parsing
import TidyUse.UseTree.Printer

/-!
# The tokens of printed text

* `Token.lex` : the tokens of a text without their places;
* `Token.lex_word`, `Token.lex_mark`, `Token.lex_spaces` : a text read piece by piece;
* `UseTree.tokens` : the tokens of a tree; `UseTree.lex_format`.
-/

namespace TidyUse

open Text

namespace Token

/-- The tokens of a text without their places. -/
def lex (cs : List Char) : List Token := (tokenize cs).map bare

def of (kind : Kind) (text : String) : Token := ⟨kind, text, 0, 0, 0⟩

theorem lexFrom_cons_of_some {c : Char} {cs : List Char} {kind : Kind}
    (h : (lexeme c cs).kind = some kind) (place : Nat × Nat) :
    lexFrom place (c :: cs) =
      ⟨kind, String.ofList (c :: (lexeme c cs).tail), place.1, place.2,
          place.2 + (lexeme c cs).tail.length + 1⟩ ::
        lexFrom (advance place (c :: (lexeme c cs).tail)) (lexeme c cs).rest := by
  rw [lexFrom.eq_def]
  simp only [h]

theorem lexFrom_cons_of_none {c : Char} {cs : List Char} (h : (lexeme c cs).kind = none)
    (place : Nat × Nat) :
    lexFrom place (c :: cs) =
      lexFrom (advance place (c :: (lexeme c cs).tail)) (lexeme c cs).rest := by
  rw [lexFrom.eq_def]
  simp only [h]

theorem map_bare_lexFrom (place place' : Nat × Nat) (cs : List Char) :
    (lexFrom place cs).map bare = (lexFrom place' cs).map bare := by
  fun_induction lexFrom place cs generalizing place' with
  | case1 => rw [lexFrom.eq_def]
  | case2 place c cs first following kind hk ih =>
    rw [lexFrom_cons_of_some hk]
    exact congrArg (List.cons (of kind (String.ofList (c :: (lexeme c cs).tail)))) (ih _)
  | case3 place c cs first following hk ih =>
    rw [lexFrom_cons_of_none hk]
    exact ih _

@[simp] theorem lex_nil : lex [] = [] := by rw [lex, tokenize, lexFrom.eq_def]; rfl

theorem lex_cons_of_some {c : Char} {cs : List Char} {kind : Kind}
    (h : (lexeme c cs).kind = some kind) :
    lex (c :: cs) = of kind (String.ofList (c :: (lexeme c cs).tail)) :: lex (lexeme c cs).rest := by
  rw [lex, tokenize, lexFrom_cons_of_some h, List.map_cons, map_bare_lexFrom _ (0, 0)]
  rfl

theorem lex_cons_of_none {c : Char} {cs : List Char} (h : (lexeme c cs).kind = none) :
    lex (c :: cs) = lex (lexeme c cs).rest := by
  rw [lex, tokenize, lexFrom_cons_of_none h]
  exact map_bare_lexFrom _ _ _

theorem lex_space {c : Char} (h : isSpace c = true) (cs : List Char) : lex (c :: cs) = lex cs := by
  have hl : lexeme c cs = ⟨none, [], cs⟩ := by
    unfold lexeme
    exact if_pos h
  rw [lex_cons_of_none (by rw [hl]), hl]

theorem lex_spaces {ws : List Char} (h : ws.all isSpace = true) (cs : List Char) :
    lex (ws ++ cs) = lex cs := by
  induction ws with
  | nil => rfl
  | cons c ws ih =>
    rw [List.all_cons, Bool.and_eq_true] at h
    rw [List.cons_append, lex_space h.1, ih h.2]

theorem lex_mark {c : Char} (kind : Kind) (h : Kind.ofMark? c = some kind) (cs : List Char) :
    lex (c :: cs) = of kind (String.ofList [c]) :: lex cs := by
  have hl : lexeme c cs = ⟨some kind, [], cs⟩ := by
    unfold Kind.ofMark? at h
    split at h <;> cases h <;> rfl
  rw [lex_cons_of_some (by rw [hl]), hl]

theorem lex_pathSep (cs : List Char) : lex (':' :: ':' :: cs) = of .pathSep "::" :: lex cs := by
  have hl : lexeme ':' (':' :: cs) = ⟨some .pathSep, [':'], cs⟩ := rfl
  rw [lex_cons_of_some (by rw [hl]), hl]

/-- No word goes on with the text. -/
def Stops (cs : List Char) : Prop := ∀ c, cs.head? = some c → isIdentContinue c = false ∧ c ≠ '#'

theorem stops_cons {c : Char} (h : c ∈ marks) (hne : c ≠ '#') (cs : List Char) : Stops (c :: cs) := by
  intro d hd
  cases hd
  exact ⟨isIdentContinue_mark c h, hne⟩

theorem takeWhile_of_stops {w cs : List Char} (hw : w.all isIdentContinue = true) (hs : Stops cs) :
    (w ++ cs).takeWhile isIdentContinue = w ∧ (w ++ cs).dropWhile isIdentContinue = cs := by
  have hw' : ∀ c ∈ w, isIdentContinue c = true := List.all_eq_true.1 hw
  rw [List.takeWhile_append_of_pos hw', List.dropWhile_append_of_pos hw']
  cases cs with
  | nil => exact ⟨List.append_nil w, rfl⟩
  | cons c cs =>
    have hc := (hs c rfl).1
    rw [List.takeWhile_cons_of_neg (by rw [hc]; decide), List.append_nil,
      List.dropWhile_cons_of_neg (by rw [hc]; decide)]
    exact ⟨rfl, rfl⟩

theorem lexeme_word {c : Char} {w cs : List Char} (hc : isIdentStart c = true)
    (hw : w.all isIdentContinue = true) (hs : Stops cs) :
    lexeme c (w ++ cs) = ⟨some (Kind.ofWord (String.ofList (c :: w))), w, cs⟩ := by
  have hcont := isIdentContinue_of_isIdentStart hc
  have hmarks := not_mem_marks hcont
  obtain ⟨htake, hdrop⟩ := takeWhile_of_stops hw hs
  have hsimple : simpleLexeme c (w ++ cs) =
      ⟨some (Kind.ofWord (String.ofList (c :: w))), w, cs⟩ := by
    have hm : Kind.ofMark? c = none := by
      unfold Kind.ofMark?
      split <;> first | rfl | exact absurd (by decide) hmarks
    rw [simpleLexeme, hm]
    simp only [hc, if_true, word, htake, hdrop]
  unfold lexeme
  rw [if_neg (by rw [not_isSpace_of_isIdentContinue hcont]; exact Bool.false_ne_true)]
  split
  · exact absurd (by decide) hmarks
  · exact absurd (by decide) hmarks
  · exact absurd (by decide) hmarks
  · -- a raw identifier: the `#` would belong to the word or follow it
    rename_i d r heq
    cases w with
    | nil => exact absurd rfl (hs '#' (by rw [← List.nil_append cs, heq]; rfl)).2
    | cons e w =>
      obtain ⟨rfl, -⟩ := List.cons.inj heq
      have hhash : isIdentContinue '#' = true := List.all_eq_true.1 hw '#' List.mem_cons_self
      exact absurd hhash (by rw [isIdentContinue_mark '#' (by decide)]; decide)
  · exact hsimple

/-- A word is one token, if the text behind it stops it. -/
theorem lex_plain {w : List Char} {c : Char} {cs : List Char} (hc : isIdentStart c = true)
    (hw : w.all isIdentContinue = true) (hs : Stops cs) :
    lex (c :: w ++ cs) =
      of (Kind.ofWord (String.ofList (c :: w))) (String.ofList (c :: w)) :: lex cs := by
  have hl := lexeme_word hc hw hs
  rw [List.cons_append, lex_cons_of_some (by rw [hl]), hl]

theorem lex_raw {w cs : List Char} {d : Char} (hd : isIdentStart d = true)
    (hw : w.all isIdentContinue = true) (hs : Stops cs) :
    lex ('r' :: '#' :: d :: w ++ cs) =
      of .identifier (String.ofList ('r' :: '#' :: d :: w)) :: lex cs := by
  obtain ⟨htake, hdrop⟩ := takeWhile_of_stops hw hs
  have hl : lexeme 'r' ('#' :: d :: (w ++ cs)) = ⟨some .identifier, '#' :: d :: w, cs⟩ := by
    show (if isIdentStart d = true then _ else _) = _
    rw [if_pos hd, htake, hdrop]
  rw [List.cons_append, List.cons_append, List.cons_append, lex_cons_of_some (by rw [hl]), hl]

def wordKind (word : String) : Kind :=
  if isIdentifier word.toList then .identifier else Kind.ofWord word

def ofWord (word : String) : Token := of (wordKind word) word

theorem lex_identifier {w : String} (h : isIdentifier w.toList = true) {cs : List Char}
    (hs : Stops cs) : lex (w.toList ++ cs) = of .identifier w :: lex cs := by
  unfold isIdentifier at h
  split at h
  · rename_i d r heq
    rw [Bool.and_eq_true] at h
    rw [heq, lex_raw h.1 h.2 hs, ← heq, String.ofList_toList]
  · rename_i c r _ heq
    rw [Bool.and_eq_true, Bool.and_eq_true, beq_iff_eq] at h
    rw [heq, lex_plain h.1.1 h.1.2 hs, h.2, ← heq, String.ofList_toList]
  · cases h

theorem lex_word {w : String} (h : isSegmentWord w = true) {cs : List Char} (hs : Stops cs) :
    lex (w.toList ++ cs) = ofWord w :: lex cs := by
  rw [ofWord, wordKind]
  by_cases hid : isIdentifier w.toList = true
  · rw [if_pos hid, lex_identifier hid hs]
  · rw [if_neg hid]
    simp only [isSegmentWord, hid, Bool.false_or, Bool.or_eq_true, beq_iff_eq] at h
    rcases h with (rfl | rfl) | rfl
    · exact lex_plain (by decide +kernel) (by decide +kernel) hs
    · exact lex_plain (by decide +kernel) (by decide +kernel) hs
    · exact lex_plain (by decide +kernel) (by decide +kernel) hs

end Token

namespace UseTree

def renameTokens : Option String → List Token
  | none => []
  | some name => [.of .asWord "as", .of .identifier name]

mutual

def tokens : UseTree → List Token
  | glob _ => [.of .star "*"]
  | node s [] => .ofWord s.name :: renameTokens s.rename
  | node s (c :: cs) =>
    .ofWord s.name :: .of .pathSep "::" ::
      if needsBraces (c :: cs) then
        .of .openBrace "\x7b" :: (tokensAll (c :: cs) ++ [.of .closeBrace "\x7d"])
      else tokens c

def tokensAll : List UseTree → List Token
  | [] => []
  | t :: ts => tokens t ++ .of .comma "," :: tokensAll ts

end

theorem toList_format_leaf (indent : String) (s : Segment) (h : ∀ r, s.rename = some r → r ≠ "") :
    ((node s []).format indent).toList =
      s.name.toList ++ (s.rename.elim [] fun r => " as ".toList ++ r.toList) := by
  rw [format, Segment.format]
  cases hr : s.rename with
  | none => simp
  | some r =>
    have hne := h r hr
    split
    · rename_i heq
      cases heq
    · rename_i heq
      exact absurd (Option.some.inj heq) hne
    · rename_i heq
      cases heq
      rw [String.toList_append, String.toList_append, List.append_assoc]
      rfl

theorem toList_format_braces (indent : String) (s : Segment) {c : UseTree} {cs : List UseTree}
    (h : needsBraces (c :: cs) = true) :
    ((node s (c :: cs)).format indent).toList =
      s.name.toList ++ (':' :: ':' :: '\x7b' :: '\n' ::
        ((formatLines (indent ++ indentStep) (c :: cs)).toList ++ (indent.toList ++ ['\x7d']))) := by
  rw [format, if_pos h]
  simp only [String.toList_append, List.append_assoc]
  rfl

theorem toList_format_path (indent : String) (s : Segment) {c : UseTree} {cs : List UseTree}
    (h : needsBraces (c :: cs) = false) :
    ((node s (c :: cs)).format indent).toList =
      s.name.toList ++ (':' :: ':' :: (c.format indent).toList) := by
  rw [format, if_neg (by rw [h]; exact Bool.false_ne_true)]
  simp only [String.toList_append, List.append_assoc]
  rfl

theorem toList_formatLines_cons (indent : String) (t : UseTree) (ts : List UseTree) :
    (formatLines indent (t :: ts)).toList =
      indent.toList ++ ((t.format indent).toList ++
        (',' :: '\n' :: (formatLines indent ts).toList)) := by
  rw [formatLines]
  simp only [String.toList_append, List.append_assoc]
  rfl

theorem needsBraces_singleton_of_not {c : UseTree} {cs : List UseTree}
    (h : needsBraces (c :: cs) = false) : cs = [] ∧ c.isSelf = false ∧ c.isGlob = false := by
  cases cs with
  | nil => exact ⟨rfl, Bool.or_eq_false_iff.1 h⟩
  | cons d cs => cases h

theorem isIdentifier_ne_empty {r : String} (h : Token.isIdentifier r.toList = true) : r ≠ "" := by
  rintro rfl
  cases h

theorem lex_formatLines {cs : List UseTree} {indent : String} (hi : indent.toList.all isSpace = true)
    (hcs : ∀ c ∈ cs, ∀ rest, Token.Stops rest →
      Token.lex ((c.format indent).toList ++ rest) = c.tokens ++ Token.lex rest) (rest : List Char) :
    Token.lex ((formatLines indent cs).toList ++ rest) = tokensAll cs ++ Token.lex rest := by
  induction cs with
  | nil =>
    rw [formatLines, tokensAll]
    rfl
  | cons c cs ih =>
    have hcomma : Token.Stops (',' :: '\n' :: ((formatLines indent cs).toList ++ rest)) :=
      Token.stops_cons (by decide) (by decide) _
    rw [toList_formatLines_cons, tokensAll, List.append_assoc, List.append_assoc,
      Token.lex_spaces hi, List.cons_append, List.cons_append, hcs c List.mem_cons_self _ hcomma,
      Token.lex_mark .comma rfl, Token.lex_space (by decide),
      ih fun d hd => hcs d (List.mem_cons_of_mem _ hd), List.append_assoc]
    rfl

/-- Printing a tree gives the tokens of the tree. -/
theorem lex_format {t : UseTree} (h : t.GrammaticalBelow) {indent : String}
    (hi : indent.toList.all isSpace = true) {rest : List Char} (hs : Token.Stops rest) :
    Token.lex ((t.format indent).toList ++ rest) = t.tokens ++ Token.lex rest := by
  induction t generalizing indent rest with
  | glob s =>
    rw [format, tokens]
    exact Token.lex_mark .star rfl rest
  | node s cs ih =>
    have hname := h.name_isSegmentWord
    cases cs with
    | nil =>
      cases h with
      | branch _ _ some _ => exact absurd rfl some
      | leaf _ rename =>
        rw [toList_format_leaf indent s fun r hr => isIdentifier_ne_empty (rename r hr), tokens]
        cases hr : s.rename with
        | none =>
          rw [Option.elim_none, List.append_nil, Token.lex_word hname hs]
          rfl
        | some r =>
          have hspace : Token.Stops (" as ".toList ++ r.toList ++ rest) :=
            Token.stops_cons (c := ' ') (by decide) (by decide) _
          have hspace' : Token.Stops (' ' :: (r.toList ++ rest)) :=
            Token.stops_cons (by decide) (by decide) _
          rw [Option.elim_some, List.append_assoc, Token.lex_word hname hspace, List.append_assoc]
          show _ :: Token.lex (' ' :: 'a' :: (['s'] ++ ' ' :: (r.toList ++ rest))) = _
          rw [Token.lex_space (by decide), ← List.cons_append,
            Token.lex_plain (by decide +kernel) (by decide +kernel) hspace',
            Token.lex_space (by decide), Token.lex_identifier (rename r hr) hs]
          rfl
    | cons c cs =>
      have hbelow := h.of_mem
      have hcolon : ∀ cs : List Char, Token.Stops (':' :: cs) :=
        fun cs => Token.stops_cons (by decide) (by decide) cs
      cases hb : needsBraces (c :: cs) with
      | true =>
        have hi' : (indent ++ indentStep).toList.all isSpace = true := by
          rw [String.toList_append, List.all_append, hi]
          decide
        rw [toList_format_braces indent s hb, tokens, if_pos hb, List.append_assoc,
          List.cons_append, Token.lex_word hname (hcolon _), List.cons_append, Token.lex_pathSep,
          List.cons_append, Token.lex_mark .openBrace rfl, List.cons_append,
          Token.lex_space (by decide), List.append_assoc,
          lex_formatLines hi' fun d hd rest hrest => ih d hd (hbelow d hd) hi' hrest,
          List.append_assoc, Token.lex_spaces hi, List.singleton_append,
          Token.lex_mark .closeBrace rfl]
        simp only [List.cons_append, List.append_assoc, List.nil_append]
      | false =>
        rw [toList_format_path indent s hb, tokens, hb, if_neg Bool.false_ne_true,
          List.append_assoc, List.cons_append, Token.lex_word hname (hcolon _), List.cons_append,
          Token.lex_pathSep, ih c List.mem_cons_self (hbelow c List.mem_cons_self) hi hs]
        rfl

end UseTree

end TidyUse
