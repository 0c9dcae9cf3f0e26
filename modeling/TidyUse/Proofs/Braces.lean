import TidyUse.Proofs.Places
import TidyUse.Proofs.Printed

/-!
# Walking braces and reading tokens

The end of a declaration is found by a walk over characters, and its text is read by tokens. On a
line both see the same braces and the same `;`.

* `Token.openBraces` : how many braces some tokens open and do not close;
* `Token.closing` : the first `;` among tokens that stands outside of braces; `Token.Closes`;
* `Document.findEnd_skipped`, `Document.findEnd_token` : the walk over one lexeme;
* `Document.findEnd_lexFrom` : the walk over a line;
* `Document.findEnd_tokens` : a walk ends behind the first `;` token outside of braces.
-/

namespace TidyUse

open Text

namespace Token

/-! ## Braces among tokens -/

def Kind.braceStep : Kind → Int
  | openBrace => 1
  | closeBrace => -1
  | _ => 0

def openBraces (ts : List Token) : Int :=
  ts.countP (fun t => t.kind = .openBrace) - ts.countP fun t => t.kind = .closeBrace

@[simp] theorem openBraces_nil : openBraces [] = 0 := rfl

theorem openBraces_cons (t : Token) (ts : List Token) :
    openBraces (t :: ts) = t.kind.braceStep + openBraces ts := by
  unfold openBraces
  rw [List.countP_cons, List.countP_cons]
  cases t.kind <;> simp [Kind.braceStep] <;> omega

/-- A `;` outside of braces, when `depth` are open before the tokens that stand before it. -/
def Closes (depth : Int) (before : List Token) (t : Token) : Prop :=
  t.kind = .semicolon ∧ depth + openBraces before = 0

instance (depth : Int) (before : List Token) (t : Token) : Decidable (Closes depth before t) :=
  inferInstanceAs (Decidable (_ ∧ _))

@[simp] theorem closes_nil {depth : Int} {t : Token} :
    Closes depth [] t ↔ t.kind = .semicolon ∧ depth = 0 := by
  unfold Closes
  rw [openBraces_nil, Int.add_zero]

theorem closes_cons {depth : Int} {u t : Token} {before : List Token} :
    Closes depth (u :: before) t ↔ Closes (depth + u.kind.braceStep) before t := by
  unfold Closes
  rw [openBraces_cons, Int.add_assoc]

/-- The first `;` outside of braces, and the depth there or else behind all tokens. -/
def closing (depth : Int) : List Token → Option Token × Int
  | [] => (none, depth)
  | t :: ts =>
    if t.kind = .semicolon ∧ depth = 0 then (some t, 0)
    else closing (depth + t.kind.braceStep) ts

theorem closing_of_closes {depth : Int} {before : List Token} {t : Token} (after : List Token)
    (hclose : Closes depth before t)
    (hfirst : ∀ b u a, before = b ++ u :: a → ¬ Closes depth b u) :
    closing depth (before ++ t :: after) = (some t, 0) := by
  induction before generalizing depth with
  | nil => rw [List.nil_append, closing, if_pos (closes_nil.1 hclose)]
  | cons u before ih =>
    rw [List.cons_append, closing, if_neg fun hu => hfirst [] u before rfl (closes_nil.2 hu)]
    refine ih (closes_cons.1 hclose) fun b v a hb hv => ?_
    exact hfirst (u :: b) v a (by rw [hb, List.cons_append]) (closes_cons.2 hv)

theorem closing_of_forall_not {depth : Int} {ts : List Token}
    (h : ∀ before t after, ts = before ++ t :: after → ¬ Closes depth before t) :
    closing depth ts = (none, depth + openBraces ts) := by
  induction ts generalizing depth with
  | nil => rw [closing, openBraces_nil, Int.add_zero]
  | cons u ts ih =>
    rw [closing, if_neg fun hu => h [] u ts rfl (closes_nil.2 hu), ih, openBraces_cons,
      Int.add_assoc]
    intro before t after hts hclose
    exact h (u :: before) t after (by rw [hts, List.cons_append]) (closes_cons.2 hclose)

theorem closing_isSome {depth : Int} {before : List Token} {t : Token} (after : List Token)
    (hclose : Closes depth before t) :
    (closing depth (before ++ t :: after)).1.isSome = true := by
  induction before generalizing depth with
  | nil =>
    rw [List.nil_append, closing, if_pos (closes_nil.1 hclose)]
    rfl
  | cons u before ih =>
    rw [List.cons_append, closing]
    split
    · rfl
    · exact ih (closes_cons.1 hclose)

/-! ## Lexemes -/

/-- Only a `;` token holds a `;`, only those of braces hold braces, and none holds a `/`. -/
theorem Genuine.plain {t : Token} (h : t.Genuine) (hkind : t.kind ≠ .semicolon) :
    '/' ∉ t.text.toList ∧ ';' ∉ t.text.toList ∧
      Document.openBraces t.text.toList = t.kind.braceStep := by
  unfold Genuine at h
  split at h
  · rename_i hid
    have heven : Document.Even t.text.toList := Document.even_word (isIdentifier_chars h)
    rw [hid]
    exact ⟨fun hm => heven.plain _ hm (by decide), fun hm => heven.plain _ hm (by decide),
      heven.balanced⟩
  · rw [h]
    revert hkind
    cases t.kind <;> decide

theorem simpleLexeme_of_none {c : Char} {cs : List Char} (h : (simpleLexeme c cs).kind = none) :
    Kind.ofMark? c = none ∧ simpleLexeme c cs = ⟨none, [], cs⟩ := by
  unfold simpleLexeme at h ⊢
  split at h
  · cases h
  · rename_i hmark
    split at h
    · cases h
    · rename_i hstart
      rw [hmark]
      exact ⟨rfl, if_neg hstart⟩

/-- A lexeme that is skipped and is no comment is one character, and no mark. -/
theorem lexeme_of_none {c : Char} {cs : List Char} (h : (lexeme c cs).kind = none)
    (hcomment : Document.opensComment (c :: cs) = false) :
    c ∉ [';', '\x7b', '\x7d'] ∧ lexeme c cs = ⟨none, [], cs⟩ := by
  have hmarks : ∀ d ∈ [';', '\x7b', '\x7d'], Kind.ofMark? d ≠ none := forall_mem_of_all (by decide)
  have hspaces : ∀ d ∈ [';', '\x7b', '\x7d'], isSpace d ≠ true := forall_mem_of_all (by decide)
  have simple : (simpleLexeme c cs).kind = none →
      c ∉ [';', '\x7b', '\x7d'] ∧ simpleLexeme c cs = ⟨none, [], cs⟩ := by
    intro hs
    obtain ⟨hmark, heq⟩ := simpleLexeme_of_none hs
    exact ⟨fun hm => hmarks c hm hmark, heq⟩
  unfold lexeme at h ⊢
  split at h
  · rename_i hspace
    rw [if_pos hspace]
    exact ⟨fun hm => hspaces c hm hspace, rfl⟩
  · rename_i hspace
    rw [if_neg hspace]
    split at h
    · cases hcomment
    · cases hcomment
    · cases h
    · split at h
      · cases h
      · rename_i hstart
        simp only [hstart]
        exact simple h
    · exact simple h

end Token

namespace Document

/-! ## The walk over one lexeme -/

theorem findEnd_cons {c : Char} {cs : List Char} (h : opensComment (c :: cs) = false) (depth : Int)
    (column : Nat) :
    findEnd depth column (c :: cs) =
      if c = ';' ∧ depth = 0 then (some (column + 1), 0)
      else findEnd (depth + braceStep c) (column + 1) cs := by
  rw [findEnd]
  · by_cases hend : c = ';' ∧ depth = 0
    · simp [hend]
    · simp [hend]
  · rintro r rfl rfl
    cases h
  · rintro r rfl rfl
    cases h

/-- The walk passes over all that is not read as a token. -/
theorem findEnd_skipped {c : Char} {cs : List Char} (h : (Token.lexeme c cs).kind = none)
    (hline : '\n' ∉ c :: cs) (depth : Int) (column : Nat) :
    findEnd depth column (c :: cs) =
      findEnd depth (column + (Token.lexeme c cs).tail.length + 1) (Token.lexeme c cs).rest := by
  cases hcomment : opensComment (c :: cs) with
  | true =>
    obtain ⟨r, heq | heq⟩ := opensComment_eq_true hcomment
    · -- a comment to the end of the line
      obtain ⟨rfl, rfl⟩ := List.cons.inj heq
      have hrest : (Token.lexeme '/' ('/' :: r)).rest = [] := by
        refine dropWhile_eq_nil.2 (List.all_eq_true.2 fun d hd => ?_)
        have hne : d ≠ '\n' := by
          rintro rfl
          exact hline (List.mem_cons_of_mem _ (List.mem_cons_of_mem _ hd))
        simpa using hne
      rw [hrest, findEnd, findEnd]
    · obtain ⟨rfl, rfl⟩ := List.cons.inj heq
      rw [findEnd]
      show _ = findEnd depth (column + ((Token.splitComment r).1.length + 1) + 1)
        (Token.splitComment r).2
      congr 1
      omega
  | false =>
    obtain ⟨hmark, hlex⟩ := Token.lexeme_of_none h hcomment
    have hstep : braceStep c = 0 := by
      apply braceStep_eq_zero
      · rintro rfl
        exact hmark (by decide)
      · rintro rfl
        exact hmark (by decide)
    rw [hlex, findEnd_cons hcomment, if_neg, hstep, Int.add_zero]
    · rfl
    · rintro ⟨rfl, -⟩
      exact hmark (by decide)

/-- The walk takes a token for what it is. -/
theorem findEnd_token {c : Char} {cs : List Char} {kind : Token.Kind}
    (h : (Token.lexeme c cs).kind = some kind) (depth : Int) (column : Nat) :
    findEnd depth column (c :: cs) =
      if kind = .semicolon ∧ depth = 0 then
        (some (column + (Token.lexeme c cs).tail.length + 1), 0)
      else findEnd (depth + kind.braceStep) (column + (Token.lexeme c cs).tail.length + 1)
        (Token.lexeme c cs).rest := by
  have hgen := Token.genuine_lexeme h 0 0 0
  by_cases hkind : kind = .semicolon
  · subst hkind
    have htext : c :: (Token.lexeme c cs).tail = [';'] := String.ofList_injective hgen
    obtain ⟨rfl, htail⟩ := List.cons.inj htext
    have hrest := Token.lexeme_append ';' cs
    rw [htail, List.nil_append] at hrest
    rw [htail, hrest, findEnd_cons rfl]
    simp [Token.Kind.braceStep, braceStep]
  · obtain ⟨hslash, hsemi, hbraces⟩ := hgen.plain hkind
    rw [String.toList_ofList] at hslash hsemi hbraces
    rw [if_neg fun hend => hkind hend.1]
    conv_lhs => rw [Token.cons_eq_lexeme]
    rw [findEnd_of_not_mem hslash hsemi, hbraces, List.length_cons, Nat.add_assoc column]

/-- Behind a lexeme of a line stands the rest of the line. -/
theorem behind_lexeme {c : Char} {cs : List Char} (hline : '\n' ∉ c :: cs) (start : Nat)
    (place : Nat × Nat) :
    '\n' ∉ (Token.lexeme c cs).rest ∧
      start + (Token.advance place (c :: (Token.lexeme c cs).tail)).2 =
        start + place.2 + (Token.lexeme c cs).tail.length + 1 := by
  rw [Token.cons_eq_lexeme, List.mem_append, not_or] at hline
  refine ⟨hline.2, ?_⟩
  rw [Token.advance_of_newline_not_mem hline.1, List.length_cons]
  omega

/-- The walk over the rest of a line sees what its tokens tell. -/
theorem findEnd_lexFrom {cs : List Char} (hline : '\n' ∉ cs) (depth : Int) (start : Nat)
    (place : Nat × Nat) :
    findEnd depth (start + place.2) cs =
      ((Token.closing depth (Token.lexFrom place cs)).1.map fun t => start + t.stop,
        (Token.closing depth (Token.lexFrom place cs)).2) := by
  fun_induction Token.lexFrom place cs generalizing depth with
  | case1 place => rw [findEnd]; rfl
  | case2 place c cs first following kind hk ih =>
    obtain ⟨hrest, hcolumn⟩ := behind_lexeme hline start place
    rw [findEnd_token hk, Token.closing]
    split
    · rw [Option.map_some]
      show (some (start + place.2 + first.tail.length + 1), (0 : Int)) =
        (some (start + (place.2 + first.tail.length + 1)), 0)
      simp only [Nat.add_assoc]
    · rw [← hcolumn]
      exact ih hrest (depth + kind.braceStep)
  | case3 place c cs first following hk ih =>
    obtain ⟨hrest, hcolumn⟩ := behind_lexeme hline start place
    rw [findEnd_skipped hk hline, ← hcolumn]
    exact ih hrest depth

/-- On a line, the walk for the end of a declaration sees the braces and the `;` that are read as
tokens, and no others. It finds an end if there is a `;` token outside of braces, and then the end is
behind the first one, with no brace open. Else it counts all braces. -/
theorem findEnd_tokens {line : Line} (hline : '\n' ∉ line) (start : Nat) (depth : Int) :
    ((findEnd depth start (line.drop start)).1.isSome = true ↔
      ∃ before t after, Token.tokenize (line.drop start) = before ++ t :: after ∧
        Token.Closes depth before t) ∧
    (∀ before t after, Token.tokenize (line.drop start) = before ++ t :: after →
      Token.Closes depth before t →
      (∀ b u a, before = b ++ u :: a → ¬ Token.Closes depth b u) →
        findEnd depth start (line.drop start) = (some (start + t.stop), 0)) ∧
    ((∀ before t after, Token.tokenize (line.drop start) = before ++ t :: after →
      ¬ Token.Closes depth before t) →
        findEnd depth start (line.drop start) =
          (none, depth + Token.openBraces (Token.tokenize (line.drop start)))) := by
  have hrest : '\n' ∉ line.drop start := fun h => hline (List.mem_of_mem_drop h)
  have hwalk := findEnd_lexFrom hrest depth start (0, 0)
  rw [Nat.add_zero] at hwalk
  have hnone : (∀ before t after, Token.tokenize (line.drop start) = before ++ t :: after →
      ¬ Token.Closes depth before t) →
        findEnd depth start (line.drop start) =
          (none, depth + Token.openBraces (Token.tokenize (line.drop start))) := by
    intro h
    rw [hwalk, ← Token.tokenize, Token.closing_of_forall_not h]
    rfl
  refine ⟨⟨fun hsome => ?_, ?_⟩, ?_, hnone⟩
  · by_contra hno
    rw [hnone fun before t after hts hclose => hno ⟨before, t, after, hts, hclose⟩] at hsome
    cases hsome
  · rintro ⟨before, t, after, hts, hclose⟩
    rw [hwalk, ← Token.tokenize, hts, Option.isSome_map]
    exact Token.closing_isSome after hclose
  · intro before t after hts hclose hfirst
    rw [hwalk, ← Token.tokenize, hts, Token.closing_of_closes after hclose hfirst]
    rfl

/-- Braces that are closed before they are opened, and a comment that opens with the characters that
could close it. -/
def sampleBraces : Line := "a; b \x7d\x7b /*/ ; */ r#use::\x7b d \x7d; // ;".toList

theorem findEnd_sampleBraces :
    '\n' ∉ sampleBraces ∧ findEnd 0 2 (sampleBraces.drop 2) = (some 30, 0) := by
  have hline : '\n' ∉ sampleBraces := by decide
  refine ⟨hline, ?_⟩
  have htokens : Token.tokenize (sampleBraces.drop 2) =
      (Token.tokenize (sampleBraces.drop 2)).take 8 ++ ⟨.semicolon, ";", 0, 27, 28⟩ :: [] := by
    decide +kernel
  refine (findEnd_tokens hline 2 0).2.1 _ _ _ htokens (by decide +kernel) fun b u a hb hclose => ?_
  have hmem : u ∈ (Token.tokenize (sampleBraces.drop 2)).take 8 := by
    rw [hb]
    simp
  exact (by decide +kernel : ∀ v ∈ (Token.tokenize (sampleBraces.drop 2)).take 8,
    v.kind ≠ .semicolon) u hmem hclose.1

end Document

end TidyUse
