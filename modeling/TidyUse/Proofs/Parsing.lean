import TidyUse.Proofs.Words
import TidyUse.Statement.Parser

/-!
# What readers answer

* `Parser.Agree` : two readers give the same answer on tokens that differ in their places only;
* `Parser.agree_declaration` : where a declaration stands has no influence on how it is read;
* `Parser.Ensures` : what is true of every answer of a reader on genuine tokens;
* `Token.genuine_tokenize` : the tokens of a text are genuine;
* `UseTree.Readable`, `UseTree.Readable.grammatical` : the trees that can be read are those that can
  be written.
-/

namespace TidyUse

open Text

def Token.bare (t : Token) : Token := { t with line := 0, start := 0, stop := 0 }

@[simp] theorem Token.bare_kind (t : Token) : t.bare.kind = t.kind := rfl

@[simp] theorem Token.bare_text (t : Token) : t.bare.text = t.text := rfl

theorem Token.kind_eq_of_bare {t u : Token} (h : t.bare = u.bare) : t.kind = u.kind := by
  rw [← t.bare_kind, h, bare_kind]

theorem Token.text_eq_of_bare {t u : Token} (h : t.bare = u.bare) : t.text = u.text := by
  rw [← t.bare_text, h, bare_text]

namespace Parser

variable {α β γ δ : Type}

@[simp] theorem runOn_pure (a : α) (ts : List Token) :
    (pure a : Parser α).runOn ts = (.ok a, ts) := rfl

@[simp] theorem runOn_throw (e : ParseError) (ts : List Token) :
    (throw e : Parser α).runOn ts = (.error e, ts) := rfl

theorem runOn_bind (p : Parser α) (k : α → Parser β) (ts : List Token) :
    (p >>= k).runOn ts =
      match p.runOn ts with
      | (.ok a, rest) => (k a).runOn rest
      | (.error e, rest) => (.error e, rest) := by
  rw [runOn, ExceptT.run_bind, StateT.run_bind, runOn]
  rcases h : (ExceptT.run p).run ts with ⟨e | a, rest⟩
  · rfl
  · rfl

theorem runOn_bind_of_ok {p : Parser α} {k : α → Parser β} {ts rest : List Token} {a : α}
    (h : p.runOn ts = (.ok a, rest)) : (p >>= k).runOn ts = (k a).runOn rest := by
  rw [runOn_bind, h]

@[simp] theorem runOn_isNext (kind : Token.Kind) (ts : List Token) :
    (isNext kind).runOn ts = (.ok (ts.head?.any fun t => t.kind == kind), ts) := rfl

@[simp] theorem runOn_peek (offset : Nat) (ts : List Token) :
    (peek offset).runOn ts = (.ok ts[offset]?, ts) := rfl

@[simp] theorem runOn_advance_nil : advance.runOn [] = (.error .endOfInput, []) := rfl

@[simp] theorem runOn_advance_cons (t : Token) (ts : List Token) :
    advance.runOn (t :: ts) = (.ok t, ts) := rfl

@[simp] theorem runOn_expect_nil (kind : Token.Kind) :
    (expect kind).runOn [] = (.error (.expected kind none), []) := rfl

theorem runOn_expect_cons (kind : Token.Kind) (t : Token) (ts : List Token) :
    (expect kind).runOn (t :: ts) =
      if t.kind = kind then (.ok t, ts) else (.error (.expected kind (some t.text)), t :: ts) := by
  by_cases h : t.kind = kind
  · rw [if_pos h]
    show (ite (t.kind = kind) _ _ : Parser Token).runOn (t :: ts) = _
    rw [if_pos h]
    rfl
  · rw [if_neg h]
    show (ite (t.kind = kind) _ _ : Parser Token).runOn (t :: ts) = _
    rw [if_neg h]
    rfl

@[simp] theorem runOn_depth (ts : List Token) : depth.runOn ts = (.ok (ts.length + 2), ts) := rfl

theorem runOn_restriction (ts : List Token) :
    restriction.runOn ts =
      let rest := ts.dropWhile fun t => t.kind != .closeParen
      if rest.isEmpty then (.error .endOfInput, rest)
      else (.ok ((ts.takeWhile fun t => t.kind != .closeParen).map Token.text), rest) := by
  unfold restriction
  cases h : (ts.dropWhile fun t => t.kind != .closeParen).isEmpty
  all_goals
    rw [runOn_bind_of_ok (show (get : Parser (List Token)).runOn ts = (.ok ts, ts) from rfl)]
    simp only [h]
    rfl

/-! ## Tokens that differ in their places -/

/-- The readers give the same answers on tokens that differ in their places only, where `f` forgets
the places in an answer. -/
def Agree (f : α → β) (p q : Parser α) : Prop :=
  ∀ ts us : List Token, ts.map Token.bare = us.map Token.bare →
    (p.runOn ts).1.map f = (q.runOn us).1.map f ∧
      (p.runOn ts).2.map Token.bare = (q.runOn us).2.map Token.bare

namespace Agree

variable {f : α → β} {g : γ → δ}

theorem pure {a b : α} (h : f a = f b) : Agree f (Pure.pure a) (Pure.pure b) := by
  intro ts us hts
  exact ⟨congrArg Except.ok h, hts⟩

theorem throw (e : ParseError) : Agree f (MonadExcept.throw e) (MonadExcept.throw e) :=
  fun _ _ hts => ⟨rfl, hts⟩

theorem throw_bind (e : ParseError) (k l : α → Parser γ) :
    Agree g (MonadExcept.throw e >>= k) (MonadExcept.throw e >>= l) :=
  fun _ _ hts => ⟨rfl, hts⟩

theorem bind {p q : Parser α} {k l : α → Parser γ} (hp : Agree f p q)
    (hk : ∀ a b, f a = f b → Agree g (k a) (l b)) : Agree g (p >>= k) (q >>= l) := by
  intro ts us hts
  obtain ⟨hans, hrest⟩ := hp ts us hts
  rw [runOn_bind, runOn_bind]
  rcases hpt : p.runOn ts with ⟨e | a, rest⟩ <;> rcases hqu : q.runOn us with ⟨e' | b, rest'⟩ <;>
    rw [hpt, hqu] at hans hrest
  · exact ⟨congrArg Except.error (Except.error.inj hans), hrest⟩
  · cases hans
  · cases hans
  · exact hk a b (Except.ok.inj hans) rest rest' hrest

theorem ite {c : Prop} [Decidable c] {p q p' q' : Parser α} (h : Agree f p q)
    (h' : Agree f p' q') : Agree f (if c then p else p') (if c then q else q') := by
  split
  · exact h
  · exact h'

end Agree

theorem agree_isNext (kind : Token.Kind) : Agree id (isNext kind) (isNext kind) := by
  intro ts us hts
  refine ⟨?_, hts⟩
  rw [runOn_isNext, runOn_isNext]
  cases ts with
  | nil =>
    cases us with
    | nil => rfl
    | cons u us => cases hts
  | cons t ts =>
    cases us with
    | nil => cases hts
    | cons u us =>
      have hkind := Token.kind_eq_of_bare (List.cons.inj hts).1
      simp [hkind]

theorem agree_peek (offset : Nat) :
    Agree (Option.map Token.bare) (peek offset) (peek offset) := by
  intro ts us hts
  refine ⟨?_, hts⟩
  have h := congrArg (fun l : List Token => l[offset]?) hts
  simp only [List.getElem?_map] at h
  exact congrArg Except.ok h

theorem agree_advance : Agree Token.bare advance advance := by
  intro ts us hts
  cases ts with
  | nil =>
    cases us with
    | nil => exact ⟨rfl, rfl⟩
    | cons u us => cases hts
  | cons t ts =>
    cases us with
    | nil => cases hts
    | cons u us =>
      obtain ⟨ht, hts⟩ := List.cons.inj hts
      exact ⟨congrArg Except.ok ht, hts⟩

theorem agree_expect (kind : Token.Kind) : Agree Token.bare (expect kind) (expect kind) := by
  intro ts us hts
  cases ts with
  | nil =>
    cases us with
    | nil => exact ⟨rfl, rfl⟩
    | cons u us => cases hts
  | cons t ts =>
    cases us with
    | nil => cases hts
    | cons u us =>
      obtain ⟨ht, hrest⟩ := List.cons.inj hts
      rw [runOn_expect_cons, runOn_expect_cons, Token.kind_eq_of_bare ht, Token.text_eq_of_bare ht]
      split
      · exact ⟨congrArg Except.ok ht, hrest⟩
      · exact ⟨rfl, hts⟩

theorem agree_restriction : Agree id restriction restriction := by
  intro ts us hts
  have hkinds : (fun t : Token => t.kind != .closeParen) ∘ Token.bare =
      fun t : Token => t.kind != .closeParen := rfl
  have htake := congrArg (List.takeWhile fun t : Token => t.kind != .closeParen) hts
  have hdrop := congrArg (List.dropWhile fun t : Token => t.kind != .closeParen) hts
  rw [List.takeWhile_map, List.takeWhile_map, hkinds] at htake
  rw [List.dropWhile_map, List.dropWhile_map, hkinds] at hdrop
  have htexts := congrArg (List.map Token.text) htake
  rw [List.map_map, List.map_map, show Token.text ∘ Token.bare = Token.text from rfl] at htexts
  have hempty := congrArg List.isEmpty hdrop
  rw [List.isEmpty_map, List.isEmpty_map] at hempty
  rw [runOn_restriction, runOn_restriction]
  simp only [hempty, htexts]
  split
  · exact ⟨rfl, hdrop⟩
  · exact ⟨rfl, hdrop⟩

theorem agree_visibility : Agree id visibility visibility := by
  simp only [visibility, pure_bind]
  refine (agree_isNext _).bind ?_
  rintro b _ rfl
  refine Agree.ite (agree_advance.bind fun _ _ _ => (agree_isNext _).bind ?_) (Agree.pure rfl)
  rintro b _ rfl
  refine Agree.ite (agree_advance.bind fun _ _ _ => (agree_isNext _).bind ?_) (Agree.pure rfl)
  rintro b _ rfl
  have hclose : ∀ inside : String, Agree id
      (do let _ ← expect .closeParen; return some ("pub(" ++ inside ++ ")") : Parser _)
      (do let _ ← expect .closeParen; return some ("pub(" ++ inside ++ ")") : Parser _) :=
    fun inside => (agree_expect _).bind fun _ _ _ => Agree.pure rfl
  refine Agree.ite (agree_advance.bind fun _ _ _ => agree_restriction.bind ?_)
    (agree_advance.bind fun t u htu => ?_)
  · rintro parts _ rfl
    exact Agree.ite (Agree.throw_bind _ _ _) (hclose _)
  · rw [Token.text_eq_of_bare htu]
    exact hclose _

theorem agree_rename : Agree id rename rename := by
  unfold rename
  refine (agree_isNext _).bind ?_
  rintro b _ rfl
  refine Agree.ite (agree_advance.bind fun _ _ _ => (agree_expect _).bind fun t u htu => ?_)
    (Agree.pure rfl)
  exact Agree.pure (congrArg some (Token.text_eq_of_bare htu))

theorem agree_segment (base base' : Position) :
    Agree Segment.bare (segment base) (segment base') := by
  unfold segment
  refine agree_advance.bind fun t u htu => ?_
  have hrest : Agree Segment.bare
      (do let rename ← rename; return ⟨t.text, rename, some (spanOf base t)⟩ : Parser Segment)
      (do let rename ← rename; return ⟨u.text, rename, some (spanOf base' u)⟩ : Parser Segment) := by
    refine agree_rename.bind ?_
    rintro r _ rfl
    exact Agree.pure (congrArg (fun name => (⟨name, r, none⟩ : Segment)) (Token.text_eq_of_bare htu))
  rw [Token.kind_eq_of_bare htu, Token.text_eq_of_bare htu] at *
  exact Agree.ite hrest (Agree.throw_bind _ _ _)

theorem agree_glob (base base' : Position) : Agree UseTree.bare (glob base) (glob base') :=
  agree_advance.bind fun _ _ _ => Agree.pure (by rw [UseTree.bare_glob, UseTree.bare_glob]; rfl)

theorem agree_selfLeaf (base base' : Position) :
    Agree UseTree.bare (selfLeaf base) (selfLeaf base') := by
  refine agree_advance.bind fun _ _ _ => agree_rename.bind ?_
  rintro r _ rfl
  exact Agree.pure (by rw [UseTree.bare_node, UseTree.bare_node]; rfl)

theorem agree_startsSelfLeaf : Agree id startsSelfLeaf startsSelfLeaf := by
  refine (agree_peek 1).bind fun following following' hf => (agree_isNext _).bind ?_
  rintro b _ rfl
  have hany : (following.any fun t => t.kind == .pathSep) =
      following'.any fun t => t.kind == .pathSep := by
    cases following with
    | none =>
      cases following' with
      | none => rfl
      | some u => cases hf
    | some t =>
      cases following' with
      | none => cases hf
      | some u =>
        show (t.kind == .pathSep) = (u.kind == .pathSep)
        rw [Token.kind_eq_of_bare (Option.some.inj hf)]
  exact Agree.pure (by rw [hany]; rfl)

theorem agree_trees (base base' : Position) (n : Nat) :
    (∀ nested, Agree UseTree.bare (treeWithin base n nested) (treeWithin base' n nested)) ∧
      Agree (List.map UseTree.bare) (treeListWithin base n) (treeListWithin base' n) := by
  induction n with
  | zero =>
    refine ⟨fun nested => ?_, ?_⟩
    · rw [treeWithin, treeWithin]
      exact Agree.throw _
    · rw [treeListWithin, treeListWithin]
      exact Agree.throw _
  | succ n ih =>
    obtain ⟨ihtree, ihlist⟩ := ih
    refine ⟨fun nested => ?_, ?_⟩
    · rw [treeWithin, treeWithin]
      refine (agree_peek 0).bind fun t t' ht => ?_
      have hnone : t.isNone = t'.isNone := by
        cases t <;> cases t' <;> first | rfl | cases ht
      rw [hnone]
      refine Agree.ite (Agree.throw_bind _ _ _) ((agree_isNext _).bind ?_)
      rintro b _ rfl
      refine Agree.ite (Agree.ite (agree_glob base base') (Agree.throw _))
        (agree_startsSelfLeaf.bind ?_)
      rintro b _ rfl
      refine Agree.ite (agree_selfLeaf base base')
        ((agree_segment base base').bind fun step step' hs => (agree_isNext _).bind ?_)
      rintro b _ rfl
      refine Agree.ite (agree_advance.bind fun _ _ _ => ?_)
        (Agree.pure (by rw [UseTree.bare_node, UseTree.bare_node, hs]))
      have hrename : step.rename = step'.rename := by
        rw [← step.bare_rename, hs, Segment.bare_rename]
      rw [hrename]
      cases step'.rename with
      | some name => exact Agree.throw_bind _ _ _
      | none =>
        refine (agree_isNext _).bind ?_
        rintro b _ rfl
        refine Agree.ite (agree_advance.bind fun _ _ _ => ihlist.bind fun cs cs' hcs =>
          (agree_expect _).bind fun _ _ _ => Agree.pure ?_)
          ((ihtree true).bind fun c c' hc => Agree.pure ?_)
        · rw [UseTree.bare_node, UseTree.bare_node, hs, hcs]
        · rw [UseTree.bare_node, UseTree.bare_node, hs, List.map_singleton, List.map_singleton, hc]
    · rw [treeListWithin, treeListWithin]
      refine (agree_isNext _).bind ?_
      rintro b _ rfl
      refine Agree.ite (Agree.throw_bind _ _ _) ((ihtree true).bind fun first first' hfirst =>
        (agree_isNext _).bind ?_)
      rintro b _ rfl
      have hone : Agree (List.map UseTree.bare) (pure [first]) (pure [first']) :=
        Agree.pure (by rw [List.map_singleton, List.map_singleton, hfirst])
      refine Agree.ite (agree_advance.bind fun _ _ _ => (agree_isNext _).bind ?_) hone
      rintro c _ rfl
      refine Agree.ite hone (ihlist.bind fun rest rest' hrest => Agree.pure ?_)
      rw [List.map_cons, List.map_cons, hfirst, hrest]

theorem agree_tree (base base' : Position) (nested : Bool) :
    Agree UseTree.bare (tree base nested) (tree base' nested) := by
  have hdepth : Agree id depth depth := by
    intro ts us hts
    refine ⟨?_, hts⟩
    have hlen := congrArg List.length hts
    rw [List.length_map, List.length_map] at hlen
    rw [runOn_depth, runOn_depth, hlen]
  refine hdepth.bind ?_
  rintro n _ rfl
  exact (agree_trees base base' n).1 nested

/-- Where a declaration stands has no influence on how it is read. -/
theorem agree_declaration (base base' : Position) :
    Agree (fun d => (d.1, d.2.bare)) (declaration base) (declaration base') := by
  refine agree_visibility.bind ?_
  rintro v _ rfl
  refine (agree_expect _).bind fun _ _ _ => (agree_tree base base' false).bind fun t t' ht =>
    (agree_isNext _).bind ?_
  rintro b _ rfl
  refine Agree.ite (agree_advance.bind fun _ _ _ => ?_) ?_
  all_goals
    refine (agree_peek 0).bind fun u u' hu => ?_
    cases u with
    | none =>
      cases u' with
      | none => exact Agree.pure (Prod.ext rfl ht)
      | some u' => cases hu
    | some u =>
      cases u' with
      | none => cases hu
      | some u' =>
        simp only [Token.text_eq_of_bare (Option.some.inj hu)]
        exact Agree.throw_bind _ _ _

end Parser

/-! ## Genuine tokens -/

namespace Token

/-- The text of the token is one of its kind. -/
def Genuine (t : Token) : Prop :=
  if t.kind = .identifier then isIdentifier t.text.toList = true else t.text = t.kind.name

theorem Genuine.isSegmentWord {t : Token} (h : t.Genuine) (hk : t.kind.isSegment = true) :
    isSegmentWord t.text = true := by
  rw [Genuine] at h
  cases hkind : t.kind <;> rw [hkind] at hk h <;>
    first
    | exact absurd hk (by decide)
    | simp_all [Token.isSegmentWord, Kind.name]

theorem ofWord_name {word : String} {kind : Kind} (h : Kind.ofWord word = kind)
    (hne : kind ≠ .identifier) : word = kind.name := by
  rw [Kind.ofWord] at h
  cases hf : Kind.keywords.find? fun k => k.name == word with
  | none => exact absurd (by rw [← h, hf]; rfl) hne
  | some k =>
    rw [hf, Option.getD_some] at h
    have := List.find?_some hf
    rw [← h]
    exact (beq_iff_eq.1 this).symm

theorem ofMark?_name {c : Char} {kind : Kind} (h : Kind.ofMark? c = some kind) :
    kind ≠ .identifier ∧ String.ofList [c] = kind.name := by
  unfold Kind.ofMark? at h
  split at h <;> cases h <;> exact ⟨by decide, by decide⟩

theorem isIdentifier_word {c : Char} {cs : List Char} (hc : isIdentStart c = true)
    (hcs : cs.all isIdentContinue = true)
    (hk : Kind.ofWord (String.ofList (c :: cs)) = .identifier) : isIdentifier (c :: cs) = true := by
  unfold isIdentifier
  split
  · rename_i d r heq
    obtain ⟨rfl, rfl⟩ := List.cons.inj heq
    have hhash : isIdentContinue '#' = true := (List.all_eq_true.1 hcs) '#' List.mem_cons_self
    exact absurd (isIdentContinue_mark '#' (by decide)) (by rw [hhash]; decide)
  · rename_i c' cs' _ heq
    obtain ⟨rfl, rfl⟩ := List.cons.inj heq
    rw [hc, hcs, hk]
    rfl
  · rename_i heq
    cases heq

/-- A lexeme of a kind has a text of that kind. -/
theorem genuine_lexeme {c : Char} {cs : List Char} {kind : Kind}
    (h : (lexeme c cs).kind = some kind) (line start stop : Nat) :
    Genuine ⟨kind, String.ofList (c :: (lexeme c cs).tail), line, start, stop⟩ := by
  have simple : ∀ {kind : Kind}, (simpleLexeme c cs).kind = some kind →
      Genuine ⟨kind, String.ofList (c :: (simpleLexeme c cs).tail), line, start, stop⟩ := by
    intro kind h
    unfold simpleLexeme at h ⊢
    split at h
    · rename_i k hm
      cases h
      obtain ⟨hne, hname⟩ := ofMark?_name hm
      rw [Genuine, if_neg hne]
      exact hname
    · split at h
      · rename_i hstart
        rw [if_pos hstart]
        have hk : Kind.ofWord (String.ofList (c :: cs.takeWhile isIdentContinue)) = kind :=
          Option.some.inj h
        rw [Genuine]
        split
        · rename_i hid
          have hall : (cs.takeWhile isIdentContinue).all isIdentContinue = true :=
            List.all_takeWhile
          exact (String.toList_ofList ..).symm ▸ isIdentifier_word hstart hall (hk.trans hid)
        · rename_i hid
          exact ofWord_name hk hid
      · cases h
  unfold lexeme at h ⊢
  split at h
  · cases h
  · rename_i hspace
    rw [if_neg hspace]
    split at h
    · cases h
    · cases h
    · cases h
      rfl
    · split at h
      · rename_i hstart
        cases h
        rw [Genuine, if_pos rfl]
        simp only [hstart, if_true]
        rw [String.toList_ofList]
        exact Bool.and_eq_true_iff.2 ⟨hstart, List.all_takeWhile⟩
      · rename_i hstart
        simp only [hstart]
        exact simple h
    · exact simple h

theorem genuine_lexFrom (place : Nat × Nat) (cs : List Char) :
    ∀ t ∈ lexFrom place cs, t.Genuine := by
  fun_induction lexFrom place cs with
  | case1 => simp
  | case2 place c cs first following kind hk ih =>
    intro t ht
    rcases List.mem_cons.1 ht with rfl | ht
    · exact genuine_lexeme hk _ _ _
    · exact ih t ht
  | case3 place c cs first following hk ih => exact ih

theorem genuine_tokenize (text : List Char) : ∀ t ∈ tokenize text, t.Genuine :=
  genuine_lexFrom _ _

end Token

namespace Parser

/-! ## What every answer has in common -/

/-- On genuine tokens the reader leaves genuine tokens, and every answer it gives satisfies `P`. -/
def Ensures {α : Type} (p : Parser α) (P : α → Prop) : Prop :=
  ∀ ts : List Token, (∀ t ∈ ts, t.Genuine) →
    (∀ t ∈ (p.runOn ts).2, t.Genuine) ∧ ∀ a, (p.runOn ts).1 = .ok a → P a

namespace Ensures

variable {α β : Type} {P : α → Prop} {Q : β → Prop}

theorem pure {a : α} (h : P a) : Ensures (Pure.pure a) P :=
  fun _ hts => ⟨hts, fun _ hb => Except.ok.inj hb ▸ h⟩

theorem throw (e : ParseError) : Ensures (MonadExcept.throw e) P :=
  fun _ hts => ⟨hts, fun _ hb => by cases hb⟩

theorem throw_bind (e : ParseError) (k : α → Parser β) :
    Ensures (MonadExcept.throw e >>= k) Q :=
  fun _ hts => ⟨hts, fun _ hb => by cases hb⟩

theorem bind {p : Parser α} {k : α → Parser β} (hp : Ensures p P)
    (hk : ∀ a, P a → Ensures (k a) Q) : Ensures (p >>= k) Q := by
  intro ts hts
  obtain ⟨hrest, hans⟩ := hp ts hts
  rw [runOn_bind]
  rcases h : p.runOn ts with ⟨e | a, rest⟩ <;> rw [h] at hrest hans
  · exact ⟨hrest, fun _ hb => by cases hb⟩
  · exact hk a (hans a rfl) rest hrest

theorem ite {c : Prop} [Decidable c] {p q : Parser α} (h : c → Ensures p P)
    (h' : ¬ c → Ensures q P) : Ensures (if c then p else q) P := by
  split
  · rename_i hc
    exact h hc
  · rename_i hc
    exact h' hc

end Ensures

theorem ensures_isNext (kind : Token.Kind) : Ensures (isNext kind) fun _ => True :=
  fun _ hts => ⟨hts, fun _ _ => trivial⟩

theorem ensures_peek (offset : Nat) : Ensures (peek offset) fun _ => True :=
  fun _ hts => ⟨hts, fun _ _ => trivial⟩

theorem ensures_advance : Ensures advance Token.Genuine := by
  intro ts hts
  cases ts with
  | nil => exact ⟨hts, fun _ hb => by cases hb⟩
  | cons t ts =>
    refine ⟨fun u hu => hts u (List.mem_cons_of_mem _ hu), fun a ha => ?_⟩
    cases ha
    exact hts t List.mem_cons_self

theorem ensures_expect (kind : Token.Kind) :
    Ensures (expect kind) fun t => t.Genuine ∧ t.kind = kind := by
  intro ts hts
  cases ts with
  | nil => exact ⟨hts, fun _ hb => by cases hb⟩
  | cons t ts =>
    rw [runOn_expect_cons]
    split
    · rename_i hk
      refine ⟨fun u hu => hts u (List.mem_cons_of_mem _ hu), fun a ha => ?_⟩
      cases ha
      exact ⟨hts t List.mem_cons_self, hk⟩
    · exact ⟨hts, fun _ hb => by cases hb⟩

theorem ensures_restriction : Ensures restriction fun _ => True := by
  intro ts hts
  rw [runOn_restriction]
  have hrest : ∀ t ∈ ts.dropWhile fun t => t.kind != .closeParen, t.Genuine :=
    fun t ht => hts t ((List.dropWhile_sublist _).mem ht)
  dsimp only
  split
  · exact ⟨hrest, fun _ _ => trivial⟩
  · exact ⟨hrest, fun _ _ => trivial⟩

theorem ensures_visibility : Ensures visibility fun _ => True := by
  have hclose : ∀ inside : String, Ensures
      (do let _ ← expect .closeParen; return some ("pub(" ++ inside ++ ")") : Parser _)
      fun _ : Option String => True :=
    fun inside => (ensures_expect _).bind fun _ _ => Ensures.pure trivial
  simp only [visibility, pure_bind]
  refine (ensures_isNext _).bind fun _ _ => Ensures.ite (fun _ => ?_) fun _ => Ensures.pure trivial
  refine ensures_advance.bind fun _ _ => (ensures_isNext _).bind fun _ _ =>
    Ensures.ite (fun _ => ?_) fun _ => Ensures.pure trivial
  refine ensures_advance.bind fun _ _ => (ensures_isNext _).bind fun _ _ =>
    Ensures.ite (fun _ => ?_) fun _ => ensures_advance.bind fun _ _ => hclose _
  exact ensures_advance.bind fun _ _ => ensures_restriction.bind fun _ _ =>
    Ensures.ite (fun _ => Ensures.throw_bind _ _) fun _ => hclose _

theorem ensures_rename :
    Ensures rename fun r => ∀ n, r = some n → Token.isIdentifier n.toList = true := by
  refine (ensures_isNext _).bind fun _ _ => Ensures.ite (fun _ => ?_) fun _ =>
    Ensures.pure fun n hn => by cases hn
  refine ensures_advance.bind fun _ _ => (ensures_expect _).bind fun t ht => Ensures.pure ?_
  intro n hn
  cases hn
  have hg := ht.1
  rwa [Token.Genuine, if_pos ht.2] at hg

theorem ensures_segment (base : Position) :
    Ensures (segment base) fun s => Token.isSegmentWord s.name = true ∧
      ∀ r, s.rename = some r → Token.isIdentifier r.toList = true := by
  refine ensures_advance.bind fun t ht => Ensures.ite (fun hk => ?_) fun _ =>
    Ensures.throw_bind _ _
  exact ensures_rename.bind fun r hr => Ensures.pure ⟨ht.isSegmentWord hk, hr⟩

theorem isSegmentWord_selfName : Token.isSegmentWord UseTree.selfName = true := by decide +kernel

theorem ensures_trees (base : Position) (n : Nat) :
    (∀ nested, Ensures (treeWithin base n nested) fun t =>
        t.GrammaticalBelow ∧ (nested = false → t.isGlob = false)) ∧
      Ensures (treeListWithin base n) fun ts => ts ≠ [] ∧ ∀ t ∈ ts, t.GrammaticalBelow := by
  induction n with
  | zero =>
    refine ⟨fun nested => ?_, ?_⟩
    · rw [treeWithin]
      exact Ensures.throw _
    · rw [treeListWithin]
      exact Ensures.throw _
  | succ n ih =>
    obtain ⟨ihtree, ihlist⟩ := ih
    refine ⟨fun nested => ?_, ?_⟩
    · rw [treeWithin]
      refine (ensures_peek 0).bind fun _ _ => Ensures.ite (fun _ => Ensures.throw_bind _ _) fun _ =>
        (ensures_isNext _).bind fun _ _ => Ensures.ite (fun _ => ?_) fun _ => ?_
      · refine Ensures.ite (fun hnested => ?_) fun _ => Ensures.throw _
        exact ensures_advance.bind fun _ _ => Ensures.pure
          ⟨.glob rfl rfl, fun h => absurd (hnested.symm.trans h) (by decide)⟩
      have hstarts : Ensures startsSelfLeaf fun _ => True :=
        (ensures_peek 1).bind fun _ _ => (ensures_isNext _).bind fun _ _ => Ensures.pure trivial
      refine hstarts.bind fun _ _ => Ensures.ite (fun _ => ?_) fun _ => ?_
      · exact ensures_advance.bind fun _ _ => ensures_rename.bind fun r hr =>
          Ensures.pure ⟨.leaf isSegmentWord_selfName hr, fun _ => rfl⟩
      refine (ensures_segment base).bind fun s hs => (ensures_isNext _).bind fun _ _ =>
        Ensures.ite (fun _ => ?_) fun _ => Ensures.pure ⟨.leaf hs.1 hs.2, fun _ => rfl⟩
      refine ensures_advance.bind fun _ _ => ?_
      cases hr : s.rename with
      | some name => exact Ensures.throw_bind _ _
      | none =>
        refine (ensures_isNext _).bind fun _ _ => Ensures.ite (fun _ => ?_) fun _ => ?_
        · exact ensures_advance.bind fun _ _ => ihlist.bind fun cs hcs =>
            (ensures_expect _).bind fun _ _ => Ensures.pure
              ⟨.branch hs.1 hr hcs.1 hcs.2, fun _ => rfl⟩
        · refine (ihtree true).bind fun c hc => Ensures.pure ⟨.branch hs.1 hr (by simp) ?_,
            fun _ => rfl⟩
          exact fun d hd => List.mem_singleton.1 hd ▸ hc.1
    · rw [treeListWithin]
      refine (ensures_isNext _).bind fun _ _ => Ensures.ite (fun _ => Ensures.throw_bind _ _)
        fun _ => (ihtree true).bind fun first hfirst => (ensures_isNext _).bind fun _ _ => ?_
      have hone : Ensures (pure [first]) fun ts : List UseTree =>
          ts ≠ [] ∧ ∀ t ∈ ts, t.GrammaticalBelow :=
        Ensures.pure ⟨by simp, fun t ht => List.mem_singleton.1 ht ▸ hfirst.1⟩
      refine Ensures.ite (fun _ => ?_) fun _ => hone
      refine ensures_advance.bind fun _ _ => (ensures_isNext _).bind fun _ _ =>
        Ensures.ite (fun _ => hone) fun _ => ihlist.bind fun rest hrest => Ensures.pure ?_
      refine ⟨by simp, fun t ht => ?_⟩
      rcases List.mem_cons.1 ht with rfl | ht
      · exact hfirst.1
      · exact hrest.2 t ht

/-- A tree that is read can be written. -/
theorem ensures_declaration (base : Position) :
    Ensures (declaration base) fun d => d.2.Grammatical := by
  have htree : Ensures (tree base false) UseTree.Grammatical := by
    have hdepth : Ensures depth fun _ => True := fun _ hts => ⟨hts, fun _ _ => trivial⟩
    refine hdepth.bind fun n _ => ?_
    intro ts hts
    obtain ⟨hrest, hans⟩ := (ensures_trees base n).1 false ts hts
    exact ⟨hrest, fun t ht => ⟨(hans t ht).2 rfl, (hans t ht).1⟩⟩
  refine ensures_visibility.bind fun v _ => (ensures_expect _).bind fun _ _ =>
    htree.bind fun t ht => (ensures_isNext _).bind fun _ _ => ?_
  refine Ensures.ite (fun _ => ensures_advance.bind fun _ _ => ?_) fun _ => ?_
  all_goals
    refine (ensures_peek 0).bind fun u _ => ?_
    cases u with
    | none => exact Ensures.pure ht
    | some u => exact Ensures.throw_bind _ _

end Parser

/-! ## Trees that can be read -/

namespace UseTree

/-- The tree of some declaration that can be read, but for the places of its names. -/
def Readable (t : UseTree) : Prop :=
  ∃ text attributes span block s,
    Statement.parse text attributes span block = .ok s ∧ s.tree.bare = t.bare

theorem Readable.grammatical {t : UseTree} (h : t.Readable) : t.Grammatical := by
  obtain ⟨text, attributes, span, block, s, hparse, hbare⟩ := h
  rw [Statement.parse] at hparse
  have hens := (Parser.ensures_declaration ((span.map Span.start).getD ⟨0, 0⟩)
    (Token.tokenize text) (Token.genuine_tokenize text)).2
  cases hrun : ((Parser.declaration ((span.map Span.start).getD ⟨0, 0⟩)).runOn
      (Token.tokenize text)).1 with
  | error e => rw [hrun] at hparse; cases hparse
  | ok d =>
    rw [hrun] at hparse
    cases hparse
    have hsame : d.2.bare = t.bare := hbare
    have hg : d.2.Grammatical := hens d hrun
    exact grammatical_bare.1 (hsame ▸ grammatical_bare.2 hg)

end UseTree

end TidyUse
